import BitcoinKernel.Lib.Outcome
import BitcoinKernel.Validation.ActiveChain

/-!
# When the active chain has a genesis block

`build` connects the genesis block only if it is there.  It is loaded from the block
tree, or added to an empty one, but a manager that is about to reindex does not add
it.  This module says for which options and directories the active chain of a built
manager is not empty, after `build` and after every later call.

There are three groups.

* Answers.  `hasGenesis_iff` reduces the answers of `height`, `at_height(0)` and `tip`
  to the chain being not empty.
* `ActivateBestChain` on an empty chain.  If the genesis block is a candidate that can
  be connected, no turn of `FindMostWorkChain` removes it, and the first step connects
  it (`vChain_activateBestChain_ne_nil`).  If the root of the tree cannot be connected,
  every candidate is removed and the chain stays empty
  (`chain_activateBestChain_eq_empty`).
* `build`.  `InitTree` describes the block tree before the tip is loaded, `build_spec`
  says when the chain is empty after the activation, and `active_chain_has_genesis_iff`
  is the result.
-/

namespace BitcoinKernel.Validation.Chainman

open Serialize Consensus State State.BlockTree CChain List Option Outcome

variable {hash256 : List UInt8 → Uint256} {params : ChainParams hash256}

namespace Chainstate

/-! ## Answers -/

/-- What `height`, `at_height(0)` and `tip` answer for a chain with a genesis
block. -/
structure HasGenesis (cs : Chainstate) : Prop where
  height : 0 ≤ cs.chain.height
  atHeight : (CChain.atHeight cs.chain cs.chain 0).isSome
  tip : ∃ e index, tipCall cs.tree cs.chain [] [] = some e ∧ cs.tree.index? e = some index ∧
    (index.nHeight : Int) = cs.chain.height

variable {cs cs' : Chainstate} {fuel turns : Nat} {less tie : EntryPtr → EntryPtr → Bool}
  {l : List EntryPtr} {e pindexTest root most : EntryPtr} {unlink : Bool} {index : BlockIndex}
  {t : BlockTree} {env : ActivateEnv} {stepEnd : StepEnd} {r : Section}
  {envs : List (Nat × ActivateEnv)}

theorem hasGenesis_iff (h : cs.Valid params) : cs.HasGenesis ↔ cs.chain.vChain ≠ [] := by
  obtain ⟨l, hl⟩ := h.chain
  constructor
  · intro hgenesis hnil
    have hheight := hgenesis.height
    rw [CChain.height, hnil, length_nil] at hheight
    omega
  · intro hne
    have hpos : 0 < l.length := by
      rw [← hl.length_eq]
      exact length_pos_iff.mpr hne
    have hheight : cs.chain.height = ((l.length - 1 : Nat) : Int) := by
      rw [hl.height_eq]
      omega
    refine ⟨by omega, ?_, ?_⟩
    · show (if 0 > asUsize cs.chain.height then none else cs.chain.get ((0 : Nat) : Int)).isSome
      rw [if_neg (Nat.not_lt_zero _), hl.get_natCast, getElem?_eq_getElem hpos]
      rfl
    · obtain ⟨e, he⟩ : ∃ e, l[l.length - 1]? = some e := ⟨_, getElem?_eq_getElem (by omega)⟩
      have hindex := h.rooted.linked.height_of_path hl.path hl.mem he
      obtain ⟨index, hindex, hnHeight⟩ := map_eq_some_iff.mp hindex
      refine ⟨e, index, ?_, hindex, ?_⟩
      · show cs.chain.get cs.chain.height = some e
        rw [hheight, hl.get_natCast, he]
      · rw [hheight, hnHeight]

/-! ## Candidates -/

/-- A node that `FindMostWorkChain` does not reject. -/
def Usable (index : BlockIndex) : Prop := index.failedValid = false ∧ index.haveData = true

theorem contains_empty (t : BlockTree) (e : EntryPtr) : ({} : CChain).contains t e = false := by
  unfold CChain.contains
  cases t.index? e with
  | none => rfl
  | some index =>
    show (CChain.get {} _ == some e) = false
    have hget : CChain.get {} index.nHeight = none := by
      unfold CChain.get
      split_ifs <;> rfl
    rw [hget]
    rfl

/-- A path without an unusable node ends in a usable root. -/
theorem exists_usable_root (hchain : cs.chain = {})
    (h : cs.firstUnusable fuel (some e) = some none) :
    ∃ root index, cs.tree.index? root = some index ∧ index.pprev = none ∧ Usable index := by
  induction fuel generalizing e with
  | zero => cases h
  | succ fuel ih =>
    unfold firstUnusable at h
    rw [hchain, contains_empty, if_neg Bool.false_ne_true] at h
    obtain ⟨index, hindex, h⟩ := bind_eq_some_iff.mp h
    split_ifs at h with hassert hbad
    · cases h
    · cases hprev : index.pprev with
      | none =>
        refine ⟨e, index, hindex, hprev, ?_⟩
        simpa [Usable] using hbad
      | some prev =>
        rw [hprev] at h
        exact ih h

/-- The node that is found is not usable. -/
theorem not_usable_of_firstUnusable {p : Option EntryPtr}
    (h : cs.firstUnusable fuel p = some (some e)) :
    ∃ index, cs.tree.index? e = some index ∧ ¬Usable index := by
  induction fuel generalizing p e with
  | zero => cases p <;> cases h
  | succ fuel ih =>
    cases p with
    | none => cases h
    | some pindexTest =>
      unfold firstUnusable at h
      by_cases hcontains : cs.chain.contains cs.tree pindexTest = true
      · rw [if_pos hcontains] at h
        cases h
      rw [if_neg hcontains] at h
      obtain ⟨index, hindex, h⟩ := bind_eq_some_iff.mp h
      split_ifs at h with hassert hbad
      · cases h
        refine ⟨index, hindex, ?_⟩
        intro husable
        rw [husable.1, husable.2] at hbad
        cases hbad
      · exact ih h

theorem lastOf_mem (h : lastOf less l = some e) : e ∈ l := by
  induction l generalizing e with
  | nil => cases h
  | cons x xs ih =>
    unfold lastOf at h
    cases hlast : lastOf less xs with
    | none =>
      simp only [hlast] at h
      cases h
      exact mem_cons_self
    | some best =>
      simp only [hlast] at h
      split_ifs at h
      · cases h
        exact mem_cons_self
      · cases h
        exact mem_cons_of_mem _ (ih hlast)

theorem lastOf_ne_none (h : e ∈ l) : lastOf less l ≠ none := by
  cases l with
  | nil => cases h
  | cons x xs =>
    unfold lastOf
    cases lastOf less xs with
    | none => exact nofun
    | some best =>
      show (if less best x then some x else some best) ≠ none
      split_ifs <;> exact nofun

/-- Without a usable root there is no chain to activate. -/
theorem findMostWorkChainLoop_eq_none {most : Option EntryPtr} (hchain : cs.chain = {})
    (hroot : ∀ e index, cs.tree.index? e = some index → index.pprev = none → ¬Usable index)
    (h : findMostWorkChainLoop tie fuel cs = some (most, cs')) : most = none := by
  induction fuel generalizing cs cs' most with
  | zero =>
    cases h
    rfl
  | succ fuel ih =>
    rcases findMostWorkChainLoop_cases h with
      ⟨-, hnone, -⟩ | ⟨_, _, _, -, hunusable, ⟨rfl, -, -⟩ | ⟨_, _, cs₁, -, hremove, h⟩⟩
    · exact hnone
    · obtain ⟨root, index, hindex, hprev, husable⟩ := exists_usable_root hchain hunusable
      exact absurd husable (hroot root index hindex hprev)
    · have hframe := frame_removeChain hremove
      refine ih (hframe.chain.trans hchain) ?_ h
      rw [hframe.tree]
      exact hroot

/-- A root stays in the set when the path to another node is removed. -/
theorem mem_removeChain (hroot : cs.tree.parent root = none) (hne : root ≠ pindexTest)
    (hmem : root ∈ cs.setBlockIndexCandidates)
    (h : removeChain pindexTest unlink fuel e cs = some cs') :
    root ∈ cs'.setBlockIndexCandidates := by
  induction fuel generalizing e cs cs' with
  | zero => cases h
  | succ fuel ih =>
    rcases removeChain_cases h with ⟨-, rfl⟩ | ⟨prev, cs₁, hprev, hframe, hset, h⟩
    · exact mem_filter.mpr ⟨hmem, decide_eq_true hne⟩
    · have hroote : root ≠ e := by
        intro hre
        rw [hre, hprev] at hroot
        cases hroot
      apply ih _ _ h
      · rw [hframe.tree]
        exact hroot
      · rw [hset]
        exact mem_filter.mpr ⟨hmem, decide_eq_true hroote⟩

/-- The set gets smaller. -/
theorem length_removeChain_lt :
    ∀ {e : EntryPtr} {cs cs' : Chainstate}, removeChain pindexTest unlink fuel e cs = some cs' →
      cs'.setBlockIndexCandidates.length ≤ cs.setBlockIndexCandidates.length ∧
        (e ∈ cs.setBlockIndexCandidates →
          cs'.setBlockIndexCandidates.length < cs.setBlockIndexCandidates.length) := by
  have herase : ∀ (l : List EntryPtr) (e : EntryPtr),
      (l.filter (· ≠ e)).length ≤ l.length ∧ (e ∈ l → (l.filter (· ≠ e)).length < l.length) := by
    intro l e
    refine ⟨length_filter_le _ _, fun hmem => ?_⟩
    exact length_filter_lt_length_iff_exists.mpr ⟨e, hmem, by simp⟩
  induction fuel with
  | zero =>
    intro e cs cs' h
    cases h
  | succ fuel ih =>
    intro e cs cs' h
    rcases removeChain_cases h with ⟨rfl, rfl⟩ | ⟨prev, cs₁, -, -, hset, h⟩
    · exact herase _ _
    · obtain ⟨hle, -⟩ := ih h
      obtain ⟨hle', hlt'⟩ := herase cs.setBlockIndexCandidates e
      rw [hset] at hle
      refine ⟨by omega, fun hmem => ?_⟩
      have hlt := hlt' hmem
      omega

/-- With a usable root among the candidates there is a chain to activate. -/
theorem findMostWorkChainLoop_ne_none (hprev : index.pprev = none) (husable : Usable index)
    {most : Option EntryPtr} (hindex : cs.tree.index? root = some index)
    (hmem : root ∈ cs.setBlockIndexCandidates) (hlength : cs.setBlockIndexCandidates.length ≤ fuel)
    (h : findMostWorkChainLoop tie fuel cs = some (most, cs')) : most ≠ none := by
  induction fuel generalizing cs cs' most with
  | zero =>
    have hpos := length_pos_of_mem hmem
    omega
  | succ fuel ih =>
    rcases findMostWorkChainLoop_cases h with
      ⟨hlast, -, -⟩ | ⟨_, _, _, hlast, hunusable,
        ⟨-, rfl, -⟩ | ⟨pindexTest, _, cs₁, rfl, hremove, h⟩⟩
    · exact absurd hlast (lastOf_ne_none hmem)
    · exact nofun
    · obtain ⟨tested, htested, hbad⟩ := not_usable_of_firstUnusable hunusable
      have hne : root ≠ pindexTest := by
        intro heq
        rw [← heq, hindex, Option.some.injEq] at htested
        exact hbad (htested ▸ husable)
      have hparent : cs.tree.parent root = none := by
        rw [parent, hindex, bind_some, hprev]
      have hshorter := (length_removeChain_lt hremove).2 (lastOf_mem hlast)
      refine ih ?_ (mem_removeChain hparent hne hmem hremove) (by omega) h
      rw [(frame_removeChain hremove).tree]
      exact hindex

/-! ## The first step on an empty chain -/

/-- Above height `-1` the path goes down to a root. -/
theorem pathAbove_of_rooted (h : Rooted params t) (he : t.index? e = some index)
    (hlt : index.nHeight < fuel) :
    ∃ l root rindex, pathAbove t (-1) fuel (some e) = l ++ [root] ∧
      t.index? root = some rindex ∧ rindex.pprev = none := by
  induction fuel generalizing e index with
  | zero => omega
  | succ fuel ih =>
    have hturn : pathAbove t (-1) (fuel + 1) (some e) = e :: pathAbove t (-1) fuel index.pprev := by
      conv_lhs => unfold pathAbove
      simp only [he]
      apply if_neg
      omega
    rw [hturn]
    cases hprev : index.pprev with
    | none =>
      have hnil : pathAbove t (-1) fuel none = [] := by
        cases fuel <;> rfl
      rw [hnil]
      exact ⟨[], e, index, rfl, he, hprev⟩
    | some prev =>
      obtain ⟨pindex, hpindex, hheight⟩ := h.index?_pprev he hprev
      obtain ⟨l, root, rindex, hpath, hroot, hrprev⟩ := ih hpindex (by omega)
      exact ⟨e :: l, root, rindex, by rw [hpath, cons_append], hroot, hrprev⟩

theorem findFork_empty {fork : Option EntryPtr} (h : ({} : CChain).findFork t e = some fork) :
    fork = none := by
  unfold CChain.findFork at h
  obtain ⟨index, hindex, h⟩ := bind_eq_some_iff.mp h
  have habove : (index.nHeight : Int) > CChain.height {} := by
    show (index.nHeight : Int) > -1
    omega
  rw [if_pos habove] at h
  obtain ⟨pindex, hancestor, h⟩ := bind_eq_some_iff.mp h
  have hnone : pindex = none := by
    unfold getAncestor at hancestor
    rw [hindex, bind_eq_bind, bind_some] at hancestor
    rw [if_pos (Or.inr (by decide))] at hancestor
    exact (Option.some.inj hancestor).symm
  rw [hnone] at h
  exact (Option.some.inj h).symm

/-- The first block that is connected to an empty chain is the genesis block, which
is connected unless there is a system error. -/
theorem connectBlocks_of_root {front : EntryPtr} {rest : List EntryPtr} (hvalid : cs.Valid params)
    (hindex : cs.tree.index? root = some index) (hprev : index.pprev = none)
    (h : connectBlocks params.toParams env none front (root :: rest) cs = some (stepEnd, cs')) :
    stepEnd = .error ∨ (stepEnd = .better ∧ cs'.chain.vChain ≠ []) := by
  unfold connectBlocks at h
  obtain ⟨⟨verdict, cs₁⟩, hconnect, h⟩ := bind_eq_some_iff.mp h
  obtain ⟨index', hindex', hcases⟩ := connectTip_cases hconnect
  cases hindex.symm.trans hindex'
  rcases hcases with ⟨rfl, -⟩ | ⟨result, -, hgenesis, -⟩ | ⟨rfl, hcs₁⟩
  · cases h
    exact Or.inl rfl
  · exact absurd (hvalid.rooted.hash_of_root hindex hprev) hgenesis
  · obtain ⟨cs₂, hprune, h⟩ := bind_eq_some_iff.mp h
    dsimp only at h
    cases h
    refine Or.inr ⟨rfl, ?_⟩
    rw [(frame_pruneBlockIndexCandidates hprune).chain, hcs₁]
    exact (setTip_spec hvalid hindex).2

/-- The blocks to connect end in the root that is connected first. -/
theorem connectVector_of_root (hvalid : cs.Valid params) (hindex : cs.tree.index? root = some index)
    (hprev : index.pprev = none)
    (h : connectVector params.toParams env none (l ++ [root]) cs = some (stepEnd, cs')) :
    stepEnd = .error ∨ (stepEnd = .better ∧ cs'.chain.vChain ≠ []) := by
  unfold connectVector at h
  split at h
  · rename_i hnil
    simp at hnil
  · rw [reverse_append, reverse_singleton] at h
    exact connectBlocks_of_root hvalid hindex hprev h

/-- The node that the search for an ancestor finds has the height. -/
theorem exists_index?_of_atHeight (h : Rooted params t) {height : Nat} (hat : t.AtHeight e height) :
    ∃ index, t.index? e = some index ∧ index.nHeight = height := by
  obtain ⟨index, hindex, hheight | ⟨-, hself⟩⟩ := hat
  · exact ⟨index, hindex, hheight⟩
  · -- no node is its own parent
    obtain ⟨pindex, hpindex, hone⟩ := h.index?_pprev hindex hself
    cases hindex.symm.trans hpindex
    omega

/-- The first 32 blocks that are connected to an empty chain. -/
theorem connectUpTo_of_empty (hvalid : cs.Valid params) (hindex : cs.tree.index? most = some index)
    (h : connectUpTo params.toParams env none most index.nHeight (fuel + 1) (-1) cs =
      some (stepEnd, cs')) : stepEnd = .error ∨ (stepEnd = .better ∧ cs'.chain.vChain ≠ []) := by
  unfold connectUpTo at h
  rw [if_neg (by omega)] at h
  obtain ⟨iter, hiter, h⟩ := bind_eq_some_iff.mp h
  -- the node at the first target height, and the path down from it
  have htarget : min ((-1 : Int) + 32) index.nHeight = (min 31 index.nHeight : Nat) := by omega
  rw [htarget] at hiter
  obtain ⟨a, ha, hat⟩ :=
    getAncestor_spec hvalid.rooted.sound.skipLinked hindex (Nat.min_le_right 31 index.nHeight)
  cases ha.symm.trans hiter
  obtain ⟨aindex, haindex, haheight⟩ := exists_index?_of_atHeight hvalid.rooted hat
  have hlow : aindex.nHeight < index.nHeight + 1 := by omega
  obtain ⟨l, root, rindex, hpath, hroot, hrprev⟩ :=
    pathAbove_of_rooted hvalid.rooted haindex hlow
  obtain ⟨⟨stepEnd₁, cs₁⟩, hvector, h⟩ := bind_eq_some_iff.mp h
  rw [hpath] at hvector
  rcases connectVector_of_root hvalid hroot hrprev hvector with rfl | ⟨rfl, hne⟩
  · cases h
    exact Or.inl rfl
  · cases h
    exact Or.inr ⟨rfl, hne⟩

/-- A step on an empty chain connects the genesis block. -/
theorem activateBestChainStep_of_empty (hvalid : cs.Valid params) (hchain : cs.chain = {})
    (h : cs.activateBestChainStep params.toParams env most = some (stepEnd, cs')) :
    stepEnd = .error ∨ (stepEnd = .better ∧ cs'.chain.vChain ≠ []) := by
  have htip : cs.chain.tip = none := by
    rw [hchain]
    rfl
  unfold activateBestChainStep at h
  obtain ⟨fork, hfork, h⟩ := bind_eq_some_iff.mp h
  rw [hchain] at hfork
  have hnone := findFork_empty hfork
  subst hnone
  -- there is nothing to disconnect
  obtain ⟨⟨ok, cs₁⟩, hdisconnect, h⟩ := bind_eq_some_iff.mp h
  have hsame : (ok, cs₁) = (true, cs) := by
    unfold disconnectTo at hdisconnect
    simp only [htip] at hdisconnect
    exact (Option.some.inj hdisconnect).symm
  cases hsame
  simp only [Bool.not_true, Bool.false_eq_true, if_false, bind_none, htip] at h
  obtain ⟨height, hheight, h⟩ := bind_eq_some_iff.mp h
  obtain ⟨index, hindex, rfl⟩ := map_eq_some_iff.mp hheight
  exact connectUpTo_of_empty hvalid hindex h

/-! ## `ActivateBestChain` on an empty chain -/

/-- If the root cannot be connected, nothing is connected. -/
theorem activateSection_of_unusable (hchain : cs.chain = {})
    (hroot : ∀ e index, cs.tree.index? e = some index → index.pprev = none → ¬Usable index)
    (h : activateSection params.toParams env cs.chain.tip turns false none cs = some r) :
    r.ok = true ∧ r.blocksConnected = false ∧ r.chainstate.chain = {} := by
  cases turns with
  | zero => cases h
  | succ fuel =>
    unfold activateSection at h
    obtain ⟨⟨most, cs₁⟩, hmost, h⟩ := bind_eq_some_iff.mp h
    have hnone : most = none := findMostWorkChainLoop_eq_none hchain hroot hmost
    subst hnone
    cases h
    exact ⟨rfl, rfl, (frame_chooseMostWork hmost).chain.trans hchain⟩

/-- If the root cannot be connected, the chain stays empty. -/
theorem chain_activateBestChain_eq_empty {ok : Bool} (hchain : cs.chain = {})
    (hroot : ∀ e index, cs.tree.index? e = some index → index.pprev = none → ¬Usable index)
    (h : activateBestChain params.toParams envs none cs = some (ok, cs')) : cs'.chain = {} := by
  cases envs with
  | nil => cases h
  | cons turn envs =>
    obtain ⟨turns, env⟩ := turn
    unfold activateBestChain at h
    obtain ⟨r, hsection, h⟩ := bind_eq_some_iff.mp h
    obtain ⟨hok, hconnected, hempty⟩ := activateSection_of_unusable hchain hroot hsection
    simp only [hok, hconnected, Bool.not_true, Bool.false_eq_true, if_false, Bool.not_false,
      Bool.true_or, if_true] at h
    cases h
    exact hempty

section

variable (hvalid : cs.Valid params) (hchain : cs.chain = {})
  (hindex : cs.tree.index? root = some index) (hprev : index.pprev = none)
  (husable : Usable index) (hmem : root ∈ cs.setBlockIndexCandidates)

include hvalid hchain hindex hprev husable hmem

/-- If the root is a candidate that can be connected, the first step connects it. -/
theorem activateSection_of_usable
    (h : activateSection params.toParams env cs.chain.tip turns false none cs = some r) :
    r.ok = false ∨ (r.chainstate.Valid params ∧ r.chainstate.chain.vChain ≠ []) := by
  cases turns with
  | zero => cases h
  | succ fuel =>
    unfold activateSection at h
    obtain ⟨⟨most, cs₁⟩, hmost, h⟩ := bind_eq_some_iff.mp h
    have hframe := frame_chooseMostWork hmost
    have hvalid₁ := (Keeps.of_frame hframe hvalid).1
    have hchain₁ := hframe.chain.trans hchain
    cases most with
    | none =>
      exact absurd rfl
        (findMostWorkChainLoop_ne_none hprev husable hindex hmem (Nat.le_refl _) hmost)
    | some most =>
      have htip : ¬cs₁.chain.tip = some most := by
        rw [hchain₁]
        intro htip
        cases htip
      simp only [if_neg htip] at h
      obtain ⟨⟨stepEnd, cs₂⟩, hstep, h⟩ := bind_eq_some_iff.mp h
      obtain ⟨hvalid₂, -⟩ := keeps_activateBestChainStep hstep hvalid₁
      rcases activateBestChainStep_of_empty hvalid₁ hchain₁ hstep with rfl | ⟨rfl, hne⟩
      · cases h
        exact Or.inl rfl
      · refine Or.inr ?_
        simp only [reduceCtorEq, if_false] at h
        split_ifs at h
        · obtain ⟨hvalid', hne'⟩ := keeps_activateSection h hvalid₂
          exact ⟨hvalid', hne' hne⟩
        · cases h
          exact ⟨hvalid₂, hne⟩

/-- If the root is a candidate that can be connected, it is connected. -/
theorem vChain_activateBestChain_ne_nil
    (h : activateBestChain params.toParams envs none cs = some (true, cs')) :
    cs'.chain.vChain ≠ [] := by
  cases envs with
  | nil => cases h
  | cons turn envs =>
    obtain ⟨turns, env⟩ := turn
    unfold activateBestChain at h
    obtain ⟨r, hsection, h⟩ := bind_eq_some_iff.mp h
    rcases activateSection_of_usable hvalid hchain hindex hprev husable hmem hsection with
      hr | ⟨hvalid', hne⟩
    · rw [hr] at h
      cases h
    · dsimp only at h
      split_ifs at h
      · cases h
      · cases h
        exact hne
      · cases h
      · cases h
        exact hne
      · exact (keeps_activateBestChain h hvalid').2 hne

end

/-! ## Loading -/

theorem frame_foldl {f : Chainstate → EntryPtr → Chainstate} (hf : ∀ cs e, Frame cs (f cs e))
    (l : List EntryPtr) (cs : Chainstate) : Frame cs (l.foldl f cs) := by
  induction l generalizing cs with
  | nil => exact Frame.refl cs
  | cons e l ih => exact (hf cs e).trans (ih (f cs e))

theorem frame_loadNode (received : List EntryPtr) (cs : Chainstate) (e : EntryPtr) :
    Frame cs (loadNode received cs e) := by
  unfold loadNode
  cases cs.tree.index? e with
  | none => exact Frame.refl cs
  | some index =>
    by_cases hmem : e ∈ received
    · simp only [if_pos hmem]
      cases index.pprev with
      | none => exact ⟨rfl, rfl⟩
      | some prev =>
        show Frame cs (if _ then _ else _)
        split_ifs
        · exact ⟨rfl, rfl⟩
        · exact frame_addUnlinkedBlock _ _ _
        · exact Frame.refl cs
    · simp only [if_neg hmem]
      exact Frame.refl cs

variable (tie)

theorem frame_loadBestHeader (cs : Chainstate) (e : EntryPtr) :
    Frame cs (loadBestHeader tie cs e) := by
  unfold loadBestHeader
  split
  · exact Frame.refl cs
  · split_ifs <;> exact ⟨rfl, rfl⟩

theorem frame_populateNode (cs : Chainstate) (e : EntryPtr) :
    Frame cs (populateNode tie cs e) := by
  unfold populateNode
  split
  · exact Frame.refl cs
  · split_ifs
    · exact frame_tryAddBlockIndexCandidate tie cs e
    · exact Frame.refl cs

theorem frame_populate (cs : Chainstate) :
    Frame cs (cs.populateBlockIndexCandidates tie) := frame_foldl (frame_populateNode tie) _ cs

/-- The block index is that of the database that was opened, and it counts as
complete unless the database is marked. -/
theorem loadBlockIndex_spec (opts : Options) (dir : DataDir) :
    ((initial !opts.wipeBlockTree).loadBlockIndex tie (opts.openBlockTree dir)).tree =
        (opts.openBlockTree dir).tree ∧
      ((initial !opts.wipeBlockTree).loadBlockIndex tie (opts.openBlockTree dir)).chain = {} ∧
      ((initial !opts.wipeBlockTree).loadBlockIndex tie
        (opts.openBlockTree dir)).blockfilesIndexed = !(opts.openBlockTree dir).reindexing := by
  cases hwipe : opts.wipeBlockTree with
  | true =>
    unfold Options.openBlockTree
    rw [hwipe, Bool.or_true]
    exact ⟨rfl, rfl, rfl⟩
  | false =>
    generalize opts.openBlockTree dir = db
    have hindexed : (initial !false).blockfilesIndexed = true := rfl
    unfold loadBlockIndex
    rw [if_pos hindexed]
    have hnodes := frame_foldl (frame_loadNode db.received)
    have hbest := frame_foldl (frame_loadBestHeader tie)
    exact ⟨(hbest _ _).tree.trans (hnodes _ _).tree, (hbest _ _).chain.trans (hnodes _ _).chain,
      rfl⟩

variable {tie}

/-- Without a tip every root that is checked becomes a candidate. -/
theorem mem_populate (htip : cs.chain.tip = none) (hindex : cs.tree.index? root = some index)
    (hprev : index.pprev = none) (hchecked : index.isValid blockValidTransactions = true) :
    root ∈ (cs.populateBlockIndexCandidates tie).setBlockIndexCandidates := by
  have hadd : ∀ (cs : Chainstate) (e : EntryPtr), cs.chain.tip = none →
      (∀ x ∈ cs.setBlockIndexCandidates,
        x ∈ (cs.tryAddBlockIndexCandidate tie e).setBlockIndexCandidates) ∧
      e ∈ (cs.tryAddBlockIndexCandidate tie e).setBlockIndexCandidates := by
    intro cs e htip
    unfold tryAddBlockIndexCandidate
    simp only [htip]
    unfold insertCandidate
    split_ifs with hmem
    · exact ⟨fun _ hx => hx, hmem⟩
    · exact ⟨fun x hx => mem_cons_of_mem _ hx, mem_cons_self⟩
  have hfold : ∀ (l : List EntryPtr) (cs : Chainstate), cs.chain.tip = none →
      cs.tree.index? root = some index → root ∈ cs.setBlockIndexCandidates ∨ root ∈ l →
      root ∈ (l.foldl (populateNode tie) cs).setBlockIndexCandidates := by
    intro l
    induction l with
    | nil =>
      intro cs _ _ hmem
      rcases hmem with hmem | hmem
      · exact hmem
      · cases hmem
    | cons e l ih =>
      intro cs htip hindex hmem
      have hframe := frame_populateNode tie cs e
      apply ih
      · rw [hframe.chain]
        exact htip
      · rw [hframe.tree]
        exact hindex
      · rcases hmem with hmem | hmem
        · refine Or.inl ?_
          unfold populateNode
          split
          · exact hmem
          · split_ifs
            · exact (hadd cs e htip).1 root hmem
            · exact hmem
        · rcases mem_cons.mp hmem with rfl | hmem
          · refine Or.inl ?_
            unfold populateNode
            simp only [hindex, hchecked, hprev, isNone_none, Bool.or_true, Bool.and_self, if_true]
            exact (hadd cs root htip).2
          · exact Or.inr hmem
  refine hfold _ cs htip hindex (Or.inr (mem_range.mpr ?_))
  exact (List.getElem?_eq_some_iff.mp hindex).1

end Chainstate

/-- The best block of the coins after `ReplayBlocks`. -/
def CoinsDb.tip (coins : CoinsDb) : Uint256 :=
  match coins.headBlocks with
  | [] => coins.bestBlock
  | new :: _ => new

/-- A data directory that the kernel has written.  Its block tree is rooted, and a
block whose data is stored was checked. -/
structure DataDir.Consistent (params : ChainParams hash256) (dir : DataDir) : Prop where
  rooted : Rooted params dir.blockTree.tree
  checked : ∀ e index, dir.blockTree.tree.index? e = some index → index.haveData = true →
    index.nStatus &&& blockValidMask ≥ blockValidTransactions

/-- The databases that are opened have a genesis block for the active chain.  The
chainstate has a best block; or the block tree is empty and not marked for a
reindex; or it has the data of the genesis block. -/
def Options.GenesisAvailable (params : Params) (opts : Options) (dir : DataDir) : Prop :=
  (opts.openCoins dir).tip ≠ Uint256.null ∨
    ((opts.openBlockTree dir).tree.entries = [] ∧ (opts.openBlockTree dir).reindexing = false) ∨
    ∃ e index, (opts.openBlockTree dir).tree.index? e = some index ∧
      index.hash = params.hashGenesisBlock ∧ Chainstate.Usable index

/-- The databases that are opened are consistent too. -/
theorem DataDir.Consistent.openBlockTree {dir : DataDir} (h : dir.Consistent params)
    (opts : Options) :
    Rooted params (opts.openBlockTree dir).tree ∧
      ∀ e index, (opts.openBlockTree dir).tree.index? e = some index → index.haveData = true →
        index.nStatus &&& blockValidMask ≥ blockValidTransactions := by
  have hcases : (opts.openBlockTree dir).tree = BlockTree.empty ∨
      (opts.openBlockTree dir).tree = dir.blockTree.tree := by
    unfold Options.openBlockTree
    cases opts.wipeBlockTree with
    | true => exact Or.inl (by rw [Bool.or_true]; rfl)
    | false =>
      cases opts.blockTreeDbInMemory with
      | true => exact Or.inl rfl
      | false => exact Or.inr rfl
  rcases hcases with htree | htree
  · rw [htree]
    exact ⟨rooted_empty, fun _ _ he => by cases he⟩
  · rw [htree]
    exact ⟨h.rooted, h.checked⟩

namespace Chainstate

theorem eq_false_of_failIf {failure : Bool} {u : Unit} (h : failIf failure = .ok u) :
    failure = false := by
  cases failure with
  | false => rfl
  | true => cases h

/-- The block tree before the tip is loaded: the genesis block was added to an empty
one, or it is that of the database. -/
inductive InitTree (params : Params) (db : BlockTreeDb) (t : BlockTree) : Prop
  | added (hempty : db.tree.entries = []) (hindexed : db.reindexing = false) (root : EntryPtr)
      (index : BlockIndex) (hroot : t.index? root = some index) (hprev : index.pprev = none)
      (husable : Usable index) (hchecked : index.isValid blockValidTransactions = true)
  | stored (htree : t = db.tree) (hmarked : db.tree.entries = [] → db.reindexing = true)

/-- The node of the genesis block after `ReceivedBlockTransactions`. -/
theorem exists_index?_received (params : Params) {t : BlockTree} {e : EntryPtr} {index : BlockIndex}
    (he : t.index? e = some index) (hstatus : index.nStatus = blockValidTree) :
    ∃ index', (receivedBlockTransactions params t e).index? e = some index' ∧
      index'.pprev = index.pprev ∧ Usable index' ∧
      index'.isValid blockValidTransactions = true := by
  obtain ⟨index', hindex', heq⟩ : ∃ index',
      (receivedBlockTransactions params t e).index? e = some index' ∧
      index' = BlockIndex.raiseValidity
        { index with
          nStatus :=
            if (index.nHeight : Int) ≥ params.deploymentHeight .segwit then
              blockValidTree ||| blockHaveData ||| blockOptWitness
            else blockValidTree ||| blockHaveData } blockValidTransactions := by
    refine ⟨_, ?_, rfl⟩
    show (t.entries.modify e _)[e]? = some _
    rw [getElem?_modify_eq, show t.entries[e]? = some index from he, ← hstatus]
    rfl
  rw [heq] at hindex'
  refine ⟨_, hindex', (raiseValidity_pprev _ _).1, ?_⟩
  unfold BlockIndex.raiseValidity Usable BlockIndex.isValid BlockIndex.failedValid
    BlockIndex.haveData
  by_cases hsegwit : (index.nHeight : Int) ≥ params.deploymentHeight .segwit
  · simp +decide only [if_pos hsegwit, if_true, if_false]
  · simp +decide only [if_neg hsegwit, if_true, if_false]

theorem eq_some_of_assertSome {α : Type} {o : Option α} {a : α} (h : assertSome o = .ok a) :
    o = some a := by
  cases o with
  | none => cases h
  | some b =>
    cases h
    rfl

variable {tie : EntryPtr → EntryPtr → Bool} {writeBlock : Bool} {cs cs' : Chainstate}
  {opts : Options} {dir : DataDir} {env : LoadEnv}

theorem loadGenesisBlock_of_init (h : initGenesisBlock hash256 params tie writeBlock cs = .ok cs') :
    loadGenesisBlock hash256 params tie writeBlock cs = some (true, cs') := by
  unfold initGenesisBlock at h
  obtain ⟨⟨loaded, cs₁⟩, hload, h⟩ := bind_eq_ok_iff.mp h
  obtain ⟨_, hloaded, h⟩ := bind_eq_ok_iff.mp h
  have hloaded := eq_false_of_failIf hloaded
  rw [Bool.not_eq_false'] at hloaded
  subst hloaded
  cases h
  exact eq_some_of_assertSome hload

/-- `LoadGenesisBlock` adds the genesis block to an empty tree only. -/
theorem initTree_of_loadGenesisBlock {db : BlockTreeDb} (hvalid : cs.Valid params)
    (htree : cs.tree = db.tree) (hindexed : db.reindexing = false)
    (h : loadGenesisBlock hash256 params tie writeBlock cs = some (true, cs')) :
    cs'.chain = cs.chain ∧ InitTree params.toParams db cs'.tree := by
  rcases loadGenesisBlock_cases hvalid.rooted.sound.skipLinked h with
    ⟨rfl, hmem⟩ | ⟨m₁, e, hadded, hnot, htree', hchain'⟩
  · refine ⟨rfl, .stored htree fun hempty => ?_⟩
    have hmem := hmem rfl
    rw [htree, hashes, hempty] at hmem
    cases hmem
  · refine ⟨hchain', ?_⟩
    have hempty : cs.tree.entries = [] := by
      by_contra hne
      obtain ⟨index, hindex⟩ := exists_mem_of_ne_nil _ hne
      obtain ⟨i, hi⟩ := mem_iff_getElem?.mp hindex
      exact hnot (hvalid.rooted.mem_hashes_genesis hi)
    cases hadded with
    | known _ he =>
      rw [HasHash, hashes, hempty] at he
      cases he
    | inserted t' index hnew happend hnode =>
      obtain ⟨index', hindex', hprev', husable, hchecked⟩ :=
        exists_index?_received params.toParams happend.index?_length hnode.nStatus
      refine .added (htree ▸ hempty) hindexed _ index' (htree' ▸ hindex') ?_ husable hchecked
      rw [hprev']
      have hrooted : Rooted params t' := hvalid.rooted.added
        (.inserted t' index hnew happend hnode fun hne =>
          absurd params.hashGenesisBlock_eq.symm hne)
      have hhash : index.hash = params.hashGenesisBlock :=
        hnode.hash_eq.trans params.hashGenesisBlock_eq.symm
      exact (hrooted.genesis _ index happend.index?_length hhash).1

/-- The chainstate before the tip is loaded. -/
theorem initBlockTree_spec (hdir : dir.Consistent params)
    (h : initBlockTree hash256 params opts dir env = .ok cs) :
    cs.Valid params ∧ cs.chain = {} ∧
      InitTree params.toParams (opts.openBlockTree dir) cs.tree := by
  obtain ⟨hrooted, -⟩ := hdir.openBlockTree opts
  obtain ⟨htree, hchain, hindexed⟩ := loadBlockIndex_spec env.tie opts dir
  unfold initBlockTree at h
  obtain ⟨_, -, h₁⟩ := bind_eq_ok_iff.mp h
  obtain ⟨_, -, h₂⟩ := bind_eq_ok_iff.mp h₁
  obtain ⟨_, -, h₃⟩ := bind_eq_ok_iff.mp h₂
  obtain ⟨_, -, h⟩ := bind_eq_ok_iff.mp h₃
  clear h₁ h₂ h₃
  generalize (initial !opts.wipeBlockTree).loadBlockIndex env.tie (opts.openBlockTree dir) = cs₀
    at htree hchain hindexed h
  generalize opts.openBlockTree dir = db at htree hindexed hrooted ⊢
  have hvalid : cs₀.Valid params := by
    refine ⟨htree ▸ hrooted, [], ?_⟩
    rw [hchain]
    exact isChain_empty _
  cases hmarked : db.reindexing with
  | true =>
    rw [hmarked] at hindexed
    rw [if_neg (by rw [hindexed]; decide)] at h
    cases h
    exact ⟨hvalid, hchain, .stored htree fun _ => hmarked⟩
  | false =>
    rw [hmarked, Bool.not_false] at hindexed
    rw [if_pos hindexed] at h
    have hload := loadGenesisBlock_of_init h
    obtain ⟨hchain', hinit⟩ := initTree_of_loadGenesisBlock hvalid htree hmarked hload
    exact ⟨(keeps_loadGenesisBlock hload hvalid).1, hchain'.trans hchain, hinit⟩

/-- A tip is loaded if and only if the coins have a best block. -/
theorem initChainTip_spec (h : cs.initChainTip opts dir env = .ok cs') :
    ((opts.openCoins dir).tip = Uint256.null ∧ cs' = cs) ∨
      ((opts.openCoins dir).tip ≠ Uint256.null ∧
        ∃ e index, cs.tree.index? e = some index ∧ cs' = cs.setTip e) := by
  unfold initChainTip at h
  obtain ⟨_, -, h⟩ := bind_eq_ok_iff.mp h
  obtain ⟨bestBlock, hreplay, h⟩ := bind_eq_ok_iff.mp h
  have hbest : bestBlock = (opts.openCoins dir).tip := by
    unfold replayBlocks at hreplay
    unfold CoinsDb.tip
    split at hreplay
    · rename_i hheads
      rw [hheads]
      cases hreplay
      rfl
    · rename_i hheads
      rw [hheads]
      split_ifs at hreplay
      cases hreplay
      rfl
    · cases hreplay
  rw [← hbest]
  split_ifs at h with hskip
  · cases h
    refine Or.inl ⟨?_, rfl⟩
    rcases Bool.or_eq_true _ _ ▸ hskip with hwipe | hnull
    · rw [hbest, Options.openCoins, hwipe, Bool.or_true]
      rfl
    · exact of_decide_eq_true hnull
  · refine Or.inr ⟨fun hnull => hskip (by simp [hnull]), ?_⟩
    unfold loadChainTip at h
    cases hlookup : cs.tree.lookupBlockIndex bestBlock with
    | none =>
      rw [hlookup] at h
      cases h
    | some e =>
      simp only [hlookup] at h
      split_ifs at h
      cases h
      obtain ⟨index, hindex, -⟩ :=
        exists_index?_of_hasHash (hasHash_of_lookupBlockIndex hlookup)
      exact ⟨e, index, hindex, rfl⟩

/-- The stages of `build`. -/
theorem build_cases (h : build hash256 params opts dir env = .ok cs) :
    ∃ cs₀ cs₁, initBlockTree hash256 params opts dir env = .ok cs₀ ∧
      cs₀.initChainTip opts dir env = .ok cs₁ ∧
      activateBestChain params.toParams env.activation none
        (cs₁.populateBlockIndexCandidates env.tie) = some (true, cs) := by
  unfold build at h
  obtain ⟨cs₂, hcomplete, h⟩ := bind_eq_ok_iff.mp h
  obtain ⟨_, -, h⟩ := bind_eq_ok_iff.mp h
  obtain ⟨⟨activated, cs₃⟩, hactivate, h⟩ := bind_eq_ok_iff.mp h
  obtain ⟨_, hactivated, h⟩ := bind_eq_ok_iff.mp h
  have hactivated := eq_false_of_failIf hactivated
  rw [Bool.not_eq_false'] at hactivated
  subst hactivated
  cases h
  unfold completeChainstateInitialization at hcomplete
  obtain ⟨cs₀, htree, hcomplete⟩ := bind_eq_ok_iff.mp hcomplete
  obtain ⟨cs₁, htip, hcomplete⟩ := bind_eq_ok_iff.mp hcomplete
  obtain ⟨_, -, hcomplete⟩ := bind_eq_ok_iff.mp hcomplete
  cases hcomplete
  exact ⟨cs₀, cs₁, htree, htip, eq_some_of_assertSome hactivate⟩

/-- The chain of a manager that `build` returns is empty unless the databases have a
genesis block for it. -/
theorem build_spec (hdir : dir.Consistent params) (h : build hash256 params opts dir env = .ok cs) :
    cs.Valid params ∧ (cs.chain.vChain ≠ [] ↔ opts.GenesisAvailable params.toParams dir) := by
  obtain ⟨cs₀, cs₁, htree, htip, hactivate⟩ := build_cases h
  obtain ⟨hvalid₀, hchain₀, hinit⟩ := initBlockTree_spec hdir htree
  have hframe := frame_populate env.tie cs₁
  rcases initChainTip_spec htip with ⟨hnull, rfl⟩ | ⟨hbest, e, index, hindex, rfl⟩
  · have hvalid₁ := (Keeps.of_frame hframe hvalid₀).1
    have hchain₁ := hframe.chain.trans hchain₀
    refine ⟨(keeps_activateBestChain hactivate hvalid₁).1, ?_⟩
    -- a root that is usable and checked is connected
    have hconnect : ∀ root index, cs₁.tree.index? root = some index → index.pprev = none →
        Usable index → index.isValid blockValidTransactions = true → cs.chain.vChain ≠ [] := by
      intro root index hindex hprev husable hchecked
      have hcandidate : root ∈ (cs₁.populateBlockIndexCandidates env.tie).setBlockIndexCandidates :=
        mem_populate (by rw [hchain₀]; rfl) hindex hprev hchecked
      exact vChain_activateBestChain_ne_nil hvalid₁ hchain₁ (hframe.tree ▸ hindex) hprev husable
        hcandidate hactivate
    cases hinit with
    | added hempty hindexed root index hroot hprev husable hchecked =>
      refine ⟨fun _ => Or.inr (Or.inl ⟨hempty, hindexed⟩), fun _ => ?_⟩
      exact hconnect root index hroot hprev husable hchecked
    | stored hstored hmarked =>
      obtain ⟨hrooted, hdata⟩ := hdir.openBlockTree opts
      constructor
      · intro hne
        by_contra hmissing
        apply hne
        have hroots : ∀ e index, (cs₁.populateBlockIndexCandidates env.tie).tree.index? e =
            some index → index.pprev = none → ¬Usable index := by
          rw [hframe.tree, hstored]
          intro e index hindex hprev husable
          have hhash := hrooted.hash_of_root hindex hprev
          exact hmissing (Or.inr (Or.inr ⟨e, index, hindex, hhash, husable⟩))
        rw [chain_activateBestChain_eq_empty hchain₁ hroots hactivate]
      · intro havailable
        rcases havailable with hbest | ⟨hempty, hindexed⟩ | ⟨e, index, hindex, hhash, husable⟩
        · exact absurd hnull hbest
        · rw [hmarked hempty] at hindexed
          cases hindexed
        · have hchecked : index.isValid blockValidTransactions = true := by
            unfold BlockIndex.isValid
            rw [husable.1]
            exact decide_eq_true (hdata e index hindex husable.2)
          exact hconnect e index (hstored ▸ hindex) (hrooted.genesis e index hindex hhash).1
            husable hchecked
  · obtain ⟨hvalid₁, hne⟩ := setTip_spec hvalid₀ hindex
    have hkeeps := (Keeps.of_frame hframe).trans (keeps_activateBestChain hactivate)
    exact ⟨(hkeeps hvalid₁).1, fun _ => Or.inl hbest, fun _ => (hkeeps hvalid₁).2 hne⟩

end Chainstate

/-- A manager that `build` returns for a consistent directory has a genesis block in
its active chain, after `build` and after every sequence of calls, if and only if the
databases that it opened have one: the chainstate has a best block, or the block tree
is empty and not marked for a reindex, or it has the data of the genesis block. -/
theorem active_chain_has_genesis_iff (opts : Options) {dir : DataDir} (hdir : dir.Consistent params)
    (env : LoadEnv) {cs : Chainstate}
    (hbuild : Chainstate.build hash256 params opts dir env = .ok cs) :
    (∀ calls cs', Runs.run (Chainstate.step hash256 params) cs calls = some cs' →
      cs'.HasGenesis) ↔ opts.GenesisAvailable params.toParams dir := by
  obtain ⟨hvalid, hiff⟩ := Chainstate.build_spec hdir hbuild
  constructor
  · intro hruns
    exact hiff.mp ((Chainstate.hasGenesis_iff hvalid).mp (hruns [] cs rfl))
  · intro havailable calls cs' hrun
    obtain ⟨hvalid', hne⟩ := Chainstate.keeps_run hrun hvalid
    exact (Chainstate.hasGenesis_iff hvalid').mpr (hne (hiff.mpr havailable))

namespace Sample

/-- A hash that counts the blocks of a chain.  Its second byte tells inner nodes of a
merkle tree apart. -/
def depthHash (bytes : List UInt8) : Uint256 :=
  ⟨(bytes[4]?.getD 0 + 1) :: bytes[32]?.getD 0 :: List.replicate 30 0, by
    rw [length_cons, length_cons, length_replicate]⟩

/-- No header follows itself: its hash counts one block more. -/
theorem depthHash_root (header : BlockHeader) (hash : Uint256)
    (h : header.getHash depthHash = hash) : header.hashPrevBlock ≠ hash := by
  intro hprev
  have hversion : (writeInt32 header.nVersion).length = 4 := rfl
  have hbyte : (writeBlockHeader header)[4]? = header.hashPrevBlock.bytes[0]? := by
    unfold writeBlockHeader
    simp only [append_assoc]
    rw [getElem?_append_right (by omega), hversion, getElem?_append_left]
    rw [header.hashPrevBlock.length_eq]
    omega
  have hfirst : hash.bytes[0]? = some (header.hashPrevBlock.bytes[0]?.getD 0 + 1) := by
    rw [← hbyte, ← h]
    rfl
  rw [hprev] at hfirst
  rw [hfirst, getD_some, Option.some.injEq] at hfirst
  simp at hfirst

def chainParams : ChainParams depthHash where
  toParams := { easyParams with hashGenesisBlock := genesis.getHash depthHash }
  genesisBlock := { genesis with vtx := [] }
  hashGenesisBlock_eq := rfl
  genesis_root header := depthHash_root header _

/-- A disk and a kernel without failures, and one turn of `ActivateBestChain` in each
section. -/
def activateEnv : ActivateEnv where
  tie _ _ := false
  order := []
  readBlock _ := true
  connectBlock _ := .connected
  disconnectBlock _ := true
  flushConnected _ := true
  flushPeriodic := true
  blockTipInterrupted := false
  interrupted := false

def loadEnv : LoadEnv where
  interrupted := false
  loadBlockIndexDb := true
  writeGenesis := true
  openCoinsDb := true
  needsUpgrade := false
  replayBlocks := true
  needsRedownload := false
  verifyLoadedChainstate := true
  tie _ _ := false
  activation := [(1, activateEnv), (1, activateEnv)]

/-- An empty directory is consistent. -/
theorem consistent_empty : ({} : DataDir).Consistent chainParams :=
  ⟨rooted_empty, fun _ _ he => by cases he⟩

/-- The slots of the chain that `build` makes of an empty directory. -/
def builtSlots (opts : Options) : Except LoadFailure (List (Option EntryPtr)) :=
  (Chainstate.build depthHash chainParams opts {} loadEnv).map (·.chain.vChain)

theorem exists_build (opts : Options) (slots : List (Option EntryPtr))
    (h : builtSlots opts = .ok slots) :
    ∃ cs, Chainstate.build depthHash chainParams opts {} loadEnv = .ok cs ∧ cs.chain = ⟨slots⟩ := by
  unfold builtSlots at h
  cases hbuild : Chainstate.build depthHash chainParams opts {} loadEnv with
  | error failure =>
    rw [hbuild] at h
    cases h
  | ok cs =>
    rw [hbuild] at h
    cases h
    exact ⟨cs, rfl, rfl⟩

end Sample

open Sample

/-- A new directory, opened with the default options: the chain has the genesis
block, and keeps it. -/
theorem active_chain_has_genesis_fresh :
    Options.GenesisAvailable chainParams.toParams {} {} ∧
    ∃ cs, Chainstate.build depthHash chainParams {} {} loadEnv = .ok cs ∧
      cs.chain.height = 0 ∧
      ∀ calls cs', Runs.run (Chainstate.step depthHash chainParams) cs calls = some cs' →
        cs'.HasGenesis := by
  have havailable : Options.GenesisAvailable chainParams.toParams {} {} :=
    Or.inr (Or.inl ⟨rfl, rfl⟩)
  obtain ⟨cs, hbuild, hchain⟩ := exists_build {} [some 0] (by decide +kernel)
  refine ⟨havailable, cs, hbuild, by rw [hchain]; rfl, ?_⟩
  exact (active_chain_has_genesis_iff {} consistent_empty loadEnv hbuild).mpr havailable

/-- A new directory, opened with `wipe_db(true, true)`: `build` returns a manager
whose chain is empty, and `tip` makes an entry of a null pointer. -/
theorem active_chain_empty_after_wipe : ∃ opts, Options.wipeDb {} true true = .ok opts ∧
      ∃ cs, Chainstate.build depthHash chainParams opts {} loadEnv = .ok cs ∧
        cs.chain.height = -1 ∧ CChain.atHeight cs.chain cs.chain 0 = none ∧
        CChain.tipCall cs.tree cs.chain [] [] = none ∧ ¬cs.HasGenesis := by
  obtain ⟨cs, hbuild, hchain⟩ :=
    exists_build { wipeBlockTree := true, wipeChainstate := true } [] (by decide +kernel)
  refine ⟨_, rfl, cs, hbuild, ?_⟩
  have hheight : cs.chain.height = -1 := by
    rw [hchain]
    rfl
  refine ⟨hheight, by rw [hchain]; decide, by rw [hchain]; rfl, ?_⟩
  intro hgenesis
  have hlow := hgenesis.height
  omega

end BitcoinKernel.Validation.Chainman
