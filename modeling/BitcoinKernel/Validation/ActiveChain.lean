import BitcoinKernel.Validation.LoadChainstate

/-!
# The active chain along calls

What every call on a manager keeps of the block tree and of the active chain.

There are three groups.

* The tree.  `Rooted` says that the tree is sound and that the genesis block is its
  only root.  New headers and new statuses keep it (`Rooted.added`,
  `Rooted.relabel`), and the heights are those of the paths (`Rooted.linked`).
* The chain.  `Chainstate.Valid` says that the active chain is a root path of a
  rooted tree.  `SetTip` is the only statement that writes the chain, and it never
  leaves it empty (`keeps_setTip`).
* The calls.  `Keeps cs cs'` says that `cs'` is valid if `cs` is, and that its chain
  is not empty if that of `cs` is not.  Each function has one lemma, from the loops
  of `ActivateBestChain` up to a call (`keeps_step`).
-/

namespace BitcoinKernel.Validation.Chainman

open Serialize Consensus State State.BlockTree CChain Option

variable {hash256 : List UInt8 → Uint256} {params : ChainParams hash256}

/-! ## The tree -/

/-- A sound tree in which the genesis block is a root. -/
structure Rooted (params : ChainParams hash256) (t : BlockTree) : Prop where
  sound : Sound hash256 params.toParams t
  genesis : ∀ e index, t.index? e = some index → index.hash = params.hashGenesisBlock →
    index.pprev = none ∧ index.nHeight = 0

namespace Rooted

variable {t t' : BlockTree}

section

variable (h : Rooted params t)

include h

/-- A root is the genesis block. -/
theorem hash_of_root {e : EntryPtr} {index : BlockIndex} (he : t.index? e = some index)
    (hroot : index.pprev = none) :
    index.hash = params.hashGenesisBlock := by
  by_contra hne
  obtain ⟨prev, _, hprev, -⟩ := h.sound.child e index he hne
  rw [hroot] at hprev
  cases hprev

/-- The previous node of a node is in the tree, one below it. -/
theorem index?_pprev {e prev : EntryPtr} {index : BlockIndex} (he : t.index? e = some index)
    (hprev : index.pprev = some prev) :
    ∃ pindex, t.index? prev = some pindex ∧ index.nHeight = pindex.nHeight + 1 := by
  by_cases hgenesis : index.hash = params.hashGenesisBlock
  · rw [(h.genesis e index he hgenesis).1] at hprev
    cases hprev
  · obtain ⟨prev', pindex, hprev', hpindex, hheight, -⟩ := h.sound.child e index he hgenesis
    rw [hprev, Option.some.injEq] at hprev'
    exact ⟨pindex, hprev' ▸ hpindex, hheight⟩

theorem linked : t.Linked := by
  intro e height he
  obtain ⟨index, hindex, rfl⟩ := map_eq_some_iff.mp he
  have hparent : t.parent e = index.pprev := by
    rw [parent, hindex, bind_some]
  rw [hparent]
  cases hprev : index.pprev with
  | none => exact (h.genesis e index hindex (h.hash_of_root hindex hprev)).2
  | some prev =>
    obtain ⟨pindex, hpindex, hheight⟩ := h.index?_pprev hindex hprev
    exact ⟨pindex.nHeight, by rw [height?, hpindex, map_some], hheight⟩

/-- A tree without the genesis block is empty. -/
theorem mem_hashes_genesis {e : EntryPtr} {index : BlockIndex}
    (he : t.index? e = some index) : params.hashGenesisBlock ∈ t.hashes := by
  -- the way down from the node ends in a root
  induction hheight : index.nHeight generalizing e index with
  | zero =>
    by_cases hroot : index.hash = params.hashGenesisBlock
    · rw [← hroot]
      exact List.mem_map_of_mem (List.mem_of_getElem? he)
    · obtain ⟨_, _, -, -, hone, -⟩ := h.sound.child e index he hroot
      omega
  | succ height ih =>
    by_cases hroot : index.hash = params.hashGenesisBlock
    · rw [← hroot]
      exact List.mem_map_of_mem (List.mem_of_getElem? he)
    · obtain ⟨prev, pindex, -, hpindex, hone, -⟩ := h.sound.child e index he hroot
      exact ih hpindex (by omega)

theorem relabel (hlabel : Relabeled t t') : Rooted params t' := by
  refine ⟨h.sound.relabel hlabel, ?_⟩
  intro e index' he' hhash
  obtain ⟨index, he, hsame⟩ := hlabel.exists_index? he'
  rw [← hsame.hash] at hhash
  rw [← hsame.pprev, ← hsame.nHeight]
  exact h.genesis e index he hhash

end

theorem added {m m' : ChainstateManager} {block : BlockHeader} {e : EntryPtr}
    (h : Rooted params m.tree) (hadded : Added hash256 params.toParams m block m' e) :
    Rooted params m'.tree := by
  refine ⟨h.sound.added hadded, ?_⟩
  cases hadded with
  | known => exact h.genesis
  | inserted t' index hnew happend hnode hprev =>
    intro e found he hgenesis
    rcases happend.cases he with hold | ⟨-, rfl⟩
    · exact h.genesis e found hold hgenesis
    · rw [hnode.hash_eq] at hgenesis
      have hempty : ∀ e index, m.tree.index? e ≠ some index := by
        intro e index he
        exact hnew (hgenesis ▸ h.mem_hashes_genesis he)
      cases hnode.links with
      | root _ hpprev _ hheight => exact ⟨hpprev, hheight⟩
      | child prev _ pindex _ hpindex => exact absurd hpindex (hempty prev pindex)
      | itself _ hself =>
        rw [hgenesis] at hself
        exact absurd hself (params.genesis_root block hgenesis)

end Rooted

theorem rooted_empty : Rooted params BlockTree.empty :=
  ⟨sound_empty _ _, fun _ _ he => by cases he⟩

/-- The second tree has all nodes of the first, up to their statuses. -/
def Grows (t t' : BlockTree) : Prop :=
  ∀ e index, t.index? e = some index → ∃ index', t'.index? e = some index' ∧ SameNode index index'

theorem Relabeled.grows {t t' : BlockTree} (h : Relabeled t t') : Grows t t' := by
  intro e index he
  obtain ⟨index', he', hsame⟩ := h.symm.exists_index? he
  exact ⟨index', he', hsame.hash.symm, hsame.pprev.symm, hsame.pskip.symm, hsame.nHeight.symm,
    fun hashPrevBlock => (hsame.header hashPrevBlock).symm⟩

theorem Added.grows {m m' : ChainstateManager} {block : BlockHeader} {e : EntryPtr}
    {params : Params} (h : Added hash256 params m block m' e) : Grows m.tree m'.tree := by
  intro e index he
  cases h with
  | known => exact ⟨index, he, rfl, rfl, rfl, rfl, fun _ => rfl⟩
  | inserted t' node hnew happend =>
    exact ⟨index, happend.extends e index he, rfl, rfl, rfl, rfl, fun _ => rfl⟩

/-- What a root path reads of the tree stays as it is when the tree grows. -/
theorem Grows.isChain {t t' : BlockTree} (h : Grows t t') {c : CChain} {l : List EntryPtr}
    (hc : IsChain t c l) : IsChain t' c l := by
  have hnode : ∀ x ∈ l, t'.parent x = t.parent x ∧ (t'.height? x).isSome := by
    intro x hx
    obtain ⟨height, hheight⟩ := isSome_iff_exists.mp (hc.mem x hx)
    obtain ⟨index, hindex, -⟩ := map_eq_some_iff.mp hheight
    obtain ⟨index', hindex', hsame⟩ := h x index hindex
    rw [parent, parent, height?, hindex, hindex', bind_some, bind_some, map_some, hsame.pprev]
    exact ⟨rfl, rfl⟩
  exact ⟨hc.slots, hc.path.congr fun x hx => (hnode x hx).1, fun x hx => (hnode x hx).2⟩

/-! ## The chain -/

namespace Chainstate

/-- The active chain is a root path of a rooted tree. -/
structure Valid (params : ChainParams hash256) (cs : Chainstate) : Prop where
  rooted : Rooted params cs.tree
  chain : ∃ l, IsChain cs.tree cs.chain l

/-- The chainstates differ in the candidates and the unlinked blocks only. -/
structure Frame (cs cs' : Chainstate) : Prop where
  tree : cs'.tree = cs.tree
  chain : cs'.chain = cs.chain

namespace Frame

variable {cs cs' cs'' : Chainstate}

protected theorem refl (cs : Chainstate) : Frame cs cs := ⟨rfl, rfl⟩

protected theorem trans (h : Frame cs cs') (h' : Frame cs' cs'') : Frame cs cs'' :=
  ⟨h'.tree.trans h.tree, h'.chain.trans h.chain⟩

end Frame

theorem frame_eraseCandidate (cs : Chainstate) (e : EntryPtr) : Frame cs (cs.eraseCandidate e) :=
  ⟨rfl, rfl⟩

theorem frame_insertCandidate (cs : Chainstate) (e : EntryPtr) :
    Frame cs (cs.insertCandidate e) := by
  unfold insertCandidate
  split_ifs <;> exact ⟨rfl, rfl⟩

theorem frame_addUnlinkedBlock (cs : Chainstate) (prev e : EntryPtr) :
    Frame cs (cs.addUnlinkedBlock prev e) := by
  unfold addUnlinkedBlock
  split_ifs <;> exact ⟨rfl, rfl⟩

theorem frame_tryAddBlockIndexCandidate (tie : EntryPtr → EntryPtr → Bool) (cs : Chainstate)
    (e : EntryPtr) : Frame cs (cs.tryAddBlockIndexCandidate tie e) := by
  unfold tryAddBlockIndexCandidate
  cases cs.chain.tip with
  | none => exact frame_insertCandidate cs e
  | some tip =>
    show Frame cs (if _ then _ else _)
    split_ifs
    · exact Frame.refl cs
    · exact frame_insertCandidate cs e

variable {tie : EntryPtr → EntryPtr → Bool} {cs cs' : Chainstate}
  {pindexTest e indexMostWork : EntryPtr} {unlink writeBlock loaded go : Bool} {fuel : Nat}
  {most pindexOldTip : Option EntryPtr} {order : List EntryPtr} {env : ActivateEnv}
  {verdict : ConnectVerdict} {item : FileBlock} {items : List FileBlock}

theorem frame_pruneBlockIndexCandidates (h : cs.pruneBlockIndexCandidates tie = some cs') :
    Frame cs cs' := by
  unfold pruneBlockIndexCandidates at h
  obtain ⟨tip, -, h⟩ := bind_eq_some_iff.mp h
  dsimp only at h
  split_ifs at h
  cases h
  exact ⟨rfl, rfl⟩

/-- One turn of the removal of a path. -/
theorem removeChain_cases (h : removeChain pindexTest unlink (fuel + 1) e cs = some cs') :
    (e = pindexTest ∧ cs' = cs.eraseCandidate pindexTest) ∨
      ∃ prev cs₁, cs.tree.parent e = some prev ∧ Frame cs cs₁ ∧
        cs₁.setBlockIndexCandidates = cs.setBlockIndexCandidates.filter (· ≠ e) ∧
        removeChain pindexTest unlink fuel prev cs₁ = some cs' := by
  unfold removeChain at h
  split_ifs at h with heq hunlink
  · cases h
    exact Or.inl ⟨heq, rfl⟩
  · obtain ⟨prev, hprev, h⟩ := bind_eq_some_iff.mp h
    refine Or.inr ⟨prev, _, hprev, ?_, ?_, h⟩
    · exact (frame_addUnlinkedBlock cs prev e).trans (frame_eraseCandidate _ e)
    · unfold addUnlinkedBlock
      split_ifs <;> rfl
  · obtain ⟨prev, hprev, h⟩ := bind_eq_some_iff.mp h
    exact Or.inr ⟨prev, _, hprev, frame_eraseCandidate cs e, rfl, h⟩

theorem frame_removeChain (h : removeChain pindexTest unlink fuel e cs = some cs') :
    Frame cs cs' := by
  induction fuel generalizing e cs cs' with
  | zero => cases h
  | succ fuel ih =>
    rcases removeChain_cases h with ⟨-, rfl⟩ | ⟨prev, cs₁, -, hframe, -, h⟩
    · exact frame_eraseCandidate cs pindexTest
    · exact hframe.trans (ih h)

/-- A turn of `FindMostWorkChain`: there are no candidates, the best one can be
activated, or the path to it from a node that cannot is removed. -/
theorem findMostWorkChainLoop_cases
    (h : findMostWorkChainLoop tie (fuel + 1) cs = some (most, cs')) :
    (lastOf (workLess tie cs.tree) cs.setBlockIndexCandidates = none ∧ most = none ∧ cs' = cs) ∨
      ∃ pindexNew height unusable,
        lastOf (workLess tie cs.tree) cs.setBlockIndexCandidates = some pindexNew ∧
        cs.firstUnusable (height + 1) (some pindexNew) = some unusable ∧
        ((unusable = none ∧ most = some pindexNew ∧ cs' = cs) ∨
          ∃ pindexTest unlink cs₁, unusable = some pindexTest ∧
            removeChain pindexTest unlink (height + 1) pindexNew cs = some cs₁ ∧
            findMostWorkChainLoop tie fuel cs₁ = some (most, cs')) := by
  unfold findMostWorkChainLoop at h
  cases hlast : lastOf (workLess tie cs.tree) cs.setBlockIndexCandidates with
  | none =>
    simp only [hlast] at h
    cases h
    exact Or.inl ⟨rfl, rfl, rfl⟩
  | some pindexNew =>
    simp only [hlast] at h
    obtain ⟨height, -, h⟩ := bind_eq_some_iff.mp h
    obtain ⟨unusable, hunusable, h⟩ := bind_eq_some_iff.mp h
    refine Or.inr ⟨pindexNew, height, unusable, rfl, hunusable, ?_⟩
    cases unusable with
    | none =>
      cases h
      exact Or.inl ⟨rfl, rfl, rfl⟩
    | some pindexTest =>
      obtain ⟨index, -, h⟩ := bind_eq_some_iff.mp h
      obtain ⟨cs₁, hremove, h⟩ := bind_eq_some_iff.mp h
      exact Or.inr ⟨pindexTest, _, cs₁, rfl, hremove, h⟩

theorem frame_findMostWorkChainLoop (h : findMostWorkChainLoop tie fuel cs = some (most, cs')) :
    Frame cs cs' := by
  induction fuel generalizing cs cs' most with
  | zero =>
    cases h
    exact Frame.refl cs
  | succ fuel ih =>
    rcases findMostWorkChainLoop_cases h with
      ⟨-, -, rfl⟩ | ⟨_, _, _, -, -, ⟨-, -, rfl⟩ | ⟨_, _, cs₁, -, hremove, h⟩⟩
    · exact Frame.refl _
    · exact Frame.refl _
    · exact (frame_removeChain hremove).trans (ih h)

theorem frame_chooseMostWork {pindexMostWork : Option EntryPtr}
    (h : cs.chooseMostWork tie pindexMostWork = some (most, cs')) : Frame cs cs' := by
  cases pindexMostWork with
  | some pindex =>
    cases h
    exact Frame.refl _
  | none => exact frame_findMostWorkChainLoop h

theorem frame_receivedLoop (tie : EntryPtr → EntryPtr → Bool) (fuel : Nat) (queue : List EntryPtr)
    (cs : Chainstate) : Frame cs (receivedLoop tie fuel queue cs) := by
  induction fuel generalizing queue cs with
  | zero => exact Frame.refl cs
  | succ fuel ih =>
    cases queue with
    | nil => exact Frame.refl cs
    | cons pindex queue =>
      unfold receivedLoop
      have hadd := frame_tryAddBlockIndexCandidate tie
        { cs with haveNumChainTxs := pindex :: cs.haveNumChainTxs } pindex
      apply Frame.trans _ (ih _ _)
      exact ⟨hadd.tree, hadd.chain⟩

theorem frame_linkReceived (h : linkReceived tie e cs = some cs') : Frame cs cs' := by
  unfold linkReceived at h
  obtain ⟨index, -, h⟩ := bind_eq_some_iff.mp h
  cases hprev : index.pprev with
  | none =>
    simp only [hprev] at h
    cases h
    exact frame_receivedLoop _ _ _ _
  | some prev =>
    simp only [hprev] at h
    split_ifs at h
    · cases h
      exact frame_receivedLoop _ _ _ _
    · obtain ⟨pindexPrev, -, h⟩ := bind_eq_some_iff.mp h
      split_ifs at h
      · cases h
        exact frame_addUnlinkedBlock _ _ _
      · cases h
        exact Frame.refl _

/-- The second chainstate is valid if the first one is, and its chain is not empty
if that of the first one is not. -/
def Keeps (params : ChainParams hash256) (cs cs' : Chainstate) : Prop :=
  cs.Valid params → cs'.Valid params ∧ (cs.chain.vChain ≠ [] → cs'.chain.vChain ≠ [])

namespace Keeps

variable {cs cs' cs'' : Chainstate}

protected theorem refl (cs : Chainstate) : Keeps params cs cs := fun h => ⟨h, id⟩

protected theorem trans (h : Keeps params cs cs') (h' : Keeps params cs' cs'') :
    Keeps params cs cs'' := by
  intro hvalid
  obtain ⟨hvalid', hne⟩ := h hvalid
  obtain ⟨hvalid'', hne'⟩ := h' hvalid'
  exact ⟨hvalid'', fun h => hne' (hne h)⟩

theorem of_frame (h : Frame cs cs') : Keeps params cs cs' := by
  intro hvalid
  rw [h.chain]
  refine ⟨⟨?_, ?_⟩, id⟩
  · rw [h.tree]
    exact hvalid.rooted
  · rw [h.tree, h.chain]
    exact hvalid.chain

/-- The tree changes and the chain does not. -/
theorem of_tree (hchain : cs'.chain = cs.chain) (hgrows : Grows cs.tree cs'.tree)
    (hrooted : Rooted params cs.tree → Rooted params cs'.tree) : Keeps params cs cs' := by
  intro hvalid
  obtain ⟨l, hl⟩ := hvalid.chain
  rw [hchain]
  refine ⟨⟨hrooted hvalid.rooted, l, ?_⟩, id⟩
  rw [hchain]
  exact hgrows.isChain hl

theorem of_relabeled (hchain : cs'.chain = cs.chain) (h : Relabeled cs.tree cs'.tree) :
    Keeps params cs cs' := of_tree hchain h.grows fun hrooted => hrooted.relabel h

end Keeps

/-- `SetTip` leaves a chain that is not empty. -/
theorem setTip_spec (h : cs.Valid params) {index : BlockIndex}
    (he : cs.tree.index? e = some index) :
    (cs.setTip e).Valid params ∧ (cs.setTip e).chain.vChain ≠ [] := by
  obtain ⟨l, hl⟩ := h.chain
  have hheight : (cs.tree.height? e).isSome := by
    rw [height?, he, map_some, isSome_some]
  obtain ⟨l', hl'⟩ := isChain_setTip h.rooted.linked hl hheight
  refine ⟨⟨h.rooted, _, hl'⟩, ?_⟩
  show (CChain.setTip cs.tree cs.chain e).vChain ≠ []
  rw [hl'.slots]
  simp

theorem keeps_setTip {index : BlockIndex} (he : cs.tree.index? e = some index) :
    Keeps params cs (cs.setTip e) := by
  intro hvalid
  obtain ⟨hvalid', hne⟩ := setTip_spec hvalid he
  exact ⟨hvalid', fun _ => hne⟩

/-! ## `ActivateBestChain` -/

theorem keeps_invalidChainFound (h : cs.invalidChainFound e order = some cs') :
    Keeps params cs cs' := by
  unfold Chainstate.invalidChainFound at h
  obtain ⟨m, hm, h⟩ := bind_eq_some_iff.mp h
  cases h
  exact Keeps.of_relabeled rfl (relabeled_invalidChainFound hm)

theorem keeps_invalidBlockFound {result : BlockValidationResult}
    (h : cs.invalidBlockFound e result order = some cs') : Keeps params cs cs' := by
  unfold Chainstate.invalidBlockFound at h
  obtain ⟨m, hm, h⟩ := bind_eq_some_iff.mp h
  cases h
  refine Keeps.of_relabeled ?_ (relabeled_invalidBlockFound hm)
  show Chainstate.chain (if _ then _ else _) = _
  split_ifs <;> rfl

/-- `DisconnectTip` goes to the previous node, which is in the tree. -/
theorem keeps_disconnectTip {ok : Bool} (h : cs.disconnectTip env = some (ok, cs')) :
    Keeps params cs cs' := by
  unfold disconnectTip at h
  obtain ⟨pindexDelete, -, h⟩ := bind_eq_some_iff.mp h
  obtain ⟨pprev, hpprev, h⟩ := bind_eq_some_iff.mp h
  obtain ⟨index, hindex, hprev⟩ := bind_eq_some_iff.mp hpprev
  split_ifs at h
  · cases h
    exact Keeps.refl _
  · cases h
    intro hvalid
    obtain ⟨pindex, hpindex, -⟩ := hvalid.rooted.index?_pprev hindex hprev
    exact keeps_setTip hpindex hvalid

theorem keeps_disconnectTo {pindexFork : Option EntryPtr} {ok : Bool}
    (h : disconnectTo env pindexFork fuel cs = some (ok, cs')) : Keeps params cs cs' := by
  induction fuel generalizing cs cs' ok with
  | zero => cases h
  | succ fuel ih =>
    unfold disconnectTo at h
    cases htip : cs.chain.tip with
    | none =>
      simp only [htip] at h
      cases h
      exact Keeps.refl _
    | some tip =>
      simp only [htip] at h
      split_ifs at h
      · cases h
        exact Keeps.refl _
      · obtain ⟨⟨ok₁, cs₁⟩, hstep, h⟩ := bind_eq_some_iff.mp h
        dsimp only at h
        split_ifs at h
        · exact (keeps_disconnectTip hstep).trans (ih h)
        · cases h
          exact keeps_disconnectTip hstep

/-- The ways out of `ConnectTip`.  The genesis block is never found invalid. -/
theorem connectTip_cases {params : Params} (h : cs.connectTip params env e = some (verdict, cs')) :
    ∃ index, cs.tree.index? e = some index ∧ ((verdict = .error ∧ cs' = cs) ∨
        (∃ result, verdict = .invalid result ∧ index.hash ≠ params.hashGenesisBlock ∧
          cs.invalidBlockFound e result env.order = some cs') ∨
        (verdict = .connected ∧ cs' = cs.setTip e)) := by
  unfold connectTip at h
  obtain ⟨index, hindex, h⟩ := bind_eq_some_iff.mp h
  refine ⟨index, hindex, ?_⟩
  by_cases hprev : index.pprev ≠ cs.chain.tip
  · rw [if_pos hprev] at h
    cases h
  rw [if_neg hprev] at h
  by_cases hread : (!env.readBlock e) = true
  · rw [if_pos hread] at h
    cases h
    exact Or.inl ⟨rfl, rfl⟩
  rw [if_neg hread] at h
  dsimp only at h
  generalize hverdict : (if index.hash = params.hashGenesisBlock then ConnectVerdict.connected
    else env.connectBlock e) = answer at h
  cases answer with
  | error =>
    cases h
    exact Or.inl ⟨rfl, rfl⟩
  | invalid result =>
    obtain ⟨cs₁, hcs₁, h⟩ := bind_eq_some_iff.mp h
    cases h
    refine Or.inr (Or.inl ⟨result, rfl, ?_, hcs₁⟩)
    intro hgenesis
    rw [if_pos hgenesis] at hverdict
    cases hverdict
  | connected =>
    dsimp only at h
    split_ifs at h
    · cases h
      exact Or.inl ⟨rfl, rfl⟩
    · cases h
      exact Or.inr (Or.inr ⟨rfl, rfl⟩)

theorem keeps_connectTip (h : cs.connectTip params.toParams env e = some (verdict, cs')) :
    Keeps params cs cs' := by
  obtain ⟨index, hindex, ⟨-, rfl⟩ | ⟨result, -, -, hcs'⟩ | ⟨-, rfl⟩⟩ := connectTip_cases h
  · exact Keeps.refl _
  · exact keeps_invalidBlockFound hcs'
  · exact keeps_setTip hindex

theorem keeps_connectBlocks {front : EntryPtr} {blocks : List EntryPtr} {stepEnd : StepEnd}
    (h : connectBlocks params.toParams env pindexOldTip front blocks cs = some (stepEnd, cs')) :
    Keeps params cs cs' := by
  induction blocks generalizing cs cs' stepEnd with
  | nil =>
    cases h
    exact Keeps.refl _
  | cons pindexConnect rest ih =>
    unfold connectBlocks at h
    obtain ⟨⟨verdict, cs₁⟩, hconnect, h⟩ := bind_eq_some_iff.mp h
    apply (keeps_connectTip hconnect).trans
    cases verdict with
    | error =>
      cases h
      exact Keeps.refl _
    | invalid result =>
      dsimp only at h
      split_ifs at h
      · obtain ⟨cs₂, hcs₂, h⟩ := bind_eq_some_iff.mp h
        cases h
        exact keeps_invalidChainFound hcs₂
      · cases h
        exact Keeps.refl _
    | connected =>
      obtain ⟨cs₂, hprune, h⟩ := bind_eq_some_iff.mp h
      apply (Keeps.of_frame (frame_pruneBlockIndexCandidates hprune)).trans
      split at h
      · split_ifs at h
        · cases h
          exact Keeps.refl _
        · exact ih h
      · cases h
        exact Keeps.refl _

theorem keeps_connectUpTo {height : Nat} {nHeight : Int} {stepEnd : StepEnd}
    (h : connectUpTo params.toParams env pindexOldTip indexMostWork height fuel nHeight cs =
      some (stepEnd, cs')) :
    Keeps params cs cs' := by
  induction fuel generalizing nHeight cs cs' stepEnd with
  | zero => cases h
  | succ fuel ih =>
    unfold connectUpTo at h
    split_ifs at h
    · cases h
      exact Keeps.refl _
    · obtain ⟨pindexIter, -, h⟩ := bind_eq_some_iff.mp h
      obtain ⟨⟨stepEnd₁, cs₁⟩, hblocks, h⟩ := bind_eq_some_iff.mp h
      have hkeeps : Keeps params cs cs₁ := by
        unfold connectVector at hblocks
        split at hblocks
        · cases hblocks
          exact Keeps.refl _
        · exact keeps_connectBlocks hblocks
      dsimp only at h
      split_ifs at h
      · exact hkeeps.trans (ih h)
      · cases h
        exact hkeeps

theorem keeps_activateBestChainStep {stepEnd : StepEnd}
    (h : cs.activateBestChainStep params.toParams env indexMostWork = some (stepEnd, cs')) :
    Keeps params cs cs' := by
  unfold activateBestChainStep at h
  obtain ⟨pindexFork, -, h⟩ := bind_eq_some_iff.mp h
  obtain ⟨⟨ok, cs₁⟩, hdisconnect, h⟩ := bind_eq_some_iff.mp h
  apply (keeps_disconnectTo hdisconnect).trans
  dsimp only at h
  split_ifs at h
  · cases h
    exact Keeps.refl _
  · obtain ⟨height, -, h⟩ := bind_eq_some_iff.mp h
    exact keeps_connectUpTo h

theorem keeps_activateSection {startingTip : Option EntryPtr} {blocksConnected : Bool}
    {pindexMostWork : Option EntryPtr} {r : Section}
    (h : activateSection params.toParams env startingTip fuel blocksConnected pindexMostWork cs =
      some r) :
    Keeps params cs r.chainstate := by
  induction fuel generalizing blocksConnected pindexMostWork cs r with
  | zero => cases h
  | succ fuel ih =>
    unfold activateSection at h
    obtain ⟨⟨mostWork, cs₁⟩, hmost, h⟩ := bind_eq_some_iff.mp h
    apply (Keeps.of_frame (frame_chooseMostWork hmost)).trans
    cases mostWork with
    | none =>
      cases h
      exact Keeps.refl _
    | some most =>
      dsimp only at h
      split_ifs at h
      · cases h
        exact Keeps.refl _
      · obtain ⟨⟨stepEnd, cs₂⟩, hstep, h⟩ := bind_eq_some_iff.mp h
        apply (keeps_activateBestChainStep hstep).trans
        dsimp only at h
        split_ifs at h
        all_goals first
          | exact ih h
          | (cases h; exact Keeps.refl _)

/-- `ActivateBestChain` keeps the chainstate valid and does not empty the chain. -/
theorem keeps_activateBestChain {envs : List (Nat × ActivateEnv)} {pindexMostWork : Option EntryPtr}
    {ok : Bool} (h : activateBestChain params.toParams envs pindexMostWork cs = some (ok, cs')) :
    Keeps params cs cs' := by
  induction envs generalizing pindexMostWork cs cs' ok with
  | nil => cases h
  | cons turn envs ih =>
    obtain ⟨turns, env⟩ := turn
    unfold activateBestChain at h
    obtain ⟨r, hsection, h⟩ := bind_eq_some_iff.mp h
    apply (keeps_activateSection hsection).trans
    dsimp only at h
    split_ifs at h
    all_goals first
      | exact ih h
      | (cases h; exact Keeps.refl _)

/-! ## The calls -/

theorem keeps_linkAccepted {hash : Uint256} {r : AcceptedBlock} {block : BlockHeader}
    (htree : cs.tree.SkipLinked → ∃ m₁, (m₁ = cs.toChainstateManager ∨
      ∃ e, Added hash256 params.toParams cs.toChainstateManager block m₁ e) ∧
      Relabeled m₁.tree r.manager.tree) (h : linkAccepted tie hash r cs = some cs') :
    Keeps params cs cs' := by
  have hframe : Frame { cs with toChainstateManager := r.manager } cs' := by
    unfold linkAccepted at h
    dsimp only at h
    split_ifs at h
    · obtain ⟨pindex, -, h⟩ := bind_eq_some_iff.mp h
      exact frame_linkReceived h
    · cases h
      exact Frame.refl _
  intro hvalid
  obtain ⟨m₁, hm₁, hlabel⟩ := htree hvalid.rooted.sound.skipLinked
  have hkeeps : Keeps params cs { cs with toChainstateManager := r.manager } := by
    rcases hm₁ with rfl | ⟨e, hadded⟩
    · exact Keeps.of_relabeled rfl hlabel
    · have hfirst : Keeps params cs { cs with toChainstateManager := m₁ } :=
        Keeps.of_tree rfl hadded.grows fun hrooted => hrooted.added hadded
      have hsecond : Keeps params { cs with toChainstateManager := m₁ }
          { cs with toChainstateManager := r.manager } := Keeps.of_relabeled rfl hlabel
      exact hfirst.trans hsecond
  exact hkeeps.trans (Keeps.of_frame hframe) hvalid

/-- `LoadGenesisBlock` does nothing, or appends the genesis block to the tree. -/
theorem loadGenesisBlock_cases (hskip : cs.tree.SkipLinked)
    (h : loadGenesisBlock hash256 params tie writeBlock cs = some (loaded, cs')) :
    (cs' = cs ∧ (loaded = true → params.hashGenesisBlock ∈ cs.tree.hashes)) ∨
      ∃ m₁ e, Added hash256 params.toParams cs.toChainstateManager
          params.genesisBlock.toBlockHeader m₁ e ∧
        params.hashGenesisBlock ∉ cs.tree.hashes ∧
        cs'.tree = receivedBlockTransactions params.toParams m₁.tree e ∧ cs'.chain = cs.chain := by
  have hhash : params.genesisBlock.getHash hash256 = params.hashGenesisBlock :=
    params.hashGenesisBlock_eq.symm
  unfold loadGenesisBlock at h
  cases hlookup : cs.tree.lookupBlockIndex (params.genesisBlock.getHash hash256) with
  | some e =>
    simp only [hlookup] at h
    cases h
    refine Or.inl ⟨rfl, fun _ => ?_⟩
    rw [← hhash]
    exact List.mem_of_getElem? (hasHash_of_lookupBlockIndex hlookup)
  | none =>
    simp only [hlookup] at h
    split_ifs at h
    · cases h
      exact Or.inl ⟨rfl, nofun⟩
    · have hnew := lookupBlockIndex_eq_none_iff.mp hlookup
      obtain ⟨⟨tree, best, e⟩, hadd, h⟩ := bind_eq_some_iff.mp h
      obtain ⟨cs₁, hlink, h⟩ := bind_eq_some_iff.mp h
      cases h
      have hframe := frame_linkReceived hlink
      rcases addToBlockIndex_spec (BlockHeader.getHash hash256) hskip
        params.genesisBlock.toBlockHeader cs.bestHeader with ⟨e', he', -⟩ |
          ⟨-, t', index, happend, hnode, hadd'⟩
      · exact absurd (List.mem_of_getElem? he') hnew
      · rw [hadd'] at hadd
        cases hadd
        refine Or.inr ⟨_, _, .inserted _ index hnew happend hnode ?_, hhash ▸ hnew, hframe.tree,
          hframe.chain⟩
        intro hne
        exact absurd hhash hne

theorem keeps_loadGenesisBlock
    (h : loadGenesisBlock hash256 params tie writeBlock cs = some (loaded, cs')) :
    Keeps params cs cs' := by
  intro hvalid
  rcases loadGenesisBlock_cases hvalid.rooted.sound.skipLinked h with
    ⟨rfl, -⟩ | ⟨m₁, e, hadded, -, htree, hchain⟩
  · exact ⟨hvalid, id⟩
  · have hfirst : Keeps params cs { cs with toChainstateManager := m₁ } :=
      Keeps.of_tree rfl hadded.grows fun hrooted => hrooted.added hadded
    have hsecond : Keeps params { cs with toChainstateManager := m₁ } cs' := by
      refine Keeps.of_relabeled hchain ?_
      rw [htree]
      exact relabeled_receivedBlockTransactions m₁.tree e
    exact hfirst.trans hsecond hvalid

theorem keeps_processBlock {env : Surroundings} {activation : List (Nat × ActivateEnv)}
    {object : BlockObject} {result : ProcessBlockResult}
    (h : processBlock hash256 params tie env activation object cs = some (result, cs')) :
    Keeps params cs cs' := by
  unfold processBlock at h
  obtain ⟨r, hr, h⟩ := bind_eq_some_iff.mp h
  obtain ⟨cs₁, hlink, h⟩ := bind_eq_some_iff.mp h
  apply (keeps_linkAccepted (fun hskip => processNewBlock_tree hskip hr) hlink).trans
  split_ifs at h
  · cases h
    exact Keeps.refl _
  · obtain ⟨⟨activated, cs₂⟩, hactivate, h⟩ := bind_eq_some_iff.mp h
    cases h
    exact keeps_activateBestChain hactivate

theorem keeps_processBlockHeader {now : Int} {books : Books} {header : BlockHeader}
    {result : ProcessBlockHeaderResult}
    (h : processBlockHeader hash256 params now books header cs = some (result, cs')) :
    Keeps params cs cs' := by
  unfold Chainstate.processBlockHeader at h
  obtain ⟨⟨result₁, m⟩, hm, h⟩ := bind_eq_some_iff.mp h
  cases h
  intro hvalid
  rcases processBlockHeader_cases hvalid.rooted.sound.skipLinked hm with rfl | ⟨e, hadded⟩
  · exact ⟨hvalid, id⟩
  · exact Keeps.of_tree rfl hadded.grows (fun hrooted => hrooted.added hadded) hvalid

theorem keeps_acceptFileBlock {accepted error : Bool}
    (h : acceptFileBlock hash256 params item cs = some (accepted, error, cs')) :
    Keeps params cs cs' := by
  unfold acceptFileBlock at h
  obtain ⟨r, hr, h⟩ := bind_eq_some_iff.mp h
  obtain ⟨cs₁, hlink, h⟩ := bind_eq_some_iff.mp h
  cases h
  exact keeps_linkAccepted (fun hskip => acceptBlock_tree hskip rfl hr) hlink

theorem keeps_acceptSuccessors {hashes : List Uint256}
    (h : acceptSuccessors hash256 params items cs = some (hashes, cs')) : Keeps params cs cs' := by
  induction items generalizing cs cs' hashes with
  | nil =>
    cases h
    exact Keeps.refl _
  | cons item items ih =>
    unfold acceptSuccessors at h
    split_ifs at h
    · exact ih h
    · obtain ⟨⟨accepted, error, cs₁⟩, haccept, h⟩ := bind_eq_some_iff.mp h
      obtain ⟨⟨hashes₁, cs₂⟩, hrest, h⟩ := bind_eq_some_iff.mp h
      cases h
      exact (keeps_acceptFileBlock haccept).trans (ih hrest)

theorem keeps_loadSuccessors {queue : List Uint256} {unknown unknown' : List FileBlock}
    (h : loadSuccessors hash256 params fuel queue unknown cs = some (unknown', cs')) :
    Keeps params cs cs' := by
  induction fuel generalizing queue unknown unknown' cs cs' with
  | zero =>
    cases h
    exact Keeps.refl _
  | succ fuel ih =>
    cases queue with
    | nil =>
      cases h
      exact Keeps.refl _
    | cons head queue =>
      unfold loadSuccessors at h
      obtain ⟨⟨hashes, cs₁⟩, haccept, h⟩ := bind_eq_some_iff.mp h
      exact (keeps_acceptSuccessors haccept).trans (ih h)

theorem keeps_loadFileBlock (h : loadFileBlock hash256 params item cs = some (go, cs')) :
    Keeps params cs cs' := by
  unfold loadFileBlock at h
  obtain ⟨⟨error, cs₁⟩, haccept, h⟩ := bind_eq_some_iff.mp h
  have hfirst : Keeps params cs cs₁ := by
    split_ifs at haccept
    · cases haccept
      exact Keeps.refl _
    · obtain ⟨⟨accepted, error₁, cs₂⟩, hcs₂, heq⟩ := map_eq_some_iff.mp haccept
      cases heq
      exact keeps_acceptFileBlock hcs₂
  apply hfirst.trans
  dsimp only at h
  split_ifs at h
  · cases h
    exact Keeps.refl _
  · exact keeps_activateBestChain h
  · cases h
    exact Keeps.refl _

theorem keeps_loadExternalBlockFile {reindex : Bool} {unknown unknown' : List FileBlock}
    (h : loadExternalBlockFile hash256 params reindex items unknown cs = some (unknown', cs')) :
    Keeps params cs cs' := by
  induction items generalizing unknown unknown' cs cs' with
  | nil =>
    cases h
    exact Keeps.refl _
  | cons item items ih =>
    unfold loadExternalBlockFile at h
    by_cases hinterrupted : item.interrupted = true
    · rw [if_pos hinterrupted] at h
      cases h
      exact Keeps.refl _
    rw [if_neg hinterrupted] at h
    by_cases hunknown : item.block.getHash hash256 ≠ params.hashGenesisBlock ∧
        cs.tree.lookupBlockIndex item.block.hashPrevBlock = none
    · rw [if_pos hunknown] at h
      exact ih h
    rw [if_neg hunknown] at h
    obtain ⟨⟨go, cs₁⟩, hblock, h⟩ := bind_eq_some_iff.mp h
    apply (keeps_loadFileBlock hblock).trans
    cases go with
    | false =>
      cases h
      exact Keeps.refl _
    | true =>
      obtain ⟨⟨unknown₁, cs₂⟩, hsuccessors, h⟩ := bind_eq_some_iff.mp h
      have hsecond : Keeps params cs₁ cs₂ := by
        cases reindex with
        | false =>
          cases hsuccessors
          exact Keeps.refl _
        | true => exact keeps_loadSuccessors hsuccessors
      exact hsecond.trans (ih h)

theorem keeps_importFiles {reindex : Bool} {files : List BlockFile} {unknown : List FileBlock}
    (h : importFiles hash256 params reindex files unknown cs = some (go, cs')) :
    Keeps params cs cs' := by
  induction files generalizing unknown cs cs' go with
  | nil =>
    cases h
    exact Keeps.refl _
  | cons file files ih =>
    unfold importFiles at h
    obtain ⟨⟨unknown₁, cs₁⟩, hfile, h⟩ := bind_eq_some_iff.mp h
    apply (keeps_loadExternalBlockFile hfile).trans
    dsimp only at h
    split_ifs at h
    · cases h
      exact Keeps.refl _
    · exact ih h

theorem keeps_reindex {env : ImportEnv} (h : reindex hash256 params env cs = some (go, cs')) :
    Keeps params cs cs' := by
  unfold reindex at h
  obtain ⟨⟨completed, cs₁⟩, hfiles, h⟩ := bind_eq_some_iff.mp h
  apply (keeps_importFiles hfiles).trans
  cases completed with
  | false =>
    cases h
    exact Keeps.refl _
  | true =>
    obtain ⟨⟨loaded, cs₂⟩, hgenesis, h⟩ := bind_eq_some_iff.mp h
    cases h
    have hflag : Frame cs₁ { cs₁ with blockfilesIndexed := true } := ⟨rfl, rfl⟩
    exact (Keeps.of_frame hflag).trans (keeps_loadGenesisBlock hgenesis)

theorem keeps_importBlocks {env : ImportEnv} (h : importBlocks hash256 params env cs = some cs') :
    Keeps params cs cs' := by
  unfold importBlocks at h
  obtain ⟨⟨go, cs₁⟩, hreindex, h⟩ := bind_eq_some_iff.mp h
  have hfirst : Keeps params cs cs₁ := by
    split_ifs at hreindex
    · cases hreindex
      exact Keeps.refl _
    · exact keeps_reindex hreindex
  apply hfirst.trans
  cases go with
  | false =>
    cases h
    exact Keeps.refl _
  | true =>
    obtain ⟨⟨go, cs₂⟩, hfiles, h⟩ := bind_eq_some_iff.mp h
    apply (keeps_importFiles hfiles).trans
    cases go with
    | false =>
      cases h
      exact Keeps.refl _
    | true =>
      obtain ⟨⟨activated, cs₃⟩, hactivate, h⟩ := bind_eq_some_iff.mp h
      cases h
      exact keeps_activateBestChain hactivate

/-- The step lemma: every call keeps the chainstate valid, and a chain that is not
empty stays so. -/
theorem keeps_step {call : ManagerCall} (h : cs.step hash256 params call = some cs') :
    Keeps params cs cs' := by
  cases call with
  | processBlock tie env activation object =>
    obtain ⟨⟨result, cs₁⟩, hcall, rfl⟩ := map_eq_some_iff.mp h
    exact keeps_processBlock hcall
  | processBlockHeader now books header =>
    obtain ⟨⟨result, cs₁⟩, hcall, rfl⟩ := map_eq_some_iff.mp h
    exact keeps_processBlockHeader hcall
  | importBlocks env => exact keeps_importBlocks h

/-- The run lemma. -/
theorem keeps_run {calls : List ManagerCall}
    (h : Runs.run (step hash256 params) cs calls = some cs') : Keeps params cs cs' :=
  Runs.run_invariant (I := fun _ cs' => Keeps params cs cs') (Keeps.refl cs)
    (fun _ _ _ _ hkeeps hstep => hkeeps.trans (keeps_step hstep)) h

end Chainstate

end BitcoinKernel.Validation.Chainman
