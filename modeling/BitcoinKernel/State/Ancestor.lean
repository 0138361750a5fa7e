import BitcoinKernel.Lib.Runs
import BitcoinKernel.State.Chain
import BitcoinKernel.State.SkipList

/-!
# `BlockTreeEntry::ancestor` goes to the previous entry, many times at once

`BlockTreeEntry::ancestor` checks the height, and the kernel then searches
along the skip pointers.  The skip pointer of an entry is itself the result of
such a search, made when the entry was added.  This module proves that the
search finds the entry that `BlockTreeEntry::prev` reaches when it is called
as often as the heights differ.

There are three groups.

* The search.  `SkipExact` says that every skip pointer leads to the entry that
  `prev` reaches at the skip height.  `climb_of_walkStep` is one turn of the
  search, `climb_of_getAncestorLoop` the whole loop.
* The growth.  A new entry gets its skip pointer from a search that starts at
  its previous entry, so it keeps the tree exact (`SkipExact.append`).
* The call.  `ancestor_eq_climb` is the result on every tree that
  `AddToBlockIndex` has grown from the empty one.
-/

namespace BitcoinKernel.State.BlockTree

open RootPath Option

/-- `btck_block_tree_entry_get_ancestor`.  `none` is a failed assertion, that of
the search or the one that its result is not null. -/
def btckGetAncestor (t : BlockTree) (e : EntryPtr) (height : Int) : Option EntryPtr := do
  let ancestor ← t.getAncestor e height
  ancestor

/-- `BlockTreeEntry::ancestor`.  The outer `none` is a failed assertion of the
kernel. -/
def ancestor (t : BlockTree) (e : EntryPtr) (height : Int) : Option (Option EntryPtr) := do
  let index ← t.index? e
  if height < 0 ∨ height > index.nHeight then return none
  let found ← t.btckGetAncestor e height
  return some found

/-! ## The search -/

/-- Every skip pointer leads to the entry at the skip height. -/
def SkipExact (t : BlockTree) : Prop :=
  ∀ e index skip, t.index? e = some index → index.pskip = some skip →
    climb t.parent (index.nHeight - getSkipHeight index.nHeight) e = some skip

variable {index : BlockIndex} {height heightNext : Nat} {next e prev : EntryPtr} {t t' : BlockTree}
  {block : BlockHeader} {getHash : BlockHeader → Uint256} {best best' : Option EntryPtr}

/-- One turn of the search follows one of the two pointers. -/
theorem walkStep_cases {heightWalk : Nat}
    (h : walkStep index height heightWalk = some (next, heightNext)) :
    (index.pskip = some next ∧ heightNext = getSkipHeight heightWalk) ∨
      (index.pprev = some next ∧ heightNext = heightWalk - 1) := by
  have hpprev : index.pprev.map (·, heightWalk - 1) = some (next, heightNext) →
      index.pprev = some next ∧ heightNext = heightWalk - 1 := by
    intro hmap
    obtain ⟨prev, hprev, heq⟩ := map_eq_some_iff.mp hmap
    rw [Prod.mk.injEq] at heq
    exact ⟨heq.1 ▸ hprev, heq.2.symm⟩
  unfold walkStep at h
  cases hskip : index.pskip with
  | none =>
    rw [hskip] at h
    exact Or.inr (hpprev h)
  | some skip =>
    rw [hskip] at h
    dsimp only at h
    split_ifs at h with hfollow
    · rw [Option.some.injEq, Prod.mk.injEq] at h
      exact Or.inl ⟨congrArg some h.1, h.2.symm⟩
    · exact Or.inr (hpprev h)

theorem parent_eq (h : t.index? e = some index) : t.parent e = index.pprev := by
  rw [parent, h, bind_some]

/-- One turn of the search goes up by as much as it counts. -/
theorem climb_of_walkStep (hexact : t.SkipExact) {walk : EntryPtr}
    (hindex : t.index? walk = some index) (hheight : height < index.nHeight)
    (h : walkStep index height index.nHeight = some (next, heightNext)) :
    climb t.parent (index.nHeight - heightNext) walk = some next := by
  rcases walkStep_cases h with ⟨hskip, rfl⟩ | ⟨hprev, rfl⟩
  · exact hexact walk index next hindex hskip
  · have hone : index.nHeight - (index.nHeight - 1) = 1 := by omega
    rw [hone, climb_one, parent_eq hindex, hprev]

/-- The loop of the search goes up by the difference of the heights. -/
theorem climb_of_getAncestorLoop (h : t.SkipLinked) (hexact : t.SkipExact) :
    ∀ (fuel : Nat) {walk e : EntryPtr} {heightWalk : Nat}, t.AtHeight walk heightWalk →
      height ≤ heightWalk → t.getAncestorLoop height fuel walk heightWalk = some e →
      climb t.parent (heightWalk - height) walk = some e := by
  intro fuel
  -- the loop stops exactly at the height
  have hstop : ∀ {walk e : EntryPtr} {heightWalk : Nat}, height ≤ heightWalk →
      ¬heightWalk > height → some walk = some e →
      climb t.parent (heightWalk - height) walk = some e := by
    intro walk e heightWalk hle hgt heq
    have hzero : heightWalk - height = 0 := by omega
    rw [hzero]
    exact heq
  induction fuel with
  | zero =>
    intro walk e heightWalk _ hle hloop
    rw [getAncestorLoop] at hloop
    split_ifs at hloop with hgt
    exact hstop hle hgt hloop
  | succ fuel ih =>
    intro walk e heightWalk hat hle hloop
    rw [getAncestorLoop] at hloop
    split_ifs at hloop with hgt
    · obtain ⟨index, hindex, rfl⟩ := hat.exists_index (by omega)
      obtain ⟨next, heightNext, hstep, hge, hlt, hnext⟩ := walkStep_spec (h walk index hindex) hgt
      rw [hindex, bind_eq_bind, bind_some, hstep] at hloop
      have hup := climb_of_walkStep hexact hindex hgt hstep
      have hsum : index.nHeight - height =
          (index.nHeight - heightNext) + (heightNext - height) := by omega
      rw [hsum, climb_add, hup, bind_some]
      exact ih hnext hge hloop
    · exact hstop hle hgt hloop

/-- `GetAncestor` finds the entry that is reached by going to the previous entry
as often as the heights differ. -/
theorem getAncestor_climb (h : t.SkipLinked) (hexact : t.SkipExact) (he : t.index? e = some index)
    (hle : height ≤ index.nHeight) :
    ∃ found, t.getAncestor e height = some (some found) ∧
      climb t.parent (index.nHeight - height) e = some found := by
  obtain ⟨found, hfound, -⟩ := getAncestor_spec h he hle
  refine ⟨found, hfound, ?_⟩
  have hrange : ¬((height : Int) > index.nHeight ∨ (height : Int) < 0) := by omega
  unfold getAncestor at hfound
  rw [he, bind_eq_bind, bind_some, if_neg hrange, Int.toNat_natCast] at hfound
  obtain ⟨walk, hwalk, heq⟩ := bind_eq_some_iff.mp hfound
  cases Option.some.inj heq
  exact climb_of_getAncestorLoop h hexact _ ⟨index, he, Or.inl rfl⟩ hle hwalk

/-! ## The growth -/

/-- A larger tree keeps the previous entry of an entry. -/
theorem Extends.parent (hext : t.Extends t') (h : t.parent e = some prev) :
    t'.parent e = some prev := by
  obtain ⟨index, hindex, hprev⟩ := bind_eq_some_iff.mp h
  rw [parent_eq (hext e index hindex), hprev]

/-- The skip pointer of a new node is the result of a search that starts at the
previous node. -/
theorem getAncestor_of_linkToPrev {node : BlockIndex} (hnode : node.pprev = none)
    (h : t.linkToPrev block node = some index) (hprev : index.pprev = some prev) :
    t.getAncestor prev (getSkipHeight index.nHeight) = some index.pskip := by
  unfold linkToPrev at h
  split at h
  · cases h
    rw [hnode] at hprev
    cases hprev
  · obtain ⟨pindex, -, h⟩ := bind_eq_some_iff.mp h
    obtain ⟨pskip, hpskip, h⟩ := bind_eq_some_iff.mp h
    cases h
    rw [Option.some.injEq] at hprev
    exact hprev ▸ hpskip

theorem raiseValidity_pskip (index : BlockIndex) (upTo : Nat) :
    (index.raiseValidity upTo).pskip = index.pskip := by
  unfold BlockIndex.raiseValidity
  split
  · rfl
  · split <;> rfl

/-- The skip pointer that `AddToBlockIndex` writes, in the old tree. -/
theorem getAncestor_of_addToBlockIndex (h : t.SkipLinked)
    (hadd : t.addToBlockIndex getHash block best = some (t', best', e))
    (happend : Appended t t' index) {pindex : BlockIndex} (hpprev : index.pprev = some prev)
    (hpindex : t.index? prev = some pindex) (hheight : index.nHeight = pindex.nHeight + 1) :
    t.getAncestor prev (getSkipHeight index.nHeight) = some index.pskip := by
  unfold addToBlockIndex at hadd
  rcases t.tryEmplace_cases (BlockIndex.ofHeader (getHash block) block) with
    ⟨e₁, -, hput⟩ | ⟨hnew, hput⟩
  · -- a node that was found appends nothing
    rw [hput] at hadd
    simp only [Bool.not_false, if_true, pure_def, Option.some.injEq, Prod.mk.injEq] at hadd
    have hlen := congrArg List.length (hadd.1 ▸ happend.entries)
    rw [List.length_append, List.length_singleton] at hlen
    omega
  · rw [hput] at hadd
    obtain ⟨hext, hnode⟩ := index?_push hnew
    simp only [Bool.not_true, Bool.false_eq_true, if_false, pure_def, bind_eq_bind,
      hnode, bind_some, bind_eq_some_iff, Option.some.injEq,
      Prod.mk.injEq] at hadd
    obtain ⟨linked, hlinked, rfl, -, -⟩ := hadd
    -- the appended node has the links that were made in the tree with the bare node
    obtain rfl : index = { linked.raiseValidity blockValidTree with hash := getHash block } := by
      have hlast := happend.entries
      rw [show ((t.push _ hnew).modify t.entries.length _ _).entries = _ from
        modify_last t.entries (BlockIndex.ofHeader (getHash block) block) _] at hlast
      exact (List.singleton_inj.mp (List.append_cancel_left hlast)).symm
    obtain ⟨hpprev', hheight'⟩ := raiseValidity_pprev linked blockValidTree
    have hfound := getAncestor_of_linkToPrev rfl hlinked (hpprev'.symm.trans hpprev)
    rw [← hheight', ← raiseValidity_pskip linked blockValidTree] at hfound
    have hle : getSkipHeight (pindex.nHeight + 1) ≤ pindex.nHeight :=
      Nat.le_of_lt_succ (getSkipHeight_lt (Nat.succ_pos _))
    obtain ⟨skip, hskip, -⟩ := getAncestor_spec h hpindex hle
    rw [← hheight] at hskip
    have hpush := getAncestor_mono hext hskip
    exact hskip.trans (hpush.symm.trans hfound)

/-- A new node keeps the skip pointers exact. -/
theorem SkipExact.append (hexact : t.SkipExact) (h : t.SkipLinked)
    (hadd : t.addToBlockIndex getHash block best = some (t', best', e))
    (happend : Appended t t' index) (hnew : NewNode t block (getHash block) index) :
    t'.SkipExact := by
  have hmono : ∀ {n : Nat} {x y : EntryPtr}, climb t.parent n x = some y →
      climb t'.parent n x = some y := climb_mono fun _ _ => happend.extends.parent
  intro x found skip hx hskip
  rcases happend.cases hx with hold | ⟨rfl, rfl⟩
  · exact hmono (hexact x found skip hold hskip)
  cases hnew.links with
  | root _ _ hpskip _ =>
    rw [hpskip] at hskip
    cases hskip
  | child prev skip' pindex _ hpindex hpprev hpskip hheight _ =>
    have hle : getSkipHeight found.nHeight ≤ pindex.nHeight := by
      rw [hheight]
      exact Nat.le_of_lt_succ (getSkipHeight_lt (Nat.succ_pos _))
    obtain ⟨skip'', hfound, hclimb⟩ := getAncestor_climb h hexact hpindex hle
    rw [getAncestor_of_addToBlockIndex h hadd happend hpprev hpindex hheight, hskip,
      Option.some.injEq, Option.some.injEq] at hfound
    have hsum : found.nHeight - getSkipHeight found.nHeight =
        1 + (pindex.nHeight - getSkipHeight found.nHeight) := by omega
    rw [hsum, climb_add, climb_one, parent_eq hx, hpprev, bind_some, hfound]
    exact hmono hclimb
  | itself _ _ hpprev hpskip hheight =>
    have hone : found.nHeight - getSkipHeight found.nHeight = 1 := by
      rw [hheight]
      rfl
    rw [hone, climb_one, parent_eq hx, hpprev, ← hskip, hpskip]

/-- One header, added to a tree with its best header. -/
def addHeader (getHash : BlockHeader → Uint256) (s : BlockTree × Option EntryPtr)
    (block : BlockHeader) : Option (BlockTree × Option EntryPtr) := do
  let (t, best, _) ← s.1.addToBlockIndex getHash block s.2
  return (t, best)

/-- The tree after the headers, added one at a time to the empty tree. -/
def addHeaders (getHash : BlockHeader → Uint256) (headers : List BlockHeader) :
    Option (BlockTree × Option EntryPtr) :=
  Runs.run (addHeader getHash) (BlockTree.empty, none) headers

/-- What a tree that was grown by adding headers satisfies. -/
structure Grown (t : BlockTree) : Prop where
  skipLinked : t.SkipLinked
  skipExact : t.SkipExact

theorem grown_empty : BlockTree.empty.Grown where
  skipLinked e index h := by cases h
  skipExact e index skip h := by cases h

/-- Adding a header returns and keeps the tree grown. -/
theorem Grown.addHeader (h : t.Grown) (getHash : BlockHeader → Uint256) (best : Option EntryPtr)
    (block : BlockHeader) :
    ∃ t' best', addHeader getHash (t, best) block = some (t', best') ∧ t'.Grown := by
  rcases addToBlockIndex_spec getHash h.skipLinked block best with
    ⟨e, -, hadd⟩ | ⟨-, t', index, happend, hnew, hadd⟩
  · exact ⟨t, best, by rw [BlockTree.addHeader, hadd]; rfl, h⟩
  · refine ⟨t', t'.raiseBestHeader best t.entries.length, ?_, ?_, ?_⟩
    · rw [BlockTree.addHeader, hadd]
      rfl
    · exact h.skipLinked.append happend hnew.links
    · exact h.skipExact.append h.skipLinked hadd happend hnew

/-- Adding any headers returns a grown tree. -/
theorem grown_addHeaders (getHash : BlockHeader → Uint256) (headers : List BlockHeader) :
    ∃ t best, addHeaders getHash headers = some (t, best) ∧ t.Grown := by
  have hstep : ∀ (pre : List BlockHeader) (block : BlockHeader) (s : BlockTree × Option EntryPtr),
      pre ++ [block] <+: headers →
      Runs.run (addHeader getHash) (BlockTree.empty, none) pre = some s → s.1.Grown →
      ∃ s', addHeader getHash s block = some s' ∧ s'.1.Grown := by
    intro pre block s _ _ h
    obtain ⟨t', best', hadd, h'⟩ := h.addHeader getHash s.2 block
    exact ⟨(t', best'), hadd, h'⟩
  obtain ⟨s, hrun, hgrown⟩ := Runs.run_history
    (I := fun (_ : List BlockHeader) (s : BlockTree × Option EntryPtr) => s.1.Grown) grown_empty
    hstep headers (List.prefix_refl headers)
  exact ⟨s.1, s.2, hrun, hgrown⟩

/-! ## The call -/

/-- On a grown tree `ancestor` goes to the previous entry as often as the heights
differ, and the assertions hold. -/
theorem Grown.ancestor (h : t.Grown) (he : t.index? e = some index) (height : Int) :
    (height < 0 ∨ height > index.nHeight) ∧ t.ancestor e height = some none ∨
      ∃ found, ¬(height < 0 ∨ height > index.nHeight) ∧ t.ancestor e height = some (some found) ∧
        climb t.parent (index.nHeight - height.toNat) e = some found := by
  unfold BlockTree.ancestor
  rw [he, bind_eq_bind, bind_some]
  by_cases hrange : height < 0 ∨ height > index.nHeight
  · rw [if_pos hrange]
    exact Or.inl ⟨hrange, rfl⟩
  · obtain ⟨n, rfl⟩ : ∃ n : Nat, height = n := ⟨height.toNat, by omega⟩
    have hle : n ≤ index.nHeight := by omega
    obtain ⟨found, hfound, hclimb⟩ := getAncestor_climb h.skipLinked h.skipExact he hle
    refine Or.inr ⟨found, hrange, ?_, by rwa [Int.toNat_natCast]⟩
    rw [if_neg hrange, btckGetAncestor, hfound]
    rfl

/-- On every tree that was grown by adding headers one at a time, `ancestor`
returns nothing exactly for a height below 0 or above the entry, and else the
entry that is reached by going to the previous entry as often as the heights
differ.  Adding the headers and the calls all return, so no assertion fails. -/
theorem ancestor_eq_climb (getHash : BlockHeader → Uint256) (headers : List BlockHeader) :
    ∃ t best, addHeaders getHash headers = some (t, best) ∧
      ∀ e index, t.index? e = some index → ∀ height : Int,
        (t.ancestor e height = some none ↔ height < 0 ∨ height > index.nHeight) ∧
        (¬(height < 0 ∨ height > index.nHeight) → ∃ found, t.ancestor e height = some (some found) ∧
            climb t.parent (index.nHeight - height.toNat) e = some found) := by
  obtain ⟨t, best, hrun, hgrown⟩ := grown_addHeaders getHash headers
  refine ⟨t, best, hrun, ?_⟩
  intro e index he height
  rcases hgrown.ancestor he height with ⟨hrange, hnone⟩ | ⟨found, hrange, hfound, hclimb⟩
  · exact ⟨iff_of_true hnone hrange, fun h => absurd hrange h⟩
  · refine ⟨iff_of_false ?_ hrange, fun _ => ⟨found, hfound, hclimb⟩⟩
    rw [hfound]
    exact fun heq => nomatch Option.some.inj heq

end BitcoinKernel.State.BlockTree
