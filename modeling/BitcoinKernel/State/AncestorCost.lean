import BitcoinKernel.State.Ancestor
import BitcoinKernel.State.SkipWalk

/-!
# `BlockTreeEntry::ancestor` is not logarithmic

The documentation of `BlockTreeEntry::ancestor` says that the operation is
O(log N).  This module counts the pointers that the search follows, on block
trees of any height.

There are three groups.

* The pointers.  `followed` is the loop of `GetAncestor` with the pointers that it
  follows (`getAncestorLoop_eq_followed`).
* The trees.  A `BlockTree` has one node for each hash, so its heights are bounded.
  A `SkipTree` has the same links and no bound.  Every tree that was grown by adding
  headers is one (`Grown.skipTree`), and so is a chain of any length (`chain`).
* The calls.  A `Search` is an entry above height 0 and a height up to that of the
  entry; `exists_search` is the one that `GetAncestor` makes on a grown tree.  Its
  cost is the number of turns of the walk through heights
  (`Search.followsAtMost_iff`).  No constant bounds it by the logarithm for all
  searches (`not_logarithmic`), and `logarithmic_iff` says for which ones there is
  such a constant.
-/

namespace BitcoinKernel.State.BlockTree

open RootPath Option

/-! ## The pointers -/

/-- The pointers that the loop of `GetAncestor` follows. -/
def followed (entries : List BlockIndex) (height : Nat) :
    Nat → EntryPtr → Nat → Option (List EntryPtr)
  | 0, _, heightWalk => if heightWalk > height then none else some []
  | fuel + 1, walk, heightWalk =>
    if heightWalk > height then do
      let index ← entries[walk]?
      let (next, heightNext) ← walkStep index height heightWalk
      let rest ← followed entries height fuel next heightNext
      return next :: rest
    else some []

/-- The loop returns the last node to which it has followed a pointer. -/
theorem getAncestorLoop_eq_followed (t : BlockTree) (height fuel heightWalk : Nat)
    (walk : EntryPtr) :
    t.getAncestorLoop height fuel walk heightWalk =
      (followed t.entries height fuel walk heightWalk).map (List.getLastD · walk) := by
  induction fuel generalizing walk heightWalk with
  | zero =>
    rw [getAncestorLoop, followed]
    split_ifs with hgt
    · rfl
    · rfl
  | succ fuel ih =>
    rw [getAncestorLoop, followed]
    split_ifs with hgt
    · rw [index?]
      cases t.entries[walk]? with
      | none => rfl
      | some index =>
        dsimp only [bind_eq_bind, bind_some]
        cases walkStep index height heightWalk with
        | none => rfl
        | some step =>
          dsimp only [bind_some]
          rw [ih]
          cases followed t.entries height fuel step.1 step.2 with
          | none => rfl
          | some rest =>
            dsimp only [bind_some, map_some, pure_def]
            rw [List.getLastD_cons]
    · rfl

/-! ## The trees -/

/-- The search may stand at the node and count the height. -/
def HeightAt (entries : List BlockIndex) (e : EntryPtr) (height : Nat) : Prop :=
  ∃ index, entries[e]? = some index ∧ (index.nHeight = height ∨ (height = 0 ∧ index.pprev = some e))

/-- The links of a node: to a node one below, and to the ancestor at the skip
height. -/
structure Links (entries : List BlockIndex) (e : EntryPtr) (index : BlockIndex) : Prop where
  pprev : ∃ prev, index.pprev = some prev ∧ HeightAt entries prev (index.nHeight - 1)
  pskip : ∃ skip, index.pskip = some skip ∧ HeightAt entries skip (getSkipHeight index.nHeight) ∧
    climb (fun e => entries[e]?.bind BlockIndex.pprev)
      (index.nHeight - getSkipHeight index.nHeight) e = some skip

/-- Nodes with the links that `AddToBlockIndex` makes.  The heights have no bound,
since the hashes of the nodes need not differ. -/
structure SkipTree where
  entries : List BlockIndex
  links : ∀ e index, entries[e]? = some index → 0 < index.nHeight → Links entries e index

/-- Every node above height 0 has a skip pointer. -/
def HasSkips (t : BlockTree) : Prop :=
  ∀ e index, t.index? e = some index → 0 < index.nHeight → ∃ skip, index.pskip = some skip

variable {t : BlockTree} {index : BlockIndex} {getHash : BlockHeader → Uint256}
  {headers : List BlockHeader} {best : Option EntryPtr} {top height : Nat} {e : EntryPtr}

theorem HasSkips.append {t' : BlockTree} {block : BlockHeader} {hash : Uint256} (h : t.HasSkips)
    (happend : Appended t t' index) (hlinks : NewLinks t t.entries.length block hash index) :
    t'.HasSkips := by
  intro e found he hpos
  rcases happend.cases he with hold | ⟨-, rfl⟩
  · exact h e found hold hpos
  · cases hlinks with
    | root _ _ _ hheight => omega
    | child _ skip _ _ _ _ hpskip => exact ⟨skip, hpskip⟩
    | itself _ _ _ hpskip => exact ⟨_, hpskip⟩

/-- The invariant rule for adding headers: what a new node keeps holds of the tree. -/
theorem addHeaders_invariant {P : BlockTree → Prop} (hempty : P BlockTree.empty)
    (happends : ∀ {t t' index block hash}, P t → Appended t t' index →
      NewLinks t t.entries.length block hash index → P t')
    (h : addHeaders getHash headers = some (t, best)) : t.Grown ∧ P t := by
  refine Runs.run_invariant
    (I := fun (_ : List BlockHeader) (s : BlockTree × Option EntryPtr) => s.1.Grown ∧ P s.1)
    ⟨grown_empty, hempty⟩ ?_ h
  intro pre block s s' hs hadd
  obtain ⟨t', best', hadd', hgrown⟩ := hs.1.addHeader getHash s.2 block
  cases hadd.symm.trans hadd'
  refine ⟨hgrown, ?_⟩
  obtain ⟨r, hr, heq⟩ := bind_eq_some_iff.mp hadd
  cases heq
  rcases addToBlockIndex_spec getHash hs.1.skipLinked block s.2 with
    ⟨e, -, hspec⟩ | ⟨-, t', index, happend, hnew, hspec⟩
  · cases hr.symm.trans hspec
    exact hs.2
  · cases hr.symm.trans hspec
    exact happends hs.2 happend hnew.links

/-- Adding headers makes a tree that has skip pointers everywhere. -/
theorem hasSkips_addHeaders (h : addHeaders getHash headers = some (t, best)) :
    t.Grown ∧ t.HasSkips :=
  addHeaders_invariant (fun e index he => by cases he) HasSkips.append h

/-- A grown tree, without the condition on its hashes. -/
def Grown.skipTree {t : BlockTree} (h : t.Grown) (hskips : t.HasSkips) : SkipTree where
  entries := t.entries
  links e index he hpos := by
    obtain ⟨skip, hskip⟩ := hskips e index he hpos
    have hlinked := h.skipLinked e index he
    constructor
    · rcases hlinked.pprev with hzero | hprev
      · omega
      · exact hprev
    · exact ⟨skip, hskip, hlinked.pskip skip hskip, h.skipExact e index skip he hskip⟩

/-- The entry at a height of a chain. -/
def chainNode (height : Nat) : BlockIndex where
  hash := Uint256.null
  pprev := if height = 0 then none else some (height - 1)
  pskip := if height = 0 then none else some (getSkipHeight height)
  nHeight := height

/-- The entries of a chain up to a height. -/
def chainEntries (top : Nat) : List BlockIndex := (List.range (top + 1)).map chainNode

theorem chainEntries_getElem? (top e : Nat) :
    (chainEntries top)[e]? = if e ≤ top then some (chainNode e) else none := by
  rw [chainEntries, List.getElem?_map]
  split_ifs with hle
  · rw [List.getElem?_range (Nat.lt_succ_of_le hle), map_some]
  · rw [List.getElem?_eq_none (by rw [List.length_range]; omega), map_none]

theorem heightAt_chainEntries (h : height ≤ top) : HeightAt (chainEntries top) height height :=
  ⟨chainNode height, by rw [chainEntries_getElem?, if_pos h], Or.inl rfl⟩

theorem climb_chainEntries (k : Nat) {e : Nat} (he : e ≤ top) (hk : k ≤ e) :
    climb (fun e => (chainEntries top)[e]?.bind BlockIndex.pprev) k e = some (e - k) := by
  induction k generalizing e with
  | zero => rfl
  | succ k ih =>
    have hprev : (chainNode e).pprev = some (e - 1) := if_neg (by omega)
    rw [climb, chainEntries_getElem?, if_pos he, bind_some, hprev, bind_some,
      ih (by omega) (by omega)]
    congr 1
    omega

/-- The tree that is one chain of entries. -/
def chain (top : Nat) : SkipTree where
  entries := chainEntries top
  links e index he hpos := by
    rw [chainEntries_getElem?] at he
    split_ifs at he with hle
    cases he
    have hne : e ≠ 0 := Nat.ne_of_gt hpos
    have hskip : getSkipHeight e < e := getSkipHeight_lt hpos
    refine ⟨⟨e - 1, if_neg hne, heightAt_chainEntries (by omega)⟩, getSkipHeight e, if_neg hne,
      heightAt_chainEntries (by omega), ?_⟩
    show climb _ (e - getSkipHeight e) e = _
    rw [climb_chainEntries _ hle (Nat.sub_le e _), Nat.sub_sub_self (Nat.le_of_lt hskip)]

/-! ## The calls -/

/-- A search for a height up to that of an entry above height 0. -/
structure Search where
  tree : SkipTree
  entry : EntryPtr
  index : BlockIndex
  index_eq : tree.entries[entry]? = some index
  nHeight_pos : 1 ≤ index.nHeight
  height : Nat
  height_le : height ≤ index.nHeight

/-- The pointers that the search follows. -/
def Search.pointers (q : Search) : Option (List EntryPtr) :=
  followed q.tree.entries q.height (q.index.nHeight - q.height) q.entry q.index.nHeight

/-- On every tree that was grown by adding headers, `GetAncestor` makes such a
search and returns the last node to which it has followed a pointer. -/
theorem exists_search (h : addHeaders getHash headers = some (t, best))
    (he : t.index? e = some index) (hpos : 1 ≤ index.nHeight) (hle : height ≤ index.nHeight) :
    ∃ q : Search, q.tree.entries = t.entries ∧ q.entry = e ∧ q.index = index ∧ q.height = height ∧
      t.getAncestor e height = q.pointers.map fun pointers => some (pointers.getLastD e) := by
  obtain ⟨hgrown, hskips⟩ := hasSkips_addHeaders h
  refine ⟨⟨hgrown.skipTree hskips, e, index, he, hpos, height, hle⟩, rfl, rfl, rfl, rfl, ?_⟩
  have hrange : ¬((height : Int) > index.nHeight ∨ (height : Int) < 0) := by omega
  rw [getAncestor, he, bind_eq_bind, bind_some, if_neg hrange, Int.toNat_natCast,
    getAncestorLoop_eq_followed]
  show _ = Option.map _ (followed t.entries height (index.nHeight - height) e index.nHeight)
  cases followed t.entries height (index.nHeight - height) e index.nHeight with
  | none => rfl
  | some pointers => rfl

/-- The search returns and follows at most so many pointers. -/
def Search.FollowsAtMost (q : Search) (bound : Nat) : Prop :=
  ∃ pointers, q.pointers = some pointers ∧ pointers.length ≤ bound

/-- One turn of the search goes to the next height of the walk. -/
theorem SkipTree.walkStep_eq (t : SkipTree) (he : t.entries[e]? = some index)
    (hheight : height < index.nHeight) :
    ∃ next, walkStep index height index.nHeight = some (next, nextHeight height index.nHeight) ∧
      HeightAt t.entries next (nextHeight height index.nHeight) := by
  have hlinks := t.links e index he (by omega)
  obtain ⟨prev, hprev, hatPrev⟩ := hlinks.pprev
  obtain ⟨skip, hskip, hatSkip, -⟩ := hlinks.pskip
  rw [walkStep, hskip, nextHeight]
  dsimp only
  split_ifs with hfollow
  · exact ⟨skip, rfl, hatSkip⟩
  · exact ⟨prev, by rw [hprev, map_some], hatPrev⟩

/-- The search follows as many pointers as the walk has turns. -/
theorem SkipTree.exists_followed (t : SkipTree) (fuel : Nat) {walk : EntryPtr} {heightWalk : Nat}
    (hat : HeightAt t.entries walk heightWalk) (hle : height ≤ heightWalk)
    (hfuel : heightWalk - height ≤ fuel) :
    ∃ pointers, followed t.entries height fuel walk heightWalk = some pointers ∧
      pointers.length = steps height heightWalk := by
  induction fuel generalizing walk heightWalk with
  | zero => exact ⟨[], by rw [followed, if_neg (by omega)], by rw [steps_of_le (by omega)]; rfl⟩
  | succ fuel ih =>
    by_cases hgt : heightWalk > height
    · obtain ⟨index, hindex, hcount⟩ := hat
      have hnHeight : index.nHeight = heightWalk := by
        rcases hcount with heq | ⟨hzero, -⟩
        · exact heq
        · omega
      subst hnHeight
      obtain ⟨next, hstep, hatNext⟩ := t.walkStep_eq hindex hgt
      have hge : height ≤ nextHeight height index.nHeight := le_nextHeight hgt
      have hlt : nextHeight height index.nHeight < index.nHeight := nextHeight_lt (by omega)
      obtain ⟨rest, hrest, hlength⟩ := ih hatNext hge (by omega)
      refine ⟨next :: rest, ?_, ?_⟩
      · rw [followed, if_pos hgt, hindex, bind_eq_bind, bind_some, hstep]
        show (followed t.entries height fuel next _).bind _ = _
        rw [hrest]
        rfl
      · rw [List.length_cons, hlength, steps_of_lt hgt]
    · exact ⟨[], by rw [followed, if_neg hgt], by rw [steps_of_le (by omega)]; rfl⟩

/-- The cost of a search in turns of the walk. -/
theorem Search.followsAtMost_iff (q : Search) (bound : Nat) :
    q.FollowsAtMost bound ↔ steps q.height q.index.nHeight ≤ bound := by
  have hat : HeightAt q.tree.entries q.entry q.index.nHeight := ⟨q.index, q.index_eq, Or.inl rfl⟩
  obtain ⟨pointers, hpointers, hlength⟩ :=
    q.tree.exists_followed (q.index.nHeight - q.height) hat q.height_le (Nat.le_refl _)
  constructor
  · rintro ⟨pointers', hpointers', hle⟩
    cases hpointers.symm.trans hpointers'
    omega
  · intro hle
    exact ⟨pointers, hpointers, by omega⟩

/-- The search for a height from the top of a chain. -/
def chainSearch (top height : Nat) (hpos : 1 ≤ top) (hle : height ≤ top) : Search where
  tree := chain top
  entry := top
  index := chainNode top
  index_eq := by
    show (chainEntries top)[top]? = _
    rw [chainEntries_getElem?, if_pos (Nat.le_refl top)]
  nHeight_pos := hpos
  height := height
  height_le := hle

/-- No constant bounds the pointers that a search follows by the logarithm of the
height of its entry. -/
theorem not_logarithmic :
    ¬∃ C, ∀ q : Search, q.FollowsAtMost (C * (Nat.log 2 q.index.nHeight + 1)) := by
  rintro ⟨C, hC⟩
  -- from the height 2 ^ (k + 2) to the height 2, with a large k
  have hpow : 2 ≤ 2 ^ (4 * C + 1 + 2) := Nat.le_self_pow (by omega) 2
  have hsteps : steps 2 (2 ^ (4 * C + 1 + 2)) ≤ C * (Nat.log 2 (2 ^ (4 * C + 1 + 2)) + 1) :=
    (Search.followsAtMost_iff _ _).mp
      (hC (chainSearch (2 ^ (4 * C + 1 + 2)) 2 (by omega) hpow))
  rw [Nat.log_pow (by decide)] at hsteps
  have hzeros := zeros_le hpow
  have hsum := two_mul_zeros_two_pow (4 * C + 1)
  have hproduct : (4 * C + 1) * (4 * C + 1 + 3) =
      4 * (C * (4 * C + 1 + 2 + 1)) + (4 * C + 4) := by ring
  omega

/-- For a set of searches there is such a constant exactly if the sum of the zeros
is bounded by the logarithm on it.  The zeros of a search are those of the height
that is looked for, below the highest bit in which it differs from the height of the
entry, and above a number of at least two. -/
theorem logarithmic_iff (searches : Set Search) :
    (∃ C, ∀ q ∈ searches, q.FollowsAtMost (C * (Nat.log 2 q.index.nHeight + 1))) ↔
      ∃ K, ∀ q ∈ searches,
        zeros q.index.nHeight q.height ≤ K * (Nat.log 2 q.index.nHeight + 1) := by
  constructor
  · rintro ⟨C, hC⟩
    refine ⟨2 * C, fun q hq => ?_⟩
    have hsteps := (q.followsAtMost_iff _).mp (hC q hq)
    have hzeros := zeros_le q.height_le
    rw [Nat.mul_assoc]
    omega
  · rintro ⟨K, hK⟩
    refine ⟨K + 12, fun q hq => (q.followsAtMost_iff _).mpr ?_⟩
    have hzeros := hK q hq
    have hsteps := steps_le_zeros q.height_le
    rw [Nat.add_mul]
    omega

end BitcoinKernel.State.BlockTree
