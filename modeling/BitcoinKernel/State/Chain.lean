import BitcoinKernel.Lib.RootPath
import BitcoinKernel.State.BlockIndex

/-!
# The active chain

`CChain` (`chain.h`) is a vector of pointers into the block index, one slot
for each height.  `SetTip` is its only update.  It resizes the vector to the
height of the new tip and rewrites the slots downwards, but only until it
meets a slot that already holds the right node.

The model keeps the vector with its null pointers.  `IsChain t c l` says that
the slots of `c` are the root path `l` of the tree.  `isChain_setTip` is the
theorem about the loop: stopping early is sound, because two root paths that
meet in a node agree below it, so the slots that are left alone are right.
It rests on `Linked`, the relation between heights and previous pointers that
`AddToBlockIndex` keeps (`linked_addToBlockIndex`).
-/

namespace BitcoinKernel.State

open RootPath List Option

namespace BlockTree

/-! ## Heights and previous pointers -/

/-- `pprev` of a node. -/
def parent (t : BlockTree) (e : EntryPtr) : Option EntryPtr := (t.index? e).bind BlockIndex.pprev

/-- `nHeight` of a node. -/
def height? (t : BlockTree) (e : EntryPtr) : Option Nat := (t.index? e).map BlockIndex.nHeight

/-- A node without a previous node has height 0, and every other node is one
above its previous node. -/
def Linked (t : BlockTree) : Prop :=
  ∀ e height, t.height? e = some height → match t.parent e with
    | none => height = 0
    | some prev => ∃ heightPrev, t.height? prev = some heightPrev ∧ height = heightPrev + 1

variable {t t' : BlockTree} {e : EntryPtr}

/-- The root path of a node of the tree. -/
theorem Linked.exists_path (h : t.Linked) {height : Nat} (he : t.height? e = some height) :
    ∃ l, IsRootPath t.parent (l ++ [e]) ∧ l.length = height ∧
      ∀ x ∈ l ++ [e], (t.height? x).isSome := by
  induction height generalizing e with
  | zero =>
    have hlink := h e 0 he
    cases hparent : t.parent e with
    | none =>
      refine ⟨[], .snoc .nil hparent, rfl, ?_⟩
      intro x hx
      rw [nil_append, mem_singleton] at hx
      rw [hx, he, isSome_some]
    | some prev =>
      rw [hparent] at hlink
      obtain ⟨_, -, hzero⟩ := hlink
      omega
  | succ height ih =>
    have hlink := h e (height + 1) he
    cases hparent : t.parent e with
    | none =>
      rw [hparent] at hlink
      exact absurd hlink (Nat.succ_ne_zero _)
    | some prev =>
      rw [hparent] at hlink
      obtain ⟨heightPrev, hprev, hheight⟩ := hlink
      obtain rfl : height = heightPrev := by omega
      obtain ⟨l, hpath, hlen, hmem⟩ := ih hprev
      refine ⟨l ++ [prev], .snoc hpath ?_, ?_, ?_⟩
      · rw [hparent, getLast?_concat]
      · rw [length_append, length_singleton, hlen]
      · intro x hx
        rcases mem_append.mp hx with hx | hx
        · exact hmem x hx
        · rw [mem_singleton.mp hx, he, isSome_some]

/-- On a root path the heights count from 0. -/
theorem Linked.height_of_path (h : t.Linked) {l : List EntryPtr} (hpath : IsRootPath t.parent l)
    (hmem : ∀ x ∈ l, (t.height? x).isSome) {n : Nat} (he : l[n]? = some e) :
    t.height? e = some n := by
  obtain ⟨height, hheight⟩ := isSome_iff_exists.mp (hmem e (mem_of_getElem? he))
  obtain ⟨l', hpath', hlen, -⟩ := h.exists_path hheight
  obtain ⟨hn, -⟩ := hpath'.prefix_of_getElem? hpath he
  rw [hheight, ← hlen, hn]

/-- A tree that grows by one node keeps the height and the previous node of
every other node. -/
private theorem height?_parent_of_append {index : BlockIndex}
    (h : t'.entries = t.entries ++ [index]) (he : e ≠ t.entries.length) :
    t'.height? e = t.height? e ∧ t'.parent e = t.parent e := by
  have hindex : t'.index? e = t.index? e := by
    rw [index?, index?, h]
    rcases Nat.lt_or_gt_of_ne he with hlt | hgt
    · rw [getElem?_append_left hlt]
    · rw [getElem?_eq_none (Nat.le_of_lt hgt), getElem?_eq_none]
      rw [length_append, length_singleton]
      exact hgt
  rw [height?, height?, parent, parent, hindex]
  exact ⟨rfl, rfl⟩

/-- `AddToBlockIndex` keeps the heights in step with the previous pointers. -/
theorem linked_addToBlockIndex {getHash : BlockHeader → Uint256} {block : BlockHeader}
    {best best' : Option EntryPtr} (h : t.Linked) (hself : getHash block ≠ block.hashPrevBlock)
    (hadd : t.addToBlockIndex getHash block best = some (t', best', e)) : t'.Linked := by
  rcases addToBlockIndex_cases hself hadd with rfl | ⟨index, hentries, hnew⟩
  · exact h
  have hlast : t'.index? t.entries.length = some index := by
    rw [index?, hentries, getElem?_concat_length]
  have hold : ∀ {x heightx}, t.height? x = some heightx → t'.height? x = some heightx := by
    intro x heightx hx
    obtain ⟨_, hindex, -⟩ := map_eq_some_iff.mp hx
    have hlt := (List.getElem?_eq_some_iff.mp hindex).1
    rw [(height?_parent_of_append hentries (Nat.ne_of_lt hlt)).1, hx]
  intro x height hx
  by_cases hxe : x = t.entries.length
  · subst hxe
    rw [height?, hlast, map_some, Option.some.injEq] at hx
    rw [parent, hlast, bind_some]
    rcases hnew with ⟨hpprev, hheight⟩ | ⟨prev, pprev, hprev, hpprev, hheight⟩
    · rw [hpprev]
      exact hx.symm.trans hheight
    · rw [hpprev]
      refine ⟨pprev.nHeight, hold ?_, hx.symm.trans hheight⟩
      rw [height?, hprev, map_some]
  · obtain ⟨hheight, hparent⟩ := height?_parent_of_append hentries hxe
    rw [hheight] at hx
    have hlink := h x height hx
    rw [hparent]
    cases hp : t.parent x with
    | none => rwa [hp] at hlink
    | some prev =>
      rw [hp] at hlink
      obtain ⟨heightPrev, hprev, heq⟩ := hlink
      exact ⟨heightPrev, hold hprev, heq⟩

end BlockTree

/-! ## The vector -/

/-- `CChain`. -/
structure CChain where
  vChain : List (Option EntryPtr) := []
deriving DecidableEq, Repr

namespace CChain

/-- `Height`. -/
def height (c : CChain) : Int := c.vChain.length - 1

/-- `operator[]`. -/
def get (c : CChain) (nHeight : Int) : Option EntryPtr :=
  if nHeight < 0 ∨ nHeight ≥ c.vChain.length then none else c.vChain[nHeight.toNat]?.join

/-- `Tip`. -/
def tip (c : CChain) : Option EntryPtr :=
  if c.vChain.length > 0 then c.vChain[c.vChain.length - 1]?.join else none

/-- `CChain::Contains`. -/
def contains (c : CChain) (t : BlockTree) (e : EntryPtr) : Bool :=
  match t.index? e with
  | some index => c.get index.nHeight == some e
  | none => false

/-- `std::vector::resize`.  New slots are null. -/
def resize (v : List (Option EntryPtr)) (n : Nat) : List (Option EntryPtr) :=
  v.take n ++ List.replicate (n - v.length) none

/-- The loop of `SetTip`.  Every turn goes to a lower height, so the height
of the tip plus one is enough fuel. -/
def setTipLoop (t : BlockTree) :
    Nat → Option EntryPtr → List (Option EntryPtr) → List (Option EntryPtr)
  | 0, _, v => v
  | _ + 1, none, v => v
  | fuel + 1, some pindex, v =>
    match t.index? pindex with
    | none => v
    | some index =>
      if v[index.nHeight]? = some (some pindex) then v
      else setTipLoop t fuel index.pprev (v.set index.nHeight (some pindex))

variable {t : BlockTree} {e : EntryPtr} {index : BlockIndex} {v old : List (Option EntryPtr)}
  {k : Nat} {path l blocks : List EntryPtr} {c : CChain}

/-- One turn of the loop. -/
theorem setTipLoop_succ (h : t.index? e = some index) (fuel : Nat) (v : List (Option EntryPtr)) :
    setTipLoop t (fuel + 1) (some e) v = if v[index.nHeight]? = some (some e) then v
      else setTipLoop t fuel index.pprev (v.set index.nHeight (some e)) := by
  rw [setTipLoop, h]

/-- `SetTip`. -/
def setTip (t : BlockTree) (c : CChain) (block : EntryPtr) : CChain :=
  match t.index? block with
  | none => c
  | some index =>
    ⟨setTipLoop t (index.nHeight + 1) (some block) (resize c.vChain (index.nHeight + 1))⟩

theorem vChain_setTip (h : t.index? e = some index) (c : CChain) : (setTip t c e).vChain =
      setTipLoop t (index.nHeight + 1) (some e) (resize c.vChain (index.nHeight + 1)) := by
  rw [setTip, h]

/-- Several updates of the tip, one after the other. -/
def setTips (t : BlockTree) (c : CChain) (blocks : List EntryPtr) : CChain :=
  blocks.foldl (setTip t) c

theorem setTips_append (t : BlockTree) (c : CChain) (blocks blocks' : List EntryPtr) :
    setTips t c (blocks ++ blocks') = setTips t (setTips t c blocks) blocks' :=
  foldl_append

/-- The slots of the chain are the root path `l`. -/
structure IsChain (t : BlockTree) (c : CChain) (l : List EntryPtr) : Prop where
  slots : c.vChain = l.map some
  path : IsRootPath t.parent l
  mem : ∀ x ∈ l, (t.height? x).isSome

theorem isChain_empty (t : BlockTree) : IsChain t {} [] := ⟨rfl, .nil, by simp⟩

namespace IsChain

variable {t : BlockTree} {c : CChain} {l : List EntryPtr}

theorem length_eq (h : IsChain t c l) : c.vChain.length = l.length := by
  rw [h.slots, length_map]

theorem height_eq (h : IsChain t c l) : c.height = l.length - 1 := by
  rw [height, h.length_eq]

/-- A height is looked up in the root path. -/
theorem get_natCast (h : IsChain t c l) (n : Nat) : c.get n = l[n]? := by
  rw [get, h.length_eq]
  split
  · rename_i hout
    rw [getElem?_eq_none (by omega)]
  · rw [Int.toNat_natCast, h.slots, getElem?_map]
    cases l[n]? <;> rfl

theorem tip_eq (h : IsChain t c l) : c.tip = l.getLast? := by
  rw [tip, h.length_eq, h.slots, getElem?_map, getLast?_eq_getElem?]
  split
  · cases l[l.length - 1]? <;> rfl
  · rw [getElem?_eq_none (by omega)]

end IsChain

/-! ## The update -/

theorem length_resize (v : List (Option EntryPtr)) (n : Nat) : (resize v n).length = n := by
  rw [resize, length_append, length_take, length_replicate]
  omega

/-- A slot that is not null after a resize was there before. -/
theorem getElem?_resize {n : Nat} (h : (resize v n)[k]? = some (some e)) :
    v[k]? = some (some e) ∧ (resize v n).take (k + 1) = v.take (k + 1) := by
  have hk : k < n := length_resize v n ▸ (List.getElem?_eq_some_iff.mp h).1
  have hv : k < v.length := by
    by_contra hge
    rw [resize, getElem?_append_right (by rw [length_take]; omega)] at h
    cases eq_of_mem_replicate (mem_of_getElem? h)
  have htake : (resize v n).take (k + 1) = v.take (k + 1) := by
    rw [resize, take_append_of_le_length (by rw [length_take]; omega), take_take,
      Nat.min_eq_left hk]
  refine ⟨?_, htake⟩
  rw [← h, ← getElem?_take_of_lt (Nat.lt_succ_self k),
    ← getElem?_take_of_lt (l := resize v n) (Nat.lt_succ_self k), htake]

/-- The state of the loop of `SetTip` at the height `k` of the path `path`.
The slots above `k` are done, and the slots up to `k` are those of `old`. -/
structure LoopAt (path : List EntryPtr) (old v : List (Option EntryPtr)) (k : Nat) : Prop where
  length : v.length = path.length
  done : v.drop (k + 1) = (path.drop (k + 1)).map some
  todo : v.take (k + 1) = old.take (k + 1)

/-- When the slot at `k` already holds the right node, all slots are right. -/
theorem LoopAt.eq_of_meet (h : LoopAt path old v k)
    (htake : old.take (k + 1) = (path.take (k + 1)).map some) : v = path.map some := by
  rw [← take_append_drop (k + 1) v, h.done, h.todo, htake, ← map_append, take_append_drop]

/-- A turn that writes the slot at `k`. -/
theorem LoopAt.set (h : LoopAt path old v k) (he : path[k]? = some e) :
    (v.set k (some e)).drop k = (path.drop k).map some ∧
      (v.set k (some e)).take k = old.take k := by
  have hk : k < path.length := (List.getElem?_eq_some_iff.mp he).1
  have hek : path[k] = e := (List.getElem?_eq_some_iff.mp he).2
  constructor
  · rw [drop_set, if_neg (Nat.lt_irrefl k), Nat.sub_self, drop_eq_getElem_cons hk, hek,
      map_cons, ← h.done, drop_eq_getElem_cons (by rw [h.length]; exact hk),
      set_cons_zero]
  · have htake := congrArg (List.take k) h.todo
    rw [take_take, take_take, Nat.min_eq_left (Nat.le_succ k)] at htake
    rw [take_set_of_le (Nat.le_refl k)]
    exact htake

/-- The previous node of a node on a root path. -/
theorem parent_of_path (hpath : IsRootPath t.parent path) (he : path[k]? = some e) :
    t.parent e = (path.take k).getLast? := by
  have htake := hpath.take (k + 1)
  rw [take_add_one, he, toList_some] at htake
  exact (isRootPath_snoc.mp htake).2

/-- The loop of `SetTip` completes the path, provided that the old slots
agree with the path below every slot in which they meet it. -/
theorem setTipLoop_eq (hpath : IsRootPath t.parent path)
    (hheight : ∀ n e, path[n]? = some e → t.height? e = some n)
    (hold : ∀ n e, old[n]? = some (some e) → path[n]? = some e →
      old.take (n + 1) = (path.take (n + 1)).map some)
    (k : Nat) (e : EntryPtr) (v : List (Option EntryPtr)) (he : path[k]? = some e)
    (hloop : LoopAt path old v k) : setTipLoop t (k + 1) (some e) v = path.map some := by
  induction k generalizing e v with
  | zero =>
    obtain ⟨index, hindex, hk⟩ := map_eq_some_iff.mp (hheight 0 e he)
    rw [setTipLoop_succ hindex, hk]
    split
    · rename_i hmeet
      rw [← getElem?_take_of_lt Nat.zero_lt_one, hloop.todo,
        getElem?_take_of_lt Nat.zero_lt_one] at hmeet
      exact hloop.eq_of_meet (hold 0 e hmeet he)
    · exact (hloop.set he).1
  | succ k ih =>
    obtain ⟨index, hindex, hk⟩ := map_eq_some_iff.mp (hheight (k + 1) e he)
    rw [setTipLoop_succ hindex, hk]
    split
    · rename_i hmeet
      rw [← getElem?_take_of_lt (Nat.lt_succ_self (k + 1)), hloop.todo,
        getElem?_take_of_lt (Nat.lt_succ_self (k + 1))] at hmeet
      exact hloop.eq_of_meet (hold (k + 1) e hmeet he)
    · -- the slot is written and the loop goes on at the previous node
      have hlt : k < path.length := by
        have := (List.getElem?_eq_some_iff.mp he).1
        omega
      have hprev : index.pprev = some path[k] := by
        have hparent := parent_of_path hpath he
        rw [getLast?_take, if_neg (Nat.succ_ne_zero k), Nat.add_sub_cancel,
          getElem?_eq_getElem hlt, some_or, BlockTree.parent, hindex,
          bind_some] at hparent
        exact hparent
      obtain ⟨hdone, htodo⟩ := hloop.set he
      rw [hprev]
      refine ih path[k] _ (getElem?_eq_getElem hlt) ⟨?_, hdone, htodo⟩
      rw [length_set, hloop.length]

/-- `SetTip` makes the root path of the new tip the chain. -/
theorem isChain_setTip (hlinked : t.Linked) (hc : IsChain t c l) (he : (t.height? e).isSome) :
    ∃ l', IsChain t (setTip t c e) (l' ++ [e]) := by
  obtain ⟨height, hheight⟩ := isSome_iff_exists.mp he
  obtain ⟨l', hpath, hlen, hmem⟩ := hlinked.exists_path hheight
  obtain ⟨index, hindex, hk⟩ := map_eq_some_iff.mp hheight
  refine ⟨l', ?_, hpath, hmem⟩
  subst hlen
  rw [vChain_setTip hindex, hk]
  have hlength : (l' ++ [e]).length = l'.length + 1 := by
    rw [length_append, length_singleton]
  refine setTipLoop_eq hpath (fun _ _ => hlinked.height_of_path hpath hmem) ?_ l'.length e _
    (by simp) ⟨?_, ?_, rfl⟩
  · intro n x hx hx'
    obtain ⟨hslot, htake⟩ := getElem?_resize hx
    rw [hc.slots, getElem?_map, map_eq_some_iff] at hslot
    obtain ⟨y, hy, hyx⟩ := hslot
    cases hyx
    rw [htake, hc.slots, ← map_take, hc.path.take_eq_take hpath hy hx']
  · rw [length_resize, hlength]
  · rw [drop_of_length_le (by rw [length_resize]), drop_of_length_le (by rw [hlength]), map_nil]

/-- Any updates of the tip leave the root path of the last of them. -/
theorem isChain_setTips (hlinked : t.Linked) (hc : IsChain t c l)
    (hmem : ∀ e ∈ blocks, (t.height? e).isSome) :
    ∃ l', IsChain t (setTips t c blocks) l' ∧ (l ≠ [] ∨ blocks ≠ [] → l' ≠ []) := by
  induction blocks generalizing c l with
  | nil => exact ⟨l, hc, fun h => h.resolve_right (fun hne => hne rfl)⟩
  | cons e blocks ih =>
    obtain ⟨l₁, h₁⟩ := isChain_setTip hlinked hc (hmem e mem_cons_self)
    obtain ⟨l', h', hne⟩ := ih h₁ (forall_mem_cons.mp hmem).2
    exact ⟨l', h', fun _ => hne (Or.inl (by simp))⟩

/-- Updates along one branch append to the chain. -/
theorem isChain_setTips_of_path (hlinked : t.Linked) (hc : IsChain t c l)
    (hpath : IsRootPath t.parent (l ++ blocks)) (hmem : ∀ e ∈ blocks, (t.height? e).isSome) :
    IsChain t (setTips t c blocks) (l ++ blocks) := by
  induction blocks generalizing c l with
  | nil => rwa [append_nil]
  | cons e blocks ih =>
    obtain ⟨l', h'⟩ := isChain_setTip hlinked hc (hmem e mem_cons_self)
    rw [append_cons] at hpath ⊢
    obtain rfl : l' = l := h'.path.unique hpath.of_append
    exact ih h' hpath (forall_mem_cons.mp hmem).2

/-- The nodes of a root path are distinct, because their heights are. -/
theorem nodup_of_path (hlinked : t.Linked) (hpath : IsRootPath t.parent l)
    (hmem : ∀ x ∈ l, (t.height? x).isSome) : l.Nodup := by
  refine nodup_iff_getElem?_ne_getElem?.mpr fun i j hij hj heq => ?_
  have hi : i < l.length := Nat.lt_trans hij hj
  have hi' := hlinked.height_of_path hpath hmem (getElem?_eq_getElem hi)
  rw [getElem?_eq_getElem hi] at heq
  have hj' := hlinked.height_of_path hpath hmem heq.symm
  exact Nat.ne_of_lt hij (Option.some.inj (hi'.symm.trans hj'))

end CChain

end BitcoinKernel.State
