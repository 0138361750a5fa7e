import Mathlib.Data.List.Nodup
import Mathlib.Data.List.Perm.Basic

/-!
# Reference-counted objects

A heap of objects with a use count each, as `std::make_shared` makes them.
An object is named by its position and is never moved.  `retain` is the copy
of a shared pointer, `release` is the end of one; `release` gives back the
object when it was the last pointer, so that the caller can run its
destructor.

`Counted h refs` says that the shared pointers in the program are `refs`: every
use count is the number of times the object is named there.  Making, copying
and ending a pointer keep it, and under it an object is alive exactly as long
as some pointer names it.  Only the counts of `refs` matter, so a reference
may move from one variable to another without a step in the proof.
-/

namespace SharedPtr

open List

/-- Use counts and objects. -/
structure Heap (α : Type) where
  cells : List (Nat × α) := []
deriving DecidableEq, Repr

namespace Heap

variable {α : Type}

/-- The use count of an object. -/
def useCount (h : Heap α) (i : Nat) : Nat :=
  match h.cells[i]? with
  | some cell => cell.1
  | none => 0

/-- The object itself, dead or alive. -/
def get? (h : Heap α) (i : Nat) : Option α := h.cells[i]?.map Prod.snd

/-- The objects that are alive. -/
def live (h : Heap α) : List α :=
  h.cells.filterMap fun cell => if 0 < cell.1 then some cell.2 else none

/-- A new object with one pointer to it. -/
def make (h : Heap α) (a : α) : Nat × Heap α := (h.cells.length, ⟨h.cells ++ [(1, a)]⟩)

/-- A change of one use count. -/
def adjust (h : Heap α) (f : Nat → Nat) (i : Nat) : Heap α :=
  ⟨h.cells.modify i fun cell => (f cell.1, cell.2)⟩

/-- A further pointer to an object. -/
def retain (h : Heap α) (i : Nat) : Heap α := h.adjust (· + 1) i

/-- The end of a pointer, with the object if it was the last one. -/
def release (h : Heap α) (i : Nat) : Option α × Heap α :=
  (if h.useCount i = 1 then h.get? i else none, h.adjust (· - 1) i)

variable {h : Heap α} {i j : Nat} {a : α}

theorem useCount_make (h : Heap α) (a : α) (j : Nat) :
    (h.make a).2.useCount j = if j = (h.make a).1 then 1 else h.useCount j := by
  by_cases hj : j = h.cells.length
  · subst hj
    simp [make, useCount]
  · rw [make, if_neg hj, useCount, useCount, getElem?_append]
    by_cases hlt : j < h.cells.length
    · rw [if_pos hlt]
    · rw [if_neg hlt, getElem?_eq_none (l := h.cells) (by omega), getElem?_eq_none (by simp; omega)]

theorem useCount_adjust (h : Heap α) (f : Nat → Nat) (hi : 0 < h.useCount i) (j : Nat) :
    (h.adjust f i).useCount j = if j = i then f (h.useCount i) else h.useCount j := by
  unfold adjust useCount
  rw [getElem?_modify]
  by_cases hj : j = i
  · subst hj
    unfold useCount at hi
    cases hcell : h.cells[j]? with
    | none => rw [hcell] at hi; exact absurd hi (Nat.lt_irrefl 0)
    | some cell => simp
  · have hij : i ≠ j := fun heq => hj heq.symm
    simp [hj, hij]

theorem get?_isSome_of_useCount (hi : 0 < h.useCount i) : ∃ a, h.get? i = some a := by
  unfold useCount at hi
  cases hcell : h.cells[i]? with
  | none => rw [hcell] at hi; exact absurd hi (Nat.lt_irrefl 0)
  | some cell => exact ⟨cell.2, by rw [get?, hcell, Option.map_some]⟩

theorem mem_live_iff : a ∈ h.live ↔ ∃ i, 0 < h.useCount i ∧ h.get? i = some a := by
  unfold live useCount get?
  rw [mem_filterMap]
  constructor
  · rintro ⟨cell, hmem, hcell⟩
    obtain ⟨i, hi⟩ := mem_iff_getElem?.mp hmem
    split at hcell
    · rename_i hpos
      rw [Option.some.injEq] at hcell
      exact ⟨i, by simp [hi, hpos, hcell]⟩
    · cases hcell
  · rintro ⟨i, hpos, hget⟩
    obtain ⟨cell, hcell, rfl⟩ := Option.map_eq_some_iff.mp hget
    rw [hcell] at hpos
    exact ⟨cell, mem_of_getElem? hcell, if_pos hpos⟩

theorem live_make (h : Heap α) (a : α) : (h.make a).2.live = h.live ++ [a] := by
  simp [make, live]

/-- A change of one use count leaves all other objects as alive as they were. -/
theorem live_adjust (h : Heap α) (f : Nat → Nat) (ha : h.get? i = some a) : ∃ before after,
      h.live = before ++ (if 0 < h.useCount i then [a] else []) ++ after ∧
      (h.adjust f i).live = before ++ (if 0 < f (h.useCount i) then [a] else []) ++ after := by
  obtain ⟨cell, hcell, rfl⟩ := Option.map_eq_some_iff.mp ha
  obtain ⟨hlt, rfl⟩ := List.getElem?_eq_some_iff.mp hcell
  have hcount : h.useCount i = h.cells[i].1 := by rw [useCount, hcell]
  have hlive : ∀ cell : Nat × α, Heap.live ⟨h.cells.take i ++ cell :: h.cells.drop (i + 1)⟩ =
        Heap.live ⟨h.cells.take i⟩ ++ (if 0 < cell.1 then [cell.2] else []) ++
          Heap.live ⟨h.cells.drop (i + 1)⟩ := by
    intro cell
    by_cases hpos : 0 < cell.1 <;> simp [live, hpos]
  refine ⟨Heap.live ⟨h.cells.take i⟩, Heap.live ⟨h.cells.drop (i + 1)⟩, ?_, ?_⟩
  · rw [hcount, ← hlive, ← drop_eq_getElem_cons hlt, take_append_drop]
  · rw [hcount, adjust, modify_eq_take_cons_drop hlt, hlive]

theorem live_retain (hi : 0 < h.useCount i) : (h.retain i).live = h.live := by
  obtain ⟨a, ha⟩ := get?_isSome_of_useCount hi
  obtain ⟨before, after, hlive, hlive'⟩ := live_adjust h (· + 1) ha
  rw [retain, hlive', hlive, if_pos hi, if_pos (Nat.succ_pos _)]

end Heap

/-! ## The pointers of a program -/

/-- The shared pointers of the program are `refs`. -/
def Counted {α : Type} (h : Heap α) (refs : List Nat) : Prop :=
  ∀ i, h.useCount i = refs.count i

namespace Counted

variable {α : Type} {h : Heap α} {refs refs' : List Nat} {i : Nat}

theorem nil : Counted ({} : Heap α) [] := fun _ => rfl

theorem congr (hc : Counted h refs) (heq : ∀ i, refs.count i = refs'.count i) :
    Counted h refs' := fun i => (hc i).trans (heq i)

/-- An object is alive as long as a pointer names it. -/
theorem useCount_pos_iff (hc : Counted h refs) : 0 < h.useCount i ↔ i ∈ refs := by
  rw [hc i, count_pos_iff]

theorem make (hc : Counted h refs) (a : α) : Counted (h.make a).2 ((h.make a).1 :: refs) := by
  intro j
  have hfresh : h.useCount (h.make a).1 = 0 := by simp [Heap.make, Heap.useCount]
  have hj := hc j
  rw [Heap.useCount_make, count_cons]
  by_cases heq : j = (h.make a).1
  · rw [if_pos heq, heq, ← hc, hfresh]
    simp
  · rw [if_neg heq, hj]
    simp [Ne.symm heq]

theorem retain (hc : Counted h refs) (hi : i ∈ refs) : Counted (h.retain i) (i :: refs) := by
  intro j
  rw [Heap.retain, Heap.useCount_adjust h _ (hc.useCount_pos_iff.mpr hi), count_cons, ← hc j]
  by_cases heq : j = i
  · subst heq
    simp
  · simp [heq, Ne.symm heq]

/-- The end of a pointer.  The object is given back when no other pointer
names it, and then it leaves the live objects. -/
theorem release (hc : Counted h (i :: refs)) :
    Counted (h.release i).2 refs ∧ ∃ a, h.get? i = some a ∧
      ((i ∈ refs ∧ (h.release i).1 = none ∧ (h.release i).2.live = h.live) ∨
        (i ∉ refs ∧ (h.release i).1 = some a ∧ h.live.Perm (a :: (h.release i).2.live))) := by
  have hpos : 0 < h.useCount i := hc.useCount_pos_iff.mpr mem_cons_self
  have hcount : h.useCount i = refs.count i + 1 := by
    rw [hc i, count_cons_self]
  refine ⟨?_, ?_⟩
  · intro j
    have hj := hc j
    rw [Heap.release, Heap.useCount_adjust h _ hpos]
    by_cases heq : j = i
    · subst heq
      rw [if_pos rfl]
      omega
    · rw [if_neg heq, hj, count_cons_of_ne (Ne.symm heq)]
  · obtain ⟨a, ha⟩ := Heap.get?_isSome_of_useCount hpos
    obtain ⟨before, after, hlive, hlive'⟩ := Heap.live_adjust h (· - 1) ha
    refine ⟨a, ha, ?_⟩
    by_cases hmem : i ∈ refs
    · have hrest : 0 < refs.count i := count_pos_iff.mpr hmem
      refine Or.inl ⟨hmem, if_neg (by omega), ?_⟩
      rw [Heap.release, hlive', hlive, if_pos hpos, if_pos (by omega)]
    · have hrest : refs.count i = 0 := count_eq_zero.mpr hmem
      refine Or.inr ⟨hmem, by rw [Heap.release, if_pos (by omega), ha], ?_⟩
      rw [Heap.release, hlive', hlive, if_pos hpos, if_neg (by omega), append_nil, append_assoc]
      exact perm_middle

end Counted

end SharedPtr
