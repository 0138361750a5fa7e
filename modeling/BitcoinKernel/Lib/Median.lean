import Mathlib.Data.List.Sort
import Mathlib.Order.Lattice
import Mathlib.Algebra.Order.Group.Nat

/-!
# Medians of moving windows

The upper median of a list is the middle element of the list in order.  Whether it reaches
a bound is a matter of counting (`le_median_iff`), so it can be compared for two lists
without sorting them.

A window of bounded length moves over a sequence, newest element first.  If every new
element is at least the median of the window before it, the median never goes down
(`median_le_median_push`).
-/

namespace Median

open List

variable {α : Type} [LinearOrder α]

omit [LinearOrder α] in
/-- What is counted is in a first part, or in the rest. -/
theorem countP_le_take_add (p : α → Bool) (l : List α) (k : Nat) :
    l.countP p ≤ (l.take k).countP p + (l.length - k) := by
  calc l.countP p = (l.take k).countP p + (l.drop k).countP p := by
        rw [← countP_append, take_append_drop]
    _ ≤ (l.take k).countP p + (l.drop k).length :=
        Nat.add_le_add_left countP_le_length _
    _ = (l.take k).countP p + (l.length - k) := by rw [length_drop]

/-- In an ordered list, the element at a position reaches a bound if enough elements do. -/
theorem le_getElem_iff_countP {l : List α} (hl : l.Pairwise (· ≤ ·)) {k : Nat} (hk : k < l.length)
    (m : α) :
    m ≤ l[k] ↔ l.length - k ≤ l.countP (fun x => decide (m ≤ x)) := by
  constructor
  · intro hm
    have hdrop : (l.drop k).countP (fun x => decide (m ≤ x)) = (l.drop k).length := by
      refine countP_eq_length.mpr fun x hx => ?_
      obtain ⟨i, hi, rfl⟩ := mem_iff_getElem.mp hx
      rw [getElem_drop]
      rw [length_drop] at hi
      simp only [decide_eq_true_eq]
      rcases Nat.eq_zero_or_pos i with rfl | hpos
      · simpa using hm
      · exact hm.trans (pairwise_iff_getElem.mp hl k (k + i) hk (by omega) (by omega))
    calc l.length - k = (l.drop k).countP (fun x => decide (m ≤ x)) := by
          rw [hdrop, length_drop]
      _ ≤ l.countP (fun x => decide (m ≤ x)) := (drop_sublist k l).countP_le
  · intro hcount
    by_contra hm
    have hlt : l[k] < m := not_le.mp hm
    have htake : (l.take (k + 1)).countP (fun x => decide (m ≤ x)) = 0 := by
      refine countP_eq_zero.mpr fun x hx => ?_
      obtain ⟨i, hi, rfl⟩ := mem_iff_getElem.mp hx
      rw [length_take] at hi
      rw [getElem_take]
      simp only [decide_eq_true_eq, not_le]
      rcases Nat.lt_or_ge i k with hik | hik
      · exact (pairwise_iff_getElem.mp hl i k (by omega) hk hik).trans_lt hlt
      · obtain rfl : i = k := by omega
        exact hlt
    have hle := countP_le_take_add (fun x => decide (m ≤ x)) l (k + 1)
    omega

/-- The element in the middle of a list in order. -/
def median (l : List α) (default : α) : α :=
  l.mergeSort.getD (l.length / 2) default

theorem le_median_iff {l : List α} (hl : l ≠ []) (default m : α) :
    m ≤ median l default ↔ l.length - l.length / 2 ≤ l.countP (fun x => decide (m ≤ x)) := by
  have hpos := length_pos_iff.mpr hl
  have hlength : l.mergeSort.length = l.length := length_mergeSort l
  have hk : l.length / 2 < l.mergeSort.length := by omega
  rw [median, getD_eq_getElem?_getD, getElem?_eq_getElem hk, Option.getD_some,
    le_getElem_iff_countP (pairwise_mergeSort' _ l) hk,
    hlength, (mergeSort_perm l _).countP_eq]

/-- A window that moves on by one element does not get a smaller median, if the element is
at least the median. -/
theorem median_le_median_push {w : List α} (hw : w ≠ []) {span : Nat} (hspan : w.length ≤ span)
    {x default : α} (hx : median w default ≤ x) :
    median w default ≤ median (x :: w.take (span - 1)) default := by
  have hpos := length_pos_iff.mpr hw
  have hcount := (le_median_iff hw default (median w default)).mp le_rfl
  generalize median w default = m at hx hcount
  refine (le_median_iff (cons_ne_nil _ _) default m).mpr ?_
  rw [countP_cons_of_pos (by simpa using hx), length_cons, length_take]
  -- at most one element leaves the window
  have hle := countP_le_take_add (fun y => decide (m ≤ y)) w (span - 1)
  omega

end Median
