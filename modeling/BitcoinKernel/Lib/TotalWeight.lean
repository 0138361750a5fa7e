import Mathlib.Algebra.BigOperators.Group.Finset.Basic
import Mathlib.Algebra.Order.BigOperators.Group.Finset
import Mathlib.Algebra.Order.Ring.Int

/-!
# The total weight of a map

A map `m : κ → Option ν` whose values have weights.  The map need not be finite, so
its total weight is bounded by bounding the weight of every finite set of keys
(`Within`).

The rules at the end say how a bound changes when a value is written or erased.

* `Within.write`: a value adds at most its weight, also if it replaces another.
* `Within.erase`: a value that is erased gives back its weight.
* `Within.of_le`: a map that has fewer values stays below the bound.
-/

namespace TotalWeight

open Function

variable {κ ν : Type*} (weight : ν → ℤ)

/-- The weight at a key. -/
def weightAt (m : κ → Option ν) (k : κ) : ℤ := ((m k).map weight).getD 0

/-- All values of the map together weigh at most `bound`. -/
def Within (m : κ → Option ν) (bound : ℤ) : Prop :=
  ∀ s : Finset κ, ∑ k ∈ s, weightAt weight m k ≤ bound

/-- No value has a negative weight. -/
def NonNeg (m : κ → Option ν) : Prop := ∀ k v, m k = some v → 0 ≤ weight v

variable {weight} {m m' : κ → Option ν} {k : κ} {v : ν} {bound : ℤ}

theorem weightAt_of_eq_some (h : m k = some v) : weightAt weight m k = weight v := by
  simp [weightAt, h]

theorem weightAt_of_eq_none (h : m k = none) : weightAt weight m k = 0 := by
  simp [weightAt, h]

theorem NonNeg.weightAt (h : NonNeg weight m) (k : κ) : 0 ≤ weightAt weight m k := by
  cases hk : m k with
  | none => rw [weightAt_of_eq_none hk]
  | some v =>
    rw [weightAt_of_eq_some hk]
    exact h k v hk

theorem within_empty : Within weight (fun _ : κ => none) 0 := by
  intro s
  exact Finset.sum_nonpos fun k _ => (weightAt_of_eq_none rfl).le

theorem Within.mono {bound' : ℤ} (h : Within weight m bound) (hle : bound ≤ bound') :
    Within weight m bound' :=
  fun s => (h s).trans hle

theorem Within.of_le (h : Within weight m bound) (hnonneg : NonNeg weight m)
    (hsub : ∀ k v, m' k = some v → m k = some v) : Within weight m' bound := by
  intro s
  refine (Finset.sum_le_sum fun k _ => ?_).trans (h s)
  cases hk : m' k with
  | none =>
    rw [weightAt_of_eq_none hk]
    exact hnonneg.weightAt k
  | some v => rw [weightAt_of_eq_some hk, weightAt_of_eq_some (hsub k v hk)]

variable [DecidableEq κ]

theorem NonNeg.write (h : NonNeg weight m) (hv : 0 ≤ weight v) (k : κ) :
    NonNeg weight (Function.update m k (some v)) := by
  intro k' v' hk'
  by_cases heq : k' = k
  · rw [heq, update_self, Option.some.injEq] at hk'
    rwa [← hk']
  · rw [update_of_ne heq] at hk'
    exact h k' v' hk'

theorem NonNeg.erase (h : NonNeg weight m) (k : κ) : NonNeg weight (Function.update m k none) := by
  intro k' v' hk'
  by_cases heq : k' = k
  · rw [heq, update_self] at hk'
    cases hk'
  · rw [update_of_ne heq] at hk'
    exact h k' v' hk'

/-- The weight of the keys apart from one. -/
theorem sum_update (m : κ → Option ν) (k : κ) (o : Option ν) (s : Finset κ) :
    ∑ k' ∈ s.erase k, weightAt weight (Function.update m k o) k' =
      ∑ k' ∈ s.erase k, weightAt weight m k' := by
  refine Finset.sum_congr rfl fun k' hk' => ?_
  rw [weightAt, weightAt, update_of_ne (Finset.ne_of_mem_erase hk')]

theorem Within.write (h : Within weight m bound) (hv : 0 ≤ weight v) (k : κ) :
    Within weight (Function.update m k (some v)) (bound + weight v) := by
  intro s
  have hrest := h (s.erase k)
  rw [← sum_update m k (some v) s] at hrest
  by_cases hk : k ∈ s
  · rw [← Finset.add_sum_erase s _ hk, weightAt_of_eq_some (update_self ..)]
    omega
  · rw [Finset.erase_eq_of_notMem hk] at hrest
    omega

theorem Within.erase (h : Within weight m bound) (hk : m k = some v) :
    Within weight (Function.update m k none) (bound - weight v) := by
  intro s
  have hall := h (insert k (s.erase k))
  rw [Finset.sum_insert (Finset.notMem_erase k s), weightAt_of_eq_some hk] at hall
  have hrest : ∑ k' ∈ s, weightAt weight (Function.update m k none) k' =
      ∑ k' ∈ s.erase k, weightAt weight m k' := by
    rw [← sum_update m k none s]
    refine (Finset.sum_erase s ?_).symm
    exact weightAt_of_eq_none (update_self ..)
  omega

end TotalWeight
