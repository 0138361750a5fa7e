import Mathlib.Data.List.Nodup

/-!
# Conservation of owned resources

A party is handed resources, holds them for a while and releases them.  The
account of such a party has four columns: everything that it was `handed`,
everything that it `released`, what it still `held`, and what it `lost`,
which means that it forgot a resource without releasing it.

`Balanced` is the conservation law: nothing is handed twice, and every
resource is as often in the other columns together as in the first.  The law
is stated with counts, so that a column is a multiset whatever order its list
has.  An acquisition, a loss and a release keep it.  Once nothing is held,
`settled_iff` says that the account is settled exactly when nothing was lost;
before that, `not_released` and `count_released` say which resources have been
released so far.
-/

namespace Ownership

open List

variable {α : Type} [DecidableEq α]

/-- The conservation law of an account. -/
structure Balanced (handed released held lost : List α) : Prop where
  once : handed.Nodup
  total : ∀ a, handed.count a = released.count a + held.count a + lost.count a

/-- Every resource that was handed over was released once, and nothing else
was released. -/
def Settled (handed released : List α) : Prop :=
  (∀ a ∈ handed, released.count a = 1) ∧ ∀ a ∈ released, a ∈ handed

namespace Balanced

variable {handed released held lost : List α} {a : α}

theorem nil : Balanced ([] : List α) [] [] [] where
  once := nodup_nil
  total := fun _ => rfl

/-- A new resource is handed over and held. -/
theorem acquire (h : Balanced handed released held lost) (hfresh : a ∉ handed) :
    Balanced (a :: handed) released (a :: held) lost where
  once := nodup_cons.mpr ⟨hfresh, h.once⟩
  total := by
    intro b
    have htotal := h.total b
    simp only [count_cons]
    omega

/-- A new resource is handed over and forgotten. -/
theorem lose (h : Balanced handed released held lost) (hfresh : a ∉ handed) :
    Balanced (a :: handed) released held (a :: lost) where
  once := nodup_cons.mpr ⟨hfresh, h.once⟩
  total := by
    intro b
    have htotal := h.total b
    simp only [count_cons]
    omega

/-- A held resource is released. -/
theorem release (h : Balanced handed released (a :: held) lost) :
    Balanced handed (a :: released) held lost where
  once := h.once
  total := by
    intro b
    have htotal := h.total b
    simp only [count_cons] at htotal ⊢
    omega

/-- The order in a column does not matter. -/
theorem congr {handed' released' held' : List α} (h : Balanced handed released held lost)
    (hhanded : handed.Perm handed') (hreleased : released.Perm released')
    (hheld : held.Perm held') : Balanced handed' released' held' lost where
  once := hhanded.nodup_iff.mp h.once
  total := by
    intro b
    rw [← hhanded.count_eq, ← hreleased.count_eq, ← hheld.count_eq]
    exact h.total b

/-- A resource that is held was not released. -/
theorem not_released (h : Balanced handed released held lost) (ha : a ∈ held) : a ∉ released := by
  intro hreleased
  have htotal := h.total a
  have honce : handed.count a ≤ 1 := nodup_iff_count_le_one.mp h.once a
  have hheld : 0 < held.count a := count_pos_iff.mpr ha
  have hpos : 0 < released.count a := count_pos_iff.mpr hreleased
  omega

/-- With nothing lost, a resource that was handed over and is no longer held
was released once. -/
theorem count_released (h : Balanced handed released held []) (ha : a ∈ handed)
    (hheld : a ∉ held) : released.count a = 1 := by
  have htotal := h.total a
  rw [count_eq_one_of_mem h.once ha, count_eq_zero.mpr hheld, count_nil] at htotal
  omega

/-- With nothing held any more, the account is settled when nothing is lost. -/
theorem settled_iff (h : Balanced handed released [] lost) :
    Settled handed released ↔ lost = [] := by
  constructor
  · intro hsettled
    rw [eq_nil_iff_forall_not_mem]
    intro a ha
    have htotal := h.total a
    have hlost : 0 < lost.count a := count_pos_iff.mpr ha
    have honce : handed.count a ≤ 1 := nodup_iff_count_le_one.mp h.once a
    have hmem : a ∈ handed := count_pos_iff.mp (by omega)
    have hreleased := hsettled.1 a hmem
    omega
  · intro hlost
    subst hlost
    constructor
    · intro a ha
      have htotal := h.total a
      rw [count_eq_one_of_mem h.once ha] at htotal
      simp only [count_nil] at htotal
      omega
    · intro a ha
      have htotal := h.total a
      have hreleased : 0 < released.count a := count_pos_iff.mpr ha
      exact count_pos_iff.mp (by omega)

end Balanced

end Ownership
