import Mathlib.Data.List.Basic

/-!
# Readers and the writers they undo

A reader takes a value from the front of a list of symbols, or throws.  A writer
gives the symbols of a value.  `Reads r w valid` says that the two belong
together: `r` accepts exactly what `w` writes of the values in `valid`, and
leaves what comes behind.  It is one equivalence, so it says at once that a
written value is read back, and that nothing else is accepted.

The lemmas of the first section run a reader one operation at a time.  A proof
of `Reads` for a composed reader rewrites with them and with the `Reads` of the
parts.
-/

namespace Codec

variable {τ ε α β : Type}

/-! ## Running a reader -/

variable {f : α → StateT (List τ) (Except ε) β} {data rest : List τ} {b : β}

theorem run_bind_eq_ok_iff {r : StateT (List τ) (Except ε) α} : (r >>= f).run data = .ok (b, rest) ↔
      ∃ a middle, r.run data = .ok (a, middle) ∧ (f a).run middle = .ok (b, rest) := by
  rw [StateT.run_bind]
  cases h : r.run data with
  | error e =>
    constructor
    · intro hrun
      cases hrun
    · rintro ⟨a, middle, hrun, -⟩
      cases hrun
  | ok result =>
    obtain ⟨a, middle⟩ := result
    constructor
    · intro hrun
      exact ⟨a, middle, rfl, hrun⟩
    · rintro ⟨a', middle', hrun, hrest⟩
      cases hrun
      exact hrest

theorem run_pure_eq_ok_iff {a b : α} :
    (pure a : StateT (List τ) (Except ε) α).run data = .ok (b, rest) ↔ a = b ∧ data = rest := by
  rw [StateT.run_pure]
  constructor
  · intro h
    cases h
    exact ⟨rfl, rfl⟩
  · rintro ⟨rfl, rfl⟩
    rfl

/-- A check that throws, and what is read if it does not. -/
theorem run_check_eq_ok_iff {c : Prop} [Decidable c] {e : ε} {r : StateT (List τ) (Except ε) β} :
    (if c then throw e >>= f else r).run data = .ok (b, rest) ↔
      ¬c ∧ r.run data = .ok (b, rest) := by
  by_cases h : c
  · rw [if_pos h]
    constructor
    · intro hrun
      cases hrun
    · rintro ⟨hc, -⟩
      exact absurd h hc
  · rw [if_neg h]
    exact ⟨fun hrun => ⟨h, hrun⟩, And.right⟩

/-! ## Readers of what a writer writes -/

/-- The reader accepts what the writer writes of valid values, and nothing
else. -/
def Reads (r : StateT (List τ) (Except ε) α) (w : α → List τ) (valid : α → Prop) : Prop :=
  ∀ data a rest, r.run data = .ok (a, rest) ↔ valid a ∧ data = w a ++ rest

namespace Reads

variable {r : StateT (List τ) (Except ε) α} {w : α → List τ} {valid : α → Prop}

theorem run_eq_ok_iff (h : Reads r w valid) {data rest : List τ} {a : α} :
    r.run data = .ok (a, rest) ↔ valid a ∧ data = w a ++ rest := h data a rest

/-- A valid value is read back, whatever comes behind it. -/
theorem run_write (h : Reads r w valid) {a : α} (ha : valid a) (rest : List τ) :
    r.run (w a ++ rest) = .ok (a, rest) := h.run_eq_ok_iff.mpr ⟨ha, rfl⟩

/-- Valid values with the same bytes are equal. -/
theorem eq_of_write_eq (h : Reads r w valid) {a b : α} (ha : valid a) (hb : valid b)
    (heq : w a = w b) : a = b := by
  have hread := h.run_write ha []
  rw [heq, h.run_write hb []] at hread
  exact (Prod.mk.inj (Except.ok.inj hread)).1.symm

/-- A value that is computed from what is read, and that it is computed back
from. -/
theorem map (h : Reads r w valid) {f : α → β} {g : β → α} (hvalid : ∀ b, valid (g b))
    (hfg : ∀ b, f (g b) = b) (hgf : ∀ a, valid a → g (f a) = a) :
    Reads (do return f (← r)) (fun b => w (g b)) fun _ => True := by
  intro data b rest
  simp only [run_bind_eq_ok_iff, run_pure_eq_ok_iff, h.run_eq_ok_iff, true_and]
  constructor
  · rintro ⟨a, middle, ⟨ha, rfl⟩, rfl, rfl⟩
    rw [hgf a ha]
  · rintro rfl
    exact ⟨g b, rest, ⟨hvalid b, rfl⟩, hfg b, rfl⟩

end Reads

/-! ## Readers that accept more -/

/-- The reader gives back what the writer writes of valid values.  It may accept other
symbols as well. -/
def Restores (r : StateT (List τ) (Except ε) α) (w : α → List τ) (valid : α → Prop) : Prop :=
  ∀ a rest, valid a → r.run (w a ++ rest) = .ok (a, rest)

end Codec
