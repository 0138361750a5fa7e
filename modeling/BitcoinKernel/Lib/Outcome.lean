import Mathlib.Data.List.Basic

/-!
# Comparing computations that may fail

Two relations on `Except ε α` and their rules.

* `Refines x y`: what `x` computes, `y` computes too.  `x` may fail more often.
* `Ensures E P x`: a value of `x` satisfies `P`, and an error of `x`
  satisfies `E`.

Each has one rule for every way to build a computation, so a proof about a
program follows the text of the program.
-/

namespace Outcome

variable {ε α β : Type}

@[simp] theorem ok_bind (a : α) (f : α → Except ε β) : (Except.ok a >>= f) = f a := rfl

@[simp] theorem error_bind (e : ε) (f : α → Except ε β) : (Except.error e >>= f) = .error e := rfl

/-- A computation in two parts gives a value when both parts do. -/
theorem bind_eq_ok_iff {x : Except ε α} {f : α → Except ε β} {b : β} :
    (x >>= f) = .ok b ↔ ∃ a, x = .ok a ∧ f a = .ok b := by
  cases x with
  | error e =>
    refine ⟨fun h => (nomatch h), ?_⟩
    rintro ⟨a, ha, -⟩
    cases ha
  | ok a =>
    refine ⟨fun h => ⟨a, rfl, h⟩, ?_⟩
    rintro ⟨a', ha', h⟩
    cases ha'
    exact h

/-- A value that may be missing, with the error for this case. -/
def ofOption (e : ε) : Option α → Except ε α
  | some a => .ok a
  | none => .error e

theorem ofOption_eq_ok_iff {e : ε} {o : Option α} {a : α} : ofOption e o = .ok a ↔ o = some a := by
  cases o with
  | none => exact ⟨fun h => (nomatch h), fun h => (nomatch h)⟩
  | some b =>
    exact ⟨fun h => congrArg some (Except.ok.inj h), fun h => congrArg _ (Option.some.inj h)⟩

/-! ## Refinement -/

/-- `y` gives every value that `x` gives. -/
def Refines (x y : Except ε α) : Prop := ∀ a, x = .ok a → y = .ok a

namespace Refines

protected theorem refl (x : Except ε α) : Refines x x := fun _ h => h

theorem of_eq {x y : Except ε α} (h : x = y) : Refines x y := h ▸ .refl x

protected theorem error (e : ε) (y : Except ε α) : Refines (.error e) y := fun _ h => nomatch h

protected theorem bind {x y : Except ε α} {f g : α → Except ε β} (hxy : Refines x y)
    (hfg : ∀ a, Refines (f a) (g a)) : Refines (x >>= f) (y >>= g) := by
  intro b h
  cases x with
  | error e => cases h
  | ok a =>
    rw [hxy a rfl]
    exact hfg a b h

/-- A first part of `x` that `y` does not have. -/
theorem of_bind {x : Except ε α} {f : α → Except ε β} {y : Except ε β}
    (h : ∀ a, Refines (f a) y) : Refines (x >>= f) y := by
  cases x with
  | error e => exact .error e _
  | ok a => exact h a

/-- A loop over a list, step by step. -/
protected theorem foldlM {γ : Type} {f g : β → γ → Except ε β}
    (hfg : ∀ b c, Refines (f b c) (g b c)) (cs : List γ) (b : β) :
    Refines (cs.foldlM f b) (cs.foldlM g b) := by
  induction cs generalizing b with
  | nil => exact .refl _
  | cons c cs ih => exact .bind (hfg b c) ih

end Refines

/-! ## Postconditions -/

/-- `x` gives a value with `P` or an error with `E`. -/
def Ensures (E : ε → Prop) (P : α → Prop) : Except ε α → Prop
  | .ok a => P a
  | .error e => E e

namespace Ensures

variable {E : ε → Prop} {P Q : α → Prop} {R : β → Prop}

protected theorem ok {a : α} (h : P a) : Ensures E P (.ok a) := h

/-- Nothing is said of `x`. -/
protected theorem trivial (x : Except ε α) : Ensures (fun _ => True) (fun _ => True) x := by
  cases x <;> exact True.intro

protected theorem bind {x : Except ε α} {f : α → Except ε β} (hx : Ensures E P x)
    (hf : ∀ a, P a → Ensures E R (f a)) : Ensures E R (x >>= f) := by
  cases x with
  | error e => exact hx
  | ok a => exact hf a hx

/-- A check that throws, with what comes behind it. -/
protected theorem throwIf_bind {c : Prop} [Decidable c] {e : ε} {k : PUnit → Except ε β} (he : E e)
    (hk : ¬c → Ensures E R (k ⟨⟩)) :
    Ensures E R (if c then (throw e : Except ε PUnit) >>= k else k ⟨⟩) := by
  by_cases hc : c
  · rw [if_pos hc]
    exact he
  · rw [if_neg hc]
    exact hk hc

/-- What else is known of the values of `x` may be used. -/
theorem mono {x : Except ε α} (hx : Ensures E P x) (h : ∀ a, x = .ok a → P a → Q a) :
    Ensures E Q x := by
  cases x with
  | error e => exact hx
  | ok a => exact h a rfl hx

/-- A loop over a list, with an invariant. -/
protected theorem foldlM {γ : Type} {I : α → Prop} {f : α → γ → Except ε α}
    (hf : ∀ a c, I a → Ensures E I (f a c)) (cs : List γ) {a : α} (ha : I a) :
    Ensures E I (cs.foldlM f a) := by
  induction cs generalizing a with
  | nil => exact ha
  | cons c cs ih => exact .bind (hf a c ha) fun _ => ih

theorem of_eq_ok {x : Except ε α} (hx : Ensures E P x) {a : α} (h : x = .ok a) : P a := by
  rw [h] at hx
  exact hx

theorem of_eq_error {x : Except ε α} (hx : Ensures E P x) {e : ε} (h : x = .error e) : E e := by
  rw [h] at hx
  exact hx

end Ensures

end Outcome
