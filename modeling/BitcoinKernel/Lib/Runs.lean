import Mathlib.Data.List.Basic
import Mathlib.Data.List.Infix

/-!
# Runs of a machine that may abort

A machine is a step function `step : σ → α → Option σ`.  A label `a : α` is
one call made by the environment, and `step s a = none` says that the call
does not return: an assertion of the program has failed.  `run step s as` is
the state after the calls `as`, and it is `none` as soon as one of them does
not return.

The two rules at the end are the ones that a proof about a whole run uses.

* `run_history` carries a relation between the calls made so far and the
  state.  It also gives that every call returns, so the step case proves
  progress and preservation together.
* `run_invariant` carries such a relation along a run that is known to
  return, so the step case is preservation alone.
-/

namespace Runs

variable {σ α : Type*} (step : σ → α → Option σ)

/-- The state after the calls `as`, if all of them return. -/
def run (s : σ) (as : List α) : Option σ := as.foldlM step s

@[simp] theorem run_nil (s : σ) : run step s [] = some s := rfl

@[simp] theorem run_cons (s : σ) (a : α) (as : List α) :
    run step s (a :: as) = (step s a).bind fun t => run step t as := rfl

theorem run_append (s : σ) (as bs : List α) :
    run step s (as ++ bs) = (run step s as).bind fun t => run step t bs :=
  List.foldlM_append

theorem run_snoc (s : σ) (as : List α) (a : α) :
    run step s (as ++ [a]) = (run step s as).bind fun t => step t a := by
  rw [run_append]
  congr 1
  funext t
  rw [run_cons]
  cases step t a <;> rfl

variable {step}

variable {s s₀ : σ} {as : List α} {I : List α → σ → Prop}

theorem run_snoc_of_eq {t : σ} (a : α) (h : run step s as = some t) :
    run step s (as ++ [a]) = step t a := by
  rw [run_snoc, h, Option.bind_some]

/-- The induction rule with the history of calls.  `I pre s` relates the
calls `pre` made so far to the state `s`.  If each call of `as` returns from a
state that is related to the calls before it, and leads to a related state,
then every prefix of `as` returns and ends in a related state. -/
theorem run_history (h0 : I [] s₀)
    (hstep : ∀ pre a s, pre ++ [a] <+: as → run step s₀ pre = some s → I pre s →
      ∃ t, step s a = some t ∧ I (pre ++ [a]) t) :
    ∀ pre, pre <+: as → ∃ s, run step s₀ pre = some s ∧ I pre s := by
  intro pre
  induction pre using List.reverseRecOn with
  | nil => exact fun _ => ⟨s₀, rfl, h0⟩
  | append_singleton pre a ih =>
    intro hpre
    obtain ⟨s, hs, hI⟩ := ih ((List.prefix_append pre [a]).trans hpre)
    obtain ⟨t, ht, hIt⟩ := hstep pre a s hpre hs hI
    exact ⟨t, by rw [run_snoc_of_eq a hs, ht], hIt⟩

/-- The invariant rule for a run that returns, with the history of calls. -/
theorem run_invariant (h0 : I [] s₀)
    (hstep : ∀ pre a s t, I pre s → step s a = some t → I (pre ++ [a]) t) :
    ∀ {as : List α} {s : σ}, run step s₀ as = some s → I as s := by
  intro as
  induction as using List.reverseRecOn with
  | nil =>
    intro s hs
    rw [run_nil, Option.some.injEq] at hs
    exact hs ▸ h0
  | append_singleton as a ih =>
    intro t ht
    rw [run_snoc] at ht
    cases hs : run step s₀ as with
    | none => rw [hs] at ht; cases ht
    | some s =>
      rw [hs, Option.bind_some] at ht
      exact hstep as a s t (ih hs) ht

/-- The invariant rule in which a step also knows the runs to its two states. -/
theorem run_invariant_of_run (h0 : I [] s₀)
    (hstep : ∀ pre a s t, run step s₀ pre = some s → run step s₀ (pre ++ [a]) = some t →
      I pre s → step s a = some t → I (pre ++ [a]) t) (hrun : run step s₀ as = some s) :
    I as s := by
  refine (run_invariant (I := fun as s => run step s₀ as = some s ∧ I as s) ⟨rfl, h0⟩ ?_ hrun).2
  rintro pre a s t ⟨hs, hI⟩ ht
  have hrun' := (run_snoc_of_eq a hs).trans ht
  exact ⟨hrun', hstep pre a s t hs hrun' hI ht⟩

end Runs
