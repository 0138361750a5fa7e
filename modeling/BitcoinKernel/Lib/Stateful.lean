import Mathlib.Data.List.Basic

/-!
# Computations that fail and keep their state

`ExceptT ε (StateM σ)` is the monad of a program that works on a state `σ` and
may throw `ε`.  What it did to the state before it threw stays done.  `exec`
runs such a computation, and the simp lemmas below run it one operation at a
time, so a proof about a `do` block never unfolds the monad.
-/

namespace Stateful

variable {ε ε' σ α β : Type}

/-- The result of a computation and the state that it leaves. -/
def exec (x : ExceptT ε (StateM σ) α) (s : σ) : Except ε α × σ := x s

@[simp] theorem exec_pure (a : α) (s : σ) :
    exec (pure a : ExceptT ε (StateM σ) α) s = (.ok a, s) := rfl

theorem exec_bind (x : ExceptT ε (StateM σ) α) (f : α → ExceptT ε (StateM σ) β) (s : σ) :
    exec (x >>= f) s = match exec x s with
      | (.ok a, t) => exec (f a) t
      | (.error e, t) => (.error e, t) := by
  have hbind : exec (x >>= f) s = (match x s with | (r, t) => ExceptT.bindCont f r t) := rfl
  rw [hbind, exec]
  rcases x s with ⟨e | a, t⟩ <;> rfl

variable {x : ExceptT ε (StateM σ) α} {s t : σ} {a : α} {e : ε}

@[simp] theorem exec_bind_of_ok (h : exec x s = (.ok a, t)) (f : α → ExceptT ε (StateM σ) β) :
    exec (x >>= f) s = exec (f a) t := by
  rw [exec_bind, h]

@[simp] theorem exec_bind_of_error (h : exec x s = (.error e, t)) (f : α → ExceptT ε (StateM σ) β) :
    exec (x >>= f) s = (.error e, t) := by
  rw [exec_bind, h]

@[simp] theorem exec_get_bind (f : σ → ExceptT ε (StateM σ) β) (s : σ) :
    exec (get >>= f) s = exec (f s) s := rfl

@[simp] theorem exec_modify (f : σ → σ) (s : σ) :
    exec (modify f : ExceptT ε (StateM σ) PUnit) s = (.ok ⟨⟩, f s) := rfl

/-- A computation that does not look at the state does not change it. -/
@[simp] theorem exec_lift (x : Except ε α) (s : σ) :
    exec (liftM x : ExceptT ε (StateM σ) α) s = (x, s) := by
  cases x <;> rfl

@[simp] theorem exec_adapt (f : ε → ε') (x : ExceptT ε (StateM σ) α) (s : σ) :
    exec (ExceptT.adapt f x) s = ((exec x s).1.mapError f, (exec x s).2) := rfl

/-- A check that throws passes exactly if its condition fails. -/
theorem throwIf_eq_ok_iff {c : Prop} [Decidable c] :
    (if c then throw e else pure () : Except ε Unit) = .ok () ↔ ¬c := by
  split <;> simp [*, throw, throwThe, MonadExceptOf.throw, pure, Except.pure]

/-- A check that throws, with what comes behind it. -/
theorem throwIf_bind_eq_ok_iff {c : Prop} [Decidable c] {k : PUnit → Except ε α} :
    (if c then (throw e : Except ε PUnit) >>= k else k ⟨⟩) = .ok a ↔ ¬c ∧ k ⟨⟩ = .ok a := by
  split <;> simp [*, throw, throwThe, MonadExceptOf.throw, bind, Except.bind]

theorem bind_eq_ok_iff {x : Except ε Unit} {y : Except ε α} :
    (x >>= fun _ => y) = .ok a ↔ x = .ok () ∧ y = .ok a := by
  cases x <;> simp [bind, Except.bind]

/-- A second check that passes whenever the first one does. -/
theorem bind_eq_left {x y : Except ε Unit} (h : x = .ok () → y = .ok ()) :
    (x >>= fun _ => y) = x := by
  cases x with
  | error e => rfl
  | ok _ => exact h rfl

/-! ## Computations that do not depend on the state

A computation may use the state as a cache.  It then gives the same result from
every state in which the cache is right, and leaves the cache right. -/

/-- From every state in `I`, the computation `x` gives `r` and stays in `I`. -/
def Computes (I : σ → Prop) (x : ExceptT ε (StateM σ) α) (r : Except ε α) : Prop :=
  ∀ s, I s → (exec x s).1 = r ∧ I (exec x s).2

namespace Computes

variable {I : σ → Prop}

protected theorem lift (x : Except ε α) : Computes I (liftM x) x := by
  intro s hs
  rw [exec_lift]
  exact ⟨rfl, hs⟩

protected theorem bind {x : ExceptT ε (StateM σ) α} {r : Except ε α}
    {f : α → ExceptT ε (StateM σ) β} {g : α → Except ε β}
    (hx : Computes I x r) (hf : ∀ a, Computes I (f a) (g a)) : Computes I (x >>= f) (r >>= g) := by
  intro s hs
  obtain ⟨hr, ht⟩ := hx s hs
  rw [exec_bind]
  cases hexec : exec x s with
  | mk result t =>
    rw [hexec] at hr ht
    subst hr
    cases result with
    | error e => exact ⟨rfl, ht⟩
    | ok a => exact hf a t ht

end Computes

end Stateful
