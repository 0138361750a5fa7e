import Mathlib.Logic.Function.Basic

/-!
# Rebuilding a map that was written in part

A map is on its way from `old` to `new`, and some of its keys were written.  `Mixed` says
that every key has its old or its new value.

`Leads a b x y` says that a change that leads from `a` to `b` leads from `x` to `y`: every
key gets the value that it has in `b`, or it is left alone, which happens only where `a`
and `b` agree.  Setting a key does so, whatever the map (`leads_update`), and such changes
can be made one after another (`Leads.trans`).  A change from `old` to `new` that is made
on a mixed map completes it (`Leads.eq_of_mixed`), however much of it was there before.
-/

namespace Rebuild

open Function

variable {κ α : Type} {a b c x y z old new : κ → α}

/-- A change from `a` to `b`, made on `x`, gives `y`. -/
def Leads (a b x y : κ → α) : Prop := ∀ k, y k = b k ∨ (y k = x k ∧ a k = b k)

protected theorem Leads.refl (a x : κ → α) : Leads a a x x := fun _ => Or.inr ⟨rfl, rfl⟩

protected theorem Leads.trans (h : Leads a b x y) (h' : Leads b c y z) : Leads a c x z := by
  intro k
  rcases h' k with hset | ⟨hkept, hsame⟩
  · exact Or.inl hset
  · rcases h k with hset | ⟨hkept', hsame'⟩
    · exact Or.inl (by rw [hkept, hset, hsame])
    · exact Or.inr ⟨hkept.trans hkept', hsame'.trans hsame⟩

theorem leads_update [DecidableEq κ] (a x : κ → α) (k : κ) (v : α) :
    Leads a (Function.update a k v) x (Function.update x k v) := by
  intro k'
  by_cases hk : k' = k
  · rw [hk, update_self, update_self]
    exact Or.inl rfl
  · rw [update_of_ne hk, update_of_ne hk]
    exact Or.inr ⟨rfl, rfl⟩

/-- Every key has its old or its new value. -/
def Mixed (old new x : κ → α) : Prop := ∀ k, x k = old k ∨ x k = new k

protected theorem Mixed.left (old new : κ → α) : Mixed old new old := fun _ => Or.inl rfl

theorem Mixed.update [DecidableEq κ] (h : Mixed old new x) {k : κ} {v : α} (hv : v = new k) :
    Mixed old new (Function.update x k v) := by
  intro k'
  by_cases hk : k' = k
  · rw [hk, update_self]
    exact Or.inr hv
  · rw [update_of_ne hk]
    exact h k'

/-- A mixed map is completed by the whole change. -/
theorem Leads.eq_of_mixed (h : Leads old new x y) (hx : Mixed old new x) : y = new := by
  funext k
  rcases h k with hset | ⟨hkept, hsame⟩
  · exact hset
  · rcases hx k with hold | hnew
    · rw [hkept, hold, hsame]
    · rw [hkept, hnew]

end Rebuild
