import Mathlib.Algebra.Order.Ring.Nat
import Mathlib.Algebra.Ring.Int.Defs

/-!
# Numbers with their low bits cleared

A floating-point format that rounds down keeps the leading bits of a number and clears the
others.  How many are cleared depends on the size of the number.  `truncate_le_truncate`
says when such a rounding is monotone: two numbers lose the same bits, or a number that the
format can represent lies between them.
-/

namespace Truncate

/-- The number without its `k` lowest bits. -/
def truncate (k n : Nat) : Nat := n / 2 ^ k * 2 ^ k

variable {k k' m n : Nat}

theorem truncate_le (k n : Nat) : truncate k n ≤ n := Nat.div_mul_le_self n (2 ^ k)

@[simp] theorem truncate_zero_left (n : Nat) : truncate 0 n = n := by
  simp [truncate]

@[simp] theorem truncate_zero_right (k : Nat) : truncate k 0 = 0 := by
  simp [truncate]

/-- A multiple that is not larger survives. -/
theorem le_truncate_of_dvd {l : Nat} (hdvd : 2 ^ k ∣ l) (h : l ≤ n) : l ≤ truncate k n := by
  calc l = l / 2 ^ k * 2 ^ k := (Nat.div_mul_cancel hdvd).symm
    _ ≤ n / 2 ^ k * 2 ^ k := Nat.mul_le_mul_right _ (Nat.div_le_div_right h)

theorem truncate_le_truncate (h : m ≤ n)
    (hk : k = k' ∨ ∃ l, m ≤ l ∧ l ≤ n ∧ 2 ^ k' ∣ l) : truncate k m ≤ truncate k' n := by
  rcases hk with rfl | ⟨l, hml, hln, hdvd⟩
  · exact Nat.mul_le_mul_right _ (Nat.div_le_div_right h)
  · calc truncate k m ≤ m := truncate_le k m
      _ ≤ l := hml
      _ ≤ truncate k' n := le_truncate_of_dvd hdvd hln

end Truncate
