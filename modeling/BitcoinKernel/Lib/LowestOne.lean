import Mathlib.Data.Nat.Bitwise
import Mathlib.Data.Nat.Factorization.Basic
import Mathlib.Tactic.Ring

/-!
# Numbers without their lowest one

`dropLowestOne` clears the lowest one of a number in base two.  A number above 0
is `2 ^ a * (2 * q + 1)`, with its lowest one at the position `a`, and the
operation gives `2 ^ (a + 1) * q` (`dropLowestOne_two_pow_mul`).  The other lemmas
follow from this: what is left is divisible by a higher power of two, and a part
above the lowest one does not matter.
-/

namespace LowestOne

open Nat

/-- The number with its lowest one cleared.  0 stays 0. -/
def dropLowestOne (n : Nat) : Nat := n &&& (n - 1)

variable {n a m : Nat}

theorem dropLowestOne_two_mul (hn : 0 < n) : dropLowestOne (2 * n) = 2 * dropLowestOne n := by
  have hpred : 2 * n - 1 = Nat.bit true (n - 1) := by
    rw [bit_val, Bool.toNat_true]
    omega
  have hbit : 2 * n = Nat.bit false n := by
    rw [bit_val, Bool.toNat_false, add_zero]
  rw [dropLowestOne, hpred, hbit, land_bit, Bool.false_and, bit_val, Bool.toNat_false,
    add_zero, dropLowestOne]

/-- The lowest one of `2 ^ a * (2 * q + 1)` is at the position `a`. -/
theorem dropLowestOne_two_pow_mul (a q : Nat) :
    dropLowestOne (2 ^ a * (2 * q + 1)) = 2 ^ (a + 1) * q := by
  induction a with
  | zero =>
    have hodd : 2 * q + 1 = Nat.bit true q := by rw [bit_val, Bool.toNat_true]
    have heven : 2 * q = Nat.bit false q := by rw [bit_val, Bool.toNat_false, add_zero]
    rw [pow_zero, Nat.one_mul, Nat.zero_add, pow_one, dropLowestOne, Nat.add_sub_cancel, hodd,
      heven, Nat.land_bit, Bool.and_false, Nat.and_self]
  | succ a ih =>
    have hpos : 0 < 2 ^ a * (2 * q + 1) := Nat.mul_pos (Nat.two_pow_pos a) (Nat.succ_pos _)
    rw [pow_succ', Nat.mul_assoc, dropLowestOne_two_mul hpos, ih, ← Nat.mul_assoc, ← pow_succ']

/-- Every number above 0 has a lowest one. -/
theorem exists_lowestOne (hn : 0 < n) : ∃ a q, n = 2 ^ a * (2 * q + 1) := by
  obtain ⟨a, m, ⟨q, rfl⟩, hm⟩ := Nat.exists_eq_two_pow_mul_odd (Nat.ne_of_gt hn)
  exact ⟨a, q, hm⟩

theorem two_pow_dvd_of_succ (h : 2 ^ (a + 1) ∣ n) : 2 ^ a ∣ n :=
  (pow_dvd_pow 2 (le_succ a)).trans h

theorem le_of_two_pow_dvd {b q : Nat} (h : 2 ^ a ∣ 2 ^ b * (2 * q + 1)) : a ≤ b := by
  have hcoprime : Nat.Coprime (2 ^ a) (2 * q + 1) :=
    Nat.Coprime.pow_left a (coprime_two_left.mpr ⟨q, rfl⟩)
  exact (pow_dvd_pow_iff_le_right (by decide)).mp (hcoprime.dvd_of_dvd_mul_right h)

theorem dropLowestOne_zero : dropLowestOne 0 = 0 := rfl

theorem dropLowestOne_le (n : Nat) : dropLowestOne n ≤ n := and_le_left

/-- Without its lowest one, a multiple of a power of two is a multiple of the
next power. -/
theorem two_pow_dvd_dropLowestOne (h : 2 ^ a ∣ n) : 2 ^ (a + 1) ∣ dropLowestOne n := by
  rcases Nat.eq_zero_or_pos n with rfl | hpos
  · exact Nat.dvd_zero _
  · obtain ⟨b, q, rfl⟩ := exists_lowestOne hpos
    rw [dropLowestOne_two_pow_mul]
    have hle := le_of_two_pow_dvd h
    exact Dvd.dvd.mul_right (pow_dvd_pow 2 (succ_le_succ hle)) q

/-- The lowest one of a multiple of a power of two is at least this power. -/
theorem dropLowestOne_add_le (h : 2 ^ a ∣ n) (hn : 0 < n) : dropLowestOne n + 2 ^ a ≤ n := by
  obtain ⟨b, q, rfl⟩ := exists_lowestOne hn
  rw [dropLowestOne_two_pow_mul, pow_succ]
  have hle : 2 ^ a ≤ 2 ^ b := Nat.pow_le_pow_right (by decide) (le_of_two_pow_dvd h)
  calc 2 ^ b * 2 * q + 2 ^ a ≤ 2 ^ b * 2 * q + 2 ^ b := Nat.add_le_add_left hle _
    _ = 2 ^ b * (2 * q + 1) := by ring

/-- The lowest one of a sum is that of the part below. -/
theorem dropLowestOne_add {j u : Nat} (hm : 2 ^ j ∣ m) (hu : 0 < u) (hlt : u < 2 ^ j) :
    dropLowestOne (m + u) = m + dropLowestOne u := by
  obtain ⟨a, q, rfl⟩ := exists_lowestOne hu
  obtain ⟨p, rfl⟩ := hm
  have hle : 2 ^ a ≤ 2 ^ a * (2 * q + 1) := Nat.le_mul_of_pos_right _ (Nat.succ_pos _)
  have haj : a < j := (Nat.pow_lt_pow_iff_right (by decide)).mp (lt_of_le_of_lt hle hlt)
  obtain ⟨d, rfl⟩ := Nat.exists_eq_add_of_lt haj
  have hsum : 2 ^ (a + d + 1) * p + 2 ^ a * (2 * q + 1) = 2 ^ a * (2 * (2 ^ d * p + q) + 1) := by
    ring
  rw [hsum, dropLowestOne_two_pow_mul, dropLowestOne_two_pow_mul]
  ring

/-- A power of two has no other one. -/
theorem dropLowestOne_two_pow (a : Nat) : dropLowestOne (2 ^ a) = 0 := by
  have h := dropLowestOne_two_pow_mul a 0
  rwa [mul_zero, mul_zero, zero_add, mul_one] at h

/-- Below a multiple of a power of two, the distance to it doubles. -/
theorem dropLowestOne_sub (hm : 2 ^ (a + 1) ∣ m) (hpos : 0 < m) :
    dropLowestOne (m - 2 ^ a) = m - 2 ^ (a + 1) := by
  have hle : 2 ^ (a + 1) ≤ m := le_of_dvd hpos hm
  have hdouble : 2 ^ (a + 1) = 2 ^ a + 2 ^ a := by rw [pow_succ, mul_two]
  have hone : 0 < 2 ^ a := Nat.two_pow_pos a
  have hsplit : m - 2 ^ a = m - 2 ^ (a + 1) + 2 ^ a := by omega
  have hdvd : 2 ^ (a + 1) ∣ m - 2 ^ (a + 1) := dvd_sub hm (dvd_refl _)
  rw [hsplit, dropLowestOne_add hdvd hone (by omega), dropLowestOne_two_pow, add_zero]

end LowestOne
