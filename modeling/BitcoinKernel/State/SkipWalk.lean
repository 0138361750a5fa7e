import Mathlib.Algebra.BigOperators.Group.Finset.Basic
import Mathlib.Data.Nat.Log
import BitcoinKernel.Lib.LowestOne
import BitcoinKernel.State.SkipList

/-!
# How many turns the search of an ancestor takes

Where all skip pointers are in place, the way of `GetAncestor` is a way through
heights.  `nextHeight` is one turn of its loop, and `steps` counts the turns from
a height to the height that is looked for.  This module finds the count, up to a
constant factor and a multiple of the logarithm.

There are four groups.

* One turn.  The skip heights of the source, in base two, and when a skip is
  followed.
* A block.  The search stands at the end `m - 1` of a block of `2 ^ j` heights, and
  the block has the height that is looked for.  In the upper half it is the end of
  a smaller block.  For the lower half the search has to pass the middle, and this
  takes `j / 2 + 2` turns (`steps_lower_half`).  So every zero of the height costs a
  number of turns that grows with its position (`steps_block`).
* The arrival.  From a start above the block the search reaches its end in a
  number of turns that is linear in `j` (`BlockBelow.steps_le`), and it cannot miss
  the end (`LowestAt.le_steps`).
* The result.  `zeros` is the sum of the positions of the zeros.  `zeros_le` and
  `steps_le_zeros` are the two bounds.  The sum is quadratic in the logarithm for
  the height 2 and starts at powers of two (`two_mul_zeros_two_pow`).
-/

namespace BitcoinKernel.State.BlockTree

open LowestOne Nat

/-! ## Skip heights -/

theorem invertLowestOne_eq (n : Nat) : invertLowestOne n = dropLowestOne n := rfl

theorem getSkipHeight_of_even {n : Nat} (h : n % 2 = 0) : getSkipHeight n = dropLowestOne n := by
  unfold getSkipHeight
  split_ifs with hsmall hodd
  · have hzero : n = 0 := by omega
    rw [hzero, dropLowestOne_zero]
  · rw [and_one_is_mod] at hodd
    omega
  · exact invertLowestOne_eq n

theorem getSkipHeight_succ_of_even {n : Nat} (h : n % 2 = 0) (hn : 0 < n) :
    getSkipHeight (n + 1) = dropLowestOne (dropLowestOne n) + 1 := by
  unfold getSkipHeight
  rw [if_neg (by omega), if_pos (by rw [Nat.and_one_is_mod]; omega), Nat.add_sub_cancel,
    invertLowestOne_eq, invertLowestOne_eq]

theorem even_of_two_pow_dvd {a n : Nat} (ha : 0 < a) (h : 2 ^ a ∣ n) : n % 2 = 0 :=
  mod_eq_zero_of_dvd ((dvd_pow_self 2 (ne_of_gt ha)).trans h)

section Below

variable {a m : Nat}

theorem even_sub_two_pow (ha : 0 < a) (hm : 2 ^ (a + 1) ∣ m) : (m - 2 ^ a) % 2 = 0 := by
  have hdvd : 2 ^ a ∣ m := two_pow_dvd_of_succ hm
  exact even_of_two_pow_dvd ha (dvd_sub hdvd (dvd_refl _))

/-- An even height below a multiple of a power of two. -/
theorem getSkipHeight_sub (ha : 0 < a) (hm : 2 ^ (a + 1) ∣ m) (hpos : 0 < m) :
    getSkipHeight (m - 2 ^ a) = m - 2 ^ (a + 1) := by
  rw [getSkipHeight_of_even (even_sub_two_pow ha hm), dropLowestOne_sub hm hpos]

theorem getSkipHeight_sub_succ (ha : 0 < a) (hm : 2 ^ (a + 1) ∣ m) (hpos : 0 < m) :
    getSkipHeight (m - 2 ^ a + 1) = dropLowestOne (m - 2 ^ (a + 1)) + 1 := by
  have hle : 2 ^ (a + 1) ≤ m := le_of_dvd hpos hm
  have hlt : 2 ^ a < 2 ^ (a + 1) := Nat.pow_lt_pow_succ (by decide)
  rw [getSkipHeight_succ_of_even (even_sub_two_pow ha hm) (by omega), dropLowestOne_sub hm hpos]

/-- An odd height below a multiple of a power of two. -/
theorem getSkipHeight_sub_succ_eq (ha : 0 < a) (hm : 2 ^ (a + 2) ∣ m) (hpos : 0 < m) :
    getSkipHeight (m - 2 ^ a + 1) = m - 2 ^ (a + 2) + 1 := by
  have hm' : 2 ^ (a + 1) ∣ m := two_pow_dvd_of_succ hm
  rw [getSkipHeight_sub_succ ha hm' hpos, dropLowestOne_sub hm hpos]

theorem getSkipHeight_sub_succ_le (ha : 0 < a) (hm : 2 ^ (a + 1) ∣ m) (hpos : 0 < m) :
    getSkipHeight (m - 2 ^ a + 1) ≤ m - 2 ^ (a + 1) + 1 := by
  rw [getSkipHeight_sub_succ ha hm hpos]
  exact succ_le_succ (dropLowestOne_le _)

end Below

/-! ## One turn -/

/-- The height after one turn of the loop of `GetAncestor`, at a node that has a
skip pointer. -/
def nextHeight (height heightWalk : Nat) : Nat :=
  let heightSkip := getSkipHeight heightWalk
  let heightSkipPrev := getSkipHeight (heightWalk - 1)
  if heightSkip = height ∨ (heightSkip > height ∧
      ¬ ((heightSkipPrev : Int) < (heightSkip : Int) - 2 ∧ heightSkipPrev ≥ height)) then
    heightSkip
  else heightWalk - 1

section Turn

variable {height w : Nat}

theorem nextHeight_cases (height w : Nat) :
    (nextHeight height w = getSkipHeight w ∧ height ≤ getSkipHeight w) ∨
      nextHeight height w = w - 1 := by
  unfold nextHeight
  dsimp only
  split_ifs with hfollow
  · left
    refine ⟨rfl, ?_⟩
    omega
  · right
    rfl

theorem nextHeight_lt (hw : 0 < w) : nextHeight height w < w := by
  have hskip := getSkipHeight_lt hw
  rcases nextHeight_cases height w with ⟨h, -⟩ | h
  · omega
  · omega

theorem le_nextHeight (hw : height < w) : height ≤ nextHeight height w := by
  rcases nextHeight_cases height w with ⟨h, hle⟩ | h
  · omega
  · omega

/-- A skip below the height that is looked for is not followed. -/
theorem nextHeight_of_lt (h : getSkipHeight w < height) : nextHeight height w = w - 1 := by
  rcases nextHeight_cases height w with ⟨-, hle⟩ | heq
  · omega
  · exact heq

/-- A skip is followed unless the previous node has a better one. -/
theorem nextHeight_of_le (h : height ≤ getSkipHeight w)
    (hprev : height ≤ getSkipHeight (w - 1) → getSkipHeight w ≤ getSkipHeight (w - 1) + 2) :
    nextHeight height w = getSkipHeight w := by
  unfold nextHeight
  dsimp only
  rw [if_pos]
  by_cases heq : getSkipHeight w = height
  · exact Or.inl heq
  · refine Or.inr ⟨by omega, ?_⟩
    rintro ⟨hlt, hge⟩
    have hle := hprev hge
    omega

/-- At an odd height the previous node never has a better skip. -/
theorem nextHeight_succ_of_even (hw : w % 2 = 0) (hpos : 0 < w)
    (h : height ≤ getSkipHeight (w + 1)) :
    nextHeight height (w + 1) = getSkipHeight (w + 1) := by
  refine nextHeight_of_le h fun _ => ?_
  rw [Nat.add_sub_cancel, getSkipHeight_of_even hw, getSkipHeight_succ_of_even hw hpos]
  have hle := dropLowestOne_le (dropLowestOne w)
  omega

/-- At a multiple of eight the previous node never has a better skip. -/
theorem nextHeight_of_eight_dvd (hw : 8 ∣ w) (hpos : 0 < w) (h : height ≤ getSkipHeight w) :
    nextHeight height w = getSkipHeight w := by
  refine nextHeight_of_le h fun _ => ?_
  have hle : 8 ≤ w := le_of_dvd hpos hw
  have hprev : getSkipHeight (w - 1) = w - 7 := by
    have hsub := getSkipHeight_sub_succ_eq (a := 1) (by decide) hw hpos
    have hw1 : w - 2 ^ 1 + 1 = w - 1 := by omega
    rw [hw1] at hsub
    omega
  have hskip : getSkipHeight w ≤ w - 8 := by
    have hdrop := dropLowestOne_add_le (a := 3) hw hpos
    rw [getSkipHeight_of_even (by omega)]
    omega
  omega

/-- Below a multiple of a power of two, an even skip is followed if it does not
end near the height that is looked for. -/
theorem nextHeight_sub_of_le {a m : Nat} (ha : a = 1 ∨ 3 ≤ a) (hm : 2 ^ (a + 2) ∣ m) (hpos : 0 < m)
    (hge : m - 2 ^ (a + 2) + 2 ≤ height) (hle : height ≤ m - 2 ^ (a + 1)) :
    nextHeight height (m - 2 ^ a) = getSkipHeight (m - 2 ^ a) := by
  have hm1 : 2 ^ (a + 1) ∣ m := two_pow_dvd_of_succ hm
  have hskip := getSkipHeight_sub (by omega) hm1 hpos
  have hmle : 2 ^ (a + 2) ≤ m := le_of_dvd hpos hm
  rcases ha with rfl | hlarge
  · -- the previous node skips too far
    refine nextHeight_of_le (hskip ▸ hle) fun hprev => ?_
    have hprevSkip : getSkipHeight (m - 2 ^ 2 + 1) ≤ m - 2 ^ 3 + 1 :=
      getSkipHeight_sub_succ_le (by decide) hm hpos
    have hsub : m - 2 ^ 1 - 1 = m - 2 ^ 2 + 1 := by omega
    rw [hsub] at hprev
    omega
  · have hlt : 2 ^ a < 2 ^ (a + 2) := Nat.pow_lt_pow_right (by decide) (by omega)
    have hdvd : 2 ^ 3 ∣ m - 2 ^ a := by
      have hpow : 2 ^ 3 ∣ 2 ^ a := pow_dvd_pow 2 hlarge
      exact dvd_sub (hpow.trans ((pow_dvd_pow 2 (le_add_right a 2)).trans hm)) hpow
    exact nextHeight_of_eight_dvd hdvd (by omega) (hskip ▸ hle)

end Turn

/-! ## The number of turns -/

/-- The number of turns of the loop. -/
def steps (height heightWalk : Nat) : Nat :=
  if height < heightWalk then steps height (nextHeight height heightWalk) + 1 else 0
termination_by heightWalk
decreasing_by
  rename_i h
  exact nextHeight_lt (zero_lt_of_lt h)

section Steps

variable {height w : Nat}

theorem steps_of_lt (h : height < w) : steps height w = steps height (nextHeight height w) + 1 := by
  rw [steps, if_pos h]

theorem steps_of_le (h : w ≤ height) : steps height w = 0 := by
  rw [steps, if_neg (Nat.not_lt_of_le h)]

/-- One turn to the previous node. -/
theorem steps_of_skip_lt (hw : height < w) (h : getSkipHeight w < height) :
    steps height w = steps height (w - 1) + 1 := by
  rw [steps_of_lt hw, nextHeight_of_lt h]

theorem steps_le_one (h : w ≤ height + 1) : steps height w ≤ 1 := by
  by_cases hlt : height < w
  · have hnext : nextHeight height w < w := nextHeight_lt (zero_lt_of_lt hlt)
    rw [steps_of_lt hlt, steps_of_le (by omega)]
  · rw [steps_of_le (by omega)]
    exact zero_le 1

end Steps

/-! ## From the end of a block of heights

`m` is a multiple of a power of two, and the search starts at `m - 1`. -/

section Block

variable {height m : Nat}

/-- Skips at odd heights: the distance to `m` grows by the factor four. -/
theorem steps_odd_run (hpos : 0 < m) : ∀ i, 2 ^ (2 * i + 1) ∣ m → height ≤ m - 2 ^ (2 * i + 1) + 1 →
      steps height (m - 1) = steps height (m - 2 ^ (2 * i + 1) + 1) + i := by
  intro i
  induction i with
  | zero =>
    intro hm _
    have hge : 2 ^ (2 * 0 + 1) ≤ m := le_of_dvd hpos hm
    have hstart : m - 1 = m - 2 ^ (2 * 0 + 1) + 1 := by omega
    rw [hstart]
    rfl
  | succ i ih =>
    intro hm hle
    have hexp : 2 * (i + 1) + 1 = 2 * i + 1 + 2 := by omega
    rw [hexp] at hm hle ⊢
    have hge : 2 ^ (2 * i + 1 + 2) ≤ m := le_of_dvd hpos hm
    have hgrow : 2 ^ (2 * i + 1 + 2) = 4 * 2 ^ (2 * i + 1) := by rw [pow_add, mul_comm]; rfl
    have hone : 0 < 2 ^ (2 * i + 1) := Nat.two_pow_pos _
    have ha : 0 < 2 * i + 1 := succ_pos _
    have hm1 : 2 ^ (2 * i + 1 + 1) ∣ m := two_pow_dvd_of_succ hm
    have hm0 : 2 ^ (2 * i + 1) ∣ m := two_pow_dvd_of_succ hm1
    have hskip := getSkipHeight_sub_succ_eq ha hm hpos
    have hnext := nextHeight_succ_of_even (even_sub_two_pow ha hm1) (by omega) (hskip ▸ hle)
    have hturn : steps height (m - 2 ^ (2 * i + 1) + 1) =
        steps height (m - 2 ^ (2 * i + 1 + 2) + 1) + 1 := by
      rw [steps_of_lt (by omega), hnext, hskip]
    rw [ih hm0 (by omega), hturn]
    omega

/-- Where the lower half of the block has the height that is looked for, and it is
not one of the two lowest, the search goes to the end of that half. -/
theorem steps_lower_half {j : Nat} (hm : 2 ^ (j + 1) ∣ m) (hpos : 0 < m)
    (hge : m - 2 ^ (j + 1) + 2 ≤ height) (hlt : height < m - 2 ^ j) :
    steps height (m - 1) = steps height (m - 2 ^ j - 1) + (j / 2 + 2) := by
  have hle : 2 ^ (j + 1) ≤ m := le_of_dvd hpos hm
  have hdouble : 2 ^ (j + 1) = 2 * 2 ^ j := pow_succ' 2 j
  have hm0 : 2 ^ j ∣ m := two_pow_dvd_of_succ hm
  have hj : 0 < j := Nat.pos_of_ne_zero (Nat.one_lt_two_pow_iff.mp (by omega))
  -- the last turn, at the middle of the block
  have hmiddle : steps height (m - 2 ^ j) = steps height (m - 2 ^ j - 1) + 1 := by
    apply steps_of_skip_lt hlt
    rw [getSkipHeight_sub hj hm hpos]
    omega
  rcases even_or_odd' j with ⟨i, rfl | rfl⟩
  · obtain ⟨c, rfl⟩ := exists_eq_succ_of_ne_zero (show i ≠ 0 by omega)
    have hexp : 2 * (c + 1) = 2 * c + 1 + 1 := by omega
    rw [succ_eq_add_one, hexp] at hm hge hlt hmiddle hm0 hdouble hle ⊢
    have ha : 0 < 2 * c + 1 := succ_pos _
    have hone : 0 < 2 ^ (2 * c + 1) := Nat.two_pow_pos _
    have hdouble' : 2 ^ (2 * c + 1 + 1) = 2 * 2 ^ (2 * c + 1) := pow_succ' 2 _
    have hm1 : 2 ^ (2 * c + 1) ∣ m := two_pow_dvd_of_succ hm0
    have hrun : steps height (m - 1) = steps height (m - 2 ^ (2 * c + 1) + 1) + c :=
      steps_odd_run hpos c hm1 (by omega)
    have hodd : steps height (m - 2 ^ (2 * c + 1) + 1) =
        steps height (m - 2 ^ (2 * c + 1)) + 1 := by
      have hskip : getSkipHeight (m - 2 ^ (2 * c + 1) + 1) = m - 2 ^ (2 * c + 1 + 1 + 1) + 1 :=
        getSkipHeight_sub_succ_eq ha hm hpos
      exact steps_of_skip_lt (by omega) (by omega)
    have heven : steps height (m - 2 ^ (2 * c + 1)) =
        steps height (m - 2 ^ (2 * c + 1 + 1)) + 1 := by
      have hskip := getSkipHeight_sub ha hm0 hpos
      have hnext := nextHeight_sub_of_le (by omega) hm hpos hge (by omega)
      rw [steps_of_lt (by omega), hnext, hskip]
    omega
  · have hrun : steps height (m - 1) = steps height (m - 2 ^ (2 * i + 1) + 1) + i :=
      steps_odd_run hpos i hm0 (by omega)
    have hodd : steps height (m - 2 ^ (2 * i + 1) + 1) =
        steps height (m - 2 ^ (2 * i + 1)) + 1 := by
      have hskip := getSkipHeight_sub_succ_le hj hm hpos
      exact steps_of_skip_lt (by omega) (by omega)
    omega

/-- The two lowest heights of the block are found soon. -/
theorem steps_two_lowest {j : Nat} (hm : 2 ^ (j + 1) ∣ m) (hpos : 0 < m)
    (hge : m - 2 ^ (j + 1) ≤ height) (hle : height ≤ m - 2 ^ (j + 1) + 1) :
    steps height (m - 1) ≤ j + 4 := by
  have hmle : 2 ^ (j + 1) ≤ m := le_of_dvd hpos hm
  have hdouble : 2 ^ (j + 1) = 2 * 2 ^ j := pow_succ' 2 j
  have hone : 0 < 2 ^ j := Nat.two_pow_pos j
  have hm0 : 2 ^ j ∣ m := two_pow_dvd_of_succ hm
  rcases even_or_odd' j with ⟨i, rfl | rfl⟩
  · have hrun := steps_odd_run hpos i hm hle
    have hend : steps height (m - 2 ^ (2 * i + 1) + 1) ≤ 1 := steps_le_one (by omega)
    omega
  · have hodd : 1 ≤ 2 ^ (2 * i) := Nat.one_le_two_pow
    have hrun : steps height (m - 1) = steps height (m - 2 ^ (2 * i + 1) + 1) + i :=
      steps_odd_run hpos i hm0 (by omega)
    have hfirst := steps_of_lt (show height < m - 2 ^ (2 * i + 1) + 1 by omega)
    rcases nextHeight_cases height (m - 2 ^ (2 * i + 1) + 1) with ⟨hnext, -⟩ | hnext
    · have hskip := getSkipHeight_sub_succ_le (succ_pos (2 * i)) hm hpos
      have hend : steps height (nextHeight height (m - 2 ^ (2 * i + 1) + 1)) ≤ 1 :=
        steps_le_one (by rw [hnext]; exact hskip.trans (by omega))
      omega
    · rw [hnext, Nat.add_sub_cancel] at hfirst
      have hsecond := steps_of_lt (show height < m - 2 ^ (2 * i + 1) by omega)
      rcases nextHeight_cases height (m - 2 ^ (2 * i + 1)) with ⟨hnext', -⟩ | hnext'
      · have hskip := getSkipHeight_sub (succ_pos (2 * i)) hm hpos
        have hend : steps height (nextHeight height (m - 2 ^ (2 * i + 1))) = 0 :=
          steps_of_le (by rw [hnext']; exact hskip.le.trans hge)
        omega
      · -- the search passes the middle, and the height is at the end of a second run
        rw [hnext'] at hsecond
        have hrun' : steps height (m - 2 ^ (2 * i + 1) - 1) =
            steps height (m - 2 ^ (2 * i + 1) - 2 ^ (2 * i + 1) + 1) + i :=
          steps_odd_run (by omega) i (dvd_sub hm0 (dvd_refl _)) (by omega)
        have hend : steps height (m - 2 ^ (2 * i + 1) - 2 ^ (2 * i + 1) + 1) ≤ 1 :=
          steps_le_one (by omega)
        omega

end Block

/-! ## The zeros of the height -/

/-- The sum of the positions below `j` at which the height has a zero, without
those below which there is nothing or a lowest one only. -/
def zeroSum (height j : Nat) : Nat :=
  ∑ i ∈ Finset.range j, if height.testBit i = false ∧ 2 ≤ height % 2 ^ i then i else 0

theorem zeroSum_succ (height j : Nat) : zeroSum height (j + 1) =
      zeroSum height j + if height.testBit j = false ∧ 2 ≤ height % 2 ^ j then j else 0 :=
  Finset.sum_range_succ _ j

theorem zeroSum_eq_zero {height j : Nat} (h : height % 2 ^ j < 2) : zeroSum height j = 0 := by
  refine Finset.sum_eq_zero fun i hi => if_neg fun hzero => ?_
  have hdvd : 2 ^ i ∣ 2 ^ j := pow_dvd_pow 2 (le_of_lt (Finset.mem_range.mp hi))
  have hle : height % 2 ^ j % 2 ^ i ≤ height % 2 ^ j := mod_le _ _
  rw [mod_mod_of_dvd _ hdvd] at hle
  omega

section Levels

variable {height : Nat}

/-- In which half of a block a height is, is its bit. -/
theorem testBit_eq_of_block {j m : Nat} (hm : 2 ^ (j + 1) ∣ m) (hpos : 0 < m)
    (hge : m - 2 ^ (j + 1) ≤ height) (hlt : height < m) :
    (height.testBit j = true ∧ m - 2 ^ j ≤ height) ∨
      (height.testBit j = false ∧ height < m - 2 ^ j ∧
        height % 2 ^ j = height - (m - 2 ^ (j + 1))) := by
  have hmle : 2 ^ (j + 1) ≤ m := le_of_dvd hpos hm
  have hdouble : 2 ^ (j + 1) = 2 * 2 ^ j := pow_succ' 2 j
  obtain ⟨p, hp⟩ : 2 ^ (j + 1) ∣ m - 2 ^ (j + 1) := dvd_sub hm (dvd_refl _)
  have hbase : m - 2 ^ (j + 1) = 2 ^ j * (2 * p) := by rw [hp, pow_succ, mul_assoc]
  by_cases hupper : m - 2 ^ j ≤ height
  · have hsplit : height = 2 ^ j * (2 * p + 1) + (height - (m - 2 ^ j)) := by
      rw [mul_add, ← hbase]
      omega
    refine Or.inl ⟨?_, hupper⟩
    rw [hsplit, Nat.testBit_two_pow_mul_add _ (by omega), if_neg (Nat.lt_irrefl j), Nat.sub_self,
      testBit_zero]
    exact decide_eq_true (by omega)
  · have hsplit : height = 2 ^ j * (2 * p) + (height - (m - 2 ^ (j + 1))) := by
      rw [← hbase]
      omega
    have hrest : height - (m - 2 ^ (j + 1)) < 2 ^ j := by omega
    refine Or.inr ⟨?_, Nat.lt_of_not_le hupper, ?_⟩
    · rw [hsplit, Nat.testBit_two_pow_mul_add _ hrest, if_neg (Nat.lt_irrefl j), Nat.sub_self,
        testBit_zero]
      exact decide_eq_false (by omega)
    · conv_lhs => rw [hsplit]
      rw [mul_add_mod, mod_eq_of_lt hrest]

theorem mod_two_pow_le {j m : Nat} (hm : 2 ^ j ∣ m) (hge : m - 2 ^ j ≤ height) :
    height % 2 ^ j ≤ height - (m - 2 ^ j) := by
  obtain ⟨p, hp⟩ := dvd_sub hm (dvd_refl (2 ^ j))
  have hsplit : height = 2 ^ j * p + (height - (m - 2 ^ j)) := by omega
  have hmod : height % 2 ^ j = (height - (m - 2 ^ j)) % 2 ^ j := by
    conv_lhs => rw [hsplit]
    exact mul_add_mod _ _ _
  rw [hmod]
  exact mod_le _ _

/-- From the end of a block the number of turns is the sum of the zeros, up to a
factor and a multiple of the size. -/
theorem steps_block (j : Nat) (hm : 2 ^ j ∣ m) (hpos : 0 < m) (hge : m - 2 ^ j ≤ height)
    (hlt : height < m) :
    zeroSum height j ≤ 2 * steps height (m - 1) ∧
      steps height (m - 1) ≤ zeroSum height j + 3 * j + 4 := by
  induction j generalizing m with
  | zero =>
    have hend : steps height (m - 1) = 0 := steps_of_le (by omega)
    rw [hend]
    exact ⟨le_refl 0, by omega⟩
  | succ j ih =>
    have hm0 : 2 ^ j ∣ m := two_pow_dvd_of_succ hm
    have hmle : 2 ^ (j + 1) ≤ m := le_of_dvd hpos hm
    have hdouble : 2 ^ (j + 1) = 2 * 2 ^ j := pow_succ' 2 j
    have hone : 0 < 2 ^ j := Nat.two_pow_pos j
    rw [zeroSum_succ]
    rcases testBit_eq_of_block hm hpos hge hlt with ⟨hbit, hupper⟩ | ⟨hbit, hlower, hmod⟩
    · -- the upper half: the block at the same end
      rw [if_neg fun h => by rw [hbit] at h; exact nomatch h.1]
      obtain ⟨hlow, hhigh⟩ := ih hm0 hpos hupper hlt
      exact ⟨hlow, by omega⟩
    · by_cases htwo : 2 ≤ height % 2 ^ j
      · -- the lower half
        rw [if_pos ⟨hbit, htwo⟩, steps_lower_half hm hpos (by omega) hlower]
        obtain ⟨hlow, hhigh⟩ := ih (dvd_sub hm0 (dvd_refl _)) (by omega) (by omega) hlower
        constructor
        · omega
        · omega
      · rw [if_neg fun h => htwo h.2, zeroSum_eq_zero (by omega)]
        have hend := steps_two_lowest hm hpos hge (by omega)
        exact ⟨zero_le _, by omega⟩

end Levels

/-! ## The way to the end of the block

The search starts above a height `m` whose lowest one is at the position `j`, and
looks for a height in the block below `m`. -/

/-- The lowest one of `m` is at the position `j`. -/
structure LowestAt (j m : Nat) : Prop where
  dvd : 2 ^ j ∣ m
  drop : dropLowestOne m + 2 ^ j = m

theorem lowestAt_two_pow_mul (j q : Nat) : LowestAt j (2 ^ j * (2 * q + 1)) where
  dvd := dvd_mul_right _ _
  drop := by
    rw [dropLowestOne_two_pow_mul]
    ring

/-- The height that is looked for is in the block below `m`, whose lowest one is at
the position `j`. -/
structure BlockBelow (height j m : Nat) : Prop extends LowestAt j m where
  ge : m - 2 ^ j ≤ height
  lt : height < m

section Arrival

variable {height j m : Nat}

variable {u v b : Nat}

section

variable (h : LowestAt j m)

include h

theorem LowestAt.even_add (hu : u % 2 = 0) (hj : 0 < j) : (m + u) % 2 = 0 := by
  have heven := even_of_two_pow_dvd hj h.dvd
  omega

theorem LowestAt.getSkipHeight_le : getSkipHeight m ≤ m - 2 ^ j := by
  have hdrop := h.drop
  have hone : 0 < 2 ^ j := Nat.two_pow_pos j
  rcases Nat.eq_zero_or_pos j with rfl | hj
  · have hlt := getSkipHeight_lt (show 0 < m by omega)
    omega
  · rw [getSkipHeight_of_even (even_of_two_pow_dvd hj h.dvd)]
    omega

/-- Even heights above `m`. -/
theorem LowestAt.getSkipHeight_even (heven : u % 2 = 0) (hu : 0 < u) (hlt : u < 2 ^ j) (hj : 0 < j)
    : getSkipHeight (m + u) = m + dropLowestOne u := by
  rw [getSkipHeight_of_even (h.even_add heven hj), dropLowestOne_add h.dvd hu hlt]

/-- Odd heights above `m` with at least two ones between. -/
theorem LowestAt.getSkipHeight_odd (heven : v % 2 = 0) (hdrop : 0 < dropLowestOne v)
    (hlt : v < 2 ^ j) (hj : 0 < j) :
    getSkipHeight (m + v + 1) = m + dropLowestOne (dropLowestOne v) + 1 := by
  have hle := dropLowestOne_le v
  rw [getSkipHeight_succ_of_even (h.even_add heven hj) (by omega),
    dropLowestOne_add h.dvd (by omega) hlt, dropLowestOne_add h.dvd hdrop (by omega)]

/-- Odd heights above `m` with at most one one between. -/
theorem LowestAt.getSkipHeight_odd_le (heven : v % 2 = 0) (hdrop : dropLowestOne v = 0)
    (hlt : v < 2 ^ j) (hj : 0 < j) :
    getSkipHeight (m + v + 1) ≤ m - 2 ^ j + 1 := by
  have hm := h.drop
  have hone : 0 < 2 ^ j := Nat.two_pow_pos j
  rw [getSkipHeight_succ_of_even (h.even_add heven hj) (by omega)]
  rcases Nat.eq_zero_or_pos v with rfl | hv
  · have hle := dropLowestOne_le (dropLowestOne m)
    rw [add_zero m]
    omega
  · rw [dropLowestOne_add h.dvd hv hlt, hdrop, add_zero m]
    omega

/-- A turn from above `m` ends above or at `m`, or at the low end of the block. -/
theorem LowestAt.nextHeight_cases (height : Nat) (hu : 0 < u) (hlt : u < 2 ^ j) :
    m ≤ nextHeight height (m + u) ∨ nextHeight height (m + u) ≤ m - 2 ^ j + 1 := by
  have hj : 0 < j := Nat.pos_of_ne_zero (Nat.one_lt_two_pow_iff.mp (by omega))
  rcases BlockTree.nextHeight_cases height (m + u) with ⟨hnext, -⟩ | hnext
  · rw [hnext]
    rcases mod_two_eq_zero_or_one u with heven | hodd
    · rw [h.getSkipHeight_even heven hu hlt hj]
      exact Or.inl (le_add_right _ _)
    · obtain ⟨v, rfl⟩ := exists_eq_succ_of_ne_zero (ne_of_gt hu)
      have heven : v % 2 = 0 := by omega
      rcases Nat.eq_zero_or_pos (dropLowestOne v) with hdrop | hdrop
      · exact Or.inr (h.getSkipHeight_odd_le heven hdrop (by omega) hj)
      · have hskip := h.getSkipHeight_odd heven hdrop (by omega) hj
        left
        rw [succ_eq_add_one, ← add_assoc, hskip]
        omega
  · left
    omega

/-- A search for a height that is not one of the two lowest of the block goes
through the end of the block. -/
theorem LowestAt.le_steps (hge : m - 2 ^ j + 2 ≤ height) (hlt : height < m) :
    ∀ u, u < 2 ^ j → steps height (m - 1) ≤ steps height (m + u) := by
  intro u
  induction u using Nat.strong_induction_on with
  | _ u ih =>
    intro hu
    rcases Nat.eq_zero_or_pos u with rfl | hpos
    · have hskip := h.getSkipHeight_le
      rw [add_zero, steps_of_skip_lt hlt (by omega)]
      exact le_succ _
    · have hnext : nextHeight height (m + u) < m + u := nextHeight_lt (by omega)
      have hle : height ≤ nextHeight height (m + u) := le_nextHeight (by omega)
      rcases h.nextHeight_cases height hpos hu with habove | hbelow
      · obtain ⟨v, hv⟩ := Nat.exists_eq_add_of_le habove
        have hturn := ih v (by omega) (by omega)
        have hsteps := steps_of_lt (show height < m + u by omega)
        rw [hv] at hsteps
        omega
      · omega

end

section

variable (h : BlockBelow height j m)

include h

/-- A turn from above `m` that does not end above or at `m` is the last but one. -/
theorem BlockBelow.steps_le_of_next (hu : 0 < u) (hul : u < 2 ^ j)
    (hnext : ∀ v, nextHeight height (m + u) = m + v → steps height (m + v) ≤ b) (hb : 1 ≤ b) :
    steps height (m + u) ≤ b + 1 := by
  have hge := h.ge
  have hlt := h.lt
  rw [steps_of_lt (by omega)]
  apply succ_le_succ
  rcases h.nextHeight_cases height hu hul with habove | hbelow
  · obtain ⟨v, hv⟩ := Nat.exists_eq_add_of_le habove
    rw [hv]
    exact hnext v hv
  · exact (steps_le_one (by omega)).trans hb

/-- Near `m` every turn counts one. -/
theorem BlockBelow.steps_le_add :
    ∀ u, u < 2 ^ j → steps height (m + u) ≤ steps height m + u + 1 := by
  intro u
  induction u using Nat.strong_induction_on with
  | _ u ih =>
    intro hu
    rcases Nat.eq_zero_or_pos u with rfl | hpos
    · exact le_succ _
    · refine h.steps_le_of_next hpos hu ?_ (by omega)
      intro v hv
      have hnext : nextHeight height (m + u) < m + u := nextHeight_lt (by omega)
      have hstep := ih v (by omega) (by omega)
      omega

/-- From `m` with one more one. -/
theorem BlockBelow.steps_two_pow_le (hb : 2 ^ b < 2 ^ j) :
    steps height (m + 2 ^ b) ≤ steps height m + 6 := by
  rcases lt_or_ge b 3 with hsmall | hlarge
  · have hpow : 2 ^ b ≤ 2 ^ 2 := Nat.pow_le_pow_right (by decide) (by omega)
    have hadd := h.steps_le_add (2 ^ b) hb
    omega
  · have hlt := h.lt
    have hone : 0 < 2 ^ b := Nat.two_pow_pos b
    have hbj : b < j := (Nat.pow_lt_pow_iff_right (by decide)).mp hb
    have hdvd : 2 ^ 3 ∣ 2 ^ b := pow_dvd_pow 2 hlarge
    have hdvdm : 2 ^ 3 ∣ m := (pow_dvd_pow 2 (by omega)).trans h.dvd
    have hskip : getSkipHeight (m + 2 ^ b) = m := by
      rw [h.getSkipHeight_even (even_of_two_pow_dvd (by decide) hdvd) hone hb (by omega),
        dropLowestOne_two_pow, add_zero]
    have hnext : nextHeight height (m + 2 ^ b) = m := by
      rw [nextHeight_of_eight_dvd (dvd_add hdvdm hdvd) (by omega) (by omega), hskip]
    rw [steps_of_lt (by omega), hnext]
    omega

/-- From an odd height with at most one one between. -/
theorem BlockBelow.steps_last_one_le (heven : v % 2 = 0) (hdrop : dropLowestOne v = 0)
    (hv : v + 1 < 2 ^ j) :
    steps height (m + (v + 1)) ≤ steps height m + 7 := by
  have hj : 0 < j := Nat.pos_of_ne_zero (Nat.one_lt_two_pow_iff.mp (by omega))
  refine h.steps_le_of_next (succ_pos v) hv ?_ (by omega)
  intro w hw
  -- the turn goes to the previous node
  have hprev : w = v := by
    rcases BlockTree.nextHeight_cases height (m + (v + 1)) with ⟨hnext, -⟩ | hnext
    · have hskip := h.getSkipHeight_odd_le heven hdrop (by omega) hj
      have hm := h.drop
      rw [add_assoc, ← hnext, hw] at hskip
      omega
    · omega
  subst hprev
  rcases Nat.eq_zero_or_pos w with rfl | hpos
  · exact le_add_right _ _
  · obtain ⟨b, q, rfl⟩ := exists_lowestOne hpos
    rw [dropLowestOne_two_pow_mul] at hdrop
    obtain rfl : q = 0 := (Nat.mul_eq_zero.mp hdrop).resolve_left (Nat.ne_of_gt (Nat.two_pow_pos _))
    rw [mul_zero, zero_add, mul_one] at hv ⊢
    exact h.steps_two_pow_le (by omega)

end

theorem eq_zero_of_two_pow_dvd {a : Nat} (hdvd : 2 ^ a ∣ v) (hv : v < 2 ^ j) (hle : j ≤ a) :
    v = 0 := by
  have hpow : 2 ^ j ≤ 2 ^ a := Nat.pow_le_pow_right (by decide) hle
  exact eq_zero_of_dvd_of_lt hdvd (by omega)

/-- From an odd height the number of ones goes down by two in each turn, until
one is left. -/
theorem BlockBelow.steps_odd_le (h : BlockBelow height j m) (k : Nat) (ha : 0 < a)
    (hdvd : 2 ^ a ∣ v) (hv : v + 1 < 2 ^ j) (hk : j ≤ a + k) :
    steps height (m + (v + 1)) ≤ steps height m + k + 7 := by
  induction k generalizing a v with
  | zero =>
    have hzero : v = 0 := eq_zero_of_two_pow_dvd hdvd (by omega) hk
    subst hzero
    exact h.steps_last_one_le rfl rfl hv
  | succ k ih =>
    have heven := even_of_two_pow_dvd ha hdvd
    rcases Nat.eq_zero_or_pos (dropLowestOne v) with hdrop | hdrop
    · have hlast := h.steps_last_one_le heven hdrop hv
      omega
    · have hlt := h.lt
      have hle := dropLowestOne_le v
      have hle' := dropLowestOne_le (dropLowestOne v)
      have hj : 0 < j := Nat.pos_of_ne_zero (Nat.one_lt_two_pow_iff.mp (by omega))
      have hskip := h.getSkipHeight_odd heven hdrop (by omega) hj
      have hnext : nextHeight height (m + (v + 1)) = m + (dropLowestOne (dropLowestOne v) + 1) := by
        rw [← add_assoc, nextHeight_succ_of_even (h.even_add heven hj) (by omega) (by omega),
          hskip, add_assoc]
      have hrest := ih (succ_pos (a + 1))
        (two_pow_dvd_dropLowestOne (two_pow_dvd_dropLowestOne hdvd)) (by omega) (by omega)
      rw [steps_of_lt (by omega), hnext]
      omega

/-- From an even height there is one one less after each turn, unless the search
changes to odd heights. -/
theorem BlockBelow.steps_even_le (h : BlockBelow height j m) (k : Nat) (ha : 0 < a)
    (hdvd : 2 ^ a ∣ u) (hu : u < 2 ^ j) (hk : j ≤ a + k) :
    steps height (m + u) ≤ steps height m + j + k + 7 := by
  induction k generalizing a u with
  | zero =>
    rw [eq_zero_of_two_pow_dvd hdvd hu hk, add_zero m]
    omega
  | succ k ih =>
    have heven := even_of_two_pow_dvd ha hdvd
    rcases Nat.eq_zero_or_pos u with rfl | hpos
    · rw [add_zero m]
      omega
    · have hj : 0 < j := Nat.pos_of_ne_zero (Nat.one_lt_two_pow_iff.mp (by omega))
      refine h.steps_le_of_next hpos hu ?_ (by omega)
      intro v hv
      rcases BlockTree.nextHeight_cases height (m + u) with ⟨hnext, -⟩ | hnext
      · rw [h.getSkipHeight_even heven hpos hu hj] at hnext
        obtain rfl : v = dropLowestOne u := by omega
        have hle := dropLowestOne_le u
        exact ih (succ_pos a) (two_pow_dvd_dropLowestOne hdvd) (by omega) (by omega)
      · obtain ⟨w, rfl⟩ : ∃ w, v = w + 1 := ⟨u - 2, by omega⟩
        have hodd := h.steps_odd_le (j - 1) (succ_pos 0)
          (show 2 ^ 1 ∣ w from dvd_of_mod_eq_zero (by omega)) (by omega) (by omega)
        omega

/-- The search comes to `m`, or to its end, in a number of turns that is bounded
by the size of the block. -/
theorem BlockBelow.steps_le (h : BlockBelow height j m) (hu : u < 2 ^ j) :
    steps height (m + u) ≤ steps height (m - 1) + 2 * j + 8 := by
  have hm : steps height m ≤ steps height (m - 1) + 1 := by
    have hge := h.ge
    rw [steps_of_lt h.lt]
    apply succ_le_succ
    rcases BlockTree.nextHeight_cases height m with ⟨hnext, -⟩ | hnext
    · have hskip := h.getSkipHeight_le
      rw [hnext, steps_of_le (by omega)]
      exact zero_le _
    · rw [hnext]
  rcases Nat.eq_zero_or_pos u with rfl | hpos
  · rw [add_zero m]
    omega
  · rcases mod_two_eq_zero_or_one u with heven | hodd
    · have hsteps := h.steps_even_le j (succ_pos 0)
        (show 2 ^ 1 ∣ u from dvd_of_mod_eq_zero heven) hu (by omega)
      omega
    · obtain ⟨v, rfl⟩ := exists_eq_succ_of_ne_zero (ne_of_gt hpos)
      have hsteps := h.steps_odd_le j (succ_pos 0)
        (show 2 ^ 1 ∣ v from dvd_of_mod_eq_zero (by omega)) hu (by omega)
      rw [succ_eq_add_one]
      omega

end Arrival

/-! ## The number of turns of a search -/

section Search

variable {height n : Nat}

/-- The position of the highest bit in which the two heights differ, and the block
above the height that is looked for. -/
theorem exists_blockBelow (h : height < n) :
    ∃ m u, BlockBelow height (Nat.log 2 (n ^^^ height)) m ∧ n = m + u ∧
      u < 2 ^ Nat.log 2 (n ^^^ height) := by
  have hne : n ^^^ height ≠ 0 := fun hzero => ne_of_gt h (Nat.xor_eq_zero_iff.mp hzero)
  have hlow := pow_log_le_self 2 hne
  have hhigh := lt_pow_succ_log_self (b := 2) (by decide) (n ^^^ height)
  generalize Nat.log 2 (n ^^^ height) = j at hlow hhigh ⊢
  have hone : 0 < 2 ^ j := Nat.two_pow_pos j
  -- above the position they agree, and at it they differ
  have hxor : n / 2 ^ j ^^^ height / 2 ^ j = 1 := by
    rw [← xor_div_two_pow]
    refine Nat.div_eq_of_lt_le (by omega) ?_
    rw [pow_succ] at hhigh
    omega
  have hhalf : n / 2 ^ j / 2 = height / 2 ^ j / 2 := by
    apply Nat.xor_eq_zero_iff.mp
    rw [← xor_div_two, hxor]
  have hparity : (n / 2 ^ j + height / 2 ^ j) % 2 = 1 := by
    rw [← xor_mod_two_eq, hxor]
  have hmono : height / 2 ^ j ≤ n / 2 ^ j := Nat.div_le_div_right (Nat.le_of_lt h)
  obtain ⟨q, hq⟩ : ∃ q, height / 2 ^ j = 2 * q ∧ n / 2 ^ j = 2 * q + 1 :=
    ⟨height / 2 ^ j / 2, by omega, by omega⟩
  have hn := div_add_mod n (2 ^ j)
  have hheight := div_add_mod height (2 ^ j)
  have hmodn := mod_lt n hone
  have hmodh := mod_lt height hone
  rw [hq.1] at hheight
  rw [hq.2] at hn
  refine ⟨2 ^ j * (2 * q + 1), n % 2 ^ j, ⟨lowestAt_two_pow_mul j q, ?_, ?_⟩, hn.symm, hmodn⟩
  · rw [mul_add]
    omega
  · rw [mul_add]
    omega

theorem log_xor_le (h : height ≤ n) : Nat.log 2 (n ^^^ height) ≤ Nat.log 2 n := by
  have hlt : n < 2 ^ (Nat.log 2 n + 1) := lt_pow_succ_log_self (by decide) n
  have hxor := xor_lt_two_pow hlt (lt_of_le_of_lt h hlt)
  exact le_of_lt_succ (log_lt_of_lt_pow' (by omega) hxor)

/-- What decides the number of turns of a search from `n` for the height. -/
def zeros (n height : Nat) : Nat := zeroSum height (Nat.log 2 (n ^^^ height))

/-- The sum of the zeros is at most twice the number of turns. -/
theorem zeros_le (h : height ≤ n) : zeros n height ≤ 2 * steps height n := by
  rcases lt_or_ge height n with hlt | hge
  · obtain ⟨m, u, hm, rfl, hu⟩ := exists_blockBelow hlt
    have hge := hm.ge
    have hltm := hm.lt
    obtain ⟨hlow, -⟩ := steps_block _ hm.dvd (by omega) hge hltm
    rw [zeros]
    by_cases htwo : m - 2 ^ Nat.log 2 (m + u ^^^ height) + 2 ≤ height
    · have hpass := hm.le_steps htwo hltm u hu
      omega
    · -- at the low end of the block there are no zeros to count
      have hmod := mod_two_pow_le hm.dvd hge
      rw [zeroSum_eq_zero (by omega)]
      exact zero_le _
  · obtain rfl : height = n := le_antisymm h hge
    rw [zeros, Nat.xor_self]
    exact zero_le _

/-- The number of turns is at most the sum of the zeros and a multiple of the
logarithm. -/
theorem steps_le_zeros (h : height ≤ n) :
    steps height n ≤ zeros n height + 12 * (Nat.log 2 n + 1) := by
  rcases lt_or_ge height n with hlt | hge
  · have hlog := log_xor_le h
    obtain ⟨m, u, hm, hsum, hu⟩ := exists_blockBelow hlt
    have hltm := hm.lt
    obtain ⟨-, hhigh⟩ := steps_block _ hm.dvd (by omega) hm.ge hltm
    have hsteps := hm.steps_le hu
    rw [zeros]
    rw [← hsum] at hsteps
    omega
  · rw [steps_of_le hge]
    exact zero_le _

end Search

/-- All positions above the one of the height 2 count. -/
theorem two_mul_zeroSum_two (k : Nat) : 2 * zeroSum 2 (k + 2) = k * (k + 3) := by
  induction k with
  | zero => rfl
  | succ k ih =>
    have hpow : 2 < 2 ^ (k + 2) := by
      have hone : 0 < 2 ^ k := Nat.two_pow_pos k
      rw [pow_add]
      omega
    have hzero : Nat.testBit 2 (k + 2) = false ∧ 2 ≤ 2 % 2 ^ (k + 2) :=
      ⟨testBit_lt_two_pow hpow, (mod_eq_of_lt hpow).ge⟩
    rw [show k + 1 + 2 = k + 2 + 1 from rfl, zeroSum_succ, if_pos hzero, mul_add, ih]
    ring

theorem two_mul_zeros_two_pow (k : Nat) : 2 * zeros (2 ^ (k + 2)) 2 = k * (k + 3) := by
  have hpow : 2 < 2 ^ (k + 2) := by
    have hone : 0 < 2 ^ k := Nat.two_pow_pos k
    rw [pow_add]
    omega
  have hle : Nat.log 2 (2 ^ (k + 2) ^^^ 2) ≤ k + 2 := by
    have hlog := log_xor_le (le_of_lt hpow)
    rwa [log_pow (by decide)] at hlog
  have hbit : (2 ^ (k + 2) ^^^ 2).testBit (k + 2) = true := by
    rw [testBit_xor, testBit_two_pow_self, testBit_lt_two_pow hpow]
    rfl
  have hge : k + 2 ≤ Nat.log 2 (2 ^ (k + 2) ^^^ 2) :=
    le_log_of_pow_le (by decide) (ge_two_pow_of_testBit hbit)
  rw [zeros, le_antisymm hle hge, two_mul_zeroSum_two]

end BitcoinKernel.State.BlockTree
