import BitcoinKernel.Lib.Truncate
import BitcoinKernel.State.BlockIndex
import Mathlib.Data.Nat.Log
import Mathlib.Data.Nat.Bitwise

/-!
# Required work

`GetNextWorkRequired` says which target a new header must name, and
`PermittedDifficultyTransition` which targets it could name if nothing is known but those
of its parent.  Both compute with 256-bit numbers, and both write targets in the compact
form of `GetCompact`, which keeps three bytes of a number.

* `setCompact_getCompact`: a target that goes through the compact form loses low bits and
  nothing else.
* `target_getCompact_mono`: the compact form keeps the order of targets.
* `permitted_of_timespan`: the target of a retarget is permitted, whatever the times of the
  blocks are.
-/

namespace BitcoinKernel.State

open Truncate Nat

/-! ## The compact form -/

/-- `base_uint::bits`. -/
def bits (n : Nat) : Nat := if n = 0 then 0 else n.log2 + 1

/-- `arith_uint256::GetCompact`, without a sign.  Its assertions hold for numbers of 256
bits: the mantissa is below `2 ^ 23`, by `getCompact_spec`. -/
def getCompact (n : Nat) : UInt32 :=
  let nSize := (bits n + 7) / 8
  let nCompact :=
    if nSize ≤ 3 then (n % 2 ^ 64) <<< (8 * (3 - nSize)) % 2 ^ 32
    else (n >>> (8 * (nSize - 3))) % 2 ^ 64 % 2 ^ 32
  if nCompact &&& 0x00800000 ≠ 0 then UInt32.ofNat (nCompact >>> 8 ||| (nSize + 1) <<< 24)
  else UInt32.ofNat (nCompact ||| nSize <<< 24)

/-- The target that a compact form stands for. -/
def target (nBits : UInt32) : Nat := (setCompact nBits.toNat).1

variable {n m e : Nat}

theorem bits_bounds (hn : n ≠ 0) : 2 ^ (bits n - 1) ≤ n ∧ n < 2 ^ bits n := by
  rw [bits, if_neg hn, Nat.add_sub_cancel]
  exact ⟨Nat.log2_self_le hn, lt_log2_self⟩

/-- The bit of the sign, in a mantissa of three bytes. -/
theorem signBit_eq_zero_iff (hm : m < 2 ^ 24) : m &&& 0x00800000 = 0 ↔ m < 2 ^ 23 := by
  have hbit : m &&& 0x00800000 = (m.testBit 23).toNat * 2 ^ 23 := and_two_pow m 23
  have htest : m.testBit 23 = decide (m / 2 ^ 23 % 2 = 1) := testBit_eq_decide_div_mod_eq
  rw [hbit, htest]
  by_cases h : m / 2 ^ 23 % 2 = 1
  · rw [decide_eq_true h]
    simp only [Bool.toNat_true]
    omega
  · rw [decide_eq_false h]
    simp only [Bool.toNat_false]
    omega

/-- A mantissa and a size next to each other. -/
theorem toNat_compact (hm : m < 2 ^ 24) (he : e < 256) :
    (UInt32.ofNat (m ||| e <<< 24)).toNat = e * 2 ^ 24 + m := by
  have hor : m ||| e <<< 24 = e * 2 ^ 24 + m := by
    rw [Nat.or_comm, Nat.shiftLeft_eq, Nat.mul_comm, Nat.two_pow_add_eq_or_of_lt hm]
  rw [hor, UInt32.toNat_ofNat', mod_eq_of_lt (by omega)]

/-- `SetCompact` on a mantissa without a sign and a size. -/
theorem setCompact_parts (hm : m < 2 ^ 23) : (setCompact (e * 2 ^ 24 + m)).1 =
      if e ≤ 3 then m / 2 ^ (8 * (3 - e)) else m * 2 ^ (8 * (e - 3)) % 2 ^ 256 := by
  have hsize : (e * 2 ^ 24 + m) >>> 24 = e := by
    rw [shiftRight_eq_div_pow]
    omega
  have hword : (e * 2 ^ 24 + m) &&& 0x007fffff = m := by
    have h := and_two_pow_sub_one_eq_mod (e * 2 ^ 24 + m) 23
    rw [show (0x007fffff : Nat) = 2 ^ 23 - 1 from rfl, h]
    omega
  simp only [setCompact, hsize, hword]
  split_ifs
  · rw [shiftRight_eq_div_pow]
  · rw [shiftLeft_eq]

/-- The three leading bytes of a number of `e` bytes. -/
def mantissa (n e : Nat) : Nat :=
  if e ≤ 3 then n * 2 ^ (8 * (3 - e)) else n / 2 ^ (8 * (e - 3))

theorem mantissa_lt_iff {j : Nat} (hj : 24 ≤ j + 8 * e) :
    mantissa n e < 2 ^ j ↔ n < 2 ^ (j + 8 * e - 24) := by
  unfold mantissa
  split_ifs with he
  · have hsplit : 2 ^ j = 2 ^ (j + 8 * e - 24) * 2 ^ (8 * (3 - e)) := by
      rw [← pow_add]
      congr 1
      omega
    rw [hsplit]
    exact Nat.mul_lt_mul_right (Nat.two_pow_pos _)
  · rw [Nat.div_lt_iff_lt_mul (Nat.two_pow_pos _), ← Nat.pow_add]
    have hexp : j + 8 * (e - 3) = j + 8 * e - 24 := by omega
    rw [hexp]

/-- A further byte leaves the mantissa. -/
theorem mantissa_succ (n e : Nat) : mantissa n e / 2 ^ 8 = mantissa n (e + 1) := by
  unfold mantissa
  rcases lt_trichotomy e 3 with he | rfl | he
  · have hexp : 8 * (3 - e) = 8 * (3 - (e + 1)) + 8 := by omega
    rw [if_pos (by omega), if_pos (by omega), hexp, pow_add, ← mul_assoc,
      Nat.mul_div_cancel _ (Nat.two_pow_pos 8)]
  · rw [if_pos le_rfl, if_neg (by omega), Nat.sub_self, Nat.mul_zero, Nat.pow_zero, Nat.mul_one]
  · have hexp : 8 * (e + 1 - 3) = 8 * (e - 3) + 8 := by omega
    rw [if_neg (by omega), if_neg (by omega), hexp, Nat.pow_add, Nat.div_div_eq_div_mul]

/-- The size and the mantissa that `GetCompact` writes. -/
theorem getCompact_spec (hn : n ≠ 0) (hlt : n < 2 ^ 256) :
    ∃ e, e < 256 ∧ mantissa n e < 2 ^ 23 ∧ (getCompact n).toNat = e * 2 ^ 24 + mantissa n e ∧
      n < 2 ^ (8 * e - 1) ∧ 2 ^ (8 * (e - 1) - 1) ≤ n := by
  obtain ⟨hlow, hhigh⟩ := bits_bounds hn
  have hpos : 0 < bits n := by
    rw [bits, if_neg hn]
    omega
  have hbits : bits n - 1 < 256 :=
    (Nat.pow_lt_pow_iff_right (by decide)).mp (hlow.trans_lt hlt)
  generalize hsize : (bits n + 7) / 8 = nSize
  have hn8 : n < 2 ^ (8 * nSize) :=
    hhigh.trans_le (Nat.pow_le_pow_right (by decide) (by omega))
  have hm : mantissa n nSize < 2 ^ 24 :=
    (mantissa_lt_iff (by omega)).mpr (by rwa [Nat.add_sub_cancel_left])
  have hcompact : (if nSize ≤ 3 then (n % 2 ^ 64) <<< (8 * (3 - nSize)) % 2 ^ 32
      else (n >>> (8 * (nSize - 3))) % 2 ^ 64 % 2 ^ 32) = mantissa n nSize := by
    unfold mantissa at hm ⊢
    split_ifs at hm ⊢ with hle
    · have hn64 : n < 2 ^ 64 :=
        hn8.trans_le (Nat.pow_le_pow_right (by decide) (by omega))
      rw [mod_eq_of_lt hn64, shiftLeft_eq, mod_eq_of_lt (by omega)]
    · have hn64 : n / 2 ^ (8 * (nSize - 3)) < 2 ^ 64 := hm.trans (by decide)
      rw [shiftRight_eq_div_pow, mod_eq_of_lt hn64, mod_eq_of_lt (by omega)]
  have hget : getCompact n = if mantissa n nSize &&& 0x00800000 ≠ 0 then
        UInt32.ofNat (mantissa n nSize >>> 8 ||| (nSize + 1) <<< 24)
      else UInt32.ofNat (mantissa n nSize ||| nSize <<< 24) := by
    rw [← hcompact, ← hsize]
    rfl
  -- the mantissa is shortened if it has the bit of the sign
  by_cases hsign : mantissa n nSize < 2 ^ 23
  · refine ⟨nSize, by omega, hsign, ?_, ?_, ?_⟩
    · rw [hget, if_neg (not_not.mpr ((signBit_eq_zero_iff hm).mpr hsign)),
        toNat_compact hm (by omega)]
    · have h := (mantissa_lt_iff (by omega)).mp hsign
      rwa [show 23 + 8 * nSize - 24 = 8 * nSize - 1 by omega] at h
    · exact (Nat.pow_le_pow_right (by decide) (by omega)).trans hlow
  · have hge : ¬ n < 2 ^ (8 * nSize - 1) := by
      rw [show 8 * nSize - 1 = 23 + 8 * nSize - 24 by omega]
      exact fun h => hsign ((mantissa_lt_iff (by omega)).mpr h)
    have hlower : n < 2 ^ (8 * (nSize + 1) - 1) :=
      hn8.trans_le (Nat.pow_le_pow_right (by decide) (by omega))
    have hm' : mantissa n (nSize + 1) < 2 ^ 23 := by
      refine (mantissa_lt_iff (by omega)).mpr ?_
      rwa [show 23 + 8 * (nSize + 1) - 24 = 8 * (nSize + 1) - 1 by omega]
    refine ⟨nSize + 1, by omega, hm', ?_, hlower, not_lt.mp hge⟩
    rw [hget, if_pos (mt (signBit_eq_zero_iff hm).mp hsign), shiftRight_eq_div_pow,
      mantissa_succ, toNat_compact (by omega) (by omega)]

/-- A target that goes through the compact form loses low bits and nothing else. -/
theorem setCompact_getCompact (hlt : n < 2 ^ 256) :
    ∃ e, target (getCompact n) = truncate (8 * (e - 3)) n ∧ n < 2 ^ (8 * e - 1) ∧
      (n = 0 ∨ 2 ^ (8 * (e - 1) - 1) ≤ n) := by
  by_cases hn : n = 0
  · subst hn
    exact ⟨1, by decide, by decide, Or.inl rfl⟩
  · obtain ⟨e, -, hm, hget, hupper, hlower⟩ := getCompact_spec hn hlt
    refine ⟨e, ?_, hupper, Or.inr hlower⟩
    rw [target, hget, setCompact_parts hm]
    unfold mantissa
    split_ifs with he
    · have hexp : 8 * (e - 3) = 0 := by omega
      rw [hexp, truncate_zero_left, Nat.mul_div_cancel _ (Nat.two_pow_pos _)]
    · exact mod_eq_of_lt ((truncate_le _ n).trans_lt hlt)

theorem target_getCompact_le (hlt : n < 2 ^ 256) : target (getCompact n) ≤ n := by
  obtain ⟨e, he, -⟩ := setCompact_getCompact hlt
  rw [he]
  exact truncate_le _ n

/-- The compact form keeps the order of targets. -/
theorem target_getCompact_mono (h : m ≤ n) (hlt : n < 2 ^ 256) :
    target (getCompact m) ≤ target (getCompact n) := by
  obtain ⟨e, he, hupper, hlower⟩ := setCompact_getCompact (h.trans_lt hlt)
  obtain ⟨e', he', hupper', hlower'⟩ := setCompact_getCompact hlt
  rw [he, he']
  rcases hlower with rfl | hlower
  · rw [truncate_zero_right]
    exact zero_le _
  refine truncate_le_truncate h ?_
  rcases lt_trichotomy e e' with hlt' | rfl | hgt
  · -- the smallest number of the larger size lies between them
    rcases hlower' with rfl | hlower'
    · exact absurd (hlower.trans h) (Nat.not_le.mpr (Nat.two_pow_pos _))
    refine Or.inr ⟨2 ^ (8 * (e' - 1) - 1), ?_, hlower', pow_dvd_pow 2 (by omega)⟩
    exact hupper.le.trans (Nat.pow_le_pow_right (by decide) (by omega))
  · exact Or.inl rfl
  · have hpow : 2 ^ (8 * (e - 1) - 1) < 2 ^ (8 * e' - 1) := (hlower.trans h).trans_lt hupper'
    have hexp := (Nat.pow_lt_pow_iff_right (by decide)).mp hpow
    omega

/-! ## Retargeting -/

/-- What `pow.cpp` reads of `Consensus::Params`. -/
structure PowParams where
  powLimit : Nat
  fPowAllowMinDifficultyBlocks : Bool
  enforceBip94 : Bool
  fPowNoRetargeting : Bool
  nPowTargetSpacing : Nat
  nPowTargetTimespan : Nat
  powLimit_lt : powLimit < 2 ^ 256
  spacing_pos : 0 < nPowTargetSpacing
  spacing_le : nPowTargetSpacing ≤ nPowTargetTimespan

namespace PowParams

/-- `DifficultyAdjustmentInterval`. -/
def difficultyAdjustmentInterval (params : PowParams) : Nat :=
  params.nPowTargetTimespan / params.nPowTargetSpacing

/-- `bn *= timespan; bn /= params.nPowTargetTimespan;`, where the first operator takes its
argument as a number of 32 bits. -/
def scaled (params : PowParams) (bn timespan : Nat) : Nat :=
  bn * (timespan % 2 ^ 32) % 2 ^ 256 / params.nPowTargetTimespan

/-- `if (bn > powLimit) bn = powLimit;`. -/
def limited (params : PowParams) (bn : Nat) : Nat :=
  if bn > params.powLimit then params.powLimit else bn

/-- `nActualTimespan`, within a factor of four of the timespan that is aimed at. -/
def actualTimespan (params : PowParams) (lastTime firstTime : Nat) : Nat :=
  let nActualTimespan : Int := lastTime - firstTime
  if nActualTimespan < (params.nPowTargetTimespan / 4 : Nat) then params.nPowTargetTimespan / 4
  else if nActualTimespan > (params.nPowTargetTimespan * 4 : Nat) then params.nPowTargetTimespan * 4
  else nActualTimespan.toNat

/-- `pindexLast->GetAncestor(nHeightFirst)` with its assertions. -/
def firstOfPeriod (params : PowParams) (t : BlockTree) (e : EntryPtr) (last : BlockIndex) :
    Option BlockIndex := do
  let nHeightFirst : Int := last.nHeight - (params.difficultyAdjustmentInterval - 1)
  if nHeightFirst < 0 then none
  let found ← t.getAncestor e nHeightFirst
  let pindexFirst ← found
  t.index? pindexFirst

/-- `CalculateNextWorkRequired`. -/
def calculateNextWorkRequired (params : PowParams) (t : BlockTree) (e : EntryPtr)
    (last : BlockIndex) (nFirstBlockTime : Nat) : Option UInt32 :=
  if params.fPowNoRetargeting then some last.nBits
  else do
    let nActualTimespan := params.actualTimespan last.nTime.toNat nFirstBlockTime
    -- with BIP 94, the first block of the period has the difficulty of the period
    let base ← if params.enforceBip94 then params.firstOfPeriod t e last else some last
    return getCompact (params.limited (params.scaled (target base.nBits) nActualTimespan))

/-- The loop of `GetNextWorkRequired` over blocks of the least difficulty.  Every turn goes
down by one height. -/
def lastOrdinaryBits (params : PowParams) (t : BlockTree) : Nat → EntryPtr → Option UInt32
  | 0, _ => none
  | fuel + 1, e => do
      let pindex ← t.index? e
      match pindex.pprev with
      | none => return pindex.nBits
      | some prev =>
        if pindex.nHeight % params.difficultyAdjustmentInterval ≠ 0 ∧
            pindex.nBits = getCompact params.powLimit then
          lastOrdinaryBits params t fuel prev
        else return pindex.nBits

/-- `GetNextWorkRequired` for a header with the time `blockTime` above the node `e`. -/
def getNextWorkRequired (params : PowParams) (t : BlockTree) (e : EntryPtr) (blockTime : Nat) :
    Option UInt32 := do
  let last ← t.index? e
  if (last.nHeight + 1) % params.difficultyAdjustmentInterval ≠ 0 then
    if params.fPowAllowMinDifficultyBlocks then
      if blockTime > last.nTime.toNat + params.nPowTargetSpacing * 2 then
        return getCompact params.powLimit
      else params.lastOrdinaryBits t (last.nHeight + 1) e
    else return last.nBits
  else
    let pindexFirst ← params.firstOfPeriod t e last
    params.calculateNextWorkRequired t e last pindexFirst.nTime.toNat

/-- `PermittedDifficultyTransition`. -/
def permittedDifficultyTransition (params : PowParams) (height : Nat)
    (oldNBits newNBits : UInt32) : Bool :=
  if params.fPowAllowMinDifficultyBlocks then true
  else if height % params.difficultyAdjustmentInterval = 0 then
    let observedNewTarget := target newNBits
    let largestDifficultyTarget :=
      params.limited (params.scaled (target oldNBits) (params.nPowTargetTimespan * 4))
    let maximumNewTarget := target (getCompact largestDifficultyTarget)
    if maximumNewTarget < observedNewTarget then false
    else
      let smallestDifficultyTarget :=
        params.limited (params.scaled (target oldNBits) (params.nPowTargetTimespan / 4))
      let minimumNewTarget := target (getCompact smallestDifficultyTarget)
      if minimumNewTarget > observedNewTarget then false else true
  else if oldNBits ≠ newNBits then false
  else true

/-- The rules of a network with real work: no blocks of least difficulty, retargeting from
the last block, and numbers that leave room for the largest adjustment. -/
structure Retargets (params : PowParams) : Prop where
  noMinDifficulty : params.fPowAllowMinDifficultyBlocks = false
  retargeting : params.fPowNoRetargeting = false
  fromLast : params.enforceBip94 = false
  timespan_lt : params.nPowTargetTimespan * 4 < 2 ^ 32
  room : params.powLimit * (params.nPowTargetTimespan * 4) < 2 ^ 256

variable {params : PowParams}

theorem interval_pos (params : PowParams) : 0 < params.difficultyAdjustmentInterval :=
  div_pos params.spacing_le params.spacing_pos

theorem limited_le (params : PowParams) (bn : Nat) : params.limited bn ≤ params.powLimit := by
  unfold limited
  split_ifs <;> omega

theorem limited_mono {m n : Nat} (h : m ≤ n) : params.limited m ≤ params.limited n := by
  unfold limited
  split_ifs <;> omega

theorem limited_lt (params : PowParams) (bn : Nat) : params.limited bn < 2 ^ 256 :=
  (params.limited_le bn).trans_lt params.powLimit_lt

theorem le_actualTimespan (lastTime firstTime : Nat) :
    params.nPowTargetTimespan / 4 ≤ params.actualTimespan lastTime firstTime := by
  unfold actualTimespan
  dsimp only
  split_ifs <;> omega

theorem actualTimespan_le (lastTime firstTime : Nat) :
    params.actualTimespan lastTime firstTime ≤ params.nPowTargetTimespan * 4 := by
  unfold actualTimespan
  dsimp only
  split_ifs <;> omega

namespace Retargets

/-- Without overflow, a longer timespan gives a larger target. -/
theorem scaled_mono (h : params.Retargets) {bn ts ts' : Nat} (hbn : bn ≤ params.powLimit)
    (hle : ts ≤ ts') (hts' : ts' ≤ params.nPowTargetTimespan * 4) :
    params.scaled bn ts ≤ params.scaled bn ts' := by
  have htimespan := h.timespan_lt
  have hroom : bn * ts' < 2 ^ 256 := (Nat.mul_le_mul hbn hts').trans_lt h.room
  have hproduct : bn * ts ≤ bn * ts' := mul_le_mul_left bn hle
  unfold scaled
  rw [mod_eq_of_lt (hle.trans_lt (hts'.trans_lt htimespan)),
    mod_eq_of_lt (hts'.trans_lt htimespan), mod_eq_of_lt hroom,
    mod_eq_of_lt (hproduct.trans_lt hroom)]
  exact Nat.div_le_div_right hproduct

/-- The target of a retarget is permitted, whatever the times of the blocks are. -/
theorem permitted_of_timespan (h : params.Retargets) {height ts : Nat} {oldNBits : UInt32}
    (hheight : height % params.difficultyAdjustmentInterval = 0)
    (hold : target oldNBits ≤ params.powLimit) (hlow : params.nPowTargetTimespan / 4 ≤ ts)
    (hhigh : ts ≤ params.nPowTargetTimespan * 4) :
    params.permittedDifficultyTransition height oldNBits
      (getCompact (params.limited (params.scaled (target oldNBits) ts))) = true := by
  have hmax := target_getCompact_mono (limited_mono (h.scaled_mono hold hhigh le_rfl))
    (params.limited_lt _)
  have hmin := target_getCompact_mono (limited_mono (h.scaled_mono hold hlow hhigh))
    (params.limited_lt _)
  unfold permittedDifficultyTransition
  rw [if_neg (by rw [h.noMinDifficulty]; decide), if_pos hheight]
  dsimp only
  rw [if_neg (not_lt.mpr hmax), if_neg (not_lt.mpr hmin)]

theorem permitted_of_eq (h : params.Retargets) {height : Nat} (nBits : UInt32)
    (hheight : height % params.difficultyAdjustmentInterval ≠ 0) :
    params.permittedDifficultyTransition height nBits nBits = true := by
  unfold permittedDifficultyTransition
  rw [if_neg (by rw [h.noMinDifficulty]; decide), if_neg hheight, if_neg (not_not.mpr rfl)]

/-- What a new header must name: what its parent names, or at the end of a period a target
that follows from a timespan within the limits. -/
theorem getNextWorkRequired_cases (h : params.Retargets) {t : BlockTree} {e : EntryPtr}
    {last : BlockIndex} (he : t.index? e = some last) {blockTime : Nat} {nBits : UInt32}
    (hwork : params.getNextWorkRequired t e blockTime = some nBits) :
    ((last.nHeight + 1) % params.difficultyAdjustmentInterval ≠ 0 ∧ nBits = last.nBits) ∨
      ((last.nHeight + 1) % params.difficultyAdjustmentInterval = 0 ∧
        ∃ ts, params.nPowTargetTimespan / 4 ≤ ts ∧ ts ≤ params.nPowTargetTimespan * 4 ∧
          nBits = getCompact (params.limited (params.scaled (target last.nBits) ts))) := by
  unfold getNextWorkRequired at hwork
  rw [he, Option.bind_eq_bind, Option.bind_some, h.noMinDifficulty] at hwork
  by_cases hheight : (last.nHeight + 1) % params.difficultyAdjustmentInterval = 0
  · rw [if_neg (not_not.mpr hheight)] at hwork
    obtain ⟨first, -, hwork⟩ := Option.bind_eq_some_iff.mp hwork
    unfold calculateNextWorkRequired at hwork
    rw [h.retargeting, h.fromLast] at hwork
    exact Or.inr ⟨hheight, _, le_actualTimespan _ _, actualTimespan_le _ _,
      (Option.some.inj hwork).symm⟩
  · rw [if_pos hheight, if_neg Bool.false_ne_true] at hwork
    exact Or.inl ⟨hheight, (Option.some.inj hwork).symm⟩

end Retargets

end PowParams

end BitcoinKernel.State
