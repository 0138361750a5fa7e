import BitcoinKernel.Lib.Bytes

/-!
# Script numbers

`CScriptNum` of `script.h`: numbers with a sign bit in the last byte.  A number
is read from at most `nMaxNumSize` bytes, so it is far from the limits of the
64-bit integer that holds it (`natAbs_setVch_lt`), and `Int` stands for it here.
The results of arithmetic may have more bytes than may be read.
-/

namespace BitcoinKernel.ScriptNum

open Bytes

/-- The bit of the sign in the last byte. -/
def signBit : UInt8 := 0x80

/-- `CScriptNum::set_vch`. -/
def setVch (vch : List UInt8) : Int :=
  match vch.getLast? with
  | none => 0
  | some last =>
    if last &&& signBit ≠ 0 then
      -(decodeLE (vch.dropLast ++ [last &&& 0x7f]) : Int)
    else (decodeLE vch : Int)

/-- Whether a number is encoded in as few bytes as possible. -/
def isMinimal (vch : List UInt8) : Bool :=
  match vch.reverse with
  | [] => true
  | [last] => last &&& 0x7f != 0
  | last :: second :: _ => last &&& 0x7f != 0 || second &&& signBit != 0

/-- The constructor of `CScriptNum` from bytes; `none` is a `scriptnum_error`. -/
def ofVch (fRequireMinimal : Bool) (nMaxNumSize : Nat) (vch : List UInt8) : Option Int :=
  if vch.length > nMaxNumSize then none
  else if fRequireMinimal && !isMinimal vch then none
  else some (setVch vch)

/-- `CScriptNum::nDefaultMaxNumSize`. -/
def defaultMaxNumSize : Nat := 4

/-- The bytes of an absolute value, as far as a 64-bit integer has them. -/
def magnitude : (count : Nat) → (absvalue : Nat) → List UInt8
  | 0, _ => []
  | count + 1, absvalue =>
    if absvalue = 0 then [] else UInt8.ofNat absvalue :: magnitude count (absvalue / 256)

/-- `CScriptNum::serialize`. -/
def serialize (value : Int) : List UInt8 :=
  let bytes := magnitude 8 value.natAbs
  let neg := value < 0
  match bytes.getLast? with
  | none => []
  | some last =>
    if last &&& signBit ≠ 0 then bytes ++ [if neg then signBit else 0]
    else if neg then bytes.dropLast ++ [last ||| signBit]
    else bytes

/-- `CScriptNum::getint`. -/
def getint (value : Int) : Int :=
  if value > 2 ^ 31 - 1 then 2 ^ 31 - 1
  else if value < -2 ^ 31 then -2 ^ 31
  else value

/-! ## Bounds -/

theorem natAbs_setVch_lt (vch : List UInt8) : (setVch vch).natAbs < 256 ^ vch.length := by
  rw [setVch]
  split
  · exact Nat.pow_pos (by decide)
  · next last hlast =>
      have hne : vch ≠ [] := by
        rintro rfl
        cases hlast
      split
      · have hlt := decodeLE_lt (vch.dropLast ++ [last &&& 0x7f])
        have hlen : (vch.dropLast ++ [last &&& 0x7f]).length = vch.length := by
          have hpos := List.length_pos_of_ne_nil hne
          rw [List.length_append, List.length_dropLast, List.length_singleton]
          omega
        rw [hlen] at hlt
        simpa using hlt
      · simpa using decodeLE_lt vch

/-- A number that was read has as many bytes as it may have. -/
theorem natAbs_ofVch_lt {fRequireMinimal : Bool} {nMaxNumSize : Nat} {vch : List UInt8} {n : Int}
    (h : ofVch fRequireMinimal nMaxNumSize vch = some n) : n.natAbs < 256 ^ nMaxNumSize := by
  rw [ofVch] at h
  split at h
  · cases h
  · next hlen =>
      split at h
      · cases h
      · cases h
        exact Nat.lt_of_lt_of_le (natAbs_setVch_lt vch)
          (Nat.pow_le_pow_right (by omega) (by omega))

/-- A number that may be read in its minimal form may be read in any form. -/
theorem ofVch_of_minimal {fRequireMinimal fRequireMinimal' : Bool} {nMaxNumSize : Nat}
    {vch : List UInt8} {n : Int} (hle : fRequireMinimal' = true → fRequireMinimal = true)
    (h : ofVch fRequireMinimal nMaxNumSize vch = some n) :
    ofVch fRequireMinimal' nMaxNumSize vch = some n := by
  rw [ofVch] at h ⊢
  cases fRequireMinimal' with
  | false => cases fRequireMinimal <;> simp_all
  | true => rwa [hle rfl] at h

end BitcoinKernel.ScriptNum
