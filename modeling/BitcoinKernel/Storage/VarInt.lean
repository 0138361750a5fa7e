import BitcoinKernel.Primitives.RoundTrip
import Mathlib.Data.Nat.Bitwise

/-!
# Variable-length integers

`WriteVarInt` and `ReadVarInt` (`serialize.h`), in which the chainstate database and
the undo files have their numbers.  A number is a sequence of bytes of seven bits each,
most significant first, all but the last with the high bit set.  From every digit but
the last one is subtracted, so no number has two encodings.

The functions are templates over the type of the number, which is given here by the
number of its bits.

* `leadingBytes n` is what the reader has consumed when its variable holds `n`.  The
  loops of the writer and of the reader are both described by it.
* `reads_varInt` says that the reader accepts exactly what the writer writes.  In
  particular the array of the writer is never too small, and no sum of the reader
  wraps around.
-/

namespace BitcoinKernel.Serialize

open List

/-! ## The functions -/

/-- The loop of `WriteVarInt`.  `tmp` holds the digits so far, the last one first, and
`room` is the number of elements of the array that are left. -/
def writeVarIntLoop : (room n : Nat) → (tmp : List UInt8) → List UInt8
  | 0, _, tmp => tmp
  | room + 1, n, tmp =>
    let tmp := UInt8.ofNat ((n &&& 0x7F) ||| if tmp.isEmpty then 0x00 else 0x80) :: tmp
    if n ≤ 0x7F then tmp else writeVarIntLoop room ((n >>> 7) - 1) tmp

/-- `WriteVarInt` for a type of `bits` bits.  The digits are sent from the last one
on. -/
def writeVarInt (bits n : Nat) : List UInt8 := writeVarIntLoop ((bits + 6) / 7) n []

/-- The loop of `ReadVarInt` for a type with the maximum `max`. -/
def readVarIntLoop (max : Nat) : (n : Nat) → (data : List UInt8) →
    Except ReadError (Nat × List UInt8)
  | _, [] => .error .endOfData
  | n, chData :: data =>
    if n > max >>> 7 then .error .sizeTooLarge
    else
      let n := (n <<< 7) ||| (chData &&& 0x7F).toNat
      if chData &&& 0x80 ≠ 0 then
        if n = max then .error .sizeTooLarge else readVarIntLoop max (n + 1) data
      else .ok (n, data)

/-- `ReadVarInt` for a type of `bits` bits. -/
def readVarInt (bits : Nat) : Reader Nat := readVarIntLoop (2 ^ bits - 1) 0

/-! ## Digits -/

/-- The bytes with the high bit set that stand for `n`. -/
def leadingBytes : Nat → List UInt8
  | 0 => []
  | n + 1 => leadingBytes (n / 128) ++ [UInt8.ofNat (n % 128 + 128)]
decreasing_by exact Nat.lt_succ_of_le (Nat.div_le_self n 128)

theorem leadingBytes_succ (n : Nat) :
    leadingBytes (n + 1) = leadingBytes (n / 128) ++ [UInt8.ofNat (n % 128 + 128)] := by
  rw [leadingBytes]

theorem and_low (n : Nat) : n &&& 0x7F = n % 128 := Nat.and_two_pow_sub_one_eq_mod n 7

theorem or_high {n : Nat} (h : n < 128) : n ||| 0x80 = n + 128 := by
  have hor : 2 ^ 7 * 1 + n = 2 ^ 7 * 1 ||| n :=
    Nat.two_pow_add_eq_or_of_lt (show n < 2 ^ 7 from h) 1
  rw [Nat.or_comm, Nat.add_comm]
  exact hor.symm

theorem shift_or {n digit : Nat} (h : digit < 128) : (n <<< 7) ||| digit = n * 128 + digit := by
  rw [← Nat.shiftLeft_add_eq_or_of_lt h, Nat.shiftLeft_eq]

theorem toNat_and_low (byte : UInt8) : (byte &&& 0x7F).toNat = byte.toNat % 128 := by
  rw [UInt8.toNat_and]
  exact and_low byte.toNat

/-- The high bit of a byte. -/
theorem and_high_eq_zero_iff (byte : UInt8) : byte &&& 0x80 = 0 ↔ byte.toNat < 128 := by
  have hlt : byte.toNat < 256 := byte.toNat_lt
  have hand : (byte &&& 0x80).toNat = (byte.toNat.testBit 7).toNat * 2 ^ 7 := by
    rw [UInt8.toNat_and]
    exact Nat.and_two_pow byte.toNat 7
  rw [← UInt8.toNat_inj, hand, Nat.testBit_eq_decide_div_mod_eq]
  by_cases h : byte.toNat / 2 ^ 7 % 2 = 1
  · simp only [h]
    simp
    omega
  · simp only [h]
    simp
    omega

/-! ## The writer -/

/-- A turn of the writer behind the first one.  The rest of the loop puts the leading
bytes in front. -/
theorem writeVarIntLoop_cons {room n : Nat} (hroom : n + 1 < 128 ^ room) (byte : UInt8)
    (tmp : List UInt8) :
    writeVarIntLoop room n (byte :: tmp) = leadingBytes (n + 1) ++ byte :: tmp := by
  induction room generalizing n byte tmp with
  | zero =>
    rw [Nat.pow_zero] at hroom
    omega
  | succ room ih =>
    rw [writeVarIntLoop]
    simp only [isEmpty_cons, Bool.false_eq_true, if_false, and_low,
      or_high (Nat.mod_lt n (by decide : 128 > 0)), Nat.shiftRight_eq_div_pow]
    rw [leadingBytes_succ, append_assoc, singleton_append]
    split
    · next hlast =>
        rw [Nat.div_eq_of_lt (by omega), leadingBytes, nil_append]
    · next hmore =>
        have hdiv : n / 128 < 128 ^ room := by
          rw [Nat.pow_succ] at hroom
          exact Nat.div_lt_of_lt_mul (by omega)
        have hpos : 1 ≤ n / 128 := by omega
        rw [ih (by omega), Nat.sub_add_cancel hpos]

theorem length_writeVarIntLoop_le (room n : Nat) (tmp : List UInt8) :
    (writeVarIntLoop room n tmp).length ≤ tmp.length + room := by
  induction room generalizing n tmp with
  | zero => exact Nat.le_refl _
  | succ room ih =>
    rw [writeVarIntLoop]
    split
    · rw [length_cons]
      omega
    · refine Nat.le_trans (ih _ _) ?_
      rw [length_cons]
      omega

theorem length_writeVarInt_le (bits n : Nat) : (writeVarInt bits n).length ≤ (bits + 6) / 7 := by
  have hle := length_writeVarIntLoop_le ((bits + 6) / 7) n []
  rw [length_nil, Nat.zero_add] at hle
  exact hle

/-- What the writer writes: the leading bytes, and a last one without the high bit. -/
theorem writeVarInt_eq {bits n : Nat} (hbits : 0 < bits) (h : n < 2 ^ bits) :
    writeVarInt bits n = leadingBytes (n / 128) ++ [UInt8.ofNat (n % 128)] := by
  obtain ⟨room, hroom⟩ : ∃ room, (bits + 6) / 7 = room + 1 := ⟨(bits + 6) / 7 - 1, by omega⟩
  rw [writeVarInt, hroom, writeVarIntLoop]
  simp only [isEmpty_nil, if_true, and_low, Nat.or_zero, Nat.shiftRight_eq_div_pow]
  split
  · next hlast =>
      rw [Nat.div_eq_of_lt (by omega), leadingBytes, nil_append]
  · next hmore =>
      have hfits : n < 128 ^ room * 128 :=
        calc n < 2 ^ bits := h
          _ ≤ 2 ^ (7 * (room + 1)) := Nat.pow_le_pow_right (by decide) (by omega)
          _ = 128 ^ room * 128 := by rw [Nat.pow_mul, Nat.pow_succ]
      have hdiv : n / 128 < 128 ^ room := Nat.div_lt_of_lt_mul (by omega)
      have hpos : 1 ≤ n / 128 := by omega
      rw [writeVarIntLoop_cons (by omega), Nat.sub_add_cancel hpos]

/-! ## The reader -/

theorem readVarIntLoop_cons (max n : Nat) (byte : UInt8) (data : List UInt8) :
    readVarIntLoop max n (byte :: data) = if n > max / 128 then .error .sizeTooLarge
      else if byte.toNat < 128 then .ok (n * 128 + byte.toNat, data)
      else if n * 128 + byte.toNat % 128 = max then .error .sizeTooLarge
      else readVarIntLoop max (n * 128 + byte.toNat % 128 + 1) data := by
  have hdigit : byte.toNat % 128 < 128 := Nat.mod_lt _ (by decide)
  have hshift : max >>> 7 = max / 128 := Nat.shiftRight_eq_div_pow max 7
  rw [readVarIntLoop]
  simp only [toNat_and_low, shift_or hdigit, hshift, ne_eq, and_high_eq_zero_iff, ite_not]
  by_cases hlast : byte.toNat < 128
  · rw [Nat.mod_eq_of_lt hlast]
  · simp only [if_neg hlast]

/-- The reader consumes the leading bytes of a number that fits. -/
theorem readVarIntLoop_leadingBytes {max n : Nat} (h : n ≤ max) (data : List UInt8) :
    readVarIntLoop max 0 (leadingBytes n ++ data) = readVarIntLoop max n data := by
  induction n using Nat.strong_induction_on generalizing data with
  | _ n ih =>
    cases n with
    | zero => rw [leadingBytes, nil_append]
    | succ n =>
      have hdigit : n % 128 + 128 < 256 := by omega
      have hbyte : (UInt8.ofNat (n % 128 + 128)).toNat = n % 128 + 128 :=
        UInt8.toNat_ofNat_of_lt' hdigit
      rw [leadingBytes_succ, append_assoc, singleton_append,
        ih (n / 128) (by omega) (by omega), readVarIntLoop_cons, hbyte, if_neg (by omega),
        if_neg (by omega), if_neg (by omega)]
      congr 1
      omega

/-- What the reader has consumed in the end, for a variable that starts with `n`. -/
theorem readVarIntLoop_inv {max n m : Nat} {data rest : List UInt8} (hmax : max % 128 = 127)
    (h : readVarIntLoop max n data = .ok (m, rest)) :
    m ≤ max ∧ leadingBytes n ++ data =
      leadingBytes (m / 128) ++ [UInt8.ofNat (m % 128)] ++ rest := by
  induction data generalizing n with
  | nil => cases h
  | cons byte data ih =>
    have hlt : byte.toNat < 256 := byte.toNat_lt
    rw [readVarIntLoop_cons] at h
    split at h
    · cases h
    · split at h
      · next hfits hlast =>
          cases h
          have hdiv : (n * 128 + byte.toNat) / 128 = n := by omega
          have hmod : (n * 128 + byte.toNat) % 128 = byte.toNat := by omega
          rw [hdiv, hmod, UInt8.ofNat_toNat, append_assoc]
          exact ⟨by omega, rfl⟩
      · split at h
        · cases h
        · next hmore hroom =>
            obtain ⟨hm, heq⟩ := ih h
            refine ⟨hm, ?_⟩
            have hdiv : (n * 128 + byte.toNat % 128) / 128 = n := by omega
            have hmod : (n * 128 + byte.toNat % 128) % 128 + 128 = byte.toNat := by omega
            rw [← heq, leadingBytes_succ, hdiv, hmod, UInt8.ofNat_toNat, append_assoc]
            rfl

theorem two_pow_sub_one_mod {bits : Nat} (hbits : 7 ≤ bits) : (2 ^ bits - 1) % 128 = 127 := by
  obtain ⟨more, rfl⟩ := Nat.exists_eq_add_of_le hbits
  have hpos : 0 < 2 ^ more := Nat.two_pow_pos more
  rw [Nat.pow_add]
  omega

/-- `ReadVarInt` accepts what `WriteVarInt` writes of the numbers of the type, and
nothing else. -/
theorem reads_varInt {bits : Nat} (hbits : 7 ≤ bits) :
    Codec.Reads (readVarInt bits) (writeVarInt bits) (fun n => n < 2 ^ bits) := by
  have hpos : 0 < 2 ^ bits := Nat.two_pow_pos bits
  intro data n rest
  constructor
  · intro h
    obtain ⟨hn, heq⟩ := readVarIntLoop_inv (two_pow_sub_one_mod hbits) h
    have hlt : n < 2 ^ bits := by omega
    rw [leadingBytes, nil_append, ← writeVarInt_eq (by omega) hlt] at heq
    exact ⟨hlt, heq⟩
  · rintro ⟨hlt, rfl⟩
    have hdigit : n % 128 < 256 := by omega
    have hbyte : (UInt8.ofNat (n % 128)).toNat = n % 128 := UInt8.toNat_ofNat_of_lt' hdigit
    show readVarIntLoop (2 ^ bits - 1) 0 _ = _
    rw [writeVarInt_eq (by omega) hlt, append_assoc,
      readVarIntLoop_leadingBytes (by omega), singleton_append, readVarIntLoop_cons, hbyte,
      if_neg (by omega), if_pos (by omega)]
    congr 2
    omega

/-- Reading a number and writing it are inverse to each other, for every unsigned type:
the numbers of the type are written in at most as many bytes as the array of the writer
has, they come back, and no other bytes are accepted. -/
theorem varInt_exact {bits : Nat} (hbits : 7 ≤ bits) (n : Nat) (data rest : List UInt8) :
    ((readVarInt bits).run data = .ok (n, rest) ↔
        n < 2 ^ bits ∧ data = writeVarInt bits n ++ rest) ∧
      (writeVarInt bits n).length ≤ (bits + 6) / 7 :=
  ⟨reads_varInt hbits data n rest, length_writeVarInt_le bits n⟩

theorem varInt_exact_uint32 :
    (readVarInt 32).run [0x8e, 0xfe, 0xfe, 0xfe, 0x7f, 1] = .ok (2 ^ 32 - 1, [1]) ∧
      writeVarInt 32 (2 ^ 32 - 1) = [0x8e, 0xfe, 0xfe, 0xfe, 0x7f] := by
  have hwrite : writeVarInt 32 (2 ^ 32 - 1) = [0x8e, 0xfe, 0xfe, 0xfe, 0x7f] := by decide
  refine ⟨(varInt_exact (by decide) _ _ _).1.mpr ⟨by decide, ?_⟩, hwrite⟩
  rw [hwrite]
  rfl

end BitcoinKernel.Serialize
