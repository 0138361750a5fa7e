import BitcoinKernel.Core.TransactionCheck
import BitcoinKernel.Storage.VarInt
import BitcoinKernel.Validation.CoinsView

/-!
# Compressed outputs

The form in which outputs stand in the chainstate database and in the undo files
(`compressor.h`, `compressor.cpp`).

* An amount is divided by the largest power of ten up to `10 ^ 9`, and the exponent,
  the last digit and the rest are put into one number.  `decompressAmount_compressAmount`
  says that this is undone, and that no product wraps around on the way.
* Four kinds of scripts are written as a tag and a hash or an x coordinate.  All
  others are written as they are, with their size behind the tags.  `readScript_writeScript`
  says what comes back: the script, or `OP_RETURN` for a script that is too long to be
  spent.

The operations on public keys are those of a library.  `PubKeys` has them with the one
fact about the curve that is needed: a valid point is determined by its x coordinate
and by the parity of the other.
-/

namespace BitcoinKernel.Storage

open Serialize Codec Consensus Interpreter List

/-! ## Amounts -/

/-- The loop of `CompressAmount` that divides by ten, with the number of turns that
are left. -/
def dropZeros : (left : Nat) → (n : UInt64) → (e : Nat) → UInt64 × Nat
  | 0, n, e => (n, e)
  | left + 1, n, e => if n % 10 = 0 then dropZeros left (n / 10) (e + 1) else (n, e)

/-- `CompressAmount`. -/
def compressAmount (n : UInt64) : UInt64 :=
  if n = 0 then 0
  else
    let (n, e) := dropZeros 9 n 0
    if e < 9 then
      let d := n % 10
      let n := n / 10
      1 + (n * 9 + d - 1) * 10 + UInt64.ofNat e
    else 1 + (n - 1) * 10 + 9

/-- The loop of `DecompressAmount` that multiplies by ten. -/
def appendZeros : (e : Nat) → (n : UInt64) → UInt64
  | 0, n => n
  | e + 1, n => appendZeros e (n * 10)

/-- `DecompressAmount`. -/
def decompressAmount (x : UInt64) : UInt64 :=
  if x = 0 then 0
  else
    let x := x - 1
    let e := (x % 10).toNat
    let x := x / 10
    let n :=
      if e < 9 then
        let d := x % 9 + 1
        let x := x / 9
        x * 10 + d
      else x + 1
    appendZeros e n

/-- What the loop of `CompressAmount` leaves. -/
structure Stripped (n : UInt64) (left e : Nat) (r : UInt64 × Nat) : Prop where
  exponent : e ≤ r.2 ∧ r.2 ≤ e + left
  value : n.toNat = r.1.toNat * 10 ^ (r.2 - e)
  digit : r.2 < e + left → r.1.toNat % 10 ≠ 0

theorem stripped_dropZeros (left : Nat) (n : UInt64) (e : Nat) :
    Stripped n left e (dropZeros left n e) := by
  induction left generalizing n e with
  | zero =>
    rw [dropZeros]
    exact ⟨⟨Nat.le_refl e, Nat.le_refl e⟩, by simp, fun h => absurd h (Nat.lt_irrefl e)⟩
  | succ left ih =>
    rw [dropZeros]
    have hmod : n % 10 = 0 ↔ n.toNat % 10 = 0 := by
      rw [← UInt64.toNat_inj, UInt64.toNat_mod]
      rfl
    split
    · next hzero =>
        have hdiv : (n / 10).toNat = n.toNat / 10 := UInt64.toNat_div n 10
        obtain ⟨⟨hge, hle⟩, hvalue, hdigit⟩ := ih (n / 10) (e + 1)
        refine ⟨⟨by omega, by omega⟩, ?_, fun h => hdigit (by omega)⟩
        have hexp : (dropZeros left (n / 10) (e + 1)).2 - e =
            (dropZeros left (n / 10) (e + 1)).2 - (e + 1) + 1 := by omega
        rw [hexp, Nat.pow_succ, ← Nat.mul_assoc, ← hvalue, hdiv]
        have := hmod.mp hzero
        omega
    · next hdigit =>
        exact ⟨⟨Nat.le_refl e, Nat.le_add_right e _⟩, by simp, fun _ h => hdigit (hmod.mpr h)⟩

variable {e n i : Nat} {script : Script} {x : List UInt8}

theorem toNat_appendZeros {n : UInt64} (h : n.toNat * 10 ^ e < 2 ^ 64) :
    (appendZeros e n).toNat = n.toNat * 10 ^ e := by
  induction e generalizing n with
  | zero => rw [appendZeros, Nat.pow_zero, Nat.mul_one]
  | succ e ih =>
    have hpow : 0 < 10 ^ e := Nat.pow_pos (by decide)
    rw [Nat.pow_succ, Nat.mul_comm (10 ^ e), ← Nat.mul_assoc] at h ⊢
    have hten : (n * 10).toNat = n.toNat * 10 := by
      rw [UInt64.toNat_mul]
      exact Nat.mod_eq_of_lt (Nat.lt_of_le_of_lt (Nat.le_mul_of_pos_right _ hpow) h)
    rw [appendZeros, ih (by rw [hten]; exact h), hten]

/-- The number that stands for an amount, in the two cases.  Nothing wraps around. -/
theorem toNat_compressAmount {n : UInt64} (hpos : n ≠ 0) (hsmall : n.toNat < 2 ^ 60) :
    ∃ m e, n.toNat = m * 10 ^ e ∧ 0 < m ∧ ((e < 9 ∧ m % 10 ≠ 0 ∧
          (compressAmount n).toNat = 1 + (m / 10 * 9 + m % 10 - 1) * 10 + e) ∨
        (e = 9 ∧ (compressAmount n).toNat = 1 + (m - 1) * 10 + 9)) := by
  obtain ⟨⟨-, hle⟩, hvalue, hdigit⟩ := stripped_dropZeros 9 n 0
  generalize hr : dropZeros 9 n 0 = r at hle hvalue hdigit
  obtain ⟨m, e⟩ := r
  simp only [Nat.sub_zero, Nat.zero_add] at hle hvalue hdigit
  have hnpos : 0 < n.toNat := by
    rcases Nat.eq_zero_or_pos n.toNat with h | h
    · exact absurd (UInt64.toNat_inj.mp h) hpos
    · exact h
  have hmpos : 0 < m.toNat := by
    rcases Nat.eq_zero_or_pos m.toNat with h | h
    · rw [h, Nat.zero_mul] at hvalue
      omega
    · exact h
  have hmle : m.toNat ≤ n.toNat := by
    rw [hvalue]
    exact Nat.le_mul_of_pos_right _ (Nat.pow_pos (by decide))
  refine ⟨m.toNat, e, hvalue, hmpos, ?_⟩
  rw [compressAmount, if_neg hpos, hr]
  simp only
  have hten : (10 : UInt64).toNat = 10 := rfl
  have hnine : (9 : UInt64).toNat = 9 := rfl
  have hone : (1 : UInt64).toNat = 1 := rfl
  by_cases h : e < 9
  · have hm := hdigit h
    have hword : e < 2 ^ 64 := by omega
    have he : (UInt64.ofNat e).toNat = e := UInt64.toNat_ofNat_of_lt' hword
    have hsum : (m / 10 * 9 + m % 10).toNat = m.toNat / 10 * 9 + m.toNat % 10 := by
      rw [UInt64.toNat_add, UInt64.toNat_mul, UInt64.toNat_div, UInt64.toNat_mod, hten, hnine]
      omega
    have hdiff : (m / 10 * 9 + m % 10 - 1).toNat = m.toNat / 10 * 9 + m.toNat % 10 - 1 := by
      rw [UInt64.toNat_sub_of_le, hsum, hone]
      rw [UInt64.le_iff_toNat_le, hsum, hone]
      omega
    refine Or.inl ⟨h, hm, ?_⟩
    rw [if_pos h, UInt64.toNat_add, UInt64.toNat_add, UInt64.toNat_mul, hdiff, he, hten, hone]
    omega
  · have hdiff : (m - 1).toNat = m.toNat - 1 := by
      rw [UInt64.toNat_sub_of_le, hone]
      rw [UInt64.le_iff_toNat_le, hone]
      omega
    refine Or.inr ⟨by omega, ?_⟩
    rw [if_neg h, UInt64.toNat_add, UInt64.toNat_add, UInt64.toNat_mul, hdiff, hten, hnine, hone]
    omega

/-- The number in `DecompressAmount` before zeros are appended. -/
theorem toNat_decompressAmount {x : UInt64} {y : Nat} (hx : x.toNat = 1 + y * 10 + e) (he : e ≤ 9) :
    ∃ n : UInt64, decompressAmount x = appendZeros e n ∧
      n.toNat = if e < 9 then y / 9 * 10 + (y % 9 + 1) else y + 1 := by
  have hlt : x.toNat < 2 ^ 64 := x.toNat_lt
  have hten : (10 : UInt64).toNat = 10 := rfl
  have hnine : (9 : UInt64).toNat = 9 := rfl
  have hone : (1 : UInt64).toNat = 1 := rfl
  have hne : x ≠ 0 := by
    rintro rfl
    rw [UInt64.toNat_zero] at hx
    omega
  have hpred : (x - 1).toNat = y * 10 + e := by
    rw [UInt64.toNat_sub_of_le, hone, hx]
    · omega
    · rw [UInt64.le_iff_toNat_le, hone]
      omega
  have hexp : ((x - 1) % 10).toNat = e := by
    rw [UInt64.toNat_mod, hpred, hten]
    omega
  have hrest : ((x - 1) / 10).toNat = y := by
    rw [UInt64.toNat_div, hpred, hten]
    omega
  rw [decompressAmount, if_neg hne]
  simp only [hexp]
  refine ⟨_, rfl, ?_⟩
  split
  · rw [UInt64.toNat_add, UInt64.toNat_mul, UInt64.toNat_add, UInt64.toNat_mod,
      UInt64.toNat_div, hrest, hten, hnine, hone]
    omega
  · rw [UInt64.toNat_add, hrest, hone]
    omega

/-- Every amount that can be money comes back. -/
theorem decompressAmount_compressAmount {n : UInt64} (hsmall : n.toNat < 2 ^ 60) :
    decompressAmount (compressAmount n) = n := by
  by_cases hzero : n = 0
  · rw [hzero]
    rfl
  · obtain ⟨m, e, hvalue, hpos, hcase⟩ := toNat_compressAmount hzero hsmall
    have hback : ∀ r : UInt64, r.toNat = m → (appendZeros e r) = n := by
      intro r hr
      rw [← UInt64.toNat_inj, toNat_appendZeros (by rw [hr]; omega), hr, hvalue]
    rcases hcase with ⟨he, hdigit, hx⟩ | ⟨rfl, hx⟩
    · obtain ⟨r, hr, hval⟩ := toNat_decompressAmount hx (Nat.le_of_lt he)
      rw [if_pos he] at hval
      rw [hr, hback r (by omega)]
    · obtain ⟨r, hr, hval⟩ := toNat_decompressAmount hx (Nat.le_refl 9)
      rw [if_neg (Nat.lt_irrefl 9)] at hval
      rw [hr, hback r (by omega)]

/-- `AmountCompression::Ser`. -/
def writeAmount (val : Int64) : List UInt8 := writeVarInt 64 (compressAmount val.toUInt64).toNat

/-- `AmountCompression::Unser`. -/
def readAmount : Reader Int64 :=
  return (decompressAmount (UInt64.ofNat (← readVarInt 64))).toInt64

theorem toNat_toUInt64_of_money {val : Int64} (h : moneyRange val = true) :
    val.toUInt64.toNat < 2 ^ 60 := by
  have hmax : maxMoney.toInt = 2100000000000000 := by decide
  obtain ⟨hnonneg, hle⟩ := (moneyRange_iff val).mp h
  have hzero : (0 : Int64) ≤ val := by
    rw [Int64.le_iff_toInt_le, Int64.toInt_zero]
    exact hnonneg
  rw [Int64.toNat_toUInt64_of_le hzero]
  show val.toInt.toNat < 2 ^ 60
  omega

theorem restores_amount : Restores readAmount writeAmount (fun val => moneyRange val = true) := by
  intro val rest h
  have hread := (reads_varInt (by decide : 7 ≤ 64)).run_write
    (compressAmount val.toUInt64).toNat_lt rest
  rw [readAmount, run_bind_eq_ok_iff]
  refine ⟨_, rest, hread, ?_⟩
  rw [run_pure_eq_ok_iff, UInt64.ofNat_toNat,
    decompressAmount_compressAmount (toNat_toUInt64_of_money h)]
  exact ⟨rfl, rfl⟩

/-! ## Scripts -/

/-- The operations of `CPubKey` that `CompressScript` and `DecompressScript` use, on the
bytes of keys. -/
structure PubKeys where
  /-- `IsFullyValid`. -/
  isFullyValid : List UInt8 → Bool
  /-- `Decompress`. -/
  decompress : List UInt8 → Option (List UInt8)
  /-- The point with an x coordinate and a parity. -/
  decompress_of_valid : ∀ x y : List UInt8, ∀ last : UInt8, x.length = 32 → y.length = 31 →
    isFullyValid (4 :: x ++ y ++ [last]) = true →
      decompress ((2 + (last &&& 1)) :: x) = some (4 :: x ++ y ++ [last])

/-- `IsToKeyID`. -/
def isToKeyID (script : Script) : Option (List UInt8) :=
  if script.length = 25 ∧ script[0]? = some Opcode.opDup.code ∧
      script[1]? = some Opcode.opHash160.code ∧ script[2]? = some 20 ∧
      script[23]? = some Opcode.opEqualverify.code ∧
      script[24]? = some Opcode.opChecksig.code then
    some ((script.drop 3).take 20)
  else none

/-- `IsToScriptID`. -/
def isToScriptID (script : Script) : Option (List UInt8) :=
  if script.length = 23 ∧ script[0]? = some Opcode.opHash160.code ∧ script[1]? = some 20 ∧
      script[22]? = some Opcode.opEqual.code then
    some ((script.drop 2).take 20)
  else none

variable (keys : PubKeys)

/-- `IsToPubKey`. -/
def isToPubKey (script : Script) : Option (List UInt8) :=
  if script.length = 35 ∧ script[0]? = some 33 ∧ script[34]? = some Opcode.opChecksig.code ∧
      (script[1]? = some 0x02 ∨ script[1]? = some 0x03) then
    some ((script.drop 1).take 33)
  else if script.length = 67 ∧ script[0]? = some 65 ∧
      script[66]? = some Opcode.opChecksig.code ∧ script[1]? = some 0x04 then
    let pubkey := (script.drop 1).take 65
    if keys.isFullyValid pubkey then some pubkey else none
  else none

/-- `CompressScript`. -/
def compressScript (script : Script) : Option (List UInt8) :=
  match isToKeyID script with
  | some keyID => some (0x00 :: keyID)
  | none =>
    match isToScriptID script with
    | some scriptID => some (0x01 :: scriptID)
    | none => do
        let pubkey ← isToPubKey keys script
        let head ← pubkey.head?
        let x := (pubkey.drop 1).take 32
        if head = 0x02 ∨ head = 0x03 then some (head :: x)
        else if head = 0x04 then some ((0x04 ||| (pubkey.getD 64 0 &&& 0x01)) :: x)
        else none

/-- `GetSpecialScriptSize`. -/
def getSpecialScriptSize (nSize : Nat) : Nat :=
  if nSize = 0 ∨ nSize = 1 then 20
  else if nSize = 2 ∨ nSize = 3 ∨ nSize = 4 ∨ nSize = 5 then 32
  else 0

/-- `DecompressScript`, on an empty script, which is left empty if the key is not
valid. -/
def decompressScript (nSize : Nat) (data : List UInt8) : Script :=
  if nSize = 0 then
    [Opcode.opDup.code, Opcode.opHash160.code, 20] ++ data.take 20 ++
      [Opcode.opEqualverify.code, Opcode.opChecksig.code]
  else if nSize = 1 then
    [Opcode.opHash160.code, 20] ++ data.take 20 ++ [Opcode.opEqual.code]
  else if nSize = 2 ∨ nSize = 3 then
    [33, UInt8.ofNat nSize] ++ data.take 32 ++ [Opcode.opChecksig.code]
  else if nSize = 4 ∨ nSize = 5 then
    match keys.decompress (UInt8.ofNat (nSize - 2) :: data.take 32) with
    | some pubkey => [65] ++ pubkey ++ [Opcode.opChecksig.code]
    | none => []
  else []

/-- `ScriptCompression::nSpecialScripts`. -/
def nSpecialScripts : Nat := 6

/-- `ScriptCompression::Ser`. -/
def writeScript (script : Script) : List UInt8 :=
  match compressScript keys script with
  | some compr => compr
  | none => writeVarInt 32 ((script.length + nSpecialScripts) % 2 ^ 32) ++ script

/-- `ScriptCompression::Unser`, on an empty script. -/
def readScript : Reader Script := do
  let nSize ← readVarInt 32
  if nSize < nSpecialScripts then
    let vch ← read (getSpecialScriptSize nSize)
    return decompressScript keys nSize vch
  else
    let nSize := nSize - nSpecialScripts
    if nSize > maxScriptSize then
      let _ ← read nSize
      return [Opcode.opReturn.code]
    else read nSize

/-! ## What is compressed comes back -/

theorem drop_eq_cons_of_getElem? {byte : UInt8} (h : script[i]? = some byte) :
    script.drop i = byte :: script.drop (i + 1) := by
  obtain ⟨hi, rfl⟩ := List.getElem?_eq_some_iff.mp h
  exact drop_eq_getElem_cons hi

/-- A script between its first and its last bytes. -/
theorem eq_middle {front back : Script} (hfront : script.drop 0 = front ++ script.drop i)
    (hback : script.drop (i + n) = back) : script = front ++ (script.drop i).take n ++ back := by
  calc script
    _ = front ++ script.drop i := hfront
    _ = front ++ ((script.drop i).take n ++ (script.drop i).drop n) := by
        rw [take_append_drop]
    _ = front ++ (script.drop i).take n ++ back := by
        rw [drop_drop, hback, append_assoc]

theorem length_take_drop (h : i + n ≤ script.length) : ((script.drop i).take n).length = n := by
  rw [length_take, length_drop]
  omega

/-- A tag and its data, which are decompressed to a script. -/
structure Compresses (script : Script) (tag : Nat) (data : List UInt8) : Prop where
  special : tag < nSpecialScripts
  length : data.length = getSpecialScriptSize tag
  decompress : decompressScript keys tag data = script
  short : script.length ≤ 67

variable {keys}

theorem compresses_keyID {script keyID : List UInt8} (h : isToKeyID script = some keyID) :
    Compresses keys script 0 keyID := by
  unfold isToKeyID at h
  split at h
  · next hscript =>
      obtain ⟨hlength, h0, h1, h2, h23, h24⟩ := hscript
      cases h
      have hkey : ((script.drop 3).take 20).length = 20 := length_take_drop (by omega)
      refine ⟨by decide, hkey, ?_, by omega⟩
      have hend : script.drop 25 = [] := drop_eq_nil_of_le (by omega)
      have hfront : script.drop 0 =
          [Opcode.opDup.code, Opcode.opHash160.code, 20] ++ script.drop 3 := by
        rw [drop_eq_cons_of_getElem? h0, drop_eq_cons_of_getElem? h1, drop_eq_cons_of_getElem? h2]
        rfl
      have hback : script.drop (3 + 20) = [Opcode.opEqualverify.code, Opcode.opChecksig.code] := by
        rw [drop_eq_cons_of_getElem? h23, drop_eq_cons_of_getElem? h24, hend]
      rw [decompressScript, if_pos rfl, take_of_length_le (Nat.le_of_eq hkey)]
      exact (eq_middle hfront hback).symm
  · cases h

theorem compresses_scriptID {script scriptID : List UInt8}
    (h : isToScriptID script = some scriptID) : Compresses keys script 1 scriptID := by
  unfold isToScriptID at h
  split at h
  · next hscript =>
      obtain ⟨hlength, h0, h1, h22⟩ := hscript
      cases h
      have hkey : ((script.drop 2).take 20).length = 20 := length_take_drop (by omega)
      refine ⟨by decide, hkey, ?_, by omega⟩
      have hend : script.drop 23 = [] := drop_eq_nil_of_le (by omega)
      have hfront : script.drop 0 = [Opcode.opHash160.code, 20] ++ script.drop 2 := by
        rw [drop_eq_cons_of_getElem? h0, drop_eq_cons_of_getElem? h1]
        rfl
      have hback : script.drop (2 + 20) = [Opcode.opEqual.code] := by
        rw [drop_eq_cons_of_getElem? h22, hend]
      rw [decompressScript, if_neg (by decide), if_pos rfl, take_of_length_le (Nat.le_of_eq hkey)]
      exact (eq_middle hfront hback).symm
  · cases h

/-- A script that pushes a key of `n` bytes and checks a signature. -/
theorem eq_push_key {size : UInt8} (hlength : script.length = n + 2) (h0 : script[0]? = some size)
    (hlast : script[n + 1]? = some Opcode.opChecksig.code) :
    script = [size] ++ (script.drop 1).take n ++ [Opcode.opChecksig.code] := by
  have hend : script.drop (n + 2) = [] := drop_eq_nil_of_le (by omega)
  refine eq_middle (drop_eq_cons_of_getElem? h0) ?_
  rw [Nat.add_comm 1 n, drop_eq_cons_of_getElem? hlast, hend]

/-- The two kinds of keys that are compressed. -/
theorem isToPubKey_cases {script pubkey : List UInt8} (h : isToPubKey keys script = some pubkey) :
    (∃ head x, (head = 2 ∨ head = 3) ∧ x.length = 32 ∧ pubkey = head :: x ∧
        script = [33] ++ pubkey ++ [Opcode.opChecksig.code]) ∨
      ∃ x y last, x.length = 32 ∧ y.length = 31 ∧ pubkey = 4 :: x ++ y ++ [last] ∧
        keys.isFullyValid pubkey = true ∧
        script = [65] ++ pubkey ++ [Opcode.opChecksig.code] := by
  unfold isToPubKey at h
  split at h
  · next hscript =>
      obtain ⟨hlength, h0, h34, h1⟩ := hscript
      cases h
      have hcons : ∀ head, script[1]? = some head →
          (script.drop 1).take 33 = head :: (script.drop 2).take 32 := by
        intro head hhead
        rw [drop_eq_cons_of_getElem? hhead, take_succ_cons]
      have hx : ((script.drop 2).take 32).length = 32 := length_take_drop (by omega)
      refine Or.inl ?_
      rcases h1 with h1 | h1
      · exact ⟨2, _, Or.inl rfl, hx, hcons 2 h1, eq_push_key hlength h0 h34⟩
      · exact ⟨3, _, Or.inr rfl, hx, hcons 3 h1, eq_push_key hlength h0 h34⟩
  · split at h
    · next hscript =>
        obtain ⟨hlength, h0, h66, h1⟩ := hscript
        simp only [Option.ite_none_right_eq_some, Option.some.injEq] at h
        obtain ⟨hvalid, rfl⟩ := h
        refine Or.inr ⟨(script.drop 2).take 32, (script.drop 34).take 31,
          script.get ⟨65, by omega⟩, length_take_drop (by omega), length_take_drop (by omega), ?_,
          hvalid, eq_push_key hlength h0 h66⟩
        have hlast : (script.drop 65).take 1 = [script.get ⟨65, by omega⟩] := by
          rw [drop_eq_getElem_cons (by omega), take_succ_cons, take_zero]
          rfl
        calc (script.drop 1).take 65
          _ = 4 :: (script.drop 2).take (32 + (31 + 1)) := by
              rw [drop_eq_cons_of_getElem? h1, take_succ_cons]
          _ = _ := by
              rw [take_add, drop_drop, take_add, drop_drop, hlast]
              simp
    · cases h

theorem compresses_compressedKey {head : UInt8} (hhead : head = 2 ∨ head = 3) (hx : x.length = 32) :
    Compresses keys ([33] ++ head :: x ++ [Opcode.opChecksig.code]) head.toNat x := by
  have htake : x.take 32 = x := take_of_length_le (Nat.le_of_eq hx)
  rcases hhead with rfl | rfl
  · refine ⟨by decide, hx, ?_, by simp [hx]⟩
    simp [decompressScript, htake]
  · refine ⟨by decide, hx, ?_, by simp [hx]⟩
    simp [decompressScript, htake]

theorem and_one_cases (byte : UInt8) : byte &&& 1 = 0 ∨ byte &&& 1 = 1 := by
  have hmod : (byte &&& 1).toNat = byte.toNat % 2 := by
    rw [UInt8.toNat_and]
    exact Nat.and_one_is_mod byte.toNat
  rw [← UInt8.toNat_inj, ← UInt8.toNat_inj, hmod]
  exact Nat.mod_two_eq_zero_or_one byte.toNat

/-- The tag has the parity that the point is decompressed with. -/
theorem compresses_uncompressedKey {y : List UInt8} {last : UInt8} (hx : x.length = 32)
    (hy : y.length = 31) (hvalid : keys.isFullyValid (4 :: x ++ y ++ [last]) = true) :
    Compresses keys ([65] ++ (4 :: x ++ y ++ [last]) ++ [Opcode.opChecksig.code])
      (4 ||| (last &&& 1)).toNat x := by
  have htake : x.take 32 = x := take_of_length_le (Nat.le_of_eq hx)
  have hkey := keys.decompress_of_valid x y last hx hy hvalid
  rcases and_one_cases last with hparity | hparity
  · rw [hparity] at hkey ⊢
    have htwo : (2 + 0 : UInt8) = 2 := by decide
    rw [htwo] at hkey
    refine ⟨by decide, hx, ?_, by simp [hx, hy]⟩
    show decompressScript keys 4 x = _
    simp [decompressScript, htake, hkey]
  · rw [hparity] at hkey ⊢
    have hthree : (2 + 1 : UInt8) = 3 := by decide
    rw [hthree] at hkey
    refine ⟨by decide, hx, ?_, by simp [hx, hy]⟩
    show decompressScript keys 5 x = _
    simp [decompressScript, htake, hkey]

/-- What `CompressScript` gives is a tag with its data. -/
theorem compresses_of_compressScript {script compr : List UInt8}
    (h : compressScript keys script = some compr) :
    ∃ tag data, compr = UInt8.ofNat tag :: data ∧ Compresses keys script tag data := by
  unfold compressScript at h
  split at h
  · next keyID hkeyID =>
      cases h
      exact ⟨0, keyID, rfl, compresses_keyID hkeyID⟩
  · split at h
    · next scriptID hscriptID =>
        cases h
        exact ⟨1, scriptID, rfl, compresses_scriptID hscriptID⟩
    · simp only [Option.bind_eq_bind, Option.bind_eq_some_iff] at h
      obtain ⟨pubkey, hpubkey, h⟩ := h
      rcases isToPubKey_cases hpubkey with
        ⟨head, x, hhead, hx, rfl, hscript⟩ | ⟨x, y, last, hx, hy, rfl, hvalid, hscript⟩
      · have htake : ((head :: x).drop 1).take 32 = x := take_of_length_le (Nat.le_of_eq hx)
        simp only [head?_cons, Option.some.injEq, exists_eq_left', if_pos hhead, htake] at h
        subst hscript h
        exact ⟨head.toNat, x, by rw [UInt8.ofNat_toNat], compresses_compressedKey hhead hx⟩
      · have hlast : (4 :: x ++ y ++ [last]).getD 64 0 = last := by
          simp [hx, hy]
        have htake : ((4 :: x ++ y ++ [last]).drop 1).take 32 = x := by
          simp [← hx]
        have hsmall : ¬((4 : UInt8) = 2 ∨ (4 : UInt8) = 3) := by decide
        simp only [cons_append, head?_cons, Option.some.injEq, exists_eq_left',
          if_neg hsmall, if_pos] at h
        simp only [← cons_append, hlast, htake] at h
        subst hscript h
        exact ⟨_, x, by rw [UInt8.ofNat_toNat], compresses_uncompressedKey hx hy hvalid⟩

/-- A script as it comes back: one that is too long is replaced. -/
def storedScript (script : Script) : Script :=
  if script.length > maxScriptSize then [Opcode.opReturn.code] else script

theorem storedScript_of_le (h : script.length ≤ maxScriptSize) :
    storedScript script = script := if_neg (Nat.not_lt_of_le h)

theorem writeVarInt_of_lt {bits : Nat} (hbits : 7 ≤ bits) (h : n < 128) :
    writeVarInt bits n = [UInt8.ofNat n] := by
  have hfits : n < 2 ^ bits :=
    Nat.lt_of_lt_of_le h (Nat.pow_le_pow_right (by decide : 0 < 2) hbits)
  rw [writeVarInt_eq (by omega) hfits, Nat.div_eq_of_lt h, Nat.mod_eq_of_lt h, leadingBytes,
    nil_append]

/-- A script is read as it was written, with what comes behind left, unless it is too
long. -/
theorem run_readScript_writeScript (hsize : script.length + nSpecialScripts < 2 ^ 32)
    (rest : List UInt8) :
    (readScript keys).run (writeScript keys script ++ rest) = .ok (storedScript script, rest) := by
  unfold writeScript
  cases hcompress : compressScript keys script with
  | some compr =>
    obtain ⟨tag, data, rfl, hspecial, hlength, hdecompress, hshort⟩ :=
      compresses_of_compressScript hcompress
    have htag : tag < 128 := Nat.lt_trans hspecial (by decide)
    have hread := (reads_varInt (by decide : 7 ≤ 32)).run_write
      (Nat.lt_trans htag (by decide) : tag < 2 ^ 32) (data ++ rest)
    rw [writeVarInt_of_lt (by decide) htag, singleton_append] at hread
    dsimp only
    rw [readScript, run_bind_eq_ok_iff, cons_append]
    refine ⟨tag, data ++ rest, hread, ?_⟩
    rw [if_pos hspecial, run_bind_eq_ok_iff]
    refine ⟨data, rest, (reads_read _).run_write hlength rest, ?_⟩
    rw [run_pure_eq_ok_iff, hdecompress, storedScript_of_le (Nat.le_trans hshort (by decide))]
    exact ⟨rfl, rfl⟩
  | none =>
    have hread := (reads_varInt (by decide : 7 ≤ 32)).run_write hsize (script ++ rest)
    dsimp only
    rw [Nat.mod_eq_of_lt hsize, readScript, run_bind_eq_ok_iff, append_assoc]
    refine ⟨_, _, hread, ?_⟩
    rw [if_neg (by omega), Nat.add_sub_cancel]
    dsimp only
    unfold storedScript
    split
    · next hlong =>
        rw [run_bind_eq_ok_iff]
        exact ⟨script, rest, (reads_read _).run_write rfl rest, rfl⟩
    · exact (reads_read _).run_write rfl rest

/-- Every script comes back from its compressed form, or a script comes back that cannot
be spent either.  What comes behind is left. -/
theorem script_compression_faithful (keys : PubKeys) {script : Script}
    (hsize : script.length + nSpecialScripts < 2 ^ 32) (rest : List UInt8) :
    ∃ script', (readScript keys).run (writeScript keys script ++ rest) = .ok (script', rest) ∧
      script'.isUnspendable = script.isUnspendable ∧
      (script.length ≤ maxScriptSize → script' = script) := by
  refine ⟨storedScript script, run_readScript_writeScript hsize rest, ?_, storedScript_of_le⟩
  by_cases hlong : script.length > maxScriptSize
  · have hunspendable : script.isUnspendable = true := by
      unfold Script.isUnspendable
      rw [Bool.or_eq_true, decide_eq_true_eq]
      exact Or.inr hlong
    rw [storedScript, if_pos hlong, hunspendable]
    rfl
  · rw [storedScript_of_le (Nat.le_of_not_lt hlong)]

namespace Sample

/-- The x coordinate of the generator of secp256k1. -/
def generatorX : List UInt8 :=
  [0x79, 0xbe, 0x66, 0x7e, 0xf9, 0xdc, 0xbb, 0xac, 0x55, 0xa0, 0x62, 0x95, 0xce, 0x87, 0x0b, 0x07,
    0x02, 0x9b, 0xfc, 0xdb, 0x2d, 0xce, 0x28, 0xd9, 0x59, 0xf2, 0x81, 0x5b, 0x16, 0xf8, 0x17, 0x98]

/-- Its y coordinate, without the last byte `0xb8`. -/
def generatorY : List UInt8 :=
  [0x48, 0x3a, 0xda, 0x77, 0x26, 0xa3, 0xc4, 0x65, 0x5d, 0xa4, 0xfb, 0xfc, 0x0e, 0x11, 0x08, 0xa8,
    0xfd, 0x17, 0xb4, 0x48, 0xa6, 0x85, 0x54, 0x19, 0x9c, 0x47, 0xd0, 0x8f, 0xfb, 0x10, 0xd4]

def generator : List UInt8 := 4 :: generatorX ++ generatorY ++ [0xb8]

/-- Keys of which only the generator is known. -/
def generatorKeys : PubKeys where
  isFullyValid pubkey := pubkey == generator
  decompress pubkey := if pubkey = 2 :: generatorX then some generator else none
  decompress_of_valid x y last _ hy hvalid := by
    obtain ⟨hxy, hlast⟩ := append_inj' (beq_iff_eq.mp hvalid) rfl
    obtain ⟨hx, hy⟩ := append_inj' hxy hy
    cases hx
    cases hy
    cases hlast
    rfl

/-- A script that pays to an uncompressed key. -/
def payToKey : Script := 65 :: generator ++ [Opcode.opChecksig.code]

end Sample

open Sample

theorem script_compression_faithful_payToKey :
    writeScript generatorKeys payToKey = 4 :: generatorX ∧
      ∃ script', (readScript generatorKeys).run (writeScript generatorKeys payToKey ++ [1, 2]) =
          .ok (script', [1, 2]) ∧
        script'.isUnspendable = payToKey.isUnspendable ∧
        (payToKey.length ≤ maxScriptSize → script' = payToKey) :=
  ⟨by decide, script_compression_faithful generatorKeys (by decide) [1, 2]⟩

/-! ## Outputs -/

/-- `TxOutCompression`, when an output is written. -/
def writeTxOutCompressed (keys : PubKeys) (out : TxOut) : List UInt8 :=
  writeAmount out.nValue ++ writeScript keys out.scriptPubKey

/-- `TxOutCompression`, when an output is read. -/
def readTxOutCompressed (keys : PubKeys) : Reader TxOut := do
  let nValue ← readAmount
  let scriptPubKey ← readScript keys
  return { nValue, scriptPubKey }

/-- An output that comes back from its compressed form. -/
structure Compressible (out : TxOut) : Prop where
  money : moneyRange out.nValue = true
  size : out.scriptPubKey.length ≤ maxScriptSize

theorem restores_txOut (keys : PubKeys) :
    Restores (readTxOutCompressed keys) (writeTxOutCompressed keys) Compressible := by
  intro out rest h
  have hsize : out.scriptPubKey.length + nSpecialScripts < 2 ^ 32 := by
    have hle : out.scriptPubKey.length ≤ 10000 := h.size
    show out.scriptPubKey.length + 6 < 2 ^ 32
    omega
  have hscript : (readScript keys).run (writeScript keys out.scriptPubKey ++ rest) = _ :=
    run_readScript_writeScript hsize rest
  rw [storedScript_of_le h.size] at hscript
  rw [readTxOutCompressed, writeTxOutCompressed, append_assoc, run_bind_eq_ok_iff]
  refine ⟨_, _, restores_amount _ _ h.money, ?_⟩
  rw [run_bind_eq_ok_iff]
  exact ⟨_, _, hscript, rfl⟩

end BitcoinKernel.Storage
