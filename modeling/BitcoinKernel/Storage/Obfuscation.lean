import BitcoinKernel.Lib.Bytes
import BitcoinKernel.Lib.KeyStream
import Mathlib.Data.List.Rotate
import Mathlib.Data.Nat.Bitwise
import Mathlib.Tactic.Ring

/-!
# Obfuscation of the block files

`Obfuscation` (`util/obfuscation.h`) adds a key of eight bytes to the bytes of a file.
For speed it works on whole words: up to an address that is a multiple of eight, then on
eight words at a time, then on single words, and last on the bytes that are left.  The key
is rotated so that it fits the position in the file at which the work starts.

`apply_eq_mask` says that none of this can be seen: byte `i` of the target is added to
byte `(key_offset + i) % 8` of the key, on machines of both byte orders and wherever the
target lies in memory.

The bytes of a word in memory are a list of eight bytes, and `loadWord` and `storeWord`
are the `memcpy` calls of the source.
-/

namespace BitcoinKernel.Storage

open Bytes KeyStream List

/-! ## Words in memory -/

/-- `std::endian::native`. -/
inductive Endian
  | little
  | big
deriving DecidableEq, Repr

/-- The bytes of a word from the least significant one on, for the bytes in memory.  The
same goes for the way back. -/
def Endian.orient (endian : Endian) (memory : List UInt8) : List UInt8 :=
  match endian with
  | .little => memory
  | .big => memory.reverse

/-- The bytes of a word into which fewer were copied. -/
def padded (bytes : List UInt8) : List UInt8 := bytes ++ List.replicate (8 - bytes.length) 0

/-- A word of zeros into which bytes were copied. -/
def loadWord (endian : Endian) (bytes : List UInt8) : BitVec 64 :=
  BitVec.ofNat 64 (decodeLE (endian.orient (padded bytes)))

/-- The bytes of a word in memory. -/
def storeWord (endian : Endian) (word : BitVec 64) : List UInt8 :=
  endian.orient (encodeLE 8 word.toNat)

/-! ## The class -/

/-- `Obfuscation`, with the bytes of its key. -/
structure Obfuscation where
  endian : Endian
  keyBytes : List UInt8
  length_eq : keyBytes.length = 8

namespace Obfuscation

/-- `m_rotations[i]`, as `SetRotations` computes it. -/
def rotation (o : Obfuscation) (i : Nat) : BitVec 64 :=
  match o.endian with
  | .little => (loadWord o.endian o.keyBytes).rotateRight (8 * i)
  | .big => (loadWord o.endian o.keyBytes).rotateLeft (8 * i)

/-- `operator bool`. -/
def isSet (o : Obfuscation) : Bool := o.rotation 0 != 0

/-- `XorWord`, for a target of at most eight bytes. -/
def xorWord (endian : Endian) (target : List UInt8) (key : BitVec 64) : List UInt8 :=
  (storeWord endian (loadWord endian target ^^^ key)).take target.length

/-- `XorWord` on the first words of a target, one after another. -/
def xorWords (endian : Endian) (key : BitVec 64) : (words : Nat) → List UInt8 → List UInt8
  | 0, _ => []
  | words + 1, target =>
    xorWord endian (target.take 8) key ++ xorWords endian key words (target.drop 8)

/-- A loop over chunks of a number of words, with the number of turns that are possible.
The second list is what is left of the target. -/
def xorChunks (endian : Endian) (key : BitVec 64) (words : Nat) :
    (turns : Nat) → List UInt8 → List UInt8 × List UInt8
  | 0, target => ([], target)
  | turns + 1, target =>
    if target.length ≥ 8 * words then
      let (done, rest) := xorChunks endian key words turns (target.drop (8 * words))
      (xorWords endian key words (target.take (8 * words)) ++ done, rest)
    else ([], target)

/-- The work on a target whose address is a multiple of eight, with the key for it. -/
def applyAligned (endian : Endian) (target : List UInt8) (rotKey : BitVec 64) : List UInt8 :=
  let (unrolled, target) := xorChunks endian rotKey 8 target.length target
  let (words, target) := xorChunks endian rotKey 1 target.length target
  unrolled ++ words ++ xorWord endian target rotKey

/-- `operator()`: the bytes of the target afterwards, for a target at an address. -/
def apply (o : Obfuscation) (address : Nat) (target : List UInt8) (keyOffset : Nat) : List UInt8 :=
  if !o.isSet then target
  else
    let rotKey := o.rotation (keyOffset % 8)
    if target.length > 8 then
      let misalign := address % 8
      if misalign ≠ 0 then
        let alignment := 8 - misalign
        xorWord o.endian (target.take alignment) rotKey ++
          applyAligned o.endian (target.drop alignment)
            (o.rotation ((keyOffset + alignment) % 8))
      else applyAligned o.endian target rotKey
    else xorWord o.endian target rotKey

/-- The byte of the key for a position. -/
def keyByte (o : Obfuscation) (i : Nat) : UInt8 := o.keyBytes.getD (i % 8) 0

end Obfuscation

/-! ## Words and their bytes -/

theorem decodeLE_append (a b : List UInt8) :
    decodeLE (a ++ b) = decodeLE a + 256 ^ a.length * decodeLE b := by
  induction a with
  | nil => rw [nil_append, decodeLE, length_nil, Nat.pow_zero, Nat.one_mul, Nat.zero_add]
  | cons byte a ih =>
    rw [cons_append, decodeLE, decodeLE, ih, length_cons, Nat.pow_succ, Nat.mul_add,
      ← Nat.mul_assoc, Nat.mul_comm 256 (256 ^ a.length), Nat.add_assoc]

/-- The exclusive or of two words is that of their bytes. -/
theorem encodeLE_xor {n : Nat} {a b : List UInt8} (ha : a.length = n) (hb : b.length = n) :
    encodeLE n (decodeLE a ^^^ decodeLE b) = List.zipWith (· ^^^ ·) a b := by
  induction n generalizing a b with
  | zero =>
    rw [length_eq_zero_iff] at ha hb
    rw [ha, hb]
    rfl
  | succ n ih =>
    cases a with
    | nil => cases ha
    | cons x a =>
      cases b with
      | nil => cases hb
      | cons y b =>
        have hx : x.toNat < 256 := x.toNat_lt
        have hy : y.toNat < 256 := y.toNat_lt
        have hlow : UInt8.ofNat (decodeLE (x :: a) ^^^ decodeLE (y :: b)) = x ^^^ y := by
          have hmod : (decodeLE (x :: a) ^^^ decodeLE (y :: b)) % 2 ^ 8 = x.toNat ^^^ y.toNat := by
            rw [Nat.xor_mod_two_pow, decodeLE, decodeLE]
            congr 1
            · omega
            · omega
          refine UInt8.toNat_inj.mp ?_
          rw [UInt8.toNat_ofNat', UInt8.toNat_xor]
          exact hmod
        have hhigh : (decodeLE (x :: a) ^^^ decodeLE (y :: b)) / 256 =
            decodeLE a ^^^ decodeLE b := by
          have hdiv : (decodeLE (x :: a) ^^^ decodeLE (y :: b)) / 2 ^ 8 =
              decodeLE (x :: a) / 2 ^ 8 ^^^ decodeLE (y :: b) / 2 ^ 8 :=
            Nat.xor_div_two_pow
          refine hdiv.trans ?_
          rw [decodeLE, decodeLE]
          congr 1
          · omega
          · omega
        rw [encodeLE, hlow, hhigh, ih (Nat.succ.inj ha) (Nat.succ.inj hb), zipWith_cons_cons]

theorem length_orient (endian : Endian) (memory : List UInt8) :
    (endian.orient memory).length = memory.length := by
  cases endian with
  | little => rfl
  | big => exact length_reverse

theorem length_padded {bytes : List UInt8} (h : bytes.length ≤ 8) : (padded bytes).length = 8 := by
  rw [padded, length_append, length_replicate]
  omega

theorem toNat_loadWord {bytes : List UInt8} (endian : Endian) (h : bytes.length ≤ 8) :
    (loadWord endian bytes).toNat = decodeLE (endian.orient (padded bytes)) := by
  have hlt := decodeLE_lt (endian.orient (padded bytes))
  rw [length_orient, length_padded h] at hlt
  rw [loadWord, BitVec.toNat_ofNat]
  exact Nat.mod_eq_of_lt hlt

/-- Two words in memory, byte by byte. -/
theorem storeWord_xor {a b : List UInt8} (endian : Endian) (ha : a.length ≤ 8) (hb : b.length ≤ 8) :
    storeWord endian (loadWord endian a ^^^ loadWord endian b) =
      List.zipWith (· ^^^ ·) (padded a) (padded b) := by
  have hla := length_padded ha
  have hlb := length_padded hb
  rw [storeWord, BitVec.toNat_xor, toNat_loadWord endian ha, toNat_loadWord endian hb,
    encodeLE_xor ((length_orient endian _).trans hla) ((length_orient endian _).trans hlb)]
  cases endian with
  | little => rfl
  | big =>
    show (List.zipWith _ (padded a).reverse (padded b).reverse).reverse = _
    rw [← reverse_zipWith (hla.trans hlb.symm), reverse_reverse]

/-! ## Rotations -/

/-- The parts of a word change places. -/
theorem rotate_parts {low high a b : Nat} (hlow : low < 2 ^ a) (hhigh : high < 2 ^ b)
    (hab : a + b = 64) :
    (low + 2 ^ a * high) >>> a ||| (low + 2 ^ a * high) <<< b % 2 ^ 64 = high + 2 ^ b * low := by
  have hpos : 0 < 2 ^ a := Nat.two_pow_pos a
  have hshift : (low + 2 ^ a * high) >>> a = high := by
    rw [Nat.shiftRight_eq_div_pow, Nat.add_mul_div_left _ _ hpos, Nat.div_eq_of_lt hlow,
      Nat.zero_add]
  have hfits : 2 ^ b * low < 2 ^ 64 := by
    rw [← hab, Nat.add_comm a b, Nat.pow_add]
    exact Nat.mul_lt_mul_of_pos_left hlow (Nat.two_pow_pos b)
  have hleft : (low + 2 ^ a * high) <<< b % 2 ^ 64 = 2 ^ b * low := by
    have hsplit : (low + 2 ^ a * high) * 2 ^ b = 2 ^ b * low + 2 ^ 64 * high := by
      rw [← hab, Nat.pow_add]
      ring
    rw [Nat.shiftLeft_eq, hsplit, Nat.add_mul_mod_self_left, Nat.mod_eq_of_lt hfits]
  rw [hshift, hleft, Nat.or_comm, ← Nat.two_pow_add_eq_or_of_lt hhigh, Nat.add_comm]

theorem pow_256 (n : Nat) : 256 ^ n = 2 ^ (8 * n) := by rw [Nat.pow_mul]

namespace Obfuscation

variable (o : Obfuscation)

theorem padded_keyBytes_rotate (i : Nat) : padded (o.keyBytes.rotate i) = o.keyBytes.rotate i := by
  rw [padded, length_rotate, o.length_eq]
  exact append_nil _

/-- A rotation of the key is the word of the rotated bytes, on both kinds of
machines. -/
theorem rotation_eq {i : Nat} (hi : i < 8) :
    o.rotation i = loadWord o.endian (o.keyBytes.rotate i) := by
  have hlen := o.length_eq
  have hrotate := rotate_eq_drop_append_take (l := o.keyBytes) (n := i) (by omega)
  have htake : (o.keyBytes.take i).length = i := length_take_of_le (by omega)
  have hdrop : (o.keyBytes.drop i).length = 8 - i := by rw [length_drop, hlen]
  have hmod : 8 * i % 64 = 8 * i := Nat.mod_eq_of_lt (by omega)
  have hword := padded_keyBytes_rotate o 0
  rw [rotate_zero] at hword
  refine BitVec.eq_of_toNat_eq ?_
  rw [toNat_loadWord _ (by rw [length_rotate]; omega), padded_keyBytes_rotate, hrotate]
  unfold rotation
  cases hendian : o.endian with
  | little =>
    have hlow := decodeLE_lt (o.keyBytes.take i)
    have hhigh := decodeLE_lt (o.keyBytes.drop i)
    rw [htake, pow_256] at hlow
    rw [hdrop, pow_256] at hhigh
    have hparts : decodeLE o.keyBytes =
        decodeLE (o.keyBytes.take i) + 2 ^ (8 * i) * decodeLE (o.keyBytes.drop i) := by
      conv_lhs => rw [← take_append_drop i o.keyBytes]
      rw [decodeLE_append, htake, pow_256]
    have hrot := rotate_parts hlow hhigh (by omega)
    show ((loadWord .little o.keyBytes).rotateRight (8 * i)).toNat =
      decodeLE (o.keyBytes.drop i ++ o.keyBytes.take i)
    rw [BitVec.toNat_rotateRight, toNat_loadWord _ (by omega), hword, hmod]
    show decodeLE o.keyBytes >>> (8 * i) ||| decodeLE o.keyBytes <<< (64 - 8 * i) % 2 ^ 64 = _
    have hwidth : 64 - 8 * i = 8 * (8 - i) := by omega
    rw [hparts, hwidth, hrot, decodeLE_append, hdrop, pow_256]
  | big =>
    have hlow := decodeLE_lt (o.keyBytes.drop i).reverse
    have hhigh := decodeLE_lt (o.keyBytes.take i).reverse
    rw [length_reverse, hdrop, pow_256] at hlow
    rw [length_reverse, htake, pow_256] at hhigh
    have hparts : decodeLE o.keyBytes.reverse = decodeLE (o.keyBytes.drop i).reverse +
        2 ^ (8 * (8 - i)) * decodeLE (o.keyBytes.take i).reverse := by
      conv_lhs => rw [← take_append_drop i o.keyBytes]
      rw [reverse_append, decodeLE_append, length_reverse, hdrop, pow_256]
    have hrot := rotate_parts hlow hhigh (by omega)
    show ((loadWord .big o.keyBytes).rotateLeft (8 * i)).toNat =
      decodeLE (o.keyBytes.drop i ++ o.keyBytes.take i).reverse
    rw [BitVec.toNat_rotateLeft, toNat_loadWord _ (by omega), hword, hmod]
    show decodeLE o.keyBytes.reverse <<< (8 * i) % 2 ^ 64 |||
      decodeLE o.keyBytes.reverse >>> (64 - 8 * i) = _
    have hwidth : 64 - 8 * i = 8 * (8 - i) := by omega
    rw [Nat.or_comm, hparts, hwidth, hrot, reverse_append, decodeLE_append,
      length_reverse, htake, pow_256]

/-- The bytes of the key from a position on. -/
theorem getElem?_rotate {k i : Nat} (hi : i < 8) :
    (o.keyBytes.rotate (k % 8))[i]? = some (o.keyByte (k + i)) := by
  have hlen := o.length_eq
  have hlt : (k + i) % 8 < o.keyBytes.length := by rw [hlen]; exact Nat.mod_lt _ (by decide)
  rw [List.getElem?_rotate (by omega), hlen, keyByte, List.getD_eq_getElem?_getD]
  have hindex : (i + k % 8) % 8 = (k + i) % 8 := by omega
  rw [hindex, getElem?_eq_getElem hlt]
  rfl

/-- A word under the rotated key. -/
theorem xorWord_rotation {target : List UInt8} (h : target.length ≤ 8) (k : Nat) :
    xorWord o.endian target (o.rotation (k % 8)) = mask o.keyByte k target := by
  have hkey : (o.keyBytes.rotate (k % 8)).length ≤ 8 := by rw [length_rotate, o.length_eq]
  rw [xorWord, o.rotation_eq (Nat.mod_lt k (by decide)), storeWord_xor _ h hkey,
    padded_keyBytes_rotate]
  refine ext_getElem? fun i => ?_
  rw [getElem?_take]
  by_cases hi : i < target.length
  · have hpad : (padded target)[i]? = some target[i] := by
      rw [padded, getElem?_append_left hi, getElem?_eq_getElem hi]
    rw [if_pos hi, getElem?_zipWith, hpad, o.getElem?_rotate (by omega), mask,
      getElem?_mapIdx, getElem?_eq_getElem hi]
    rfl
  · rw [if_neg hi, getElem?_eq_none (by rw [length_mask]; omega)]

/-! ## The loops -/

/-- The key bytes come back after eight positions. -/
theorem mask_add_eight (k n : Nat) (data : List UInt8) :
    mask o.keyByte (k + 8 * n) data = mask o.keyByte k data := by
  refine mask_congr fun i _ => ?_
  have hmod : (k + 8 * n + i) % 8 = (k + i) % 8 := by omega
  rw [keyByte, keyByte, hmod]

theorem xorWords_eq (k : Nat) {words : Nat} {target : List UInt8} (h : target.length = 8 * words) :
    xorWords o.endian (o.rotation (k % 8)) words target = mask o.keyByte k target := by
  induction words generalizing target with
  | zero =>
    rw [Nat.mul_zero, length_eq_zero_iff] at h
    rw [h]
    rfl
  | succ words ih =>
    have htake : (target.take 8).length = 8 := length_take_of_le (by omega)
    have hdrop : (target.drop 8).length = 8 * words := by rw [length_drop]; omega
    conv_rhs => rw [← take_append_drop 8 target]
    rw [xorWords, o.xorWord_rotation (Nat.le_of_eq htake), ih hdrop, mask_append, htake]
    exact congrArg _ (o.mask_add_eight k 1 _).symm

/-- What a loop over chunks has done, and what it has left. -/
theorem xorChunks_spec (k words turns : Nat) (target : List UInt8) :
    ∃ part n, target = part ++ (xorChunks o.endian (o.rotation (k % 8)) words turns target).2 ∧
      part.length = 8 * n ∧
      (xorChunks o.endian (o.rotation (k % 8)) words turns target).1 = mask o.keyByte k part ∧
      (0 < words → target.length ≤ turns →
        (xorChunks o.endian (o.rotation (k % 8)) words turns target).2.length < 8 * words) := by
  induction turns generalizing target with
  | zero =>
    refine ⟨[], 0, rfl, rfl, rfl, fun hpos hle => ?_⟩
    show target.length < 8 * words
    omega
  | succ turns ih =>
    rw [xorChunks]
    split
    · next hmore =>
        obtain ⟨part, n, htarget, hpart, hdone, hleft⟩ := ih (target.drop (8 * words))
        have hchunk : (target.take (8 * words)).length = 8 * words := length_take_of_le hmore
        refine ⟨target.take (8 * words) ++ part, words + n, ?_, ?_, ?_, fun hpos hle => ?_⟩
        · dsimp only
          rw [append_assoc, ← htarget, take_append_drop]
        · rw [length_append, hchunk, hpart, Nat.mul_add]
        · dsimp only
          rw [hdone, o.xorWords_eq k hchunk, mask_append, hchunk, o.mask_add_eight]
        · exact hleft hpos (by rw [length_drop]; omega)
    · next hfew =>
        refine ⟨[], 0, rfl, rfl, rfl, fun _ _ => ?_⟩
        show target.length < 8 * words
        omega

theorem applyAligned_eq (k : Nat) (target : List UInt8) :
    applyAligned o.endian target (o.rotation (k % 8)) = mask o.keyByte k target := by
  obtain ⟨part₁, n₁, htarget, hpart₁, hdone₁, -⟩ :=
    o.xorChunks_spec k 8 target.length target
  unfold applyAligned
  generalize xorChunks o.endian (o.rotation (k % 8)) 8 target.length target = r₁ at htarget hdone₁
  obtain ⟨done₁, rest₁⟩ := r₁
  obtain ⟨part₂, n₂, hrest, hpart₂, hdone₂, hleft⟩ := o.xorChunks_spec k 1 rest₁.length rest₁
  dsimp only at htarget hdone₁ ⊢
  generalize xorChunks o.endian (o.rotation (k % 8)) 1 rest₁.length rest₁ = r₂
    at hrest hdone₂ hleft
  obtain ⟨done₂, rest₂⟩ := r₂
  dsimp only at hrest hdone₂ hleft ⊢
  have hshort : rest₂.length ≤ 8 := Nat.le_of_lt (hleft Nat.one_pos (Nat.le_refl _))
  rw [htarget, hrest, hdone₁, hdone₂, o.xorWord_rotation hshort, mask_append, hpart₁,
    o.mask_add_eight, mask_append, hpart₂, o.mask_add_eight, append_assoc]

/-- A key that counts as missing has only zeros. -/
theorem keyByte_of_not_isSet (h : o.isSet = false) (i : Nat) : o.keyByte i = 0 := by
  have hzero : o.rotation (0 % 8) = 0 := by simpa [isSet] using h
  have hword : xorWord o.endian (List.replicate 8 0) 0 = List.replicate 8 0 := by
    cases o.endian with
    | little => decide
    | big => decide
  have hmask : mask o.keyByte 0 (List.replicate 8 0) = List.replicate 8 0 := by
    rw [← o.xorWord_rotation (Nat.le_of_eq length_replicate), hzero, hword]
  have hi : i % 8 < 8 := Nat.mod_lt i (by decide)
  have hbyte := congrArg (fun bytes : List UInt8 => bytes[i % 8]?) hmask
  simp only [mask, getElem?_mapIdx, getElem?_replicate, if_pos hi, Option.map_some,
    Option.some.injEq, Nat.zero_add, UInt8.zero_xor] at hbyte
  rw [keyByte, ← Nat.mod_mod]
  exact hbyte

/-- `operator()` works byte by byte, wherever the target lies and whichever way words are
stored. -/
theorem apply_eq_mask (address : Nat) (target : List UInt8) (keyOffset : Nat) :
    o.apply address target keyOffset = mask o.keyByte keyOffset target := by
  unfold apply
  cases hset : o.isSet with
  | false =>
    rw [Bool.not_false, if_pos rfl, mask_of_zero (o.keyByte_of_not_isSet hset)]
  | true =>
    rw [Bool.not_true, if_neg Bool.false_ne_true]
    dsimp only
    split
    · next hlong =>
        split
        · next hmisalign =>
            have hhead : (target.take (8 - address % 8)).length = 8 - address % 8 :=
              length_take_of_le (by omega)
            conv_rhs => rw [← take_append_drop (8 - address % 8) target]
            rw [o.xorWord_rotation (by omega), o.applyAligned_eq, mask_append, hhead]
        · exact o.applyAligned_eq keyOffset target
    · next hshort => exact o.xorWord_rotation (Nat.le_of_not_lt hshort) keyOffset

end Obfuscation

end BitcoinKernel.Storage
