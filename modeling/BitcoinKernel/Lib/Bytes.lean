import Mathlib.Algebra.Ring.Int.Defs
import Mathlib.Algebra.Ring.Nat
import Mathlib.Data.List.Basic

/-!
# Bytes, little-endian words and byte memories

Two small tools for programs that look at the same data at two levels.

* `encodeLE` and `decodeLE` move between a number and its little-endian bytes.
* A `Memory` gives every address a byte.  `read` and `write` work on byte
  ranges, and a write is seen by a read of the same range
  (`read_write_same`) and by no read of a disjoint one
  (`read_write_disjoint`).

Memory is total: a read beyond an object answers whatever bytes lie there.
A pointer is stored in memory as the eight bytes of its address, so a program
that confuses a pointer with the address at which the pointer is stored reads
those eight bytes (`read_at_pointer`).
-/

namespace Bytes

open List

/-! ## Little-endian words -/

/-- The value of a byte sequence, least significant byte first. -/
def decodeLE : List UInt8 → Nat
  | [] => 0
  | byte :: rest => byte.toNat + 256 * decodeLE rest

/-- The `count` low bytes of `n`, least significant byte first. -/
def encodeLE : (count : Nat) → Nat → List UInt8
  | 0, _ => []
  | count + 1, n => UInt8.ofNat n :: encodeLE count (n / 256)

@[simp] theorem length_encodeLE (count n : Nat) : (encodeLE count n).length = count := by
  induction count generalizing n with
  | zero => rfl
  | succ count ih => rw [encodeLE, length_cons, ih]

/-- A number that fits is read back. -/
theorem decodeLE_encodeLE {count n : Nat} (h : n < 256 ^ count) :
    decodeLE (encodeLE count n) = n := by
  induction count generalizing n with
  | zero =>
    rw [Nat.pow_zero] at h
    rw [encodeLE, decodeLE]
    omega
  | succ count ih =>
    have hdiv : n / 256 < 256 ^ count := by
      rw [Nat.pow_succ] at h
      exact Nat.div_lt_of_lt_mul (by omega)
    rw [encodeLE, decodeLE, ih hdiv, UInt8.toNat_ofNat']
    omega

/-- The value of a byte sequence fits in it. -/
theorem decodeLE_lt (bytes : List UInt8) : decodeLE bytes < 256 ^ bytes.length := by
  induction bytes with
  | nil => simp [decodeLE]
  | cons byte rest ih =>
    have hbyte : byte.toNat < 256 := byte.toNat_lt
    rw [decodeLE, length_cons, Nat.pow_succ]
    omega

/-- Every byte sequence is the encoding of its value. -/
theorem encodeLE_decodeLE (bytes : List UInt8) {count : Nat} (hlen : bytes.length = count) :
    encodeLE count (decodeLE bytes) = bytes := by
  subst hlen
  induction bytes with
  | nil => rfl
  | cons byte rest ih =>
    have hbyte : byte.toNat < 256 := byte.toNat_lt
    have hlow : UInt8.ofNat (byte.toNat + 256 * decodeLE rest) = byte := by
      refine UInt8.toNat_inj.mp ?_
      rw [UInt8.toNat_ofNat']
      omega
    have hhigh : (byte.toNat + 256 * decodeLE rest) / 256 = decodeLE rest := by omega
    rw [length_cons, decodeLE, encodeLE, hlow, hhigh, ih]

/-! ## Memory -/

/-- The bytes of an address space. -/
def Memory := Nat → UInt8

namespace Memory

/-- The `count` bytes from the address `addr` up. -/
def read (m : Memory) (addr count : Nat) : List UInt8 :=
  (List.range count).map fun i => m (addr + i)

/-- Memory after the bytes `bytes` were stored from the address `addr` up. -/
def write (m : Memory) (addr : Nat) (bytes : List UInt8) : Memory :=
  fun x => if addr ≤ x then bytes.getD (x - addr) (m x) else m x

/-- The pointer that is stored at `addr`. -/
def readPointer (m : Memory) (addr : Nat) : Nat := decodeLE (m.read addr 8)

/-- Memory after the pointer `ptr` was stored at `addr`. -/
def writePointer (m : Memory) (addr ptr : Nat) : Memory := m.write addr (encodeLE 8 ptr)

@[simp] theorem length_read (m : Memory) (addr count : Nat) :
    (m.read addr count).length = count := by
  simp [read]

/-- A read splits at every offset. -/
theorem read_add (m : Memory) (addr count count' : Nat) :
    m.read addr (count + count') = m.read addr count ++ m.read (addr + count) count' := by
  simp [read, range_add, Nat.add_assoc]

/-- A read of the range that was written. -/
theorem read_write_same (m : Memory) (addr : Nat) (bytes : List UInt8) {count : Nat}
    (hlen : bytes.length = count) : (m.write addr bytes).read addr count = bytes := by
  subst hlen
  refine ext_getElem (by simp) fun i hi hi' => ?_
  simp [read, write, getElem?_eq_getElem hi']

/-- A read of a range that was not written. -/
theorem read_write_disjoint (m : Memory) {addr addr' count : Nat} {bytes : List UInt8}
    (h : addr' + count ≤ addr ∨ addr + bytes.length ≤ addr') :
    (m.write addr bytes).read addr' count = m.read addr' count := by
  refine map_congr_left fun i hi => ?_
  rw [mem_range] at hi
  rw [write]
  split
  · rw [getD_eq_getElem?_getD, getElem?_eq_none (by omega), Option.getD_none]
  · rfl

theorem readPointer_writePointer (m : Memory) (addr : Nat) {ptr : Nat} (h : ptr < 2 ^ 64) :
    (m.writePointer addr ptr).readPointer addr = ptr := by
  rw [readPointer, writePointer, read_write_same _ _ _ (length_encodeLE 8 ptr)]
  exact decodeLE_encodeLE (by omega)

/-- What a program reads that takes the address of a stored pointer for the
pointer: the bytes of the pointer, then whatever lies behind it. -/
theorem read_at_pointer (m : Memory) (addr count : Nat) : m.read addr (8 + count) =
      encodeLE 8 (m.readPointer addr) ++ m.read (addr + 8) count := by
  rw [read_add, readPointer, encodeLE_decodeLE _ (m.length_read addr 8)]

end Memory

end Bytes
