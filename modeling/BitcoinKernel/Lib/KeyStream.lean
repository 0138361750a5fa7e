import Mathlib.Algebra.Ring.Nat
import Mathlib.Data.List.Basic

/-!
# Bytes under a stream of key bytes

`mask key offset data` adds the key bytes from the position `offset` on to the bytes of
`data`, with the exclusive or.  Positions are those in a long text, of which `data` is a
part.

* `mask_append`: a text can be masked in pieces, each at its own position.
* `mask_mask`: masking twice at the same position gives the text back.
* `mask_take` and `mask_drop`: a part of a masked text is the part of the text, masked at
  its position.
-/

namespace KeyStream

open List

variable (key : Nat → UInt8)

/-- The bytes of `data`, which starts at the position `offset`, under the key. -/
def mask (offset : Nat) (data : List UInt8) : List UInt8 :=
  data.mapIdx fun i byte => byte ^^^ key (offset + i)

@[simp] theorem length_mask (offset : Nat) (data : List UInt8) :
    (mask key offset data).length = data.length := length_mapIdx

@[simp] theorem mask_nil (offset : Nat) : mask key offset [] = [] := rfl

theorem mask_cons (offset : Nat) (byte : UInt8) (data : List UInt8) :
    mask key offset (byte :: data) = (byte ^^^ key offset) :: mask key (offset + 1) data := by
  simp only [mask, mapIdx_cons, Nat.add_zero, Nat.add_assoc, Nat.add_comm 1]

theorem mask_append (offset : Nat) (data data' : List UInt8) : mask key offset (data ++ data') =
      mask key offset data ++ mask key (offset + data.length) data' := by
  induction data generalizing offset with
  | nil => rw [nil_append, mask_nil, nil_append, length_nil, Nat.add_zero]
  | cons byte data ih =>
    rw [cons_append, mask_cons, mask_cons, ih, length_cons, cons_append,
      Nat.add_assoc, Nat.add_comm 1]

theorem mask_mask (offset : Nat) (data : List UInt8) :
    mask key offset (mask key offset data) = data := by
  induction data generalizing offset with
  | nil => rfl
  | cons byte data ih =>
    rw [mask_cons, mask_cons, ih, UInt8.xor_assoc, UInt8.xor_self, UInt8.xor_zero]

/-- A key of zeros changes nothing. -/
theorem mask_of_zero {key : Nat → UInt8} (h : ∀ i, key i = 0) (offset : Nat)
    (data : List UInt8) : mask key offset data = data := by
  induction data generalizing offset with
  | nil => rfl
  | cons byte data ih => rw [mask_cons, ih, h, UInt8.xor_zero]

theorem mask_take (offset n : Nat) (data : List UInt8) :
    (mask key offset data).take n = mask key offset (data.take n) := by
  induction data generalizing offset n with
  | nil => rw [mask_nil, take_nil, mask_nil]
  | cons byte data ih =>
    cases n with
    | zero => rfl
    | succ n => rw [mask_cons, take_succ_cons, ih, take_succ_cons, mask_cons]

theorem mask_drop (offset n : Nat) (data : List UInt8) :
    (mask key offset data).drop n = mask key (offset + n) (data.drop n) := by
  induction data generalizing offset n with
  | nil => rw [mask_nil, drop_nil, mask_nil]
  | cons byte data ih =>
    cases n with
    | zero => rfl
    | succ n =>
      rw [mask_cons, drop_succ_cons, ih, drop_succ_cons, Nat.add_assoc, Nat.add_comm 1]

/-- Only the key bytes at the positions of the data matter. -/
theorem mask_congr {key key' : Nat → UInt8} {offset offset' : Nat} {data : List UInt8}
    (h : ∀ i < data.length, key (offset + i) = key' (offset' + i)) :
    mask key offset data = mask key' offset' data := by
  induction data generalizing offset offset' with
  | nil => rfl
  | cons byte data ih =>
    have hfirst := h 0 (Nat.zero_lt_succ _)
    rw [Nat.add_zero, Nat.add_zero] at hfirst
    rw [mask_cons, mask_cons, hfirst, ih fun i hi => ?_]
    have hrest := h (i + 1) (Nat.succ_lt_succ hi)
    rw [Nat.add_right_comm, Nat.add_right_comm offset', Nat.add_assoc, Nat.add_assoc offset']
    exact hrest

end KeyStream
