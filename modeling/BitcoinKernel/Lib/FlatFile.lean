import Mathlib.Algebra.Ring.Nat
import Mathlib.Data.List.Basic

/-!
# Files of bytes

The contents of a file as a list of bytes, with what a program can do to them: write at a
position, cut the file off or extend it to a size, and allocate space behind its end.  A
write behind the end fills the gap with zeros.

`Has file pos data` says that the bytes of `data` stand in the file from a position on.
What is written stands there (`has_writeAt`).  It stays as long as the part of the file up
to its end does not change (`Has.of_take`), and the lemmas `take_…` say up to where an
operation changes nothing.  `SameBelow mark` is this for a program that keeps a mark below
which a file is used: steps that leave the file below its mark alone compose
(`SameBelow.trans`), and what stands below the mark stays (`Has.of_sameBelow`).
-/

namespace FlatFile

open List

/-! ## Operations -/

/-- The file up to a position, with zeros behind its end. -/
def upTo (file : List UInt8) (pos : Nat) : List UInt8 :=
  file.take pos ++ List.replicate (pos - file.length) 0

/-- The file after bytes were written from a position on. -/
def writeAt (file : List UInt8) (pos : Nat) (data : List UInt8) : List UInt8 :=
  if data.isEmpty then file else upTo file pos ++ data ++ file.drop (pos + data.length)

/-- The file with a new size. -/
def truncate (file : List UInt8) (size : Nat) : List UInt8 := upTo file size

/-- The file with space up to a size. -/
def allocate (file : List UInt8) (size : Nat) : List UInt8 :=
  file ++ List.replicate (size - file.length) 0

variable {file : List UInt8} {pos : Nat} {data : List UInt8}

@[simp] theorem length_upTo (file : List UInt8) (pos : Nat) : (upTo file pos).length = pos := by
  rw [upTo, length_append, length_take, length_replicate]
  omega

theorem take_upTo {n : Nat} (hn : n ≤ pos) (hfile : n ≤ file.length) :
    (upTo file pos).take n = file.take n := by
  rw [upTo, take_append_of_le_length (by rw [length_take]; omega), take_take, Nat.min_eq_left hn]

theorem writeAt_nil (file : List UInt8) (pos : Nat) : writeAt file pos [] = file := rfl

theorem writeAt_of_ne (h : data ≠ []) :
    writeAt file pos data = upTo file pos ++ data ++ file.drop (pos + data.length) :=
  if_neg (by rwa [List.isEmpty_iff])

theorem length_writeAt (h : data ≠ []) :
    (writeAt file pos data).length = max file.length (pos + data.length) := by
  rw [writeAt_of_ne h, length_append, length_append, length_upTo, length_drop]
  omega

/-- Two writes, one behind the other. -/
theorem writeAt_writeAt (file : List UInt8) (pos : Nat) (a b : List UInt8) :
    writeAt (writeAt file pos a) (pos + a.length) b = writeAt file pos (a ++ b) := by
  by_cases ha : a = []
  · rw [ha, writeAt_nil, length_nil, Nat.add_zero, nil_append]
  by_cases hb : b = []
  · rw [hb, writeAt_nil, append_nil]
  have hab : a ++ b ≠ [] := append_ne_nil_of_left_ne_nil ha b
  have hlen : (writeAt file pos a).length = max file.length (pos + a.length) :=
    length_writeAt ha
  have hfront : (upTo file pos ++ a).length = pos + a.length := by
    rw [length_append, length_upTo]
  have hupTo : upTo (writeAt file pos a) (pos + a.length) = upTo file pos ++ a := by
    rw [upTo, Nat.sub_eq_zero_of_le (by omega), replicate_zero, append_nil,
      writeAt_of_ne ha, ← hfront, take_left]
  have hdrop : (writeAt file pos a).drop (pos + a.length + b.length) =
      file.drop (pos + (a ++ b).length) := by
    rw [← drop_drop, writeAt_of_ne ha, ← hfront, drop_left, hfront, drop_drop,
      length_append, Nat.add_assoc]
  rw [writeAt_of_ne hb, hupTo, hdrop, writeAt_of_ne hab, append_assoc (upTo file pos)]

/-! ## Where nothing changes -/

theorem take_writeAt {n : Nat} (hn : n ≤ pos) (hfile : n ≤ file.length) :
    (writeAt file pos data).take n = file.take n := by
  by_cases h : data = []
  · rw [h, writeAt_nil]
  · rw [writeAt_of_ne h, append_assoc,
      take_append_of_le_length (by rw [length_upTo]; exact hn), take_upTo hn hfile]

theorem take_truncate {n size : Nat} (hn : n ≤ size) (hfile : n ≤ file.length) :
    (truncate file size).take n = file.take n := take_upTo hn hfile

theorem take_allocate {n size : Nat} (hfile : n ≤ file.length) :
    (allocate file size).take n = file.take n := take_append_of_le_length hfile

/-! ## Bytes in a file -/

/-- The bytes stand in the file from a position on. -/
def Has (file : List UInt8) (pos : Nat) (data : List UInt8) : Prop :=
  ∃ before after, before.length = pos ∧ file = before ++ data ++ after

theorem Has.length_le (h : Has file pos data) : pos + data.length ≤ file.length := by
  obtain ⟨before, after, rfl, rfl⟩ := h
  simp

/-- What a reader finds at the position. -/
theorem Has.drop_eq (h : Has file pos data) : ∃ after, file.drop pos = data ++ after := by
  obtain ⟨before, after, rfl, rfl⟩ := h
  exact ⟨after, by rw [append_assoc, drop_left]⟩

/-- The second part of the bytes stands behind the first. -/
theorem Has.right {a b : List UInt8} (h : Has file pos (a ++ b)) : Has file (pos + a.length) b := by
  obtain ⟨before, after, rfl, rfl⟩ := h
  exact ⟨before ++ a, after, length_append, by simp only [append_assoc]⟩

theorem has_writeAt (file : List UInt8) (pos : Nat) (h : data ≠ []) :
    Has (writeAt file pos data) pos data := ⟨_, _, length_upTo file pos, writeAt_of_ne h⟩

/-- Only the part of the file up to the end of the bytes matters. -/
theorem Has.of_take {file' : List UInt8} (h : Has file pos data)
    (htake : file'.take (pos + data.length) = file.take (pos + data.length)) :
    Has file' pos data := by
  obtain ⟨before, after, rfl, rfl⟩ := h
  have hfront : (before ++ data ++ after).take (before.length + data.length) = before ++ data := by
    rw [← length_append, take_left]
  refine ⟨before, file'.drop (before.length + data.length), rfl, ?_⟩
  rw [← hfront, ← htake, take_append_drop]

/-! ## Below a mark -/

/-- The second file has the bytes of the first below a mark. -/
def SameBelow (mark : Nat) (file file' : List UInt8) : Prop :=
  ∀ n ≤ mark, n ≤ file.length → file'.take n = file.take n

namespace SameBelow

variable {mark mark' : Nat} {file file' file'' : List UInt8} {data : List UInt8} {pos : Nat}

protected theorem refl (mark : Nat) (file : List UInt8) : SameBelow mark file file :=
  fun _ _ _ => rfl

/-- The mark may have moved up between the two steps. -/
protected theorem trans (h : SameBelow mark file file') (hmark : mark ≤ mark')
    (h' : SameBelow mark' file' file'') : SameBelow mark file file'' := by
  intro n hn hfile
  have htake := h n hn hfile
  have hlength : n ≤ file'.length := by
    have hle := congrArg List.length htake
    rw [length_take, length_take] at hle
    omega
  rw [h' n (Nat.le_trans hn hmark) hlength, htake]

protected theorem writeAt (h : mark ≤ pos) : SameBelow mark file (writeAt file pos data) :=
  fun _ hn hfile => take_writeAt (Nat.le_trans hn h) hfile

protected theorem truncate (h : mark ≤ pos) : SameBelow mark file (truncate file pos) :=
  fun _ hn hfile => take_truncate (Nat.le_trans hn h) hfile

protected theorem allocate : SameBelow mark file (allocate file pos) :=
  fun _ _ hfile => take_allocate hfile

end SameBelow

theorem Has.of_sameBelow {mark : Nat} {file' : List UInt8} (h : Has file pos data)
    (hmark : pos + data.length ≤ mark) (hsame : SameBelow mark file file') :
    Has file' pos data := h.of_take (hsame _ hmark h.length_le)

end FlatFile
