import BitcoinKernel.Lib.FlatFile
import BitcoinKernel.Storage.Obfuscation

/-!
# Files behind buffers

`AutoFile`, `BufferedWriter` and `BufferedReader` (`streams.h`, `streams.cpp`), through
which the block files and the undo files are written and read.  A file is obfuscated with
a key, and each of the classes has its own way to cut what is written or read into parts:
`AutoFile::write` copies into an array of 4096 bytes, `BufferedWriter` collects bytes until
its buffer is full, and `BufferedReader` fills its buffer behind each read that goes past
it.

* `AutoFile.append` is what all writes amount to, and `AutoFile.remaining` what all reads
  take from.
* `streams_round_trip`: what is written in any parts is read back in any parts, for all
  sizes of the buffers, at every position in a file.

The buffers of the program have addresses, which the obfuscation looks at.  They are
arguments here.  Errors of the operating system are not modelled: a read fails only at the
end of the file.
-/

namespace BitcoinKernel.Storage

open KeyStream FlatFile List

/-! ## `AutoFile` -/

/-- `AutoFile`: an open file with its position. -/
structure AutoFile where
  obfuscation : Obfuscation
  file : List UInt8
  position : Nat

namespace AutoFile

/-- `write_buffer`, for a buffer at an address. -/
def writeBuffer (f : AutoFile) (address : Nat) (src : List UInt8) : AutoFile :=
  let src := if f.obfuscation.isSet then f.obfuscation.apply address src f.position else src
  { f with file := writeAt f.file f.position src, position := f.position + src.length }

/-- The loop of `write`, with the number of turns that are possible. -/
def writeChunks (address : Nat) : (turns : Nat) → AutoFile → List UInt8 → AutoFile
  | 0, f, _ => f
  | turns + 1, f, src =>
    if src.isEmpty then f
    else
      let now := min src.length 4096
      writeChunks address turns (f.writeBuffer address (src.take now)) (src.drop now)

/-- `write`. -/
def write (f : AutoFile) (address : Nat) (src : List UInt8) : AutoFile :=
  if !f.obfuscation.isSet then
    { f with file := writeAt f.file f.position src, position := f.position + src.length }
  else writeChunks address src.length f src

/-- Objects are written one after another, each with the address of the array of `write`. -/
def writeAll (f : AutoFile) (pieces : List (Nat × List UInt8)) : AutoFile :=
  pieces.foldl (fun f piece => f.write piece.1 piece.2) f

/-- `detail_fread`: at most `count` bytes, for a destination at an address. -/
def detailFread (f : AutoFile) (address count : Nat) : List UInt8 × AutoFile :=
  let dst := (f.file.drop f.position).take count
  let plain := if f.obfuscation.isSet then f.obfuscation.apply address dst f.position else dst
  (plain, { f with position := f.position + dst.length })

/-- `read`: exactly `count` bytes. -/
def read (f : AutoFile) (address count : Nat) : Option (List UInt8 × AutoFile) :=
  let (dst, f) := f.detailFread address count
  if dst.length ≠ count then none else some (dst, f)

/-! ### What a file stands for -/

/-- The file after bytes were written at its position. -/
def append (f : AutoFile) (data : List UInt8) : AutoFile :=
  { f with
    file := writeAt f.file f.position (mask f.obfuscation.keyByte f.position data)
    position := f.position + data.length }

/-- The bytes from the position on. -/
def remaining (f : AutoFile) : List UInt8 :=
  mask f.obfuscation.keyByte f.position (f.file.drop f.position)

theorem append_nil (f : AutoFile) : f.append [] = f := rfl

theorem append_append (f : AutoFile) (a b : List UInt8) :
    (f.append a).append b = f.append (a ++ b) := by
  have hfile := writeAt_writeAt f.file f.position (mask f.obfuscation.keyByte f.position a)
    (mask f.obfuscation.keyByte (f.position + a.length) b)
  rw [length_mask, ← mask_append] at hfile
  simp only [append, hfile, length_append, Nat.add_assoc]

/-- The two ways to obfuscate a buffer, and to leave it alone. -/
theorem obfuscated (f : AutoFile) (address : Nat) (data : List UInt8) :
    (if f.obfuscation.isSet then f.obfuscation.apply address data f.position else data) =
      mask f.obfuscation.keyByte f.position data := by
  split
  · exact f.obfuscation.apply_eq_mask address data f.position
  · next hset =>
      rw [mask_of_zero (f.obfuscation.keyByte_of_not_isSet (by simpa using hset))]

theorem writeBuffer_eq (f : AutoFile) (address : Nat) (src : List UInt8) :
    f.writeBuffer address src = f.append src := by
  unfold writeBuffer
  dsimp only
  rw [obfuscated, length_mask]
  rfl

theorem writeChunks_eq (address turns : Nat) (f : AutoFile) (src : List UInt8)
    (h : src.length ≤ turns) : writeChunks address turns f src = f.append src := by
  induction turns generalizing f src with
  | zero =>
    rw [eq_nil_of_length_eq_zero (Nat.le_zero.mp h)]
    rfl
  | succ turns ih =>
    rw [writeChunks]
    split
    · next hempty =>
        rw [List.isEmpty_iff] at hempty
        rw [hempty, append_nil]
    · next hmore =>
        have hpos : 0 < src.length := length_pos_iff.mpr (by simpa using hmore)
        dsimp only
        rw [ih _ _ (by rw [length_drop]; omega), writeBuffer_eq, append_append, take_append_drop]

theorem write_eq (f : AutoFile) (address : Nat) (src : List UInt8) :
    f.write address src = f.append src := by
  unfold write
  cases hset : f.obfuscation.isSet with
  | false =>
    rw [Bool.not_false, if_pos rfl]
    unfold append
    rw [mask_of_zero (f.obfuscation.keyByte_of_not_isSet hset)]
  | true =>
    rw [Bool.not_true, if_neg Bool.false_ne_true]
    exact writeChunks_eq address _ f src (Nat.le_refl _)

theorem writeAll_eq (f : AutoFile) (pieces : List (Nat × List UInt8)) :
    f.writeAll pieces = f.append (pieces.map Prod.snd).flatten := by
  unfold writeAll
  induction pieces generalizing f with
  | nil => rfl
  | cons piece pieces ih =>
    rw [foldl_cons, ih, write_eq, append_append, map_cons, flatten_cons]

/-- A read takes the first bytes of what remains. -/
theorem detailFread_spec (f : AutoFile) (address count : Nat) :
    (f.detailFread address count).1 = f.remaining.take count ∧
      (f.detailFread address count).2.remaining = f.remaining.drop count := by
  unfold detailFread
  dsimp only
  rw [obfuscated]
  refine ⟨(mask_take _ _ _ _).symm, ?_⟩
  unfold remaining
  dsimp only
  rw [mask_drop, ← drop_drop, length_take, length_drop]
  by_cases hcount : count ≤ f.file.length - f.position
  · rw [Nat.min_eq_left hcount]
  · rw [Nat.min_eq_right (by omega)]
    have hnil : ∀ n, f.file.length - f.position ≤ n → (f.file.drop f.position).drop n = [] :=
      fun n hn => drop_eq_nil_of_le (by rw [length_drop]; exact hn)
    rw [hnil _ (Nat.le_refl _), hnil count (by omega), mask_nil, mask_nil]

theorem read_eq (f : AutoFile) (address count : Nat) : if count ≤ f.remaining.length then
      ∃ f', f.read address count = some (f.remaining.take count, f') ∧
        f'.remaining = f.remaining.drop count
    else f.read address count = none := by
  obtain ⟨hdst, hrest⟩ := f.detailFread_spec address count
  have hlength : (f.detailFread address count).1.length = min count f.remaining.length := by
    rw [hdst, length_take]
  unfold read
  generalize f.detailFread address count = r at hdst hrest hlength
  obtain ⟨dst, f'⟩ := r
  dsimp only at hdst hrest hlength ⊢
  split
  · next hle =>
      rw [if_neg (by omega), hdst]
      exact ⟨f', rfl, hrest⟩
  · next hlt => rw [if_pos (by omega)]

end AutoFile

/-! ## `BufferedWriter` -/

/-- `BufferedWriter`.  `buf` has the bytes of the buffer that are used. -/
structure BufferedWriter where
  dst : AutoFile
  address : Nat
  size : Nat
  buf : List UInt8 := []

namespace BufferedWriter

/-- `flush`. -/
def flush (w : BufferedWriter) : BufferedWriter :=
  if w.buf.isEmpty then w
  else { w with dst := w.dst.writeBuffer w.address w.buf, buf := [] }

/-- The loop of `write`, with the number of turns that are possible. -/
def writeLoop : (turns : Nat) → BufferedWriter → List UInt8 → BufferedWriter
  | 0, w, _ => w
  | turns + 1, w, src =>
    let available := min src.length (w.size - w.buf.length)
    if available = 0 then w
    else
      let w := { w with buf := w.buf ++ src.take available }
      let w := if w.buf.length = w.size then w.flush else w
      writeLoop turns w (src.drop available)

/-- `write`. -/
def write (w : BufferedWriter) (src : List UInt8) : BufferedWriter := writeLoop src.length w src

/-- Objects are written one after another, and the destructor flushes. -/
def writeAll (w : BufferedWriter) (pieces : List (List UInt8)) : AutoFile :=
  (pieces.foldl write w).flush.dst

theorem flush_spec (w : BufferedWriter) :
    w.flush.dst = w.dst.append w.buf ∧ w.flush.buf = [] ∧ w.flush.size = w.size := by
  unfold flush
  split
  · next hempty =>
      rw [List.isEmpty_iff] at hempty
      rw [hempty, AutoFile.append_nil]
      exact ⟨rfl, rfl, rfl⟩
  · exact ⟨AutoFile.writeBuffer_eq _ _ _, rfl, rfl⟩

/-- There is room in the buffer. -/
def Open (w : BufferedWriter) : Prop := w.buf.length < w.size

/-- What is written and what is in the buffer, in one. -/
def written (w : BufferedWriter) : AutoFile := w.dst.append w.buf

theorem writeLoop_spec (turns : Nat) (w : BufferedWriter) (src : List UInt8) (hw : w.Open)
    (h : src.length ≤ turns) :
    (writeLoop turns w src).Open ∧ (writeLoop turns w src).written = w.written.append src := by
  induction turns generalizing w src with
  | zero =>
    rw [eq_nil_of_length_eq_zero (Nat.le_zero.mp h)]
    exact ⟨hw, rfl⟩
  | succ turns ih =>
    have hroom : w.buf.length < w.size := hw
    rw [writeLoop]
    dsimp only
    by_cases hzero : min src.length (w.size - w.buf.length) = 0
    · rw [if_pos hzero, eq_nil_of_length_eq_zero (by omega : src.length = 0)]
      exact ⟨hw, rfl⟩
    · rw [if_neg hzero]
      generalize havailable : min src.length (w.size - w.buf.length) = available at hzero
      have hbuf : (w.buf ++ src.take available).length = w.buf.length + available := by
        rw [length_append, length_take]
        omega
      -- the writer after the copy, which may have filled the buffer
      have hturn : ∀ w' : BufferedWriter, w'.Open →
          w'.written = w.dst.append (w.buf ++ src.take available) →
          (writeLoop turns w' (src.drop available)).Open ∧
            (writeLoop turns w' (src.drop available)).written = w.written.append src := by
        intro w' hw' hwritten
        obtain ⟨hopen, heq⟩ := ih w' (src.drop available) hw'
          (by rw [length_drop]; omega)
        refine ⟨hopen, ?_⟩
        rw [heq, hwritten, written, AutoFile.append_append, AutoFile.append_append,
          append_assoc, take_append_drop]
      by_cases hfull : (w.buf ++ src.take available).length = w.size
      · rw [if_pos hfull]
        obtain ⟨hdst, hempty, hsize⟩ :=
          flush_spec { w with buf := w.buf ++ src.take available }
        refine hturn _ ?_ ?_
        · rw [Open, hempty, hsize]
          show 0 < w.size
          omega
        · rw [written, hempty, AutoFile.append_nil, hdst]
      · rw [if_neg hfull]
        refine hturn _ ?_ rfl
        show (w.buf ++ src.take available).length < w.size
        omega

theorem write_spec (w : BufferedWriter) (hw : w.Open) (src : List UInt8) :
    (w.write src).Open ∧ (w.write src).written = w.written.append src :=
  writeLoop_spec src.length w src hw (Nat.le_refl _)

theorem foldl_write_spec (pieces : List (List UInt8)) (w : BufferedWriter) (hw : w.Open) :
    (pieces.foldl write w).written = w.written.append pieces.flatten := by
  induction pieces generalizing w with
  | nil => rfl
  | cons piece pieces ih =>
    obtain ⟨hopen, hwritten⟩ := w.write_spec hw piece
    rw [foldl_cons, ih _ hopen, flatten_cons, ← AutoFile.append_append, hwritten]

/-- A buffered writer writes its pieces in a row. -/
theorem writeAll_eq (w : BufferedWriter) (hw : w.Open) (pieces : List (List UInt8)) :
    w.writeAll pieces = w.written.append pieces.flatten := by
  rw [writeAll, (flush_spec _).1]
  exact foldl_write_spec pieces w hw

end BufferedWriter

/-! ## `BufferedReader` -/

/-- `BufferedReader`. -/
structure BufferedReader where
  src : AutoFile
  address : Nat
  buf : List UInt8
  bufPos : Nat

namespace BufferedReader

/-- The constructor, for a buffer of `size` bytes. -/
def new (src : AutoFile) (address size : Nat) : BufferedReader :=
  ⟨src, address, List.replicate size 0, size⟩

/-- `read`, for a destination at an address. -/
def read (r : BufferedReader) (dstAddress count : Nat) : Option (List UInt8 × BufferedReader) := do
  let available := min count (r.buf.length - r.bufPos)
  let front := (r.buf.drop r.bufPos).take available
  let r := { r with bufPos := r.bufPos + available }
  if count - available = 0 then return (front, r)
  else if r.bufPos ≠ r.buf.length then none
  else
    let (rest, src) ← r.src.read (dstAddress + available) (count - available)
    let (buf, src) := src.detailFread r.address r.buf.length
    return (front ++ rest, { r with src, buf, bufPos := 0 })

/-- Objects are read one after another, each with the address and the size of its bytes. -/
def readAll : List (Nat × Nat) → BufferedReader → Option (List (List UInt8))
  | [], _ => some []
  | (dstAddress, count) :: reads, r => do
      let (data, r) ← r.read dstAddress count
      let rest ← readAll reads r
      return data :: rest

/-- What is in the buffer and what remains in the file, in one. -/
def remaining (r : BufferedReader) : List UInt8 := r.buf.drop r.bufPos ++ r.src.remaining

/-- A read takes the first bytes of what remains, and the position stays in the
buffer. -/
theorem read_spec (r : BufferedReader) (hpos : r.bufPos ≤ r.buf.length) (dstAddress count : Nat)
    (h : count ≤ r.remaining.length) :
    ∃ r', r.read dstAddress count = some (r.remaining.take count, r') ∧
      r'.remaining = r.remaining.drop count ∧ r'.bufPos ≤ r'.buf.length := by
  have hbuf : (r.buf.drop r.bufPos).length = r.buf.length - r.bufPos := length_drop
  have hrest : r.remaining.length = r.buf.length - r.bufPos + r.src.remaining.length := by
    rw [remaining, length_append, hbuf]
  unfold read
  dsimp only
  by_cases hfew : count ≤ r.buf.length - r.bufPos
  · -- the buffer has all bytes
    rw [Nat.min_eq_left hfew, Nat.sub_self, if_pos rfl]
    refine ⟨{ r with bufPos := r.bufPos + count }, ?_, ?_, ?_⟩
    · rw [remaining, take_append_of_le_length (by rw [hbuf]; exact hfew)]
      rfl
    · show r.buf.drop (r.bufPos + count) ++ r.src.remaining = _
      rw [remaining, drop_append_of_le_length (by rw [hbuf]; exact hfew), drop_drop]
    · show r.bufPos + count ≤ r.buf.length
      omega
  · rw [Nat.min_eq_right (by omega), if_neg (by omega), if_neg (by omega)]
    have hfront : (r.buf.drop r.bufPos).take (r.buf.length - r.bufPos) = r.buf.drop r.bufPos :=
      take_of_length_le (Nat.le_of_eq hbuf)
    have hread := r.src.read_eq (dstAddress + (r.buf.length - r.bufPos))
      (count - (r.buf.length - r.bufPos))
    rw [if_pos (by omega)] at hread
    obtain ⟨src, hread, hsrc⟩ := hread
    obtain ⟨hnew, hleft⟩ := src.detailFread_spec r.address r.buf.length
    refine ⟨{ r with
      src := (src.detailFread r.address r.buf.length).2
      buf := (src.detailFread r.address r.buf.length).1
      bufPos := 0 }, ?_, ?_, Nat.zero_le _⟩
    · have htake : (r.buf.drop r.bufPos).take count = r.buf.drop r.bufPos :=
        take_of_length_le (by rw [hbuf]; omega)
      rw [hread, hfront, remaining, take_append, hbuf, htake]
      rfl
    · show (src.detailFread r.address r.buf.length).1.drop 0 ++
        (src.detailFread r.address r.buf.length).2.remaining = _
      have hdrop : (r.buf.drop r.bufPos).drop count = [] := drop_eq_nil_of_le (by rw [hbuf]; omega)
      rw [drop_zero, hnew, hleft, take_append_drop, hsrc, remaining, drop_append,
        hbuf, hdrop, nil_append]

theorem readAll_spec (reads : List (Nat × Nat)) (r : BufferedReader)
    (hpos : r.bufPos ≤ r.buf.length) (h : (reads.map Prod.snd).sum ≤ r.remaining.length) :
    ∃ parts, readAll reads r = some parts ∧ parts.map List.length = reads.map Prod.snd ∧
      parts.flatten = r.remaining.take (reads.map Prod.snd).sum := by
  induction reads generalizing r with
  | nil => exact ⟨[], rfl, rfl, take_zero.symm⟩
  | cons dst reads ih =>
    rw [map_cons, sum_cons] at h ⊢
    obtain ⟨r', hread, hleft, hpos'⟩ := r.read_spec hpos dst.1 dst.2 (by omega)
    obtain ⟨parts, hparts, hlengths, hflatten⟩ := ih r' hpos' (by rw [hleft, length_drop]; omega)
    refine ⟨r.remaining.take dst.2 :: parts, ?_, ?_, ?_⟩
    · rw [readAll, hread]
      show (readAll reads r' >>= fun rest => some (_ :: rest)) = _
      rw [hparts]
      rfl
    · rw [map_cons, hlengths, length_take_of_le (by omega)]
    · rw [flatten_cons, hflatten, hleft, take_add]

end BufferedReader

/-! ## Both ways -/

/-- What is written through a buffer from the position of a file on is read back through
a buffer, in whatever parts it is written and read and wherever the bytes are in memory.
`AutoFile::write` without a buffer gives the same file, and the file up to the position
stays as it was. -/
theorem streams_round_trip (f : AutoFile) (writerAddress writerSize : Nat)
    (hwriter : 0 < writerSize) (pieces : List (Nat × List UInt8)) (readerAddress readerSize : Nat)
    (reads : List (Nat × Nat))
    (hreads : (reads.map Prod.snd).sum ≤ (pieces.map Prod.snd).flatten.length) :
    let f' := BufferedWriter.writeAll ⟨f, writerAddress, writerSize, []⟩ (pieces.map Prod.snd)
    f.writeAll pieces = f' ∧
    (∃ parts, BufferedReader.readAll reads
        (.new { f' with position := f.position } readerAddress readerSize) = some parts ∧
      parts.map List.length = reads.map Prod.snd ∧
      parts.flatten = (pieces.map Prod.snd).flatten.take (reads.map Prod.snd).sum) ∧
    ∀ n ≤ f.position, n ≤ f.file.length → f'.file.take n = f.file.take n := by
  intro f'
  have hf' : f' = f.append (pieces.map Prod.snd).flatten :=
    BufferedWriter.writeAll_eq ⟨f, writerAddress, writerSize, []⟩ hwriter _
  refine ⟨(f.writeAll_eq pieces).trans hf'.symm, ?_, fun n hn hfile => by
    rw [hf']; exact take_writeAt hn hfile⟩
  generalize (pieces.map Prod.snd).flatten = data at hreads hf' ⊢
  have hread := BufferedReader.readAll_spec reads
    (.new { f' with position := f.position } readerAddress readerSize)
    (Nat.le_of_eq length_replicate.symm)
  by_cases hempty : data = []
  · -- nothing is written, and nothing is read
    rw [hempty, length_nil] at hreads
    obtain ⟨parts, hparts, hlengths, hflatten⟩ := hread (by omega)
    refine ⟨parts, hparts, hlengths, ?_⟩
    rw [hflatten, Nat.le_zero.mp hreads, take_zero, take_zero]
  · have hmask : mask f.obfuscation.keyByte f.position data ≠ [] := by
      intro hnil
      have hlength := congrArg List.length hnil
      rw [length_mask, length_nil, length_eq_zero_iff] at hlength
      exact hempty hlength
    obtain ⟨after, hafter⟩ := (has_writeAt f.file f.position hmask).drop_eq
    have hremaining : (BufferedReader.new { f' with position := f.position } readerAddress
        readerSize).remaining =
          data ++ mask f.obfuscation.keyByte (f.position + data.length) after := by
      show (List.replicate readerSize 0).drop readerSize ++
        mask f'.obfuscation.keyByte f.position (f'.file.drop f.position) = _
      rw [drop_eq_nil_of_le (Nat.le_of_eq length_replicate), nil_append, hf']
      show mask f.obfuscation.keyByte f.position
        ((writeAt f.file f.position _).drop f.position) = _
      rw [hafter, mask_append, mask_mask, length_mask]
    obtain ⟨parts, hparts, hlengths, hflatten⟩ := hread (by rw [hremaining, length_append]; omega)
    refine ⟨parts, hparts, hlengths, ?_⟩
    rw [hflatten, hremaining, take_append_of_le_length hreads]

namespace Sample

/-- A file under a key. -/
def openFile : AutoFile := ⟨⟨.little, [1, 2, 3, 4, 5, 6, 7, 8], rfl⟩, [9, 9, 9], 2⟩

end Sample

theorem streams_round_trip_openFile :
    let f' := BufferedWriter.writeAll ⟨Sample.openFile, 3, 2, []⟩ [[1, 2, 3], [4, 5]]
    Sample.openFile.writeAll [(1, [1, 2, 3]), (6, [4, 5])] = f' ∧
    (∃ parts, BufferedReader.readAll [(7, 1), (2, 3)]
        (.new { f' with position := 2 } 5 2) = some parts ∧
      parts.map List.length = [1, 3] ∧ parts.flatten = [1, 2, 3, 4]) ∧
    ∀ n ≤ 2, n ≤ 3 → f'.file.take n = [9, 9, 9].take n :=
  streams_round_trip Sample.openFile 3 2 (by decide) [(1, [1, 2, 3]), (6, [4, 5])] 5 2
    [(7, 1), (2, 3)] (by decide)

end BitcoinKernel.Storage
