import BitcoinKernel.Lib.Codec
import BitcoinKernel.Primitives.Serialize

/-!
# The readers undo the writers

Each reader of the wire format accepts exactly what its writer writes
(`Codec.Reads`).  A size in front of a vector must be in its shortest form and at
most `MAX_SIZE`, so the readers accept the values within these sizes only
(`Decodable`).

A transaction has two formats.  The extended one begins with an empty vector of
inputs and a flag, and is written only if there is a witness.
`reads_transaction` shows that the two are never confused: an empty vector of
inputs is followed by a flag, and a flag of zero is an empty vector of outputs.
-/

namespace BitcoinKernel

namespace Serialize

open Bytes Codec List

/-! ## Numbers and hashes -/

theorem reads_read (count : Nat) : Reads (read count) id (fun bytes => bytes.length = count) := by
  intro data bytes rest
  change (if count > data.length then _ else _) = _ ↔ _
  split
  · next hlt =>
      constructor
      · intro h
        cases h
      · rintro ⟨rfl, rfl⟩
        rw [id, length_append] at hlt
        omega
  · next hle =>
      constructor
      · intro h
        cases h
        exact ⟨length_take_of_le (Nat.le_of_not_lt hle), (take_append_drop _ _).symm⟩
      · rintro ⟨rfl, rfl⟩
        simp

theorem reads_readLE (count : Nat) :
    Reads (readLE count) (encodeLE count) (fun n => n < 256 ^ count) := by
  intro data n rest
  simp only [readLE, run_bind_eq_ok_iff, run_pure_eq_ok_iff, (reads_read count).run_eq_ok_iff]
  constructor
  · rintro ⟨bytes, middle, ⟨hlength, rfl⟩, rfl, rfl⟩
    rw [encodeLE_decodeLE bytes hlength]
    exact ⟨hlength ▸ decodeLE_lt bytes, rfl⟩
  · rintro ⟨hn, rfl⟩
    exact ⟨encodeLE count n, rest, ⟨length_encodeLE count n, rfl⟩, decodeLE_encodeLE hn, rfl⟩

theorem reads_uint8 : Reads readUint8 (fun n => [n]) (fun _ => True) := by
  have h := (reads_readLE 1).map (f := UInt8.ofNat) (g := UInt8.toNat)
    (fun n => n.toNat_lt) (fun _ => UInt8.ofNat_toNat) (fun n hn => UInt8.toNat_ofNat_of_lt' hn)
  intro data n rest
  have hn : encodeLE 1 n.toNat = [n] := by simp [encodeLE]
  show _ ↔ True ∧ data = [n] ++ rest
  rw [← hn]
  exact h data n rest

theorem reads_uint32 : Reads readUint32 writeUint32 (fun _ => True) :=
  (reads_readLE 4).map (fun n => n.toNat_lt) (fun _ => UInt32.ofNat_toNat)
    fun _ hn => UInt32.toNat_ofNat_of_lt' hn

theorem reads_int32 : Reads readInt32 writeInt32 (fun _ => True) :=
  (reads_readLE 4).map (fun n => n.toUInt32.toNat_lt) (fun n => by simp)
    fun _ hn => by simpa using UInt32.toNat_ofNat_of_lt' hn

theorem reads_int64 : Reads readInt64 writeInt64 (fun _ => True) :=
  (reads_readLE 8).map (fun n => n.toUInt64.toNat_lt) (fun n => by simp)
    fun _ hn => by simpa using UInt64.toNat_ofNat_of_lt' hn

theorem reads_uint256 : Reads readUint256 Uint256.bytes (fun _ => True) := by
  intro data hash rest
  change (if h : 32 ≤ data.length then _ else _) = _ ↔ _
  split
  · next hle =>
      constructor
      · intro h
        cases h
        exact ⟨trivial, (take_append_drop _ _).symm⟩
      · rintro ⟨-, rfl⟩
        have htake : (hash.bytes ++ rest).take 32 = hash.bytes := by
          rw [← hash.length_eq, take_left]
        have hdrop : (hash.bytes ++ rest).drop 32 = rest := by
          rw [← hash.length_eq, drop_left]
        simp only [htake, hdrop]
  · next hlt =>
      constructor
      · intro h
        cases h
      · rintro ⟨-, rfl⟩
        simp [hash.length_eq] at hlt

/-! ## Sizes -/

theorem reads_longCompactSize (count least : Nat) :
    Reads (readLongCompactSize count least) (encodeLE count)
      (fun size => size < 256 ^ count ∧ least ≤ size) := by
  intro data size rest
  simp only [readLongCompactSize, run_bind_eq_ok_iff, run_check_eq_ok_iff, run_pure_eq_ok_iff,
    (reads_readLE count).run_eq_ok_iff]
  constructor
  · rintro ⟨size', middle, ⟨hsize, rfl⟩, hleast, rfl, rfl⟩
    exact ⟨⟨hsize, Nat.le_of_not_lt hleast⟩, rfl⟩
  · rintro ⟨⟨hsize, hleast⟩, rfl⟩
    exact ⟨size, rest, ⟨hsize, rfl⟩, Nat.not_lt_of_le hleast, rfl, rfl⟩

variable {data rest : List UInt8} {vin : List TxIn} {tx : Transaction}

/-- The rest of a long size, with the range check. -/
theorem run_longCompactSize_eq_ok_iff {count least size : Nat} :
    (do let size ← readLongCompactSize count least
        if size > maxSize then throw .sizeTooLarge
        return size : Reader Nat).run data = .ok (size, rest) ↔
      (size < 256 ^ count ∧ least ≤ size) ∧ size ≤ maxSize ∧
        data = encodeLE count size ++ rest := by
  simp only [run_bind_eq_ok_iff, run_check_eq_ok_iff, run_pure_eq_ok_iff,
    (reads_longCompactSize count least).run_eq_ok_iff]
  constructor
  · rintro ⟨size', middle, ⟨hsize, rfl⟩, hmax, rfl, rfl⟩
    exact ⟨hsize, Nat.le_of_not_lt hmax, rfl⟩
  · rintro ⟨hsize, hmax, rfl⟩
    exact ⟨size, rest, ⟨hsize, rfl⟩, Nat.not_lt_of_le hmax, rfl, rfl⟩

/-- The first byte of a size tells how many bytes follow, and only the shortest
form is accepted. -/
theorem reads_compactSize :
    Reads readCompactSize writeCompactSize (fun size => size ≤ maxSize) := by
  intro data size rest
  rw [readCompactSize, run_bind_eq_ok_iff]
  constructor
  · rintro ⟨chSize, middle, hfirst, hrest⟩
    obtain ⟨hchSize, rfl⟩ := (reads_readLE 1).run_eq_ok_iff.mp hfirst
    dsimp only at hrest
    split at hrest
    · simp only [pure_bind, run_check_eq_ok_iff, run_pure_eq_ok_iff] at hrest
      obtain ⟨hmax, rfl, rfl⟩ := hrest
      rw [writeCompactSize, if_pos ‹_›]
      exact ⟨Nat.le_of_not_lt hmax, rfl⟩
    · split at hrest
      · obtain ⟨⟨hlt, hle⟩, hmax, rfl⟩ := run_longCompactSize_eq_ok_iff.mp hrest
        rw [writeCompactSize, if_neg (by omega), if_pos (by omega), ‹chSize = 253›]
        exact ⟨hmax, rfl⟩
      · split at hrest
        · obtain ⟨⟨hlt, hle⟩, hmax, rfl⟩ := run_longCompactSize_eq_ok_iff.mp hrest
          rw [writeCompactSize, if_neg (by omega), if_neg (by omega), if_pos (by omega),
            ‹chSize = 254›]
          exact ⟨hmax, rfl⟩
        · -- No size of nine bytes is small enough.
          obtain ⟨⟨hlt, hle⟩, hmax, rfl⟩ := run_longCompactSize_eq_ok_iff.mp hrest
          rw [maxSize] at hmax
          omega
  · rintro ⟨hmax, rfl⟩
    rw [writeCompactSize]
    have hlimit : size ≤ 0x02000000 := hmax
    split
    · next hsmall =>
        refine ⟨size, rest, (reads_readLE 1).run_write (by omega) rest, ?_⟩
        simp only [if_pos hsmall, pure_bind, run_check_eq_ok_iff, run_pure_eq_ok_iff, and_true]
        exact Nat.not_lt_of_le hmax
    · split
      · refine ⟨253, encodeLE 2 size ++ rest, (reads_readLE 1).run_write (by decide) _, ?_⟩
        exact run_longCompactSize_eq_ok_iff.mpr ⟨⟨by omega, by omega⟩, hmax, rfl⟩
      · rw [if_pos (by omega)]
        refine ⟨254, encodeLE 4 size ++ rest, (reads_readLE 1).run_write (by decide) _, ?_⟩
        exact run_longCompactSize_eq_ok_iff.mpr ⟨⟨by omega, by omega⟩, hmax, rfl⟩

/-! ## Vectors -/

section Vectors

variable {α : Type} {element : Reader α} {write : α → List UInt8} {valid : α → Prop}

theorem reads_many (h : Reads element write valid) (count : Nat) :
    Reads (readMany element count) (fun v => v.flatMap write)
      (fun v => v.length = count ∧ ∀ a ∈ v, valid a) := by
  induction count with
  | zero =>
    intro data v rest
    rw [readMany, run_pure_eq_ok_iff]
    constructor
    · rintro ⟨rfl, rfl⟩
      simp
    · rintro ⟨⟨hlength, -⟩, rfl⟩
      rw [length_eq_zero_iff] at hlength
      subst hlength
      exact ⟨rfl, rfl⟩
  | succ count ih =>
    intro data v rest
    simp only [readMany, run_bind_eq_ok_iff, run_pure_eq_ok_iff, h.run_eq_ok_iff, ih.run_eq_ok_iff]
    constructor
    · rintro ⟨a, middle, ⟨ha, rfl⟩, tail, end', ⟨⟨rfl, htail⟩, rfl⟩, rfl, rfl⟩
      rw [forall_mem_cons, flatMap_cons, append_assoc]
      exact ⟨⟨rfl, ha, htail⟩, rfl⟩
    · rintro ⟨⟨hlength, hvalid⟩, rfl⟩
      cases v with
      | nil => cases hlength
      | cons a tail =>
        rw [forall_mem_cons] at hvalid
        rw [flatMap_cons, append_assoc]
        exact ⟨a, _, ⟨hvalid.1, rfl⟩, tail, rest, ⟨⟨Nat.succ.inj hlength, hvalid.2⟩, rfl⟩, rfl, rfl⟩

/-- A vector that is not too long. -/
def VectorDecodable (valid : α → Prop) (v : List α) : Prop :=
  v.length ≤ maxSize ∧ ∀ a ∈ v, valid a

theorem reads_vector (h : Reads element write valid) :
    Reads (readVector element) (writeVector write) (VectorDecodable valid) := by
  intro data v rest
  simp only [readVector, run_bind_eq_ok_iff, reads_compactSize.run_eq_ok_iff,
    (reads_many h _).run_eq_ok_iff, writeVector, append_assoc]
  constructor
  · rintro ⟨size, middle, ⟨hsize, rfl⟩, ⟨rfl, hvalid⟩, rfl⟩
    exact ⟨⟨hsize, hvalid⟩, rfl⟩
  · rintro ⟨⟨hsize, hvalid⟩, rfl⟩
    exact ⟨v.length, _, ⟨hsize, rfl⟩, ⟨rfl, hvalid⟩, rfl⟩

theorem reads_bytes : Reads readBytes writeBytes (fun bytes => bytes.length ≤ maxSize) := by
  intro data bytes rest
  simp only [readBytes, run_bind_eq_ok_iff, reads_compactSize.run_eq_ok_iff,
    (reads_read _).run_eq_ok_iff, writeBytes, append_assoc, id]
  constructor
  · rintro ⟨size, middle, ⟨hsize, rfl⟩, rfl, rfl⟩
    exact ⟨hsize, rfl⟩
  · rintro ⟨hsize, rfl⟩
    exact ⟨bytes.length, _, ⟨hsize, rfl⟩, rfl, rfl⟩

end Vectors

/-! ## Inputs and outputs -/

theorem reads_outPoint : Reads readOutPoint writeOutPoint (fun _ => True) := by
  intro data o rest
  simp only [readOutPoint, run_bind_eq_ok_iff, run_pure_eq_ok_iff, reads_uint256.run_eq_ok_iff,
    reads_uint32.run_eq_ok_iff, true_and, writeOutPoint, append_assoc]
  constructor
  · rintro ⟨hash, _, rfl, n, _, rfl, rfl, rfl⟩
    rfl
  · rintro rfl
    exact ⟨o.hash, _, rfl, o.n, _, rfl, rfl, rfl⟩

/-- An input without its witness. -/
def withoutWitness (input : TxIn) : TxIn := { input with scriptWitness := [] }

theorem reads_txIn : Reads readTxIn writeTxIn
      (fun input => input.scriptSig.length ≤ maxSize ∧ input.scriptWitness = []) := by
  intro data input rest
  simp only [readTxIn, run_bind_eq_ok_iff, run_pure_eq_ok_iff, reads_outPoint.run_eq_ok_iff,
    reads_bytes.run_eq_ok_iff, reads_uint32.run_eq_ok_iff, true_and, writeTxIn, append_assoc]
  constructor
  · rintro ⟨prevout, _, rfl, scriptSig, _, ⟨hsize, rfl⟩, nSequence, _, rfl, rfl, rfl⟩
    exact ⟨⟨hsize, rfl⟩, rfl⟩
  · rintro ⟨⟨hsize, hwitness⟩, rfl⟩
    refine ⟨input.prevout, _, rfl, input.scriptSig, _, ⟨hsize, rfl⟩, input.nSequence, _, rfl, ?_,
      rfl⟩
    rw [← hwitness]

theorem reads_txOut :
    Reads readTxOut writeTxOut (fun output => output.scriptPubKey.length ≤ maxSize) := by
  intro data output rest
  simp only [readTxOut, run_bind_eq_ok_iff, run_pure_eq_ok_iff, reads_int64.run_eq_ok_iff,
    reads_bytes.run_eq_ok_iff, true_and, writeTxOut, append_assoc]
  constructor
  · rintro ⟨nValue, _, rfl, scriptPubKey, _, ⟨hsize, rfl⟩, rfl, rfl⟩
    exact ⟨hsize, rfl⟩
  · rintro ⟨hsize, rfl⟩
    exact ⟨output.nValue, _, rfl, output.scriptPubKey, _, ⟨hsize, rfl⟩, rfl, rfl⟩

/-- The sizes of a witness stack. -/
def WitnessDecodable (scriptWitness : List (List UInt8)) : Prop :=
  VectorDecodable (fun item => item.length ≤ maxSize) scriptWitness

/-- The witness stacks of the inputs, in a row. -/
def writeWitnesses (vin : List TxIn) : List UInt8 :=
  vin.flatMap fun input => writeVector writeBytes input.scriptWitness

theorem writeWitnesses_cons (input : TxIn) (vin : List TxIn) : writeWitnesses (input :: vin) =
      writeVector writeBytes input.scriptWitness ++ writeWitnesses vin := flatMap_cons

/-- Reading the witnesses changes nothing else. -/
theorem run_readWitnesses_eq_ok_iff {vin' : List TxIn} :
    (readWitnesses vin).run data = .ok (vin', rest) ↔
      vin'.map withoutWitness = vin.map withoutWitness ∧
        (∀ input ∈ vin', WitnessDecodable input.scriptWitness) ∧
        data = writeWitnesses vin' ++ rest := by
  induction vin generalizing vin' data rest with
  | nil =>
    rw [readWitnesses, run_pure_eq_ok_iff]
    constructor
    · rintro ⟨rfl, rfl⟩
      simp [writeWitnesses]
    · rintro ⟨hmap, -, rfl⟩
      rw [map_nil, map_eq_nil_iff] at hmap
      subst hmap
      exact ⟨rfl, rfl⟩
  | cons input vin ih =>
    simp only [readWitnesses, run_bind_eq_ok_iff, run_pure_eq_ok_iff, ih,
      (reads_vector reads_bytes).run_eq_ok_iff]
    constructor
    · rintro ⟨scriptWitness, _, ⟨hwitness, rfl⟩, tail, _, ⟨hmap, htail, rfl⟩, rfl, rfl⟩
      rw [map_cons, map_cons, hmap, forall_mem_cons, writeWitnesses_cons, append_assoc]
      exact ⟨rfl, ⟨hwitness, htail⟩, rfl⟩
    · rintro ⟨hmap, hvalid, rfl⟩
      cases vin' with
      | nil => cases hmap
      | cons input' tail =>
        rw [forall_mem_cons] at hvalid
        rw [map_cons, map_cons, List.cons.injEq] at hmap
        rw [writeWitnesses_cons, append_assoc]
        refine ⟨input'.scriptWitness, _, ⟨hvalid.1, rfl⟩, tail, _, ⟨hmap.2, hvalid.2, rfl⟩, ?_, rfl⟩
        have hinput : withoutWitness input' = withoutWitness input := hmap.1
        simp only [withoutWitness, TxIn.mk.injEq] at hinput
        rw [← hinput.1, ← hinput.2.1, ← hinput.2.2.1]

/-! ## Transactions -/

/-- Inputs and outputs as they are before the witnesses are read. -/
abbrev InputsDecodable (vin : List TxIn) : Prop :=
  VectorDecodable
    (fun input => input.scriptSig.length ≤ maxSize ∧ input.scriptWitness = []) vin

/-- Outputs that are not too long. -/
abbrev OutputsDecodable (vout : List TxOut) : Prop :=
  VectorDecodable (fun output => output.scriptPubKey.length ≤ maxSize) vout

theorem writeVector_nil {α : Type} (write : α → List UInt8) : writeVector write [] = [0] := rfl

/-- The dummy and the flag of the extended format. -/
def writeMarker (flags : UInt8) : List UInt8 := if flags = 0 then [] else [0, flags]

/-- An empty vector of inputs is the dummy.  The flag behind it may be zero, and
is then the empty vector of outputs. -/
theorem run_readInputsOutputs_eq_ok_iff {flags : UInt8} {vout : List TxOut} :
    (readInputsOutputs true).run data = .ok ((flags, vin, vout), rest) ↔
      InputsDecodable vin ∧ OutputsDecodable vout ∧ (flags = 0 → vin = [] → vout = []) ∧
        data = writeMarker flags ++ writeVector writeTxIn vin ++ writeVector writeTxOut vout ++
          rest := by
  have hin := reads_vector reads_txIn
  have hout := reads_vector reads_txOut
  rw [readInputsOutputs, run_bind_eq_ok_iff]
  constructor
  · rintro ⟨first, middle, hfirst, hrest⟩
    obtain ⟨hvalid, rfl⟩ := hin.run_eq_ok_iff.mp hfirst
    cases first with
    | cons input inputs =>
      simp only [isEmpty_cons, Bool.false_and, Bool.false_eq_true, if_false,
        run_bind_eq_ok_iff, run_pure_eq_ok_iff, hout.run_eq_ok_iff, Prod.mk.injEq] at hrest
      obtain ⟨_, _, ⟨hvout, rfl⟩, ⟨rfl, rfl, rfl⟩, rfl⟩ := hrest
      exact ⟨hvalid, hvout, fun _ h => absurd h (cons_ne_nil _ _), by simp [writeMarker]⟩
    | nil =>
      simp only [isEmpty_nil, Bool.and_self, if_true, run_bind_eq_ok_iff,
        reads_uint8.run_eq_ok_iff, true_and] at hrest
      obtain ⟨flag, _, rfl, hrest⟩ := hrest
      split at hrest
      · next hflag =>
          simp only [run_bind_eq_ok_iff, run_pure_eq_ok_iff, hin.run_eq_ok_iff,
            hout.run_eq_ok_iff, Prod.mk.injEq] at hrest
          obtain ⟨_, _, ⟨hvin, rfl⟩, _, _, ⟨hvout, rfl⟩, ⟨rfl, rfl, rfl⟩, rfl⟩ := hrest
          refine ⟨hvin, hvout, fun h => absurd h hflag, ?_⟩
          simp [writeMarker, hflag, writeVector_nil]
      · next hflag =>
          simp only [run_pure_eq_ok_iff, Prod.mk.injEq] at hrest
          obtain ⟨⟨rfl, rfl, rfl⟩, rfl⟩ := hrest
          rw [not_not] at hflag
          subst hflag
          exact ⟨hvalid, by simp [VectorDecodable], fun _ _ => rfl, rfl⟩
  · rintro ⟨hvin, hvout, houtputs, rfl⟩
    by_cases hflags : flags = 0
    · subst hflags
      rw [writeMarker, if_pos rfl, nil_append, append_assoc]
      refine ⟨vin, _, hin.run_write hvin _, ?_⟩
      cases vin with
      | cons input inputs =>
        simp only [isEmpty_cons, Bool.false_and, Bool.false_eq_true, if_false,
          run_bind_eq_ok_iff, run_pure_eq_ok_iff, hout.run_eq_ok_iff]
        exact ⟨vout, rest, ⟨hvout, rfl⟩, rfl, rfl⟩
      | nil =>
        rw [houtputs rfl rfl]
        rfl
    · rw [writeMarker, if_neg hflags]
      refine ⟨[], flags :: (writeVector writeTxIn vin ++ (writeVector writeTxOut vout ++ rest)),
        ?_, ?_⟩
      · have hnil : InputsDecodable [] := by simp [VectorDecodable]
        simpa [writeVector_nil] using hin.run_write hnil _
      · simp only [isEmpty_nil, Bool.and_self, if_true, run_bind_eq_ok_iff,
          reads_uint8.run_eq_ok_iff, true_and]
        refine ⟨flags, _, rfl, ?_⟩
        simp only [ne_eq, hflags, not_false_eq_true, if_true, run_bind_eq_ok_iff,
          run_pure_eq_ok_iff, hin.run_eq_ok_iff, hout.run_eq_ok_iff]
        exact ⟨vin, _, ⟨hvin, rfl⟩, vout, rest, ⟨hvout, rfl⟩, rfl, rfl⟩

/-! ### Witnesses of a transaction -/

theorem hasWitness_eq_false_iff (tx : Transaction) :
    tx.hasWitness = false ↔ ∀ input ∈ tx.vin, input.scriptWitness = [] := by
  simp [Transaction.hasWitness]

theorem withoutWitness_eq_self_iff (input : TxIn) :
    withoutWitness input = input ↔ input.scriptWitness = [] := by
  cases input
  simp [withoutWitness, eq_comm]

theorem writeVector_map_withoutWitness (vin : List TxIn) :
    writeVector writeTxIn (vin.map withoutWitness) = writeVector writeTxIn vin := by
  rw [writeVector, writeVector, length_map, flatMap_map]
  rfl

/-- `SerializeTransaction` of a transaction with a witness. -/
theorem writeTransaction_of_hasWitness (h : tx.hasWitness = true) : writeTransaction true tx =
      writeUint32 tx.version ++ (writeMarker 1 ++ writeVector writeTxIn tx.vin ++
        writeVector writeTxOut tx.vout ++ (writeWitnesses tx.vin ++ writeUint32 tx.nLockTime)) := by
  simp [writeTransaction, h, writeMarker, writeVector_nil, writeWitnesses]

/-- `SerializeTransaction` of a transaction without one. -/
theorem writeTransaction_of_not_hasWitness (h : tx.hasWitness = false) : writeTransaction true tx =
      writeUint32 tx.version ++ (writeMarker 0 ++ writeVector writeTxIn tx.vin ++
        writeVector writeTxOut tx.vout ++ writeUint32 tx.nLockTime) := by
  simp [writeTransaction, h, writeMarker]

end Serialize

/-- A transaction that can be read: its vectors are not too long, and there are
inputs if there are outputs. -/
structure Transaction.Decodable (tx : Transaction) : Prop where
  vin : Serialize.VectorDecodable (fun input =>
    input.scriptSig.length ≤ Serialize.maxSize ∧
      Serialize.WitnessDecodable input.scriptWitness) tx.vin
  vout : Serialize.OutputsDecodable tx.vout
  outputs : tx.vin = [] → tx.vout = []

namespace Serialize

open Bytes Codec

/-- What the inputs are before their witnesses are read. -/
theorem inputsDecodable_map_withoutWitness (vin : List TxIn) :
    InputsDecodable (vin.map withoutWitness) ↔
      VectorDecodable (fun input => input.scriptSig.length ≤ maxSize) vin := by
  simp [VectorDecodable, withoutWitness]

theorem map_withoutWitness_of_inputsDecodable {vin : List TxIn} (h : InputsDecodable vin) :
    vin.map withoutWitness = vin := by
  have hsame : ∀ input ∈ vin, withoutWitness input = id input := by
    intro input hinput
    exact (withoutWitness_eq_self_iff input).mpr (h.2 input hinput).2
  rw [List.map_congr_left hsame, List.map_id]

/-- A transaction is read in the parts that its format has. -/
theorem decodable_of_parts {tx : Transaction} (hvin : InputsDecodable (tx.vin.map withoutWitness))
    (hwitness : ∀ input ∈ tx.vin, WitnessDecodable input.scriptWitness)
    (hvout : OutputsDecodable tx.vout) (houtputs : tx.vin = [] → tx.vout = []) :
    tx.Decodable where
  vin := by
    rw [inputsDecodable_map_withoutWitness] at hvin
    exact ⟨hvin.1, fun input hinput => ⟨hvin.2 input hinput, hwitness input hinput⟩⟩
  vout := hvout
  outputs := houtputs

theorem inputsDecodable_of_decodable {tx : Transaction} (h : tx.Decodable) :
    InputsDecodable (tx.vin.map withoutWitness) := by
  rw [inputsDecodable_map_withoutWitness]
  exact ⟨h.vin.1, fun input hinput => (h.vin.2 input hinput).1⟩

theorem witnessDecodable_nil : WitnessDecodable [] := by
  simp [WitnessDecodable, VectorDecodable]

/-- What `UnserializeTransaction` accepts was written by `SerializeTransaction`. -/
theorem eq_write_of_readTransaction {data rest : List UInt8} {tx : Transaction}
    (h : (readTransaction true).run data = .ok (tx, rest)) :
    tx.Decodable ∧ data = writeTransaction true tx ++ rest := by
  simp only [readTransaction, run_bind_eq_ok_iff, reads_uint32.run_eq_ok_iff, true_and] at h
  obtain ⟨version, _, rfl, ⟨flags, vin, vout⟩, _, hparts, hrest⟩ := h
  obtain ⟨hvin, hvout, houtputs, rfl⟩ := run_readInputsOutputs_eq_ok_iff.mp hparts
  have hvin' := map_withoutWitness_of_inputsDecodable hvin
  dsimp only at hrest
  split at hrest
  · -- The extended format.
    simp only [run_bind_eq_ok_iff, run_check_eq_ok_iff, pure_bind, run_readWitnesses_eq_ok_iff,
      reads_uint32.run_eq_ok_iff, run_pure_eq_ok_iff, true_and] at hrest
    obtain ⟨vin', _, ⟨hmap, hwitness, rfl⟩, hhas, hflags, nLockTime, _, rfl, rfl, rfl⟩ := hrest
    rw [hvin'] at hmap
    subst hmap
    rw [not_not, UInt8.xor_eq_zero_iff] at hflags
    subst hflags
    have hhas' : Transaction.hasWitness ⟨version, vin', vout, nLockTime⟩ = true := by
      simpa [Transaction.hasWitness] using hhas
    refine ⟨decodable_of_parts hvin hwitness hvout ?_, ?_⟩
    · intro hnil
      simp only at hnil
      simp [Transaction.hasWitness, hnil] at hhas'
    · rw [writeTransaction_of_hasWitness hhas', writeVector_map_withoutWitness]
      simp only [List.append_assoc]
  · -- The basic format.
    simp only [run_bind_eq_ok_iff, run_check_eq_ok_iff, pure_bind,
      reads_uint32.run_eq_ok_iff, run_pure_eq_ok_iff, true_and] at hrest
    obtain ⟨hflags, nLockTime, _, rfl, rfl, rfl⟩ := hrest
    rw [not_not] at hflags
    subst hflags
    have hhas : Transaction.hasWitness ⟨version, vin, vout, nLockTime⟩ = false := by
      rw [hasWitness_eq_false_iff]
      exact fun input hinput => (hvin.2 input hinput).2
    refine ⟨decodable_of_parts (hvin'.symm ▸ hvin) ?_ hvout (houtputs rfl), ?_⟩
    · intro input hinput
      rw [(hvin.2 input hinput).2]
      exact witnessDecodable_nil
    · rw [writeTransaction_of_not_hasWitness hhas]
      simp only [List.append_assoc]

/-- What `SerializeTransaction` writes of such a transaction is accepted. -/
theorem readTransaction_write {tx : Transaction} (h : tx.Decodable) (rest : List UInt8) :
    (readTransaction true).run (writeTransaction true tx ++ rest) = .ok (tx, rest) := by
  simp only [readTransaction, run_bind_eq_ok_iff, reads_uint32.run_eq_ok_iff, true_and]
  have hvin := inputsDecodable_of_decodable h
  cases hhas : tx.hasWitness with
  | true =>
    rw [writeTransaction_of_hasWitness hhas, ← writeVector_map_withoutWitness]
    simp only [List.append_assoc]
    refine ⟨tx.version, _, rfl, (1, tx.vin.map withoutWitness, tx.vout),
      writeWitnesses tx.vin ++ (writeUint32 tx.nLockTime ++ rest),
      run_readInputsOutputs_eq_ok_iff.mpr ⟨hvin, h.vout, fun h => absurd h (by decide), ?_⟩, ?_⟩
    · simp only [List.append_assoc]
    · dsimp only
      rw [if_pos (by simp)]
      simp only [run_bind_eq_ok_iff, run_check_eq_ok_iff, pure_bind,
        run_readWitnesses_eq_ok_iff, reads_uint32.run_eq_ok_iff, run_pure_eq_ok_iff, true_and]
      have hmap : (tx.vin.map withoutWitness).map withoutWitness = tx.vin.map withoutWitness :=
        map_withoutWitness_of_inputsDecodable hvin
      have hwitness : ∀ input ∈ tx.vin, WitnessDecodable input.scriptWitness :=
        fun input hinput => (h.vin.2 input hinput).2
      refine ⟨tx.vin, _, ⟨hmap.symm, hwitness, rfl⟩, ?_, by decide, tx.nLockTime, rest, rfl, rfl,
        rfl⟩
      simpa [Transaction.hasWitness] using hhas
  | false =>
    have hnone := (hasWitness_eq_false_iff tx).mp hhas
    have hvin' : tx.vin.map withoutWitness = tx.vin := by
      rw [List.map_congr_left (fun input hinput =>
        (withoutWitness_eq_self_iff input).mpr (hnone input hinput)), List.map_id']
    rw [writeTransaction_of_not_hasWitness hhas]
    simp only [List.append_assoc]
    refine ⟨tx.version, _, rfl, (0, tx.vin, tx.vout), writeUint32 tx.nLockTime ++ rest,
      run_readInputsOutputs_eq_ok_iff.mpr ⟨hvin' ▸ hvin, h.vout, fun _ => h.outputs, ?_⟩, ?_⟩
    · simp only [List.append_assoc]
    · dsimp only
      rw [if_neg (by simp)]
      simp only [run_bind_eq_ok_iff, run_check_eq_ok_iff, pure_bind,
        reads_uint32.run_eq_ok_iff, run_pure_eq_ok_iff, true_and]
      exact ⟨by decide, tx.nLockTime, rest, rfl, rfl, rfl⟩

/-- `UnserializeTransaction` accepts what `SerializeTransaction` writes, and
nothing else. -/
theorem reads_transaction :
    Reads (readTransaction true) (writeTransaction true) Transaction.Decodable := by
  intro data tx rest
  constructor
  · exact eq_write_of_readTransaction
  · rintro ⟨h, rfl⟩
    exact readTransaction_write h rest

/-! ## Blocks -/

theorem reads_blockHeader : Reads readBlockHeader writeBlockHeader (fun _ => True) := by
  intro data header rest
  simp only [readBlockHeader, run_bind_eq_ok_iff, run_pure_eq_ok_iff, reads_int32.run_eq_ok_iff,
    reads_uint256.run_eq_ok_iff, reads_uint32.run_eq_ok_iff, true_and, writeBlockHeader,
    List.append_assoc]
  constructor
  · rintro ⟨_, _, rfl, _, _, rfl, _, _, rfl, _, _, rfl, _, _, rfl, _, _, rfl, rfl, rfl⟩
    rfl
  · rintro rfl
    exact ⟨_, _, rfl, _, _, rfl, _, _, rfl, _, _, rfl, _, _, rfl, _, _, rfl, rfl, rfl⟩

theorem reads_block : Reads readBlock (writeBlock true)
      (fun block => VectorDecodable Transaction.Decodable block.vtx) := by
  intro data block rest
  simp only [readBlock, run_bind_eq_ok_iff, run_pure_eq_ok_iff, reads_blockHeader.run_eq_ok_iff,
    (reads_vector reads_transaction).run_eq_ok_iff, true_and, writeBlock, List.append_assoc]
  constructor
  · rintro ⟨header, _, rfl, vtx, _, ⟨hvtx, rfl⟩, rfl, rfl⟩
    exact ⟨hvtx, rfl⟩
  · rintro ⟨hvtx, rfl⟩
    exact ⟨_, _, rfl, _, _, ⟨hvtx, rfl⟩, rfl, rfl⟩

end Serialize

end BitcoinKernel
