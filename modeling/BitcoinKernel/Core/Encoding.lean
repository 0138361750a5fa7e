import BitcoinKernel.Primitives.RoundTrip

/-!
# Decoding and encoding transactions and blocks

`Transaction::new`, `Block::new` and the two `consensus_encode` functions, with
the C functions that they call.  The C functions that decode ignore bytes behind
the object.  Those that encode hand the bytes to a callback, which puts them
into a buffer.  A serializer calls it for one field after another; the results
hold in whatever parts the bytes come.

`RoundTrips` is what decoding and encoding owe each other, and
`decode_encode_roundTrip` proves it for transactions, for blocks and for the
transactions of a block.  It follows from `Codec.Reads`, which the readers and
writers of the wire format satisfy.
-/

namespace BitcoinKernel

open Serialize Codec

namespace Encoding

/-- `KernelError`, as far as the functions here return it. -/
inductive KernelError
  | internal (message : String)
  | outOfBounds
  | serializationFailed
deriving DecidableEq, Repr

/-- `Result<T, KernelError>`. -/
abbrev Result (α : Type) := Except KernelError α

/-! ## The C functions -/

/-- An object that a reader makes from the front of the bytes, or a null
pointer. -/
def create {α : Type} (reader : Reader α) (raw : List UInt8) : Option α :=
  match reader.run raw with
  | .ok (object, _) => some object
  | .error _ => none

/-- `btck_transaction_create`. -/
def btckTransactionCreate : List UInt8 → Option Transaction := create (readTransaction true)

/-- `btck_block_create`. -/
def btckBlockCreate : List UInt8 → Option Block := create readBlock

/-- `btck_WriteBytes`: what the callback returns, and the user data that it
leaves. -/
abbrev WriteBytes := List UInt8 → List UInt8 → Int32 × List UInt8

/-- The parts in which a serializer writes its bytes. -/
structure Writes where
  parts : List UInt8 → List (List UInt8)
  flatten_parts : ∀ bytes, (parts bytes).flatten = bytes

/-- The parts go through a `WriterStream`, which throws if the callback does not
return zero. -/
def toBytes : (parts : List (List UInt8)) → WriteBytes → List UInt8 → Int32 × List UInt8
  | [], _, userData => (0, userData)
  | src :: parts, writer, userData =>
    let (code, userData) := writer src userData
    if code ≠ 0 then (-1, userData) else toBytes parts writer userData

/-- `btck_transaction_to_bytes`. -/
def btckTransactionToBytes (writes : Writes) (tx : Transaction) :
    WriteBytes → List UInt8 → Int32 × List UInt8 :=
  toBytes (writes.parts (writeTransaction true tx))

/-- `btck_block_to_bytes`. -/
def btckBlockToBytes (writes : Writes) (block : Block) :
    WriteBytes → List UInt8 → Int32 × List UInt8 :=
  toBytes (writes.parts (writeBlock true block))

/-! ## The Rust functions -/

/-- `write_callback` of `c_serialize`. -/
def writeCallback : WriteBytes := fun data buffer => (0, buffer ++ data)

/-- `c_serialize`. -/
def cSerialize (cFunction : WriteBytes → List UInt8 → Int32 × List UInt8) : Result (List UInt8) :=
  let (result, buffer) := cFunction writeCallback []
  if result = 0 then .ok buffer else .error .serializationFailed

end Encoding

open Encoding

/-- `Transaction::new`. -/
def Transaction.new (transactionBytes : List UInt8) : Result Transaction :=
  match btckTransactionCreate transactionBytes with
  | none => .error (.internal "Failed to create transaction from bytes")
  | some inner => .ok inner

/-- `Transaction::consensus_encode`. -/
def Transaction.consensusEncode (writes : Writes) (tx : Transaction) : Result (List UInt8) :=
  cSerialize (btckTransactionToBytes writes tx)

/-- `Block::new`. -/
def Block.new (rawBlock : List UInt8) : Result Block :=
  match btckBlockCreate rawBlock with
  | none => .error (.internal "Failed to create Block from bytes")
  | some inner => .ok inner

/-- `Block::consensus_encode`. -/
def Block.consensusEncode (writes : Writes) (block : Block) : Result (List UInt8) :=
  cSerialize (btckBlockToBytes writes block)

/-- `Block::transaction`. -/
def Block.transaction (block : Block) (index : Nat) : Result Transaction :=
  match block.vtx[index]? with
  | none => .error .outOfBounds
  | some tx => .ok tx

namespace Encoding

/-! ## What the calls come down to -/

variable {α : Type} {raw : List UInt8} {tx : Transaction}

theorem create_eq_some_iff {reader : Reader α} {object : α} :
    create reader raw = some object ↔ ∃ rest, reader.run raw = .ok (object, rest) := by
  rw [create]
  cases reader.run raw with
  | error e => simp
  | ok result =>
    obtain ⟨object', rest⟩ := result
    simp

theorem transactionNew_eq_ok_iff :
    Transaction.new raw = .ok tx ↔ ∃ rest, (readTransaction true).run raw = .ok (tx, rest) := by
  rw [← create_eq_some_iff, Transaction.new, btckTransactionCreate]
  cases create (readTransaction true) raw <;> simp

theorem blockNew_eq_ok_iff {block : Block} :
    Block.new raw = .ok block ↔ ∃ rest, readBlock.run raw = .ok (block, rest) := by
  rw [← create_eq_some_iff, Block.new, btckBlockCreate]
  cases create readBlock raw <;> simp

theorem toBytes_writeCallback (parts : List (List UInt8)) (buffer : List UInt8) :
    toBytes parts writeCallback buffer = (0, buffer ++ parts.flatten) := by
  induction parts generalizing buffer with
  | nil => rw [toBytes, List.flatten_nil, List.append_nil]
  | cons src parts ih =>
    show toBytes parts writeCallback (buffer ++ src) = _
    rw [ih, List.flatten_cons, List.append_assoc]

/-- Encoding never fails. -/
theorem cSerialize_toBytes (writes : Writes) (bytes : List UInt8) :
    cSerialize (toBytes (writes.parts bytes)) = .ok bytes := by
  rw [cSerialize, toBytes_writeCallback, writes.flatten_parts]
  rfl

theorem transaction_consensusEncode (writes : Writes) (tx : Transaction) :
    tx.consensusEncode writes = .ok (writeTransaction true tx) := cSerialize_toBytes writes _

theorem block_consensusEncode (writes : Writes) (block : Block) :
    block.consensusEncode writes = .ok (writeBlock true block) := cSerialize_toBytes writes _

/-- A decoded transaction keeps the sizes that the reader checks. -/
theorem decodable_of_new (h : Transaction.new raw = .ok tx) : tx.Decodable := by
  obtain ⟨rest, hread⟩ := transactionNew_eq_ok_iff.mp h
  exact (reads_transaction.run_eq_ok_iff.mp hread).1

/-! ## Round trips -/

/-- `object` was decoded from `raw`.  It is encoded to bytes at the front of `raw`,
and these bytes, whatever comes behind them, are decoded to the same object and
encoded to themselves again. -/
def RoundTrips {α : Type} (new : List UInt8 → Result α) (encode : α → Result (List UInt8))
    (raw : List UInt8) (object : α) : Prop :=
  ∃ encoded, encode object = .ok encoded ∧ encoded <+: raw ∧
    ∀ more, ∃ object', new (encoded ++ more) = .ok object' ∧ object' = object ∧
      encode object' = .ok encoded

/-- A reader that accepts what a writer writes gives round trips. -/
theorem roundTrips_of_reads {reader : Reader α} {write : α → List UInt8} {valid : α → Prop}
    (hreads : Reads reader write valid) {new : List UInt8 → Result α}
    {encode : α → Result (List UInt8)}
    (hnew : ∀ raw object, new raw = .ok object ↔ ∃ rest, reader.run raw = .ok (object, rest))
    (hencode : ∀ object, encode object = .ok (write object)) {object : α}
    (h : new raw = .ok object) : RoundTrips new encode raw object := by
  obtain ⟨rest, hread⟩ := (hnew raw object).mp h
  obtain ⟨hvalid, rfl⟩ := hreads.run_eq_ok_iff.mp hread
  refine ⟨write object, hencode object, List.prefix_append _ _, ?_⟩
  intro more
  refine ⟨object, ?_, rfl, hencode object⟩
  exact (hnew _ _).mpr ⟨more, hreads.run_write hvalid more⟩

/-- Decoding and encoding are inverse to each other on transactions and on
blocks.  A transaction of a decoded block is encoded to bytes that are decoded to
it on their own. -/
theorem decode_encode_roundTrip (writes : Writes) (hash256 : List UInt8 → Uint256) :
    (∀ raw tx, Transaction.new raw = .ok tx →
      RoundTrips Transaction.new (Transaction.consensusEncode writes) raw tx) ∧
    (∀ raw block, Block.new raw = .ok block →
      RoundTrips Block.new (Block.consensusEncode writes) raw block ∧
      ∀ index tx, block.transaction index = .ok tx →
        ∃ encoded tx', tx.consensusEncode writes = .ok encoded ∧ Transaction.new encoded = .ok tx' ∧
          tx' = tx ∧ tx'.vin.length = tx.vin.length ∧ tx'.vout.length = tx.vout.length ∧
          tx'.getHash hash256 = tx.getHash hash256) := by
  refine ⟨fun raw tx h => ?_, fun raw block h => ⟨?_, ?_⟩⟩
  · exact roundTrips_of_reads reads_transaction (fun _ _ => transactionNew_eq_ok_iff)
      (transaction_consensusEncode writes) h
  · exact roundTrips_of_reads reads_block (fun _ _ => blockNew_eq_ok_iff)
      (block_consensusEncode writes) h
  · intro index tx htx
    obtain ⟨rest, hread⟩ := blockNew_eq_ok_iff.mp h
    have hvtx := (reads_block.run_eq_ok_iff.mp hread).1
    have hmem : tx ∈ block.vtx := by
      rw [Block.transaction] at htx
      split at htx
      · cases htx
      · next hget =>
          cases htx
          exact List.mem_of_getElem? hget
    refine ⟨writeTransaction true tx, tx, transaction_consensusEncode writes tx, ?_, rfl, rfl, rfl,
      rfl⟩
    refine transactionNew_eq_ok_iff.mpr ⟨[], ?_⟩
    simpa using reads_transaction.run_write (hvtx.2 tx hmem) []

/-- A transaction with one input that has a witness. -/
def sampleTx : Transaction where
  version := 2
  vin :=
    [{ prevout := ⟨⟨List.replicate 32 7, by simp⟩, 0⟩, scriptSig := [], nSequence := 0xfffffffe,
       scriptWitness := [[5]] }]
  vout := [{ nValue := 1000, scriptPubKey := [0x51] }]
  nLockTime := 0

/-- It is in the extended format, and there is one byte behind it. -/
def sampleRaw : List UInt8 :=
  [2, 0, 0, 0, 0, 1, 1] ++ List.replicate 32 7 ++ [0, 0, 0, 0, 0, 0xfe, 0xff, 0xff, 0xff] ++
    [1, 0xe8, 3, 0, 0, 0, 0, 0, 0, 1, 0x51, 1, 1, 5, 0, 0, 0, 0, 9]

def sampleBlock : Block where
  nVersion := 4
  hashPrevBlock := Uint256.null
  hashMerkleRoot := Uint256.null
  nTime := 0
  nBits := 0
  nNonce := 0
  vtx := [sampleTx]

def sampleRawBlock : List UInt8 := 4 :: List.replicate 79 0 ++ 1 :: sampleRaw

/-- Every byte is written on its own. -/
def bytewise : Writes := ⟨List.map fun byte => [byte], fun bytes => by simp [← List.flatMap_def]⟩

theorem decode_encode_roundTrip_sample : Transaction.new sampleRaw = .ok sampleTx ∧
    RoundTrips Transaction.new (Transaction.consensusEncode bytewise) sampleRaw sampleTx ∧
    Block.new sampleRawBlock = .ok sampleBlock ∧
    RoundTrips Block.new (Block.consensusEncode bytewise) sampleRawBlock sampleBlock ∧
    sampleBlock.transaction 0 = .ok sampleTx ∧ ∃ encoded,
      sampleTx.consensusEncode bytewise = .ok encoded ∧ Transaction.new encoded = .ok sampleTx := by
  have hnew : Transaction.new sampleRaw = .ok sampleTx := by decide +kernel
  have hblock : Block.new sampleRawBlock = .ok sampleBlock := by decide +kernel
  obtain ⟨htransactions, hblocks⟩ := decode_encode_roundTrip bytewise fun _ => Uint256.null
  obtain ⟨hround, hpart⟩ := hblocks sampleRawBlock sampleBlock hblock
  obtain ⟨encoded, tx, hencoded, hdecoded, rfl, -⟩ := hpart 0 sampleTx rfl
  exact ⟨hnew, htransactions _ _ hnew, hblock, hround, rfl, encoded, hencoded, hdecoded⟩

end Encoding

end BitcoinKernel
