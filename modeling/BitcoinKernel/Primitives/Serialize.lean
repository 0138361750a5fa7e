import BitcoinKernel.Lib.Bytes
import BitcoinKernel.Primitives.Types

/-!
# The wire format of transactions and blocks

Readers and writers of `serialize.h`, `primitives/transaction.h` and
`primitives/block.h`.  A reader takes bytes from the front of the input, as
`SpanReader` does, and fails where the C++ code throws.  A writer gives the
bytes that the C++ code sends to its stream, so the serialized size of an
object is the length of its bytes.

Vectors are read in batches in the source, so that a false length cannot make
it allocate much memory.  This does not change what is read, and a vector is
read in one go here.
-/

namespace BitcoinKernel.Serialize

open Bytes

/-- The exceptions of the readers. -/
inductive ReadError
  | endOfData
  | nonCanonicalCompactSize
  | sizeTooLarge
  | superfluousWitness
  | unknownOptionalData
deriving DecidableEq, Repr

/-- A reader of the front of a byte sequence. -/
abbrev Reader := StateT (List UInt8) (Except ReadError)

/-! ## Readers -/

/-- `SpanReader::read`. -/
def read (count : Nat) : Reader (List UInt8) := fun data =>
  if count > data.length then .error .endOfData else .ok (data.take count, data.drop count)

/-- A little-endian word of `count` bytes. -/
def readLE (count : Nat) : Reader Nat := return decodeLE (← read count)

def readUint8 : Reader UInt8 := return UInt8.ofNat (← readLE 1)

def readUint32 : Reader UInt32 := return UInt32.ofNat (← readLE 4)

def readInt32 : Reader Int32 := return (UInt32.ofNat (← readLE 4)).toInt32

def readInt64 : Reader Int64 := return (UInt64.ofNat (← readLE 8)).toInt64

def readUint256 : Reader Uint256 := fun data =>
  if h : 32 ≤ data.length then .ok (⟨data.take 32, List.length_take_of_le h⟩, data.drop 32)
  else .error .endOfData

/-- `MAX_SIZE`. -/
def maxSize : Nat := 0x02000000

/-- The rest of a compact size of `count` bytes, which must need them. -/
def readLongCompactSize (count least : Nat) : Reader Nat := do
  let size ← readLE count
  if size < least then throw .nonCanonicalCompactSize
  return size

/-- `ReadCompactSize` with the range check. -/
def readCompactSize : Reader Nat := do
  let chSize ← readLE 1
  let size ←
    if chSize < 253 then pure chSize
    else if chSize = 253 then readLongCompactSize 2 253
    else if chSize = 254 then readLongCompactSize 4 0x10000
    else readLongCompactSize 8 0x100000000
  if size > maxSize then throw .sizeTooLarge
  return size

/-- `count` elements in a row. -/
def readMany {α : Type} (element : Reader α) : Nat → Reader (List α)
  | 0 => return []
  | count + 1 => do
      let a ← element
      let rest ← readMany element count
      return a :: rest

/-- A vector with its size in front. -/
def readVector {α : Type} (element : Reader α) : Reader (List α) := do
  readMany element (← readCompactSize)

/-- A vector of bytes with its size in front. -/
def readBytes : Reader (List UInt8) := do
  read (← readCompactSize)

def readOutPoint : Reader OutPoint := do
  let hash ← readUint256
  let n ← readUint32
  return { hash, n }

/-- `CTxIn`; the witness is not part of it. -/
def readTxIn : Reader TxIn := do
  let prevout ← readOutPoint
  let scriptSig ← readBytes
  let nSequence ← readUint32
  return { prevout, scriptSig, nSequence }

def readTxOut : Reader TxOut := do
  let nValue ← readInt64
  let scriptPubKey ← readBytes
  return { nValue, scriptPubKey }

/-- The witness stacks of all inputs. -/
def readWitnesses : List TxIn → Reader (List TxIn)
  | [] => return []
  | input :: rest => do
      let scriptWitness ← readVector readBytes
      let rest ← readWitnesses rest
      return { input with scriptWitness } :: rest

end Serialize

/-- `HasWitness`. -/
def Transaction.hasWitness (tx : Transaction) : Bool :=
  tx.vin.any fun input => !input.scriptWitness.isEmpty

namespace Serialize

open Bytes

/-- The inputs and outputs of `UnserializeTransaction`, with the flags that are
left.  The dummy of the extended format is read as an empty vector of
inputs. -/
def readInputsOutputs (allowWitness : Bool) : Reader (UInt8 × List TxIn × List TxOut) := do
  let vin ← readVector readTxIn
  if vin.isEmpty && allowWitness then
    let flags ← readUint8
    if flags ≠ 0 then
      let vin ← readVector readTxIn
      let vout ← readVector readTxOut
      return (flags, vin, vout)
    else return (flags, vin, [])
  else
    let vout ← readVector readTxOut
    return (0, vin, vout)

/-- `UnserializeTransaction`. -/
def readTransaction (allowWitness : Bool) : Reader Transaction := do
  let version ← readUint32
  let (flags, vin, vout) ← readInputsOutputs allowWitness
  let (flags, vin) ←
    if flags &&& 1 ≠ 0 && allowWitness then do
      let vin ← readWitnesses vin
      if !(Transaction.hasWitness { version, vin, vout, nLockTime := 0 }) then
        throw .superfluousWitness
      pure (flags ^^^ 1, vin)
    else pure (flags, vin)
  if flags ≠ 0 then throw .unknownOptionalData
  let nLockTime ← readUint32
  return { version, vin, vout, nLockTime }

def readBlockHeader : Reader BlockHeader := do
  let nVersion ← readInt32
  let hashPrevBlock ← readUint256
  let hashMerkleRoot ← readUint256
  let nTime ← readUint32
  let nBits ← readUint32
  let nNonce ← readUint32
  return { nVersion, hashPrevBlock, hashMerkleRoot, nTime, nBits, nNonce }

/-- `TX_WITH_WITNESS(*block)`. -/
def readBlock : Reader Block := do
  let header ← readBlockHeader
  let vtx ← readVector (readTransaction true)
  return { toBlockHeader := header, vtx }

/-! ## Writers -/

/-- `WriteCompactSize`. -/
def writeCompactSize (size : Nat) : List UInt8 :=
  if size < 253 then encodeLE 1 size
  else if size ≤ 0xffff then 253 :: encodeLE 2 size
  else if size ≤ 0xffffffff then 254 :: encodeLE 4 size
  else 255 :: encodeLE 8 size

/-- A vector with its size in front. -/
def writeVector {α : Type} (element : α → List UInt8) (v : List α) : List UInt8 :=
  writeCompactSize v.length ++ v.flatMap element

/-- A vector of bytes with its size in front. -/
def writeBytes (bytes : List UInt8) : List UInt8 := writeCompactSize bytes.length ++ bytes

def writeUint32 (n : UInt32) : List UInt8 := encodeLE 4 n.toNat

def writeInt32 (n : Int32) : List UInt8 := encodeLE 4 n.toUInt32.toNat

def writeInt64 (n : Int64) : List UInt8 := encodeLE 8 n.toUInt64.toNat

def writeOutPoint (o : OutPoint) : List UInt8 := o.hash.bytes ++ writeUint32 o.n

def writeTxIn (input : TxIn) : List UInt8 :=
  writeOutPoint input.prevout ++ writeBytes input.scriptSig ++ writeUint32 input.nSequence

def writeTxOut (output : TxOut) : List UInt8 :=
  writeInt64 output.nValue ++ writeBytes output.scriptPubKey

/-- `SerializeTransaction`. -/
def writeTransaction (allowWitness : Bool) (tx : Transaction) : List UInt8 :=
  let extended := allowWitness && tx.hasWitness
  writeUint32 tx.version ++ (if extended then writeVector writeTxIn [] ++ [1] else []) ++
    writeVector writeTxIn tx.vin ++ writeVector writeTxOut tx.vout ++
    (if extended then
      tx.vin.flatMap fun input => writeVector writeBytes input.scriptWitness
    else []) ++
    writeUint32 tx.nLockTime

def writeBlockHeader (header : BlockHeader) : List UInt8 :=
  writeInt32 header.nVersion ++ header.hashPrevBlock.bytes ++ header.hashMerkleRoot.bytes ++
    writeUint32 header.nTime ++ writeUint32 header.nBits ++ writeUint32 header.nNonce

def writeBlock (allowWitness : Bool) (block : Block) : List UInt8 :=
  writeBlockHeader block.toBlockHeader ++ writeVector (writeTransaction allowWitness) block.vtx

end Serialize

/-! ## Hashes -/

open Serialize

/-- `CTransaction::GetHash`, for a double hash `hash256`. -/
def Transaction.getHash (hash256 : List UInt8 → Uint256) (tx : Transaction) : Uint256 :=
  hash256 (writeTransaction false tx)

/-- `CBlockHeader::GetHash`. -/
def BlockHeader.getHash (hash256 : List UInt8 → Uint256) (header : BlockHeader) : Uint256 :=
  hash256 (writeBlockHeader header)

/-- The two hexadecimal digits of a byte. -/
def hexByte (byte : UInt8) : String :=
  String.ofList [Nat.digitChar (byte.toNat / 16), Nat.digitChar (byte.toNat % 16)]

/-- `uint256::GetHex`: the digits of the bytes from the last to the first. -/
def Uint256.getHex (h : Uint256) : String := String.join (h.bytes.reverse.map hexByte)

end BitcoinKernel
