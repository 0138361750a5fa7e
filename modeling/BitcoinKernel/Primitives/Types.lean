import Mathlib.Algebra.Ring.Int.Defs
import Mathlib.Algebra.Ring.Nat
import Mathlib.Data.List.Basic

/-!
# Hashes, transactions, blocks and undo data

The plain data of the kernel (`uint256.h`, `primitives/transaction.h`,
`primitives/block.h`, `coins.h`, `undo.h`).  Fields have the width that the
C++ type has.  A `Uint256` carries the proof that it has 32 bytes, so a hash
of another length cannot be built.
-/

namespace BitcoinKernel

/-- `uint256`: an opaque blob of 32 bytes. -/
structure Uint256 where
  bytes : List UInt8
  length_eq : bytes.length = 32
deriving DecidableEq, Repr

namespace Uint256

/-- The blob of zeros. -/
def null : Uint256 := ⟨List.replicate 32 0, by simp⟩

/-- The value all of whose bytes are the same. -/
def filled (byte : UInt8) : Uint256 := ⟨List.replicate 32 byte, by simp⟩

instance : Inhabited Uint256 := ⟨null⟩

/-- `IsNull`. -/
def isNull (h : Uint256) : Bool := h == null

@[ext] theorem ext {h h' : Uint256} (heq : h.bytes = h'.bytes) : h = h' := by
  cases h
  cases h'
  simpa using heq

end Uint256

/-- `COutPoint`. -/
structure OutPoint where
  hash : Uint256
  n : UInt32
deriving DecidableEq, Repr

namespace OutPoint

/-- `COutPoint::NULL_INDEX`. -/
def nullIndex : UInt32 := 0xffffffff

/-- `COutPoint::IsNull`. -/
def isNull (o : OutPoint) : Bool := o.hash.isNull && o.n == nullIndex

end OutPoint

/-- The bytes of a `CScript`. -/
abbrev Script := List UInt8

/-- `CTxIn`.  `scriptWitness` is the stack of `CScriptWitness`. -/
structure TxIn where
  prevout : OutPoint
  scriptSig : Script
  nSequence : UInt32
  scriptWitness : List (List UInt8) := []
deriving DecidableEq, Repr

/-- `CTxOut`. -/
structure TxOut where
  nValue : Int64
  scriptPubKey : Script
deriving DecidableEq, Repr

/-- `CTransaction`, without the hashes that it caches. -/
structure Transaction where
  version : UInt32
  vin : List TxIn
  vout : List TxOut
  nLockTime : UInt32
deriving DecidableEq, Repr

/-- `CBlockHeader`. -/
structure BlockHeader where
  nVersion : Int32
  hashPrevBlock : Uint256
  hashMerkleRoot : Uint256
  nTime : UInt32
  nBits : UInt32
  nNonce : UInt32
deriving DecidableEq, Repr

/-- `CBlock`, without its caching flags. -/
structure Block extends BlockHeader where
  vtx : List Transaction
deriving DecidableEq, Repr

/-- `Coin`: an output with the height and the kind of the transaction that
made it. -/
structure Coin where
  out : TxOut
  fCoinBase : Bool
  nHeight : BitVec 31
deriving DecidableEq, Repr

/-- `CTxUndo`: the coins that a transaction spent. -/
structure TxUndo where
  vprevout : List Coin
deriving DecidableEq, Repr

/-- `CBlockUndo`: the undo data of all transactions but the coinbase. -/
structure BlockUndo where
  vtxundo : List TxUndo
deriving DecidableEq, Repr

end BitcoinKernel
