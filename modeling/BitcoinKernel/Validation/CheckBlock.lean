import BitcoinKernel.Consensus.Merkle
import BitcoinKernel.Consensus.TxCheck
import BitcoinKernel.Script.Script

/-!
# The context-free block check and its caches

`CheckBlock` and the calls of the kernel that run it: `btck_block_check` and
`ProcessNewBlock` (`validation.cpp`).  The check does not depend on the chain,
but it depends on the consensus parameters, and it leaves marks on the block
object.  `m_checked_merkle_root` says that the merkle root was found right, and
`fChecked` that a check with proof of work and merkle root succeeded.  Both
fields are mutable members of `CBlock`, which all clones of a block share, so
they are the state of the computations here.

The hash function, the proof of work and the signet solution are arbitrary
functions.  Of a chainstate manager the model keeps what the acceptance of a
block reads: its parameters, the block index, and its contextual checks, which
are arbitrary.  `Chainman` models the acceptance with the block tree, and
`Chainman.processNewBlock_agrees` compares the two.
-/

namespace BitcoinKernel.Validation

open Serialize Consensus

/-- What `CheckBlock` reads of `Consensus::Params`.  The two checks of the
source take the parameters as an argument. -/
structure ConsensusParams where
  hashGenesisBlock : Uint256
  checkProofOfWork : (hash : Uint256) → (nBits : UInt32) → Bool
  signetBlocks : Bool
  checkSignetBlockSolution : Block → Bool

/-- The caching flags of a `CBlock` that the context-free checks use. -/
structure BlockCache where
  fChecked : Bool := false
  checkedMerkleRoot : Bool := false
deriving DecidableEq, Repr

/-- A computation that may reject a block and works on its caching flags. -/
abbrev Check := ExceptT BlockRejection (StateM BlockCache)

variable (hash256 : List UInt8 → Uint256)

/-! ## The parts of `CheckBlock` -/

/-- `CheckBlockHeader`. -/
def checkBlockHeader (params : ConsensusParams) (header : BlockHeader) (fCheckPOW : Bool) :
    Except BlockRejection Unit := do
  if fCheckPOW && !params.checkProofOfWork (header.getHash hash256) header.nBits then
    throw { result := .blockInvalidHeader, rejectReason := "high-hash",
            debugMessage := "proof of work failed" }

/-- The signet part of `CheckBlock`. -/
def checkSignet (params : ConsensusParams) (block : Block) (fCheckPOW : Bool) :
    Except BlockRejection Unit := do
  if params.signetBlocks && fCheckPOW && !params.checkSignetBlockSolution block then
    throw { result := .blockConsensus, rejectReason := "bad-signet-blksig",
            debugMessage := "signet block signature validation failure" }

/-- `BlockMerkleRoot`. -/
def blockMerkleRoot (block : Block) : Uint256 × Bool :=
  let (root, mutated) :=
    computeMerkleRoot (fun left right => hash256 (left.bytes ++ right.bytes))
      (block.vtx.map (Transaction.getHash hash256))
  (root.getD Uint256.null, mutated)

/-- The part of `CheckMerkleRoot` behind the cache. -/
def checkMerkleRootUncached (block : Block) : Except BlockRejection Unit := do
  let (merkleRoot, mutated) := blockMerkleRoot hash256 block
  if block.hashMerkleRoot ≠ merkleRoot then
    throw { result := .blockMutated, rejectReason := "bad-txnmrklroot",
            debugMessage := "hashMerkleRoot mismatch" }
  if mutated then
    throw { result := .blockMutated, rejectReason := "bad-txns-duplicate",
            debugMessage := "duplicate transaction" }

/-- `CheckMerkleRoot`. -/
def checkMerkleRoot (block : Block) : Check Unit := do
  if (← get).checkedMerkleRoot then return
  checkMerkleRootUncached hash256 block
  modify fun cache => { cache with checkedMerkleRoot := true }

/-- The loop of `CheckBlock` over the transactions. -/
def checkTransactions : List Transaction → Except BlockRejection Unit
  | [] => return
  | tx :: rest => do
      match checkTransaction tx with
      | .error txState =>
        throw { result := .blockConsensus, rejectReason := txState.rejectReason,
                debugMessage := "Transaction check failed (tx hash " ++
                  (tx.getHash hash256).getHex ++ ") " ++ txState.debugMessage }
      | .ok _ => checkTransactions rest

/-- The rest of `CheckBlock`, from the size limits to the signature operations.
It depends on the block alone. -/
def checkStructure (block : Block) : Except BlockRejection Unit := do
  if block.vtx.isEmpty || block.vtx.length * witnessScaleFactor > maxBlockWeight ||
      (writeBlock false block).length * witnessScaleFactor > maxBlockWeight then
    throw { result := .blockConsensus, rejectReason := "bad-blk-length",
            debugMessage := "size limits failed" }
  if !(block.vtx.head?.any Transaction.isCoinBase) then
    throw { result := .blockConsensus, rejectReason := "bad-cb-missing",
            debugMessage := "first tx is not coinbase" }
  if block.vtx.tail.any Transaction.isCoinBase then
    throw { result := .blockConsensus, rejectReason := "bad-cb-multiple",
            debugMessage := "more than one coinbase" }
  checkTransactions hash256 block.vtx
  let nSigOps : UInt32 := block.vtx.foldl (fun n tx => n + getLegacySigOpCount tx) 0
  if (nSigOps * UInt32.ofNat witnessScaleFactor).toNat > maxBlockSigopsCost then
    throw { result := .blockConsensus, rejectReason := "bad-blk-sigops",
            debugMessage := "out-of-bounds SigOpCount" }

/-- The checks of `CheckBlock`, between the two uses of `fChecked`. -/
def checkBlockUncached (params : ConsensusParams) (block : Block)
    (fCheckPOW fCheckMerkleRoot : Bool) : Check Unit := do
  checkBlockHeader hash256 params block.toBlockHeader fCheckPOW
  checkSignet params block fCheckPOW
  if fCheckMerkleRoot then checkMerkleRoot hash256 block
  checkStructure hash256 block

/-- `CheckBlock`. -/
def checkBlock (params : ConsensusParams) (block : Block) (fCheckPOW fCheckMerkleRoot : Bool) :
    Check Unit := do
  if (← get).fChecked then return
  checkBlockUncached hash256 params block fCheckPOW fCheckMerkleRoot
  if fCheckPOW && fCheckMerkleRoot then modify fun cache => { cache with fChecked := true }

/-! ## `btck_block_create` and `btck_block_check` -/

/-- The `CBlock` that a handle and its clones share. -/
structure BlockObject where
  block : Block
  cache : BlockCache := {}
deriving DecidableEq, Repr

/-- `btck_block_create`. -/
def blockCreate (rawBlock : List UInt8) : Option BlockObject :=
  match readBlock rawBlock with
  | .ok (block, _) => some { block }
  | .error _ => none

/-- `btck_BlockCheckFlags_POW`. -/
def blockCheckPow : UInt32 := 1

/-- `btck_BlockCheckFlags_MERKLE`. -/
def blockCheckMerkle : UInt32 := 2

/-- `btck_block_check`. -/
def blockCheck (params : ConsensusParams) (block : Block) (flags : UInt32) : Check Unit :=
  checkBlock hash256 params block (flags &&& blockCheckPow ≠ 0) (flags &&& blockCheckMerkle ≠ 0)

/-! ## `ProcessNewBlock` -/

/-- The status bits of a block index entry that the acceptance of a block
reads. -/
structure IndexStatus where
  failedValid : Bool
  haveData : Bool
deriving DecidableEq, Repr

/-- What the acceptance of a block reads of a chainstate manager. -/
structure Manager where
  params : ConsensusParams
  blockIndex : Uint256 → Option IndexStatus
  contextualCheckBlockHeader : BlockHeader → Except BlockRejection Unit
  contextualCheckBlock : Block → Except BlockRejection Unit

/-- Why a block was not accepted: by a context-free check or by another. -/
inductive Failure
  | contextFree (rejection : BlockRejection)
  | contextual (rejection : BlockRejection)
deriving DecidableEq, Repr

/-- The part of `AcceptBlockHeader` for a header that is not the genesis block
and not in the index. -/
def acceptNewHeader (manager : Manager) (header : BlockHeader) : Except Failure Unit := do
  (checkBlockHeader hash256 manager.params header true).mapError .contextFree
  match manager.blockIndex header.hashPrevBlock with
  | none =>
    throw (.contextual { result := .blockMissingPrev, rejectReason := "prev-blk-not-found" })
  | some prev =>
    if prev.failedValid then
      throw (.contextual { result := .blockInvalidPrev, rejectReason := "bad-prevblk" })
  (manager.contextualCheckBlockHeader header).mapError .contextual

/-- `AcceptBlockHeader` with `min_pow_checked`, which `process_block` sets. -/
def acceptBlockHeader (manager : Manager) (header : BlockHeader) : Except Failure Unit := do
  let hash := header.getHash hash256
  if hash ≠ manager.params.hashGenesisBlock then
    match manager.blockIndex hash with
    | some status =>
      if status.failedValid then
        throw (.contextual { result := .blockCachedInvalid, rejectReason := "duplicate-invalid",
                             debugMessage := "block " ++ hash.getHex ++
                               " was previously marked invalid" })
    | none => acceptNewHeader hash256 manager header

/-- `AcceptBlock` with `fRequested`, which `process_block` sets.  The result
says whether the block is new. -/
def acceptBlock (manager : Manager) (block : Block) : ExceptT Failure (StateM BlockCache) Bool := do
  acceptBlockHeader hash256 manager block.toBlockHeader
  if (manager.blockIndex (block.getHash hash256)).any IndexStatus.haveData then return false
  ExceptT.adapt .contextFree (checkBlock hash256 manager.params block true true)
  ((manager.contextualCheckBlock block).mapError .contextual : Except Failure Unit)
  return true

/-- `ProcessNewBlock`, up to the point where the block is stored. -/
def processNewBlock (manager : Manager) (block : Block) :
    ExceptT Failure (StateM BlockCache) Bool := do
  ExceptT.adapt .contextFree (checkBlock hash256 manager.params block true true)
  acceptBlock hash256 manager block

end BitcoinKernel.Validation
