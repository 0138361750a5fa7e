import Mathlib.Data.List.Basic

/-!
# Kernel handles and the Rust types that wrap them

The C API of the kernel gives out pointers to its objects.  Some results are
owned by the caller, who has to pass them to the destroy function of their
type; others are only lent and stay part of another object.  The crate puts
every pointer in a wrapper type.  An owning wrapper calls a destroy function
when it is dropped, a reference does nothing.

This module lists both sides.

* `CFunction.signature` is the C side: which handle a function reads, what it
  returns, and whether `Handle::create` or `Handle::copy` made the result
  (`transfer`) or `Handle::ref` pointed into something that exists (`lend`).
* `Wrapper.destroys` is the `Drop` implementation of each wrapper, and
  `Wrapper.reference` is the type of a further reference to its object.

`ConsensusParams` is left out: the crate passes the lent pointer on at once
and has no type for it.
-/

namespace BitcoinKernel.Ffi

/-- The handle types of the C API. -/
inductive Kind
  | transaction | transactionOutput | scriptPubkey | precomputedTransactionData
  | transactionInput | transactionOutPoint | txid | loggingConnection | chainParameters
  | contextOptions | context | blockTreeEntry | blockValidationState
  | chainstateManagerOptions | chainstateManager | block | blockHash | blockHeader
  | blockSpentOutputs | transactionSpentOutputs | coin | chain | txValidationState
deriving DecidableEq, Repr

/-- An object of the kernel. -/
inductive Object
  /-- Result number `id` of a function that hands over ownership. -/
  | handed (id : Nat) (kind : Kind)
  /-- A part of another object. -/
  | part (owner : Object) (kind : Kind) (index : Nat)
  /-- An object that the kernel keeps for itself. -/
  | kernel (kind : Kind) (id : Nat)
deriving DecidableEq, Repr

/-- The type of the handle that points to an object. -/
def Object.kind : Object → Kind
  | .handed _ kind => kind
  | .part _ kind _ => kind
  | .kernel kind _ => kind

/-! ## The C side -/

/-- What a C function does with the object that it returns. -/
inductive ResultOwnership
  | transfer
  | lend
deriving DecidableEq, Repr

/-- The functions of the C API that return a handle and that the crate calls. -/
inductive CFunction
  | transactionCreate | transactionCopy | transactionGetOutputAt | transactionGetInputAt
  | transactionGetTxid
  | scriptPubkeyCreate | scriptPubkeyCopy
  | transactionOutputCreate | transactionOutputCopy | transactionOutputGetScriptPubkey
  | precomputedTransactionDataCreate | precomputedTransactionDataCopy
  | transactionInputCopy | transactionInputGetOutPoint
  | transactionOutPointCopy | transactionOutPointGetTxid
  | txidCopy
  | loggingConnectionCreate
  | chainParametersCreate | chainParametersCreateSignet
  | contextOptionsCreate | contextCreate
  | blockTreeEntryGetPrevious | blockTreeEntryGetAncestor | blockTreeEntryGetBlockHeader
  | blockTreeEntryGetBlockHash
  | blockValidationStateCreate | blockValidationStateCopy
  | chainstateManagerOptionsCreate | chainstateManagerCreate
  | chainstateManagerGetBlockTreeEntryByHash | chainstateManagerGetBestEntry
  | chainstateManagerGetActiveChain | chainstateManagerProcessBlockHeader
  | chainGetByHeight
  | blockCreate | blockCopy | blockGetTransactionAt | blockGetHeader | blockGetHash | blockRead
  | blockHashCreate | blockHashCopy
  | blockHeaderCreate | blockHeaderCopy | blockHeaderGetHash | blockHeaderGetPrevHash
  | blockSpentOutputsRead | blockSpentOutputsCopy | blockSpentOutputsGetTransactionSpentOutputsAt
  | transactionSpentOutputsCopy | transactionSpentOutputsGetCoinAt
  | coinCopy | coinGetOutput
  | txValidationStateCreate
deriving DecidableEq, Repr

/-- The handle that a function reads first, the type of its result, and who
owns the result. -/
structure Signature where
  reads : Option Kind
  result : Kind
  ownership : ResultOwnership
deriving DecidableEq, Repr

/-- The C API, as `bitcoinkernel.cpp` implements it. -/
def CFunction.signature : CFunction → Signature
  | transactionCreate => ⟨none, .transaction, .transfer⟩
  | transactionCopy => ⟨some .transaction, .transaction, .transfer⟩
  | transactionGetOutputAt => ⟨some .transaction, .transactionOutput, .lend⟩
  | transactionGetInputAt => ⟨some .transaction, .transactionInput, .lend⟩
  | transactionGetTxid => ⟨some .transaction, .txid, .lend⟩
  | scriptPubkeyCreate => ⟨none, .scriptPubkey, .transfer⟩
  | scriptPubkeyCopy => ⟨some .scriptPubkey, .scriptPubkey, .transfer⟩
  | transactionOutputCreate => ⟨some .scriptPubkey, .transactionOutput, .transfer⟩
  | transactionOutputCopy => ⟨some .transactionOutput, .transactionOutput, .transfer⟩
  | transactionOutputGetScriptPubkey => ⟨some .transactionOutput, .scriptPubkey, .lend⟩
  | precomputedTransactionDataCreate =>
    ⟨some .transaction, .precomputedTransactionData, .transfer⟩
  | precomputedTransactionDataCopy =>
    ⟨some .precomputedTransactionData, .precomputedTransactionData, .transfer⟩
  | transactionInputCopy => ⟨some .transactionInput, .transactionInput, .transfer⟩
  | transactionInputGetOutPoint => ⟨some .transactionInput, .transactionOutPoint, .lend⟩
  | transactionOutPointCopy => ⟨some .transactionOutPoint, .transactionOutPoint, .transfer⟩
  | transactionOutPointGetTxid => ⟨some .transactionOutPoint, .txid, .lend⟩
  | txidCopy => ⟨some .txid, .txid, .transfer⟩
  | loggingConnectionCreate => ⟨none, .loggingConnection, .transfer⟩
  | chainParametersCreate => ⟨none, .chainParameters, .transfer⟩
  | chainParametersCreateSignet => ⟨none, .chainParameters, .transfer⟩
  | contextOptionsCreate => ⟨none, .contextOptions, .transfer⟩
  | contextCreate => ⟨some .contextOptions, .context, .transfer⟩
  | blockTreeEntryGetPrevious => ⟨some .blockTreeEntry, .blockTreeEntry, .lend⟩
  | blockTreeEntryGetAncestor => ⟨some .blockTreeEntry, .blockTreeEntry, .lend⟩
  -- `btck_BlockHeader::create`, since the header is put together from the entry
  | blockTreeEntryGetBlockHeader => ⟨some .blockTreeEntry, .blockHeader, .transfer⟩
  | blockTreeEntryGetBlockHash => ⟨some .blockTreeEntry, .blockHash, .lend⟩
  | blockValidationStateCreate => ⟨none, .blockValidationState, .transfer⟩
  | blockValidationStateCopy => ⟨some .blockValidationState, .blockValidationState, .transfer⟩
  | chainstateManagerOptionsCreate => ⟨some .context, .chainstateManagerOptions, .transfer⟩
  | chainstateManagerCreate => ⟨some .chainstateManagerOptions, .chainstateManager, .transfer⟩
  | chainstateManagerGetBlockTreeEntryByHash =>
    ⟨some .chainstateManager, .blockTreeEntry, .lend⟩
  | chainstateManagerGetBestEntry => ⟨some .chainstateManager, .blockTreeEntry, .lend⟩
  | chainstateManagerGetActiveChain => ⟨some .chainstateManager, .chain, .lend⟩
  | chainstateManagerProcessBlockHeader =>
    ⟨some .chainstateManager, .blockValidationState, .transfer⟩
  | chainGetByHeight => ⟨some .chain, .blockTreeEntry, .lend⟩
  | blockCreate => ⟨none, .block, .transfer⟩
  | blockCopy => ⟨some .block, .block, .transfer⟩
  | blockGetTransactionAt => ⟨some .block, .transaction, .lend⟩
  | blockGetHeader => ⟨some .block, .blockHeader, .transfer⟩
  | blockGetHash => ⟨some .block, .blockHash, .transfer⟩
  | blockRead => ⟨some .chainstateManager, .block, .transfer⟩
  | blockHashCreate => ⟨none, .blockHash, .transfer⟩
  | blockHashCopy => ⟨some .blockHash, .blockHash, .transfer⟩
  | blockHeaderCreate => ⟨none, .blockHeader, .transfer⟩
  | blockHeaderCopy => ⟨some .blockHeader, .blockHeader, .transfer⟩
  | blockHeaderGetHash => ⟨some .blockHeader, .blockHash, .transfer⟩
  | blockHeaderGetPrevHash => ⟨some .blockHeader, .blockHash, .lend⟩
  | blockSpentOutputsRead => ⟨some .chainstateManager, .blockSpentOutputs, .transfer⟩
  | blockSpentOutputsCopy => ⟨some .blockSpentOutputs, .blockSpentOutputs, .transfer⟩
  | blockSpentOutputsGetTransactionSpentOutputsAt =>
    ⟨some .blockSpentOutputs, .transactionSpentOutputs, .lend⟩
  | transactionSpentOutputsCopy =>
    ⟨some .transactionSpentOutputs, .transactionSpentOutputs, .transfer⟩
  | transactionSpentOutputsGetCoinAt => ⟨some .transactionSpentOutputs, .coin, .lend⟩
  | coinCopy => ⟨some .coin, .coin, .transfer⟩
  | coinGetOutput => ⟨some .coin, .transactionOutput, .lend⟩
  | txValidationStateCreate => ⟨none, .txValidationState, .transfer⟩

/-! ## The Rust side -/

/-- The types of the crate that hold a handle. -/
inductive Wrapper
  | transaction | transactionRef | txOut | txOutRef | txIn | txInRef | txOutPoint | txOutPointRef
  | txid | txidRef | scriptPubkey | scriptPubkeyRef | precomputedTransactionData
  | block | blockHash | blockHashRef | blockHeader | blockHeaderRef
  | blockSpentOutputs | blockSpentOutputsRef
  | transactionSpentOutputs | transactionSpentOutputsRef | coin | coinRef
  | blockTreeEntry | chain | blockValidationState | blockValidationStateRef | txValidationState
  | chainParams | contextBuilder | context | chainstateManagerBuilder | chainstateManager
  | logger
deriving DecidableEq, Repr

/-- The type of the field `inner`. -/
def Wrapper.kind : Wrapper → Kind
  | transaction | transactionRef => .transaction
  | txOut | txOutRef => .transactionOutput
  | txIn | txInRef => .transactionInput
  | txOutPoint | txOutPointRef => .transactionOutPoint
  | txid | txidRef => .txid
  | scriptPubkey | scriptPubkeyRef => .scriptPubkey
  | precomputedTransactionData => .precomputedTransactionData
  | block => .block
  | blockHash | blockHashRef => .blockHash
  | blockHeader | blockHeaderRef => .blockHeader
  | blockSpentOutputs | blockSpentOutputsRef => .blockSpentOutputs
  | transactionSpentOutputs | transactionSpentOutputsRef => .transactionSpentOutputs
  | coin | coinRef => .coin
  | blockTreeEntry => .blockTreeEntry
  | chain => .chain
  | blockValidationState | blockValidationStateRef => .blockValidationState
  | txValidationState => .txValidationState
  | chainParams => .chainParameters
  | contextBuilder => .contextOptions
  | context => .context
  | chainstateManagerBuilder => .chainstateManagerOptions
  | chainstateManager => .chainstateManager
  | logger => .loggingConnection

/-- `Drop`: the handle type whose destroy function is called on `inner`.
References and the types that are `Copy` have no `Drop`. -/
def Wrapper.destroys : Wrapper → Option Kind
  | transaction => some .transaction
  | txOut => some .transactionOutput
  | txIn => some .transactionInput
  | txOutPoint => some .transactionOutPoint
  | txid => some .txid
  | scriptPubkey => some .scriptPubkey
  | precomputedTransactionData => some .precomputedTransactionData
  | block => some .block
  | blockHash => some .blockHash
  | blockHeader => some .blockHeader
  | blockSpentOutputs => some .blockSpentOutputs
  | transactionSpentOutputs => some .transactionSpentOutputs
  | coin => some .coin
  | blockValidationState => some .blockValidationState
  | txValidationState => some .txValidationState
  | chainParams => some .chainParameters
  | contextBuilder => some .contextOptions
  | context => some .context
  | chainstateManagerBuilder => some .chainstateManagerOptions
  | chainstateManager => some .chainstateManager
  | logger => some .loggingConnection
  | transactionRef | txOutRef | txInRef | txOutPointRef | txidRef | scriptPubkeyRef
  | blockHashRef | blockHeaderRef | blockSpentOutputsRef | transactionSpentOutputsRef | coinRef
  | blockTreeEntry | chain | blockValidationStateRef => none

/-- The type of a further reference to the same object: `as_ref`, a copy of a
reference, or the reference inside an iterator (`inputs`, `outputs`, `iter`). -/
def Wrapper.reference : Wrapper → Option Wrapper
  | transaction | transactionRef => some transactionRef
  | txOut | txOutRef => some txOutRef
  | txIn | txInRef => some txInRef
  | txOutPoint | txOutPointRef => some txOutPointRef
  | txid | txidRef => some txidRef
  | scriptPubkey | scriptPubkeyRef => some scriptPubkeyRef
  | blockHash | blockHashRef => some blockHashRef
  | blockHeader | blockHeaderRef => some blockHeaderRef
  | blockSpentOutputs | blockSpentOutputsRef => some blockSpentOutputsRef
  | transactionSpentOutputs | transactionSpentOutputsRef => some transactionSpentOutputsRef
  | coin | coinRef => some coinRef
  | blockTreeEntry => some blockTreeEntry
  | chain => some chain
  | blockValidationStateRef => some blockValidationStateRef
  | precomputedTransactionData | block | blockValidationState | txValidationState | chainParams
  | contextBuilder | context | chainstateManagerBuilder | chainstateManager | logger => none

end BitcoinKernel.Ffi
