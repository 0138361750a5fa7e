import BitcoinKernel.Lib.Runs
import BitcoinKernel.Ffi.Handles

/-!
# The calls of the crate, as actions on handles

`Method.row` lists the functions of the crate that make one C call and wrap
the result.  `Op` adds the functions that do more: checks with a local
validation state, builders that consume themselves, and the callbacks that
the kernel makes into the crate.

`Op.actions` gives every call as a sequence of elementary actions on a
`World`, which keeps the account of all handles.  Local variables are values
of the world like any others; the newest value stands first.  Callbacks are
calls in the sequence like any others too, so the calls that a handler makes
simply follow, and a handler may keep the block that it receives.

Lifetimes of references are not modelled.  Runs that the borrow checker
forbids are therefore runs here as well, and the results hold for them.  A
null entry from `Chain::tip` is left out; its use is undefined.  Functions
that return no handle (`height`, `consensus_encode`, `verify`, comparisons)
change nothing in a world and have no call here; conversions that consume a
value read it and drop it, so they are a `drop`.
-/

namespace BitcoinKernel.Ffi

/-! ## Functions that wrap the result of one C call -/

/-- The functions of the crate that make one C call and wrap its result.
Trait methods stand once for all the types that have them. -/
inductive Method
  | transactionNew | transactionClone | transactionRefToOwned
  | transactionOutput | transactionInput | transactionTxid | txInIterNext | txOutIterNext
  | scriptPubkeyNew | scriptPubkeyClone | scriptPubkeyRefToOwned
  | txOutNew | txOutClone | txOutRefToOwned | txOutScriptPubkey
  | txInClone | txInRefToOwned | txInOutpoint
  | txOutPointClone | txOutPointRefToOwned | txOutPointTxid
  | txidClone | txidRefToOwned
  | precomputedTransactionDataNew | precomputedTransactionDataClone
  | blockHashNew | blockHashClone | blockHashRefToOwned
  | blockHeaderNew | blockHeaderClone | blockHeaderRefToOwned | headerHash | headerPrevHash
  | blockNew | blockClone | blockHashOf | blockHeaderOf | blockTransaction
  | blockTransactionIterNext
  | blockSpentOutputsClone | blockSpentOutputsRefToOwned
  | blockSpentOutputsTransactionSpentOutputs | blockSpentOutputsIterNext
  | transactionSpentOutputsClone | transactionSpentOutputsRefToOwned
  | transactionSpentOutputsCoin | transactionSpentOutputsIterNext
  | coinClone | coinRefToOwned | coinOutput
  | blockTreeEntryPrev | blockTreeEntryHeader | blockTreeEntryBlockHash | blockTreeEntryAncestor
  | chainTip | chainAtHeight
  | blockValidationStateNew | blockValidationStateClone
  | chainParamsNew | chainParamsNewSignet | contextBuilderNew
  | chainstateManagerBuilderNew | readBlockData | readSpentOutputs | activeChain | bestEntry
  | getBlockTreeEntry
  | loggerNew
deriving DecidableEq, Repr

/-- A function of the crate: the types whose value it takes as the first
argument, the C function that it calls, the type that it puts the result in,
and whether it returns an `Option` or a `Result`. -/
structure Row where
  receivers : List Wrapper
  calls : CFunction
  wraps : Wrapper
  fallible : Bool

open CFunction in
/-- The functions of the crate. -/
def Method.row : Method → Row
  | transactionNew => ⟨[], transactionCreate, .transaction, true⟩
  | transactionClone => ⟨[.transaction], transactionCopy, .transaction, false⟩
  | transactionRefToOwned => ⟨[.transactionRef], transactionCopy, .transaction, false⟩
  | transactionOutput =>
    ⟨[.transaction, .transactionRef], transactionGetOutputAt, .txOutRef, true⟩
  | transactionInput => ⟨[.transaction, .transactionRef], transactionGetInputAt, .txInRef, true⟩
  | transactionTxid => ⟨[.transaction, .transactionRef], transactionGetTxid, .txidRef, false⟩
  | txInIterNext => ⟨[.transactionRef], transactionGetInputAt, .txInRef, true⟩
  | txOutIterNext => ⟨[.transactionRef], transactionGetOutputAt, .txOutRef, true⟩
  | scriptPubkeyNew => ⟨[], scriptPubkeyCreate, .scriptPubkey, true⟩
  | scriptPubkeyClone => ⟨[.scriptPubkey], scriptPubkeyCopy, .scriptPubkey, false⟩
  | scriptPubkeyRefToOwned => ⟨[.scriptPubkeyRef], scriptPubkeyCopy, .scriptPubkey, false⟩
  | txOutNew => ⟨[.scriptPubkey, .scriptPubkeyRef], transactionOutputCreate, .txOut, false⟩
  | txOutClone => ⟨[.txOut], transactionOutputCopy, .txOut, false⟩
  | txOutRefToOwned => ⟨[.txOutRef], transactionOutputCopy, .txOut, false⟩
  | txOutScriptPubkey =>
    ⟨[.txOut, .txOutRef], transactionOutputGetScriptPubkey, .scriptPubkeyRef, false⟩
  | txInClone => ⟨[.txIn], transactionInputCopy, .txIn, false⟩
  | txInRefToOwned => ⟨[.txInRef], transactionInputCopy, .txIn, false⟩
  | txInOutpoint => ⟨[.txIn, .txInRef], transactionInputGetOutPoint, .txOutPointRef, false⟩
  | txOutPointClone => ⟨[.txOutPoint], transactionOutPointCopy, .txOutPoint, false⟩
  | txOutPointRefToOwned => ⟨[.txOutPointRef], transactionOutPointCopy, .txOutPoint, false⟩
  | txOutPointTxid =>
    ⟨[.txOutPoint, .txOutPointRef], transactionOutPointGetTxid, .txidRef, false⟩
  | txidClone => ⟨[.txid], txidCopy, .txid, false⟩
  | txidRefToOwned => ⟨[.txidRef], txidCopy, .txid, false⟩
  | precomputedTransactionDataNew =>
    ⟨[.transaction, .transactionRef], precomputedTransactionDataCreate,
      .precomputedTransactionData, true⟩
  | precomputedTransactionDataClone =>
    ⟨[.precomputedTransactionData], precomputedTransactionDataCopy,
      .precomputedTransactionData, false⟩
  | blockHashNew => ⟨[], blockHashCreate, .blockHash, true⟩
  | blockHashClone => ⟨[.blockHash], blockHashCopy, .blockHash, false⟩
  | blockHashRefToOwned => ⟨[.blockHashRef], blockHashCopy, .blockHash, false⟩
  | blockHeaderNew => ⟨[], blockHeaderCreate, .blockHeader, true⟩
  | blockHeaderClone => ⟨[.blockHeader], blockHeaderCopy, .blockHeader, false⟩
  | blockHeaderRefToOwned => ⟨[.blockHeaderRef], blockHeaderCopy, .blockHeader, false⟩
  | headerHash => ⟨[.blockHeader, .blockHeaderRef], blockHeaderGetHash, .blockHash, false⟩
  | headerPrevHash =>
    ⟨[.blockHeader, .blockHeaderRef], blockHeaderGetPrevHash, .blockHashRef, false⟩
  | blockNew => ⟨[], blockCreate, .block, true⟩
  | blockClone => ⟨[.block], blockCopy, .block, false⟩
  | blockHashOf => ⟨[.block], blockGetHash, .blockHash, false⟩
  | blockHeaderOf => ⟨[.block], blockGetHeader, .blockHeader, false⟩
  | blockTransaction => ⟨[.block], blockGetTransactionAt, .transactionRef, true⟩
  | blockTransactionIterNext => ⟨[.block], blockGetTransactionAt, .transactionRef, true⟩
  | blockSpentOutputsClone =>
    ⟨[.blockSpentOutputs], blockSpentOutputsCopy, .blockSpentOutputs, false⟩
  | blockSpentOutputsRefToOwned =>
    ⟨[.blockSpentOutputsRef], blockSpentOutputsCopy, .blockSpentOutputs, false⟩
  | blockSpentOutputsTransactionSpentOutputs =>
    ⟨[.blockSpentOutputs, .blockSpentOutputsRef],
      blockSpentOutputsGetTransactionSpentOutputsAt, .transactionSpentOutputsRef, true⟩
  | blockSpentOutputsIterNext =>
    ⟨[.blockSpentOutputsRef], blockSpentOutputsGetTransactionSpentOutputsAt,
      .transactionSpentOutputsRef, true⟩
  | transactionSpentOutputsClone =>
    ⟨[.transactionSpentOutputs], transactionSpentOutputsCopy, .transactionSpentOutputs, false⟩
  | transactionSpentOutputsRefToOwned =>
    ⟨[.transactionSpentOutputsRef], transactionSpentOutputsCopy, .transactionSpentOutputs, false⟩
  | transactionSpentOutputsCoin =>
    ⟨[.transactionSpentOutputs, .transactionSpentOutputsRef],
      transactionSpentOutputsGetCoinAt, .coinRef, true⟩
  | transactionSpentOutputsIterNext =>
    ⟨[.transactionSpentOutputsRef], transactionSpentOutputsGetCoinAt, .coinRef, true⟩
  | coinClone => ⟨[.coin], coinCopy, .coin, false⟩
  | coinRefToOwned => ⟨[.coinRef], coinCopy, .coin, false⟩
  | coinOutput => ⟨[.coin, .coinRef], coinGetOutput, .txOutRef, false⟩
  | blockTreeEntryPrev => ⟨[.blockTreeEntry], blockTreeEntryGetPrevious, .blockTreeEntry, true⟩
  | blockTreeEntryHeader =>
    ⟨[.blockTreeEntry], blockTreeEntryGetBlockHeader, .blockHeaderRef, false⟩
  | blockTreeEntryBlockHash =>
    ⟨[.blockTreeEntry], blockTreeEntryGetBlockHash, .blockHashRef, false⟩
  | blockTreeEntryAncestor =>
    ⟨[.blockTreeEntry], blockTreeEntryGetAncestor, .blockTreeEntry, true⟩
  | chainTip => ⟨[.chain], chainGetByHeight, .blockTreeEntry, false⟩
  | chainAtHeight => ⟨[.chain], chainGetByHeight, .blockTreeEntry, true⟩
  | blockValidationStateNew => ⟨[], blockValidationStateCreate, .blockValidationState, false⟩
  | blockValidationStateClone =>
    ⟨[.blockValidationState], blockValidationStateCopy, .blockValidationState, false⟩
  | chainParamsNew => ⟨[], chainParametersCreate, .chainParams, false⟩
  | chainParamsNewSignet => ⟨[], chainParametersCreateSignet, .chainParams, false⟩
  | contextBuilderNew => ⟨[], contextOptionsCreate, .contextBuilder, false⟩
  | chainstateManagerBuilderNew =>
    ⟨[.context], chainstateManagerOptionsCreate, .chainstateManagerBuilder, true⟩
  | readBlockData => ⟨[.chainstateManager], blockRead, .block, true⟩
  | readSpentOutputs => ⟨[.chainstateManager], blockSpentOutputsRead, .blockSpentOutputs, true⟩
  | activeChain => ⟨[.chainstateManager], chainstateManagerGetActiveChain, .chain, false⟩
  | bestEntry => ⟨[.chainstateManager], chainstateManagerGetBestEntry, .blockTreeEntry, true⟩
  | getBlockTreeEntry =>
    ⟨[.chainstateManager], chainstateManagerGetBlockTreeEntryByHash, .blockTreeEntry, true⟩
  | loggerNew => ⟨[], loggingConnectionCreate, .logger, true⟩

/-! ## The world -/

/-- A Rust value: a wrapper and the pointer in it. -/
structure Value where
  wrapper : Wrapper
  inner : Object
deriving DecidableEq, Repr

/-- The handles of a process: the objects whose ownership was handed to the
crate, the calls of destroy functions, and the live Rust values. -/
structure World where
  nextId : Nat := 0
  handed : List Object := []
  destroyed : List (Kind × Object) := []
  values : List Value := []
deriving DecidableEq, Repr

namespace World

/-- The kernel makes a new object and hands it over. -/
def hand (w : World) (kind : Kind) : Object × World :=
  (.handed w.nextId kind,
    { w with nextId := w.nextId + 1, handed := .handed w.nextId kind :: w.handed })

/-- The kernel lends an object that belongs to `owner`. -/
def lend (owner : Option Object) (kind : Kind) (index : Nat) : Object :=
  match owner with
  | some owner => .part owner kind index
  | none => .kernel kind index

/-- The result of a C function that reads `self`. -/
def call (w : World) (f : CFunction) (self : Option Object) (index : Nat) : Object × World :=
  match f.signature.ownership with
  | .transfer => w.hand f.signature.result
  | .lend => (lend self f.signature.result index, w)

/-- The pointer that is passed for `self`. -/
def argument (w : World) : Option Nat → Option (Option Object)
  | some self => w.values[self]?.map fun v => some v.inner
  | none => some none

/-- A new Rust value. -/
def keep (w : World) (wrapper : Wrapper) (inner : Object) : World :=
  { w with values := ⟨wrapper, inner⟩ :: w.values }

/-- `Drop` of a value. -/
def destroy (w : World) (v : Value) : World :=
  match v.wrapper.destroys with
  | some kind => { w with destroyed := (kind, v.inner) :: w.destroyed }
  | none => w

end World

/-! ## Elementary actions -/

/-- What the crate does with handles.  Values are named by their position. -/
inductive Action
  /-- The value is there and has one of these types. -/
  | use (value : Nat) (types : List Wrapper)
  /-- Call a C function on a value and wrap the result. -/
  | wrap (f : CFunction) (wrapper : Wrapper) (self : Option Nat) (index : Nat)
  /-- Make a further reference to the object of a value. -/
  | borrow (value : Nat)
  /-- Receive a copy of a kernel object as the argument of a callback. -/
  | receiveCopy (kind : Kind) (wrapper : Wrapper)
  /-- Receive a lent kernel object as the argument of a callback. -/
  | receiveRef (wrapper : Wrapper) (id : Nat)
  /-- Drop a value. -/
  | drop (value : Nat)
deriving DecidableEq, Repr

namespace World

/-- An action.  `none` when it does not type-check. -/
def perform (w : World) : Action → Option World
  | .use value types => do
      let v ← w.values[value]?
      if v.wrapper ∈ types then some w else none
  | .wrap f wrapper self index => do
      let self ← w.argument self
      let (o, w) := w.call f self index
      if f.signature.reads = self.map Object.kind ∧ wrapper.kind = f.signature.result then
        some (w.keep wrapper o)
      else none
  | .borrow value => do
      let v ← w.values[value]?
      let wrapper ← v.wrapper.reference
      some (w.keep wrapper v.inner)
  | .receiveCopy kind wrapper =>
    let (o, w) := w.hand kind
    if wrapper.kind = kind then some (w.keep wrapper o) else none
  | .receiveRef wrapper id => some (w.keep wrapper (lend none wrapper.kind id))
  | .drop value => do
      let v ← w.values[value]?
      some ({ w with values := w.values.eraseIdx value }.destroy v)

end World

/-! ## Calls -/

/-- A call of the public API, or a callback of the kernel into the crate.
`self` is the position of the value that a function is called on. -/
inductive Op
  /-- A function that wraps one C call; `answers` is false for an error, a
  null pointer or `None`. -/
  | method (m : Method) (self : Nat) (index : Nat) (answers : Bool)
  | asRef (self : Nat)
  | drop (self : Nat)
  | blockCheck (self : Nat) (passes : Bool)
  | transactionCheck (self : Nat)
  | headerFmt (self : Nat)
  | processBlockHeader (self : Nat) (null valid : Bool)
  | contextBuilderChainType (self : Nat)
  | contextBuilderSignet (self : Nat)
  | contextBuilderBuild (self : Nat) (sane : Bool)
  | chainstateManagerBuilderWipeDb (self : Nat) (accepted : Bool)
  | chainstateManagerBuilderBuild (self : Nat) (created : Bool)
  | chainstateManagerNew (context : Nat) (options created : Bool)
  | blockChecked (handler : Bool) (state : Nat)
  | newPowValidBlock (handler : Bool) (entry : Nat)
  | blockConnected (handler : Bool) (entry : Nat)
  | blockDisconnected (handler : Bool) (entry : Nat)
  | blockTip (handler : Bool) (entry : Nat)
deriving DecidableEq, Repr

/-- A function that wraps one C call.  One that is not fallible always
answers: `.use self []` type-checks for no value. -/
def Method.actions (m : Method) (self index : Nat) (answers : Bool) : List Action :=
  let receiver := if m.row.receivers = [] then none else some self
  let typed := if m.row.receivers = [] then [] else [.use self m.row.receivers]
  if answers then typed ++ [.wrap m.row.calls m.row.wraps receiver index]
  else if m.row.fallible then typed
  else [.use self []]

/-- `setter(self)` of a builder that uses temporary chain parameters: the
parameters are dropped when the setter returns. -/
def contextBuilderSetChainparams (create : CFunction) (self : Nat) : List Action :=
  [.use self [.contextBuilder], .wrap create .chainParams none 0, .drop 0]

/-- The builder at `self` makes its product and is dropped.  The product
stands first in the world by then, so the builder has moved one place on. -/
def buildActions (builder : Wrapper) (create : CFunction) (product : Wrapper) (self : Nat)
    (succeeds : Bool) : List Action :=
  .use self [builder] ::
    if succeeds then [.wrap create product (some self) 0, .drop (self + 1)] else [.drop self]

/-- The four wrappers of the validation interface.  The block is wrapped
first; without a handler it goes out of scope at once. -/
def validationWrapper (argument : Wrapper) (handler : Bool) (id : Nat) : List Action :=
  .receiveCopy .block .block :: if handler then [.receiveRef argument id] else [.drop 0]

namespace Op

/-- Every call as a sequence of actions. -/
def actions : Op → List Action
  | method m self index answers => m.actions self index answers
  | asRef self => [.borrow self]
  | drop self => [.drop self]
  -- the local state is returned in `Invalid` or dropped
  | blockCheck self passes =>
    [.use self [.block], .wrap .blockValidationStateCreate .blockValidationState none 0] ++
      if passes then [.drop 0] else []
  | transactionCheck self =>
    [.use self [.transaction, .transactionRef],
      .wrap .txValidationStateCreate .txValidationState none 0, .drop 0]
  -- `Debug` of a header prints its hash
  | headerFmt self =>
    [.use self [.blockHeader, .blockHeaderRef],
      .wrap .blockHeaderGetHash .blockHash (some self) 0, .drop 0]
  | processBlockHeader self null valid =>
    .use self [.chainstateManager] ::
      if null then []
      else .wrap .chainstateManagerProcessBlockHeader .blockValidationState (some self) 0 ::
        if valid then [.drop 0] else []
  | contextBuilderChainType self => contextBuilderSetChainparams .chainParametersCreate self
  | contextBuilderSignet self => contextBuilderSetChainparams .chainParametersCreateSignet self
  | contextBuilderBuild self sane =>
    buildActions .contextBuilder .contextCreate .context self sane
  | chainstateManagerBuilderWipeDb self accepted =>
    .use self [.chainstateManagerBuilder] :: if accepted then [] else [.drop self]
  | chainstateManagerBuilderBuild self created =>
    buildActions .chainstateManagerBuilder .chainstateManagerCreate .chainstateManager self
      created
  | chainstateManagerNew context options created =>
    Method.actions .chainstateManagerBuilderNew context 0 options ++ if options then
        buildActions .chainstateManagerBuilder .chainstateManagerCreate .chainstateManager 0
          created
      else []
  | blockChecked handler state => validationWrapper .blockValidationStateRef handler state
  | newPowValidBlock handler entry => validationWrapper .blockTreeEntry handler entry
  | blockConnected handler entry => validationWrapper .blockTreeEntry handler entry
  | blockDisconnected handler entry => validationWrapper .blockTreeEntry handler entry
  -- the hash is copied only for a handler; the reference to it is a local
  | blockTip handler entry =>
    if handler then
      [.receiveRef .blockTreeEntry entry,
        .wrap .blockTreeEntryGetBlockHash .blockHashRef (some 0) 0,
        .wrap .blockHashCopy .blockHash (some 0) 0, .drop 1, .drop 1]
    else []

end Op

/-- A call: all its actions, one after the other. -/
def World.step (w : World) (op : Op) : Option World := Runs.run World.perform w op.actions

end BitcoinKernel.Ffi
