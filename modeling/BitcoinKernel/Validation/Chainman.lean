import BitcoinKernel.Lib.Stateful
import BitcoinKernel.Validation.CheckBlock
import BitcoinKernel.Validation.CheckBlockIndex

/-!
# Accepting headers and blocks

`AcceptBlockHeader`, `ProcessNewBlockHeaders`, `AcceptBlock` and
`ProcessNewBlock` (`validation.cpp`), with the block tree they work on.  Here a
check has the shape of the source: it returns a boolean and writes its verdict
into a `BlockValidationState`, so that the two can disagree.

Of a chainstate manager the model keeps the block index, `m_best_header` and
the tip of the active chain.  A call takes what it finds outside of the
manager as arguments: the clock, the order in which the hash map of the block
index is iterated, whether the block file could be written, and the books of
`CheckBlockIndex`, which no header changes.  The rule for
the required work and the contextual block check are arbitrary functions of
the tree.

`none` is a failed `assert` or a null pointer that is dereferenced.

`process_block` and `process_block_header` set `min_pow_checked`, and
`process_block` sets `force_processing`, so the branches of `AcceptBlock` for
blocks that were not requested are left out.  A kernel without a background
chainstate has no `HistoricalChainstate`.
-/

namespace BitcoinKernel.State

namespace BlockIndex

theorem hash_raiseValidity (index : BlockIndex) (upTo : Nat) :
    (index.raiseValidity upTo).hash = index.hash := by
  unfold raiseValidity
  split_ifs <;> rfl

end BlockIndex

namespace BlockTree

/-- The nodes after an update of their statuses. -/
def withStatus (entries : List BlockIndex) (f : EntryPtr → Nat → Nat) : List BlockIndex :=
  entries.mapIdx fun e index => { index with nStatus := f e index.nStatus }

theorem getElem?_withStatus (entries : List BlockIndex) (f : EntryPtr → Nat → Nat) (e : Nat) :
    (withStatus entries f)[e]? =
      entries[e]?.map fun index => { index with nStatus := f e index.nStatus } := by
  unfold withStatus
  rw [List.getElem?_mapIdx]

/-- An update of the statuses of the nodes. -/
def mapStatus (t : BlockTree) (f : EntryPtr → Nat → Nat) : BlockTree where
  entries := withStatus t.entries f
  nodup := by
    have hsame : (withStatus t.entries f).map BlockIndex.hash = t.entries.map BlockIndex.hash := by
      apply List.ext_getElem?
      intro e
      rw [List.getElem?_map, List.getElem?_map, getElem?_withStatus]
      cases t.entries[e]? <;> rfl
    rw [hsame]
    exact t.nodup

/-- `nMedianTimeSpan`. -/
def medianTimeSpan : Nat := 11

/-- The times that `GetMedianTimePast` collects. -/
def medianTimes (t : BlockTree) : Nat → Option EntryPtr → List Int
  | 0, _ => []
  | _, none => []
  | n + 1, some e =>
    match t.index? e with
    | some index => index.nTime.toNat :: t.medianTimes n index.pprev
    | none => []

/-- `GetMedianTimePast`. -/
def getMedianTimePast (t : BlockTree) (e : EntryPtr) : Int :=
  let times := (t.medianTimes medianTimeSpan (some e)).mergeSort
  times.getD (times.length / 2) 0

end BlockTree

end BitcoinKernel.State

namespace BitcoinKernel.Validation.Chainman

open Serialize Consensus State

/-! ## Validation states -/

/-- `ValidationState::ModeState`. -/
inductive ModeState
  | valid
  | invalid
  | error
deriving DecidableEq, Repr

/-- `BlockValidationState`.  No result is `BLOCK_RESULT_UNSET`. -/
structure BlockValidationState where
  mode : ModeState := .valid
  result : Option BlockValidationResult := none
  rejectReason : String := ""
  debugMessage : String := ""
deriving DecidableEq, Repr

namespace BlockValidationState

/-- `IsValid`. -/
def isValid (state : BlockValidationState) : Bool := state.mode == .valid

/-- `Invalid`. -/
def invalid (state : BlockValidationState) (rejection : BlockRejection) :
    Bool × BlockValidationState :=
  (false,
    { mode := if state.mode ≠ .error then .invalid else state.mode
      result := some rejection.result
      rejectReason := rejection.rejectReason
      debugMessage := rejection.debugMessage })

/-- `Error`. -/
def error (state : BlockValidationState) (rejectReason : String) : Bool × BlockValidationState :=
  (false, { state with
      mode := .error
      rejectReason := if state.mode = .valid then rejectReason else state.rejectReason })

/-- A check that calls `Invalid` with its rejection and returns false, or returns
true. -/
def check (state : BlockValidationState) : Except BlockRejection Unit → Bool × BlockValidationState
  | .ok _ => (true, state)
  | .error rejection => state.invalid rejection

end BlockValidationState

/-! ## Parameters -/

/-- The members of `Consensus::BuriedDeployment` that are used here. -/
inductive BuriedDeployment
  | heightInCb
  | derSig
  | cltv
  | segwit
deriving DecidableEq, Repr

/-- What the acceptance of headers and blocks reads of the parameters of the
chain.  `getNextWorkRequired` and `contextualCheckBlock` are the source
functions of these names, for a node of the tree and its new child. -/
structure Params extends ConsensusParams where
  getNextWorkRequired : BlockTree → EntryPtr → BlockHeader → UInt32
  enforceBip94 : Bool
  difficultyAdjustmentInterval : Nat
  deploymentHeight : BuriedDeployment → Int
  contextualCheckBlock : BlockTree → Option EntryPtr → Block → Except BlockRejection Unit
  /-- `DefaultConsistencyChecks`, which the library leaves as it is: true on the
  regression test network only. -/
  consistencyChecks : Bool := false

/-- `ChainstateManager`. -/
structure ChainstateManager where
  tree : BlockTree
  bestHeader : Option EntryPtr
  /-- `ActiveChain().Tip()`. -/
  tip : Option EntryPtr

variable (hash256 : List UInt8 → Uint256) (params : Params)

/-- `CheckBlockIndex`. -/
def checkBlockIndex (books : Books) (m : ChainstateManager) : Option Unit :=
  if params.consistencyChecks then
    checkTree params.hashGenesisBlock books m.tree m.bestHeader m.tip
  else some ()

/-! ## Headers -/

/-- `MAX_TIMEWARP`. -/
def maxTimewarp : Int := 600

/-- `MAX_FUTURE_BLOCK_TIME`. -/
def maxFutureBlockTime : Int := 2 * 60 * 60

/-- The format `%08x` of a version. -/
def hexVersion (nVersion : Int32) : String :=
  String.ofList ((List.range 8).map fun i =>
    Nat.digitChar ((nVersion.toUInt32.toNat >>> (4 * (7 - i))) % 16))

/-- `ContextualCheckBlockHeader`. -/
def contextualCheckBlockHeader (now : Int) (t : BlockTree) (block : BlockHeader)
    (state : BlockValidationState) (prev : EntryPtr) : Option (Bool × BlockValidationState) := do
  let pindexPrev ← t.index? prev
  let nHeight : Int := pindexPrev.nHeight + 1
  let blockTime : Int := block.nTime.toNat
  if block.nBits ≠ params.getNextWorkRequired t prev block then
    return state.invalid { result := .blockInvalidHeader, rejectReason := "bad-diffbits",
                           debugMessage := "incorrect proof of work" }
  if blockTime ≤ t.getMedianTimePast prev then
    return state.invalid { result := .blockInvalidHeader, rejectReason := "time-too-old",
                           debugMessage := "block's timestamp is too early" }
  if params.enforceBip94 ∧ nHeight % params.difficultyAdjustmentInterval = 0 ∧
      blockTime < pindexPrev.nTime.toNat - maxTimewarp then
    return state.invalid { result := .blockInvalidHeader, rejectReason := "time-timewarp-attack",
                           debugMessage :=
                             "block's timestamp is too early on diff adjustment block" }
  if blockTime > now + maxFutureBlockTime then
    return state.invalid { result := .blockTimeFuture, rejectReason := "time-too-new",
                           debugMessage := "block timestamp too far in the future" }
  if (block.nVersion < 2 ∧ nHeight ≥ params.deploymentHeight .heightInCb) ∨
      (block.nVersion < 3 ∧ nHeight ≥ params.deploymentHeight .derSig) ∨
      (block.nVersion < 4 ∧ nHeight ≥ params.deploymentHeight .cltv) then
    return state.invalid { result := .blockInvalidHeader,
                           rejectReason := "bad-version(0x" ++ hexVersion block.nVersion ++ ")",
                           debugMessage :=
                             "rejected nVersion=0x" ++ hexVersion block.nVersion ++ " block" }
  return (true, state)

/-- What `AcceptBlockHeader` leaves behind: its return value, the state, the
manager and `*ppindex`. -/
structure AcceptedHeader where
  accepted : Bool
  state : BlockValidationState
  manager : ChainstateManager
  pindex : Option EntryPtr

/-- The checks of `AcceptBlockHeader` for a header that is not in the index. -/
def checkNewHeader (now : Int) (t : BlockTree) (block : BlockHeader)
    (state : BlockValidationState) : Option (Bool × BlockValidationState) :=
  match state.check (checkBlockHeader hash256 params.toConsensusParams block true) with
  | (false, state) => some (false, state)
  | (true, state) =>
    match t.lookupBlockIndex block.hashPrevBlock with
    | none =>
      some (state.invalid { result := .blockMissingPrev, rejectReason := "prev-blk-not-found" })
    | some prev => do
        let pindexPrev ← t.index? prev
        if pindexPrev.failedValid then
          return state.invalid { result := .blockInvalidPrev, rejectReason := "bad-prevblk" }
        else contextualCheckBlockHeader params now t block state prev

/-- The end of `AcceptBlockHeader`, which adds the header. -/
def insertHeader (m : ChainstateManager) (block : BlockHeader) (state : BlockValidationState)
    (minPowChecked : Bool) : Option AcceptedHeader :=
  if !minPowChecked then
    let (accepted, state) :=
      state.invalid { result := .blockHeaderLowWork, rejectReason := "too-little-chainwork" }
    some { accepted, state, manager := m, pindex := none }
  else do
    let (tree, bestHeader, pindex) ←
      m.tree.addToBlockIndex (BlockHeader.getHash hash256) block m.bestHeader
    return { accepted := true, state, manager := { m with tree, bestHeader }, pindex }

/-- `AcceptBlockHeader`. -/
def acceptBlockHeader (now : Int) (m : ChainstateManager) (block : BlockHeader)
    (state : BlockValidationState) (minPowChecked : Bool) : Option AcceptedHeader :=
  let hash := block.getHash hash256
  if hash ≠ params.hashGenesisBlock then
    match m.tree.lookupBlockIndex hash with
    | some e => do
        let pindex ← m.tree.index? e
        if pindex.failedValid then
          let (accepted, state) :=
            state.invalid { result := .blockCachedInvalid, rejectReason := "duplicate-invalid",
                            debugMessage := "block " ++ hash.getHex ++
                              " was previously marked invalid" }
          return { accepted, state, manager := m, pindex := some e }
        else return { accepted := true, state, manager := m, pindex := some e }
    | none => do
        let (ok, state) ← checkNewHeader hash256 params now m.tree block state
        if ok then insertHeader hash256 m block state minPowChecked
        else return { accepted := false, state, manager := m, pindex := none }
  else insertHeader hash256 m block state minPowChecked

/-- `ProcessNewBlockHeaders`, without the notifications. -/
def processNewBlockHeaders (now : Int) (books : Books) (minPowChecked : Bool) :
    ChainstateManager → BlockValidationState → List BlockHeader →
      Option (Bool × BlockValidationState × ChainstateManager)
  | m, state, [] => some (true, state, m)
  | m, state, header :: headers => do
      let r ← acceptBlockHeader hash256 params now m header state minPowChecked
      checkBlockIndex params books r.manager
      if !r.accepted then return (false, r.state, r.manager)
      else processNewBlockHeaders now books minPowChecked r.manager r.state headers

/-- `btck_chainstate_manager_process_block_header`, with its assertion. -/
def btckChainstateManagerProcessBlockHeader (now : Int) (books : Books) (m : ChainstateManager)
    (header : BlockHeader) : Option (BlockValidationState × ChainstateManager) := do
  let (result, state, m) ← processNewBlockHeaders hash256 params now books true m {} [header]
  if result = state.isValid then return (state, m) else none

/-- `ValidationMode` of a state. -/
inductive ValidationMode
  | valid
  | invalid
  | internalError
deriving DecidableEq, Repr

/-- `btck_block_validation_state_get_validation_mode`. -/
def BlockValidationState.validationMode (state : BlockValidationState) : ValidationMode :=
  match state.mode with
  | .valid => .valid
  | .invalid => .invalid
  | .error => .internalError

/-- `ProcessBlockHeaderResult`. -/
inductive ProcessBlockHeaderResult
  | valid
  | invalid (state : BlockValidationState)
deriving DecidableEq, Repr

/-- `ChainstateManager::process_block_header`, without the exceptions of the
kernel. -/
def processBlockHeader (now : Int) (books : Books) (m : ChainstateManager)
    (header : BlockHeader) : Option (ProcessBlockHeaderResult × ChainstateManager) := do
  let (state, m) ← btckChainstateManagerProcessBlockHeader hash256 params now books m header
  if state.validationMode = .valid then return (.valid, m) else return (.invalid state, m)

/-! ## Invalid blocks -/

/-- `SetBlockFailureFlags`: every descendant of the node is marked as failed. -/
def setBlockFailureFlags (t : BlockTree) (invalidBlock : EntryPtr) (nHeight : Nat) :
    Option BlockTree := do
  let flags ← (List.range t.entries.length).mapM fun e => do
    let ancestor ← t.getAncestor e nHeight
    return e ≠ invalidBlock && ancestor == some invalidBlock
  return t.mapStatus fun e nStatus =>
    if flags.getD e false then nStatus ||| blockFailedValid else nStatus

/-- The loop of `RecalculateBestHeader` over the hash map. -/
def recalculateBestHeader (t : BlockTree) : Option EntryPtr → List EntryPtr →
    Option (Option EntryPtr)
  | best, [] => some best
  | best, e :: order => do
      let index ← t.index? e
      if index.failedValid then recalculateBestHeader t best order
      else
        let bestIndex ← best.bind t.index?
        recalculateBestHeader t (if bestIndex.nChainWork < index.nChainWork then some e else best)
          order

/-- The part of `InvalidChainFound` on `m_best_header`: it is looked for anew if
it descends from the invalid node. -/
def lowerBestHeader (t : BlockTree) (tip : Option EntryPtr) (pindexNew : EntryPtr) (nHeight : Nat)
    (order : List EntryPtr) : Option EntryPtr → Option (Option EntryPtr)
  | none => some none
  | some best => do
      let ancestor ← t.getAncestor best nHeight
      if ancestor = some pindexNew then recalculateBestHeader t tip order else return some best

/-- `InvalidChainFound`.  `order` is the order of the hash map. -/
def invalidChainFound (m : ChainstateManager) (pindexNew : EntryPtr) (order : List EntryPtr) :
    Option ChainstateManager := do
  let index ← m.tree.index? pindexNew
  let tree ← setBlockFailureFlags m.tree pindexNew index.nHeight
  let bestHeader ← lowerBestHeader tree m.tip pindexNew index.nHeight order m.bestHeader
  -- `assert (tip)`
  let _ ← m.tip
  return { m with tree, bestHeader }

/-- `InvalidBlockFound`. -/
def invalidBlockFound (m : ChainstateManager) (pindex : EntryPtr) (state : BlockValidationState)
    (order : List EntryPtr) : Option ChainstateManager :=
  if state.result ≠ some .blockMutated then
    let tree := m.tree.mapStatus fun e nStatus =>
      if e = pindex then nStatus ||| blockFailedValid else nStatus
    invalidChainFound { m with tree } pindex order
  else some m

/-! ## Blocks -/

/-- `ReceivedBlockTransactions`, as far as it writes `nStatus`. -/
def receivedBlockTransactions (t : BlockTree) (pindexNew : EntryPtr) : BlockTree :=
  t.modify pindexNew
    (fun index =>
      let nStatus := index.nStatus ||| blockHaveData
      let nStatus :=
        if (index.nHeight : Int) ≥ params.deploymentHeight .segwit then
          nStatus ||| blockOptWitness
        else nStatus
      ({ index with nStatus }).raiseValidity blockValidTransactions)
    (fun index => by rw [BlockIndex.hash_raiseValidity])

/-- What `AcceptBlock` finds outside of the manager. -/
structure Surroundings where
  now : Int
  order : List EntryPtr
  /-- `WriteBlock` returns a position that is not null. -/
  writeBlock : Bool
  /-- The books before and after `ReceivedBlockTransactions`. -/
  books : Books := {}
  booksAfter : Books := {}

/-- What `AcceptBlock` leaves behind: its return value, `*fNewBlock`, the state,
the manager and the caching flags of the block. -/
structure AcceptedBlock where
  accepted : Bool
  fNewBlock : Bool
  state : BlockValidationState
  manager : ChainstateManager
  cache : BlockCache

/-- `CheckBlock` on a block with its caching flags. -/
def runCheckBlock (object : BlockObject) (state : BlockValidationState) :
    Bool × BlockValidationState × BlockCache :=
  let (verdict, cache) :=
    (checkBlock hash256 params.toConsensusParams object.block true true).run.run object.cache
  let (ok, state) := state.check verdict
  (ok, state, cache)

theorem runCheckBlock_of_exec {object : BlockObject} {verdict : Except BlockRejection Unit}
    {cache : BlockCache} (state : BlockValidationState)
    (h : Stateful.exec (checkBlock hash256 params.toConsensusParams object.block true true)
      object.cache = (verdict, cache)) :
    runCheckBlock hash256 params object state =
      ((state.check verdict).1, (state.check verdict).2, cache) := by
  unfold Stateful.exec at h
  unfold runCheckBlock ExceptT.run StateT.run
  rw [h]

/-- The part of `AcceptBlock` for a block whose data is not stored. -/
def storeBlock (env : Surroundings) (m : ChainstateManager) (object : BlockObject)
    (state : BlockValidationState) (pindex : EntryPtr) : Option AcceptedBlock := do
  let index ← m.tree.index? pindex
  let (checked, state, cache) := runCheckBlock hash256 params object state
  let (ok, state) :=
    if checked then
      state.check (params.contextualCheckBlock m.tree index.pprev object.block)
    else (false, state)
  if !ok then
    let m ← invalidBlockFound m pindex state env.order
    return { accepted := false, fNewBlock := false, state, manager := m, cache }
  else if !env.writeBlock then
    let (accepted, state) :=
      state.error "AcceptBlock: Failed to find position to write new block to disk"
    return { accepted, fNewBlock := true, state, manager := m, cache }
  else
    let m := { m with tree := receivedBlockTransactions params m.tree pindex }
    checkBlockIndex params env.booksAfter m
    return { accepted := true, fNewBlock := true, state, manager := m, cache }

/-- `AcceptBlock` for a requested block. -/
def acceptBlock (env : Surroundings) (m : ChainstateManager) (object : BlockObject)
    (state : BlockValidationState) : Option AcceptedBlock := do
  let r ← acceptBlockHeader hash256 params env.now m object.block.toBlockHeader state true
  checkBlockIndex params env.books r.manager
  if !r.accepted then
    return { accepted := false, fNewBlock := false, state := r.state, manager := r.manager,
             cache := object.cache }
  else
    let pindex ← r.pindex
    let index ← r.manager.tree.index? pindex
    if index.haveData then
      return { accepted := true, fNewBlock := false, state := r.state, manager := r.manager,
               cache := object.cache }
    else storeBlock hash256 params env r.manager object r.state pindex

/-- The section of `ProcessNewBlock` under the lock, before `ActivateBestChain`. -/
def processNewBlock (env : Surroundings) (m : ChainstateManager) (object : BlockObject) :
    Option AcceptedBlock :=
  let (checked, state, cache) := runCheckBlock hash256 params object {}
  if !checked then some { accepted := false, fNewBlock := false, state, manager := m, cache }
  else acceptBlock hash256 params env m { object with cache } state

end BitcoinKernel.Validation.Chainman
