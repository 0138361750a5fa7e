import BitcoinKernel.Core.Iterators
import BitcoinKernel.Lib.Outcome
import BitcoinKernel.Validation.BlockHistory
import BitcoinKernel.Validation.Chainman
import BitcoinKernel.Validation.CoinsView

/-!
# Connecting and disconnecting blocks

`ConnectBlock` and `DisconnectBlock` on a coins view, `ConnectTip` and
`DisconnectTip` around them (`validation.cpp`), the undo data that `WriteBlockUndo`
stores (`node/blockstorage.cpp`), and `read_spent_outputs` (`chainstate.rs`).

The nodes of the block tree keep their parents and heights, so one tree serves for all
nodes that a run meets.  The block of a node is the one with its hash, wherever
`ConnectTip` takes it from.  The rules for sequence locks, signature operations and
the subsidy are arbitrary functions, and the verdicts of the script checks are part of
the environment.  The statuses of the nodes are not changed here.

`CoinsWorld` is what these functions change: the tip, the coins, and the undo data.
The coins are a cache over the chainstate database.  `ConnectTip` works on a second
cache over the first, which is written to it afterwards.  Its parallel reads of inputs
give what the first cache would give.  `restart` closes a manager and opens a new one
on its files, where the chainstate may be wiped.

The list `connections` records the blocks whose coins were connected, with the coins
before.  No function reads it.

`none` is a failed assertion or an exception.
-/

namespace BitcoinKernel.Validation.Coins

open Serialize Consensus State WriteBack CoinsViewCache
open Chainman (BlockValidationState Params runCheckBlock)

/-! ## Rules and environment -/

/-- What `ConnectBlock` reads of the parameters of the chain, and its rules for
sequence locks and signature operations at a node. -/
structure ConnectRules where
  bip34Height : Int
  bip34Hash : Uint256
  getBlockSubsidy : (nHeight : Nat) → Int64
  sequenceLocks : EntryPtr → Transaction → (prevheights : List Nat) → Bool
  getTransactionSigOpCost : EntryPtr → Transaction → List Coin → Int

/-- What `ConnectTip` meets outside of the chainstate. -/
structure ConnectEnv where
  /-- The calls on the block object before, none for a block that is read. -/
  history : List Call
  readBlock : Bool
  fScriptChecks : Bool
  /-- `CheckInputScripts` for the transaction with a position: the reason and the
  message of a rejection. -/
  checkInputScripts : Nat → Option (String × String)
  /-- `Complete` of the check queue: the error and the message. -/
  complete : Option (String × String)
  writeUndo : Bool
  /-- `FlushStateToDisk` behind the flush of the view. -/
  flushStateToDisk : Bool

variable (hash256 : List UInt8 → Uint256) (params : Params) (rules : ConnectRules)

/-- `IsBIP30Repeat`. -/
def isBip30Repeat (index : BlockIndex) : Bool :=
  (index.nHeight == 91842 && index.hash.getHex ==
      "00000000000a4d0a398161ffc163c503763b1f4360639393e0e4c8e300e0caec") ||
    (index.nHeight == 91880 && index.hash.getHex ==
      "00000000000743f190a18c5577a3c2d2a1f610ae9601ac046a38084ccb7cd721")

/-- `BIP34_IMPLIES_BIP30_LIMIT`. -/
def bip34ImpliesBip30Limit : Nat := 1983702

/-- Whether `ConnectBlock` looks for coins that a block would overwrite, with its
assertion on the previous node. -/
def enforceBip30 (t : BlockTree) (index : BlockIndex) : Option Bool := do
  let prev ← index.pprev
  let ancestor ← t.getAncestor prev rules.bip34Height
  let known := ((ancestor.bind t.index?).map BlockIndex.hash) == some rules.bip34Hash
  return (!isBip30Repeat index && !known) || index.nHeight ≥ bip34ImpliesBip30Limit

/-! ## `ConnectBlock` -/

/-- The variables of the loop of `ConnectBlock`. -/
structure ConnectState where
  state : BlockValidationState := {}
  view : CoinsViewCache
  nFees : Int64 := 0
  nSigOpsCost : Int := 0
  vtxundo : List TxUndo := []

/-- A rejection by the rules of consensus. -/
def ConnectState.invalid (s : ConnectState) (rejectReason debugMessage : String) : ConnectState :=
  { s with
    state := (s.state.invalid { result := .blockConsensus, rejectReason, debugMessage }).2 }

/-- The outpoints that a block creates. -/
def createdOutPoints (block : Block) : List OutPoint :=
  block.vtx.flatMap fun tx =>
    (List.range tx.vout.length).map fun o => ⟨tx.getHash hash256, UInt32.ofNat o⟩

/-- The loop of `ConnectBlock` that looks for coins that would be overwritten. -/
def checkBip30 (outpoints : List OutPoint) (s : ConnectState) : ConnectState :=
  outpoints.foldl
    (fun s outpoint =>
      let s := { s with view := s.view.fetch outpoint }
      if haveCoin s.view outpoint then
        s.invalid "bad-txns-BIP30" "tried to overwrite transaction"
      else s) s

/-- The checks of the loop on the inputs of a transaction. -/
def checkInputs (e : EntryPtr) (index : BlockIndex) (tx : Transaction) (s : ConnectState) :
    Option ConnectState :=
  if tx.isCoinBase then some s
  else do
    let (verdict, view) ← checkTxInputs tx s.view index.nHeight
    let s := { s with view }
    match verdict with
    | .error txState =>
      return s.invalid txState.rejectReason
        (txState.debugMessage ++ " in transaction " ++ (tx.getHash hash256).getHex)
    | .ok txfee =>
      let s := { s with nFees := s.nFees + txfee }
      let prevheights := tx.vin.map fun txin => (accessCoin view txin.prevout).nHeight.toNat
      if !moneyRange s.nFees then
        return s.invalid "bad-txns-accumulated-fee-outofrange"
          "accumulated fee in the block out of range"
      else if !rules.sequenceLocks e tx prevheights then
        return s.invalid "bad-txns-nonfinal"
          ("contains a non-BIP68-final transaction " ++ (tx.getHash hash256).getHex)
      else return s

/-- The checks of the loop on signature operations and scripts. -/
def checkScripts (env : ConnectEnv) (e : EntryPtr) (i : Nat) (tx : Transaction)
    (s : ConnectState) : ConnectState :=
  let coins := tx.vin.map fun txin => accessCoin s.view txin.prevout
  let s := { s with nSigOpsCost := s.nSigOpsCost + rules.getTransactionSigOpCost e tx coins }
  if s.nSigOpsCost > (maxBlockSigopsCost : Int) then s.invalid "bad-blk-sigops" "too many sigops"
  else if !tx.isCoinBase && env.fScriptChecks then
    match env.checkInputScripts i with
    | some (rejectReason, debugMessage) => s.invalid rejectReason debugMessage
    | none => s
  else s

/-- The turn of the loop for the transaction at position `i`. -/
def connectTransaction (env : ConnectEnv) (e : EntryPtr) (index : BlockIndex) (i : Nat)
    (tx : Transaction) (s : ConnectState) : Option ConnectState := do
  let s ← checkInputs hash256 rules e index tx s
  if !s.state.isValid then return s
  else
    let s := checkScripts rules env e i tx s
    if !s.state.isValid then return s
    else
      let (txundo, view) ← updateCoins hash256 tx index.nHeight s.view
      return { s with view, vtxundo := if i > 0 then s.vtxundo ++ [txundo] else s.vtxundo }

/-- The loop of `ConnectBlock` over the transactions.  A turn that is left with
`break` has made the state invalid. -/
def connectLoop (env : ConnectEnv) (e : EntryPtr) (index : BlockIndex) :
    Nat → List Transaction → ConnectState → Option ConnectState
  | _, [], s => some s
  | i, tx :: rest, s =>
    if !s.state.isValid then some s
    else do
      let s ← connectTransaction hash256 rules env e index i tx s
      connectLoop env e index (i + 1) rest s

/-- The variables before the loop, for a block that is connected to `coins`. -/
def connectStart (t : BlockTree) (index : BlockIndex) (block : Block)
    (coins : OutPoint → Option Coin) : Option ConnectState := do
  let enforce ← enforceBip30 rules t index
  let s : ConnectState := { view := Cache.above coins }
  return if enforce then checkBip30 (createdOutPoints hash256 block) s else s

/-- The check of the coinbase behind the loop. -/
def checkReward (index : BlockIndex) (block : Block) (s : ConnectState) : Option ConnectState := do
  let coinbase ← block.vtx.head?
  let valueOut ← coinbase.getValueOut
  let blockReward := s.nFees + rules.getBlockSubsidy index.nHeight
  if valueOut > blockReward ∧ s.state.isValid then
    return s.invalid "bad-cb-amount"
      ("coinbase pays too much (actual=" ++ toString valueOut ++ " vs limit=" ++
        toString blockReward ++ ")")
  else return s

/-- The end of the check queue. -/
def checkComplete (env : ConnectEnv) (s : ConnectState) : ConnectState :=
  match env.complete with
  | some (error, debugMessage) =>
    if s.state.isValid then
      s.invalid ("block-script-verify-flag-failed (" ++ error ++ ")") debugMessage
    else s
  | none => s

/-- What `ConnectBlock` leaves behind.  The undo data is missing for the genesis
block, and for a block that was not connected. -/
structure ConnectResult where
  connected : Bool
  state : BlockValidationState
  view : CoinsViewCache
  undo : Option BlockUndo := none

/-- `ConnectBlock` for a block that has passed `CheckBlock` and is not the genesis
block, up to `WriteBlockUndo`. -/
def connectTransactions (t : BlockTree) (env : ConnectEnv) (e : EntryPtr) (index : BlockIndex)
    (block : Block) (coins : OutPoint → Option Coin) : Option ConnectResult := do
  let s ← connectStart hash256 rules t index block coins
  let s ← connectLoop hash256 rules env e index 0 block.vtx s
  let s ← checkReward rules index block s
  let s := checkComplete env s
  return { connected := s.state.isValid, state := s.state, view := s.view,
           undo := if s.state.isValid then some ⟨s.vtxundo⟩ else none }

/-- `ConnectBlock` on the view over `coins`, up to `WriteBlockUndo`.  `bestBlock` is
the node of `GetBestBlock`. -/
def connectBlock (t : BlockTree) (env : ConnectEnv) (e : EntryPtr) (index : BlockIndex)
    (block : Block) (bestBlock : Option EntryPtr) (coins : OutPoint → Option Coin) :
    Option ConnectResult :=
  let object := BlockObject.after hash256 { block } env.history
  if index.hash ≠ block.getHash hash256 then none
  else
    match runCheckBlock hash256 params object {} with
    | (false, state, _) =>
      if state.result = some .blockMutated then
        some { connected := false, view := Cache.above coins
               state := (state.error
                 "Corrupt block found indicating potential hardware failure.").2 }
      else some { connected := false, state, view := Cache.above coins }
    | (true, state, _) =>
      if index.pprev ≠ bestBlock then none
      else if index.hash = params.hashGenesisBlock then
        some { connected := true, state, view := Cache.above coins }
      else connectTransactions hash256 rules t env e index block coins

/-! ## `DisconnectBlock` -/

/-- Why `DisconnectBlock` does not return a view. -/
inductive DisconnectFailure
  /-- A failed assertion or an exception. -/
  | abort
  /-- `DISCONNECT_FAILED`. -/
  | failed
deriving DecidableEq, Repr

/-- The two blocks whose coinbases were overwritten, as `DisconnectBlock` has them. -/
def isBip30Unspendable (index : BlockIndex) : Bool :=
  (index.nHeight == 91722 && index.hash.getHex ==
      "00000000000271a2dc26e7667f8419f2e15416dc6955e5a6c6cdf3f2574dd08e") ||
    (index.nHeight == 91812 && index.hash.getHex ==
      "00000000000af0aed4792b1acee3d966af36cf5def14935db8de83d6f9306f2f")

/-- `MAX_OUTPUTS_PER_BLOCK`: an empty output has 9 bytes. -/
def maxOutputsPerBlock : Nat := maxBlockWeight / (witnessScaleFactor * 9)

/-- The loop of `AccessByTxid`, with the number of turns that are left. -/
def accessByTxidLoop (view : CoinsViewCache) (txid : Uint256) : Nat → Nat → Coin
  | 0, _ => Coin.cleared
  | turns + 1, n =>
    let alternate := accessCoin view ⟨txid, UInt32.ofNat n⟩
    if !alternate.isSpent then alternate else accessByTxidLoop view txid turns (n + 1)

/-- `AccessByTxid`. -/
def accessByTxid (view : CoinsViewCache) (txid : Uint256) : Coin :=
  accessByTxidLoop view txid maxOutputsPerBlock 0

/-- The part of `ApplyTxInUndo` for undo data of old versions. -/
def undoMetadata (undo : Coin) (view : CoinsViewCache) (txid : Uint256) :
    Except DisconnectFailure Coin :=
  if undo.nHeight = 0 then
    let alternate := accessByTxid view txid
    if !alternate.isSpent then
      .ok { undo with nHeight := alternate.nHeight, fCoinBase := alternate.fCoinBase }
    else .error .failed
  else .ok undo

/-- `ApplyTxInUndo`.  The boolean is false for `DISCONNECT_UNCLEAN`. -/
def applyTxInUndo (undo : Coin) (view : CoinsViewCache) (out : OutPoint) :
    Except DisconnectFailure (Bool × CoinsViewCache) := do
  let fClean := !haveCoin (view.fetch out) out
  let coin ← undoMetadata undo (view.fetch out) out.hash
  let view ← Outcome.ofOption .abort (addCoin (view.fetch out) out coin !fClean)
  return (fClean, view)

/-- The loop of `DisconnectBlock` over the inputs of a transaction, from the last one
on. -/
def restoreInputs : List (TxIn × Coin) → CoinsViewCache →
    Except DisconnectFailure (Bool × CoinsViewCache)
  | [], view => .ok (true, view)
  | (txin, undo) :: rest, view => do
      let (fClean, view) ← applyTxInUndo undo view txin.prevout
      let (restClean, view) ← restoreInputs rest view
      return (fClean && restClean, view)

/-- The loop of `DisconnectBlock` over the outputs of a transaction: they are spent,
and must be as the block has them. -/
def removeOutputs (isException : Bool) : List (OutPoint × Coin) → CoinsViewCache →
    Bool × CoinsViewCache
  | [], view => (true, view)
  | (out, expected) :: rest, view =>
    if expected.out.scriptPubKey.isUnspendable then removeOutputs isException rest view
    else
      match spendCoin view out with
      | none =>
        let (restClean, view) := removeOutputs isException rest view
        (isException && restClean, view)
      | some (coin, view) =>
        let (restClean, view) := removeOutputs isException rest view
        ((coin == expected || isException) && restClean, view)

/-- `DisconnectBlock` on one transaction.  The coinbase has no undo data. -/
def disconnectTransaction (index : BlockIndex) (tx : Transaction) (undo : Option TxUndo)
    (view : CoinsViewCache) : Except DisconnectFailure (Bool × CoinsViewCache) :=
  let isException := tx.isCoinBase && isBip30Unspendable index
  let (fClean, view) := removeOutputs isException (outputCoins hash256 tx index.nHeight) view
  match undo with
  | none => .ok (fClean, view)
  | some txundo =>
    if txundo.vprevout.length ≠ tx.vin.length then .error .failed
    else do
      let (restored, view) ← restoreInputs (tx.vin.zip txundo.vprevout).reverse view
      return (fClean && restored, view)

/-- The loop of `DisconnectBlock`, from the last transaction on. -/
def disconnectLoop (index : BlockIndex) : List (Transaction × Option TxUndo) → CoinsViewCache →
    Except DisconnectFailure (Bool × CoinsViewCache)
  | [], view => .ok (true, view)
  | (tx, undo) :: rest, view => do
      let (fClean, view) ← disconnectTransaction hash256 index tx undo view
      let (restClean, view) ← disconnectLoop index rest view
      return (fClean && restClean, view)

/-- `DisconnectBlock` with the undo data that could be read.  The boolean is false for
`DISCONNECT_UNCLEAN`. -/
def disconnectOn (index : BlockIndex) (block : Block) (undo : Option BlockUndo)
    (view : CoinsViewCache) : Except DisconnectFailure (Bool × CoinsViewCache) :=
  match undo with
  | none => .error .failed
  | some blockUndo =>
    if blockUndo.vtxundo.length + 1 ≠ block.vtx.length then .error .failed
    else
      disconnectLoop hash256 index
        (block.vtx.zip (none :: blockUndo.vtxundo.map some)).reverse view

/-- `DisconnectBlock` on a new view, as `DisconnectTip` calls it. -/
def disconnectBlock (index : BlockIndex) (block : Block) (undo : Option BlockUndo)
    (coins : OutPoint → Option Coin) : Except DisconnectFailure (Bool × CoinsViewCache) :=
  disconnectOn hash256 index block undo (Cache.above coins)

/-! ## The chainstate -/

/-- A block whose coins were connected, and the coins before. -/
structure Connection where
  entry : EntryPtr
  env : ConnectEnv
  coins : OutPoint → Option Coin

/-- What `ConnectTip` and `DisconnectTip` change. -/
structure CoinsWorld where
  tip : Option EntryPtr := none
  /-- `CoinsTip`, over the chainstate database. -/
  coinsTip : CoinsViewCache := Cache.above fun _ => none
  /-- The node of `GetBestBlock`, and none for the null hash. -/
  bestBlock : Option EntryPtr := none
  /-- The undo data at the positions of the nodes. -/
  undo : EntryPtr → Option BlockUndo := fun _ => none
  connections : List Connection := []

/-- `WriteBlockUndo`, if nothing fails: a node that has undo data keeps it. -/
def writeBlockUndo (stored : EntryPtr → Option BlockUndo) (e : EntryPtr) (undo : BlockUndo)
    (e' : EntryPtr) : Option BlockUndo :=
  if e' = e then some ((stored e).getD undo) else stored e'

/-- What `DisconnectTip` meets outside of the chainstate. -/
structure DisconnectEnv where
  readBlock : Bool
  readUndo : Bool
  flushStateToDisk : Bool
deriving DecidableEq, Repr

/-- The operations on the coins of a manager. -/
inductive CoinsOp
  | connectTip (pindexNew : EntryPtr) (env : ConnectEnv)
  | disconnectTip (env : DisconnectEnv)
  /-- A coin is read into the cache. -/
  | fetchCoin (outpoint : OutPoint)
  /-- The cache is written to the database. -/
  | flush
  | restart (wipeChainstate : Bool)

namespace CoinsWorld

variable (t : BlockTree) (blocks : EntryPtr → Block)

/-- `ConnectTip` behind `ConnectBlock`: the undo data and the coins are written. -/
def connected (e : EntryPtr) (env : ConnectEnv) (r : ConnectResult) (w : CoinsWorld) :
    Option CoinsWorld := do
  let coinsTip ← w.coinsTip.batchWrite r.view
  let undo :=
    match r.undo with
    | none => w.undo
    | some blockundo => writeBlockUndo w.undo e blockundo
  let connections := w.connections ++ [⟨e, env, w.coinsTip.peek⟩]
  return { coinsTip, bestBlock := some e, undo, connections
           tip := if env.flushStateToDisk then some e else w.tip }

/-- `ConnectTip`. -/
def connectTip (e : EntryPtr) (env : ConnectEnv) (w : CoinsWorld) : Option CoinsWorld := do
  let index ← t.index? e
  if index.pprev ≠ w.tip then none
  else if !env.readBlock then return w
  else
    let r ← connectBlock hash256 params rules t env e index (blocks e) w.bestBlock w.coinsTip.peek
    if !r.connected then return w
    else if r.undo.isSome && (w.undo e).isNone && !env.writeUndo then return w
    else w.connected e env r

/-- `DisconnectTip`. -/
def disconnectTip (env : DisconnectEnv) (w : CoinsWorld) : Option CoinsWorld := do
  let e ← w.tip
  let index ← t.index? e
  let prev ← index.pprev
  if !env.readBlock then return w
  else if w.bestBlock ≠ some e then none
  else
    match disconnectBlock hash256 index (blocks e) (if env.readUndo then w.undo e else none)
        w.coinsTip.peek with
    | .error .abort => none
    | .error .failed => return w
    | .ok (false, _) => return w
    | .ok (true, view) =>
      let coinsTip ← w.coinsTip.batchWrite view
      return { w with coinsTip, bestBlock := some prev
                      tip := if env.flushStateToDisk then some prev else w.tip }

/-- A manager is closed, and a new one is opened on its files. -/
def restart (wipeChainstate : Bool) (w : CoinsWorld) : CoinsWorld :=
  if wipeChainstate then
    { w with coinsTip := Cache.above fun _ => none, bestBlock := none, tip := none }
  else { w with coinsTip := w.coinsTip.flush, tip := w.bestBlock }

/-- The chainstate after an operation. -/
def step (w : CoinsWorld) : CoinsOp → Option CoinsWorld
  | .connectTip e env => w.connectTip hash256 params rules t blocks e env
  | .disconnectTip env => w.disconnectTip hash256 t blocks env
  | .fetchCoin outpoint => some { w with coinsTip := w.coinsTip.fetch outpoint }
  | .flush => some { w with coinsTip := w.coinsTip.flush }
  | .restart wipeChainstate => some (w.restart wipeChainstate)

end CoinsWorld

/-! ## `read_spent_outputs` -/

/-- `KernelError`, as far as spent outputs are concerned. -/
inductive SpentOutputsError
  | internal (message : String)
  | outOfBounds
deriving DecidableEq, Repr

/-- `ChainstateManager::read_spent_outputs`, with `btck_block_spent_outputs_read`, for
a node with its undo data. -/
def readSpentOutputs (index : BlockIndex) (stored : Option BlockUndo) :
    Except SpentOutputsError BlockUndo :=
  if index.nHeight < 1 then .ok ⟨[]⟩
  else
    match stored with
    | some blockUndo => .ok blockUndo
    | none => .error (.internal "Failed to read undo data.")

/-- A getter that checks its index, over a kernel getter. -/
def checkedGet {α : Type} (v : List α) (index : Nat) : Except SpentOutputsError α :=
  if index ≥ v.length then .error .outOfBounds
  else
    match Core.getAt v index with
    | some item => .ok item
    | none => .error .outOfBounds

/-- `BlockSpentOutputsExt::count`. -/
def spentCount (spent : BlockUndo) : Nat := spent.vtxundo.length

/-- `BlockSpentOutputsExt::transaction_spent_outputs`. -/
def transactionSpentOutputs (spent : BlockUndo) (transactionIndex : Nat) :
    Except SpentOutputsError TxUndo := checkedGet spent.vtxundo transactionIndex

/-- `TransactionSpentOutputsExt::count`. -/
def coinCount (txSpent : TxUndo) : Nat := txSpent.vprevout.length

/-- `TransactionSpentOutputsExt::coin`. -/
def spentCoin (txSpent : TxUndo) (coinIndex : Nat) : Except SpentOutputsError Coin :=
  checkedGet txSpent.vprevout coinIndex

end BitcoinKernel.Validation.Coins
