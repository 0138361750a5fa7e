import BitcoinKernel.State.CommonAncestor
import BitcoinKernel.Validation.TipCoins

/-!
# The coins database

`CCoinsViewDB` (`txdb.cpp`) and `ReplayBlocks` (`validation.cpp`).

A flush of the coins is written in several batches.  The first one replaces the best block
of the database by two head blocks, the new tip and the old one, and the last one puts the
new tip in place as the best block.  A process that ends in between leaves a database that
is neither at the old nor at the new tip.  The next process finds the head blocks, goes back
from the old tip to the fork, and forward to the new tip.

* The database: `CoinsDB`, `batches`.
* Replaying: `rollforwardBlock`, `replayBlocks`.
* `DiskOp` is one thing that happens to a chainstate, and `DiskWorld.step` what it does.

A batch is written as a whole or not at all.  `none` is a failed assertion or an access
through a null pointer.
-/

namespace BitcoinKernel.Validation.Coins

open Serialize Consensus State WriteBack WriteBack.Cache CoinsViewCache
open Chainman (Params)

/-! ## `CCoinsViewDB` -/

/-- The chainstate database. -/
structure CoinsDB where
  /-- The records `DB_COIN`. -/
  coins : CoinMap := fun _ => none
  /-- The record `DB_BEST_BLOCK`. -/
  bestBlock : Option Uint256 := none
  /-- The record `DB_HEAD_BLOCKS`. -/
  headBlocks : Option (List Uint256) := none

/-- A write of a batch.  Nothing to write erases the record. -/
inductive DbWrite
  | coin (outpoint : OutPoint) (coin : Option Coin)
  | bestBlock (hash : Option Uint256)
  | headBlocks (hashes : Option (List Uint256))

/-- An entry of a cache, with its outpoint. -/
abbrev CacheEntry := Sigma fun _ : OutPoint => Entry Coin

/-- What decides how a flush is cut into batches: when a batch is too large, and the order
of the cursor. -/
structure FlushEnv where
  isFull : List DbWrite → Bool
  order : List CacheEntry → List CacheEntry
  perm : ∀ entries, (order entries).Perm entries

namespace CoinsDB

/-- `CCoinsViewDB::GetBestBlock`. -/
def getBestBlock (db : CoinsDB) : Uint256 := db.bestBlock.getD Uint256.null

/-- `CCoinsViewDB::GetHeadBlocks`. -/
def getHeadBlocks (db : CoinsDB) : List Uint256 := db.headBlocks.getD []

def write (db : CoinsDB) : DbWrite → CoinsDB
  | .coin outpoint coin => { db with coins := Function.update db.coins outpoint coin }
  | .bestBlock hash => { db with bestBlock := hash }
  | .headBlocks hashes => { db with headBlocks := hashes }

/-- `CDBWrapper::WriteBatch`. -/
def writeBatch (db : CoinsDB) (batch : List DbWrite) : CoinsDB := batch.foldl write db

/-- The batches of a flush, in their order. -/
def writeBatches (db : CoinsDB) (batches : List (List DbWrite)) : CoinsDB :=
  batches.foldl writeBatch db

/-- The write for an entry of the cursor. -/
def entryWrite (x : CacheEntry) : List DbWrite :=
  if x.2.dirty then [.coin x.1 x.2.value] else []

/-- The loop of `BatchWrite`, with what is in the batch. -/
def batchLoop (isFull : List DbWrite → Bool) (blockHash : Uint256) :
    List CacheEntry → List DbWrite → List (List DbWrite)
  | [], batch => [batch ++ [.headBlocks none, .bestBlock (some blockHash)]]
  | x :: rest, batch =>
    if isFull (batch ++ entryWrite x) then
      (batch ++ entryWrite x) :: batchLoop isFull blockHash rest []
    else batchLoop isFull blockHash rest (batch ++ entryWrite x)

/-- `old_tip` in `BatchWrite`, with its assertion. -/
def oldTip (db : CoinsDB) (blockHash : Uint256) : Option Uint256 :=
  if db.getBestBlock.isNull then
    match db.getHeadBlocks with
    | [head, tip] => if head ≠ blockHash then none else some tip
    | _ => some db.getBestBlock
  else some db.getBestBlock

/-- The entries of a cache that the cursor meets. -/
def flagged (cache : CoinsViewCache) : List CacheEntry :=
  cache.entries.entries.filter fun x => x.2.dirty || x.2.fresh

/-- The batches of `CCoinsViewDB::BatchWrite`. -/
def batches (db : CoinsDB) (env : FlushEnv) (cache : CoinsViewCache) (blockHash : Uint256) :
    Option (List (List DbWrite)) :=
  if blockHash.isNull then none
  else do
    let oldTip ← db.oldTip blockHash
    return batchLoop env.isFull blockHash (env.order (flagged cache))
      [.bestBlock none, .headBlocks (some [blockHash, oldTip])]

end CoinsDB

/-! ## `ReplayBlocks` -/

variable (hash256 : List UInt8 → Uint256)

/-- `SpendCoin`, whatever it returns. -/
def spendInput (view : CoinsViewCache) (outpoint : OutPoint) : CoinsViewCache :=
  match view.take outpoint with
  | none => view
  | some (_, view) => view

/-- `AddCoins` with a check for overwrites. -/
def addCoinsChecked (tx : Transaction) (nHeight : Nat) (view : CoinsViewCache) :
    Option CoinsViewCache :=
  (outputCoins hash256 tx nHeight).foldlM
    (fun view (outpoint, coin) =>
      addCoin (view.fetch outpoint) outpoint coin (haveCoin (view.fetch outpoint) outpoint)) view

/-- One transaction in `RollforwardBlock`. -/
def rollforwardTx (nHeight : Nat) (view : CoinsViewCache) (tx : Transaction) :
    Option CoinsViewCache :=
  addCoinsChecked hash256 tx nHeight
    (if tx.isCoinBase then view else (tx.vin.map TxIn.prevout).foldl spendInput view)

/-- `RollforwardBlock`, for a block that was read. -/
def rollforwardBlock (index : BlockIndex) (block : Block) (view : CoinsViewCache) :
    Option CoinsViewCache :=
  block.vtx.foldlM (rollforwardTx hash256 index.nHeight) view

/-- What `ReadBlock` and `ReadBlockUndo` give. -/
structure ReplayReads where
  block : EntryPtr → Option Block
  undo : EntryPtr → Option BlockUndo

/-- The rollback of `ReplayBlocks`.  The inner `none` is the return value false.  Every turn
goes down by one, so the number of turns is bounded by the height. -/
def rollback (t : BlockTree) (reads : ReplayReads) (pindexFork : Option EntryPtr) :
    Nat → Option EntryPtr → CoinsViewCache → Option (Option CoinsViewCache)
  | turns, pindexOld, view =>
    if pindexOld = pindexFork then some (some view)
    else
      match turns with
      | 0 => none
      | turns + 1 => do
          let old ← pindexOld
          let index ← t.index? old
          if index.nHeight > 0 then
            match reads.block old with
            | none => some none
            | some block =>
              match disconnectOn hash256 index block (reads.undo old) view with
              | .error .abort => none
              | .error .failed => some none
              | .ok (_, view) => rollback t reads pindexFork turns index.pprev view
          else rollback t reads pindexFork turns index.pprev view

/-- The roll forward of `ReplayBlocks`, over heights. -/
def rollforward (t : BlockTree) (reads : ReplayReads) (pindexNew : EntryPtr) :
    List Nat → CoinsViewCache → Option (Option CoinsViewCache)
  | [], view => some (some view)
  | nHeight :: rest, view => do
      let pindex ← t.btckGetAncestor pindexNew nHeight
      let index ← t.index? pindex
      match reads.block pindex with
      | none => some none
      | some block => do
          let view ← rollforwardBlock hash256 index block view
          rollforward t reads pindexNew rest view

/-- What `ReplayBlocks` comes to before it flushes. -/
inductive Replayed
  /-- There is nothing to do. -/
  | consistent
  /-- It returns false. -/
  | failed
  /-- The cache that it flushes, with the best block. -/
  | rebuilt (bestBlock : Uint256) (cache : CoinsViewCache)

/-- `ReplayBlocks` behind the search for the fork. -/
def replayFrom (t : BlockTree) (reads : ReplayReads) (pindexOld pindexFork : Option EntryPtr)
    (pindexNew : EntryPtr) (view : CoinsViewCache) : Option Replayed := do
  let new ← t.index? pindexNew
  let nForkHeight := (pindexFork.bind t.height?).getD 0
  let turns := (pindexOld.bind t.height?).getD 0
  match ← rollback hash256 t reads pindexFork (turns + 1) pindexOld view with
  | none => return .failed
  | some view =>
    let heights := List.range' (nForkHeight + 1) (new.nHeight - nForkHeight)
    match ← rollforward hash256 t reads pindexNew heights view with
    | none => return .failed
    | some view => return .rebuilt new.hash view

/-- `ReplayBlocks` before it flushes. -/
def replayBlocks (t : BlockTree) (reads : ReplayReads) (db : CoinsDB) : Option Replayed :=
  match db.getHeadBlocks with
  | [] => some .consistent
  | [hashNew, hashOld] =>
    match t.lookupBlockIndex hashNew with
    | none => some .failed
    | some pindexNew =>
      if hashOld.isNull then
        replayFrom hash256 t reads none none pindexNew (Cache.above db.coins)
      else
        match t.lookupBlockIndex hashOld with
        | none => some .failed
        | some pindexOld => do
            let pindexFork ← t.lastCommonAncestor pindexOld pindexNew
            if pindexFork.isNone then none
            else
              replayFrom hash256 t reads (some pindexOld) pindexFork pindexNew
                (Cache.above db.coins)
  | _ => some .failed

/-! ## A chainstate and its database -/

/-- A chainstate, which is there while the process runs, and what is on disk. -/
structure DiskWorld where
  world : CoinsWorld := {}
  db : CoinsDB := {}
  /-- The undo data whose positions are in the block index on disk. -/
  disk : EntryPtr → Option BlockUndo := fun _ => none
  up : Bool := false

/-- What can be read when the process starts. -/
structure StartEnv where
  readBlock : EntryPtr → Bool
  readUndo : EntryPtr → Bool

/-- What happens to a chainstate.  A number of batches says how many of them are written
before the process ends. -/
inductive DiskOp
  | connectTip (pindexNew : EntryPtr) (env : ConnectEnv)
  | disconnectTip (env : DisconnectEnv)
  | fetchCoin (outpoint : OutPoint)
  | flush (env : FlushEnv) (emptyCache : Bool) (written : Option Nat)
  /-- The process ends. -/
  | stop
  | start (wipeChainstate : Bool) (reads : StartEnv) (env : FlushEnv) (written : Option Nat)

/-- `Sync` leaves the coins in the cache that `Flush` drops, as if they were read again. -/
def refetch (keys : List OutPoint) (view : CoinsViewCache) : CoinsViewCache :=
  keys.foldl fetch view

namespace DiskWorld

variable (params : Params) (rules : ConnectRules) (t : BlockTree) (blocks : EntryPtr → Block)

/-- The process is gone, and with it the cache and the undo data that is not on disk. -/
def lost (s : DiskWorld) (db : CoinsDB) : DiskWorld :=
  { s with
    world :=
      { undo := s.disk
        connections := s.world.connections.filter fun c => (s.disk c.entry).isSome }
    db, up := false }

/-- The process goes on with an operation on the coins. -/
def onCoins (s : DiskWorld) (op : CoinsOp) : Option DiskWorld :=
  if !s.up then none
  else (s.world.step hash256 params rules t blocks op).map fun world => { s with world }

/-- `WriteBlockIndexDB`, behind `FlushChainstateBlockFile`. -/
def writeBlockIndexDB (s : DiskWorld) : DiskWorld := { s with disk := s.world.undo }

/-- `FlushStateToDisk`, where it writes: the undo data goes to disk before the coins. -/
def flush (s : DiskWorld) (env : FlushEnv) (emptyCache : Bool) (written : Option Nat) :
    Option DiskWorld :=
  if !s.up then none
  else
    let s := s.writeBlockIndexDB
    match s.world.bestBlock with
    | none => some s
    | some e => do
        let index ← t.index? e
        let batches ← s.db.batches env s.world.coinsTip index.hash
        match written with
        | some count => return s.lost (s.db.writeBatches (batches.take count))
        | none =>
          let coinsTip := s.world.coinsTip.flush
          let keys := if emptyCache then [] else s.world.coinsTip.entries.keys
          return { s with
            db := s.db.writeBatches batches
            world := { s.world with coinsTip := refetch keys coinsTip } }

/-- `LoadChainTip` on an empty cache.  Without a best block there is no tip. -/
def loadChainTip (s : DiskWorld) (db : CoinsDB) : DiskWorld :=
  let coinsTip := Cache.above db.coins
  if db.getBestBlock.isNull then
    { s with world := { s.world with coinsTip, bestBlock := none, tip := none }, db, up := true }
  else
    match t.lookupBlockIndex db.getBestBlock with
    | none => s.lost db
    | some e =>
      { s with
        world := { s.world with coinsTip, bestBlock := some e, tip := some e }
        db, up := true }

/-- `CompleteChainstateInitialization`: the blocks are replayed, and the tip is loaded. -/
def start (s : DiskWorld) (wipeChainstate : Bool) (reads : StartEnv) (env : FlushEnv)
    (written : Option Nat) : Option DiskWorld :=
  if s.up then none
  else do
    let db := if wipeChainstate then {} else s.db
    let read : ReplayReads :=
      { block := fun e => if reads.readBlock e then some (blocks e) else none
        undo := fun e => if reads.readUndo e then s.world.undo e else none }
    match ← replayBlocks hash256 t read db with
    | .consistent => return s.loadChainTip t db
    | .failed => return s.lost db
    | .rebuilt bestBlock cache =>
      let batches ← db.batches env cache bestBlock
      match written with
      | some count => return s.lost (db.writeBatches (batches.take count))
      | none => return s.loadChainTip t (db.writeBatches batches)

/-- What happens next. -/
def step (s : DiskWorld) : DiskOp → Option DiskWorld
  | .connectTip e env => s.onCoins hash256 params rules t blocks (.connectTip e env)
  | .disconnectTip env => s.onCoins hash256 params rules t blocks (.disconnectTip env)
  | .fetchCoin outpoint => s.onCoins hash256 params rules t blocks (.fetchCoin outpoint)
  | .flush env emptyCache written => s.flush t env emptyCache written
  | .stop => some (s.lost s.db)
  | .start wipeChainstate reads env written =>
    s.start hash256 t blocks wipeChainstate reads env written

end DiskWorld

end BitcoinKernel.Validation.Coins
