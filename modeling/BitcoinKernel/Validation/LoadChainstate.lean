import BitcoinKernel.State.ChainIterator
import BitcoinKernel.State.ChainTip
import BitcoinKernel.Validation.ActivateBestChain
import BitcoinKernel.Validation.ProcessCalls

/-!
# Building a manager, and the calls on it

`ChainstateManagerBuilder` (`chainstate.rs`) collects options and ends in
`btck_chainstate_manager_create`, which opens the databases, loads the block
index (`LoadBlockIndex`), adds the genesis block (`LoadGenesisBlock`), loads the
tip (`LoadChainTip`) and activates the best chain.  `CompleteChainstateInitialization`
(`node/chainstate.cpp`) is the heart of it.

A `DataDir` is what the two databases hold before the call.  The block tree of a
database is the block index that `LoadBlockIndex` makes of its records.  Failures
of the disk and of the checks on what is read stand in `LoadEnv`: each of them ends
in `Err`.  A failed assertion is `LoadFailure.abort`.

The calls that can change a manager are `process_block`, `process_block_header` and
`import_blocks`.  A block file is the list of the blocks that can be read from it,
so the search for the magic bytes is left out.  The chainstate is the active one.
A snapshot chainstate is loaded as any other, with a coins database that has a best
block.  The kernel has no option for pruning, so the branches for it are left out.
-/

namespace BitcoinKernel.Validation.Chainman

open Serialize Consensus State State.BlockTree

/-- The parameters of a chain with its genesis block.  A header with the hash of
the genesis block does not name this hash as that of its previous block. -/
structure ChainParams (hash256 : List UInt8 → Uint256) extends Params where
  genesisBlock : Block
  hashGenesisBlock_eq : hashGenesisBlock = genesisBlock.getHash hash256
  genesis_root : ∀ header : BlockHeader, header.getHash hash256 = hashGenesisBlock →
    header.hashPrevBlock ≠ hashGenesisBlock

variable (hash256 : List UInt8 → Uint256) (params : ChainParams hash256)

namespace Chainstate

/-! ## Received blocks -/

/-- The queue of `ReceivedBlockTransactions`.  Every block in it but the first was
unlinked, which bounds its length. -/
def receivedLoop (tie : EntryPtr → EntryPtr → Bool) : Nat → List EntryPtr → Chainstate → Chainstate
  | 0, _, cs => cs
  | _ + 1, [], cs => cs
  | fuel + 1, pindex :: queue, cs =>
    let cs := { cs with haveNumChainTxs := pindex :: cs.haveNumChainTxs }
    let cs := cs.tryAddBlockIndexCandidate tie pindex
    let range := (cs.blocksUnlinked.filter (·.1 = pindex)).map (·.2)
    receivedLoop tie fuel (queue ++ range)
      { cs with blocksUnlinked := cs.blocksUnlinked.filter (·.1 ≠ pindex) }

/-- The end of `ReceivedBlockTransactions`, behind the update of the status. -/
def linkReceived (tie : EntryPtr → EntryPtr → Bool) (pindexNew : EntryPtr) (cs : Chainstate) :
    Option Chainstate := do
  let index ← cs.tree.index? pindexNew
  match index.pprev with
  | none => return receivedLoop tie (cs.blocksUnlinked.length + 1) [pindexNew] cs
  | some prev => do
      if prev ∈ cs.haveNumChainTxs then
        return receivedLoop tie (cs.blocksUnlinked.length + 1) [pindexNew] cs
      else
        let pindexPrev ← cs.tree.index? prev
        if pindexPrev.isValid blockValidTree then return cs.addUnlinkedBlock prev pindexNew
        else return cs

/-- The chainstate after `AcceptBlock` for a block with the given hash.  A block
that is accepted and new was stored.  One that is found invalid had no data and was
no candidate. -/
def linkAccepted (tie : EntryPtr → EntryPtr → Bool) (hash : Uint256) (r : AcceptedBlock)
    (cs : Chainstate) : Option Chainstate := do
  let cs := { cs with toChainstateManager := r.manager }
  if r.accepted && r.fNewBlock then
    let pindex ← cs.tree.lookupBlockIndex hash
    cs.linkReceived tie pindex
  else return cs

/-- `LoadGenesisBlock`. -/
def loadGenesisBlock (tie : EntryPtr → EntryPtr → Bool) (writeBlock : Bool) (cs : Chainstate) :
    Option (Bool × Chainstate) :=
  match cs.tree.lookupBlockIndex (params.genesisBlock.getHash hash256) with
  | some _ => some (true, cs)
  | none =>
    if !writeBlock then some (false, cs)
    else do
      let (tree, bestHeader, pindex) ←
        cs.tree.addToBlockIndex (BlockHeader.getHash hash256) params.genesisBlock.toBlockHeader
          cs.bestHeader
      let tree := receivedBlockTransactions params.toParams tree pindex
      let cs ← ({ cs with tree, bestHeader } : Chainstate).linkReceived tie pindex
      return (true, cs)

/-! ## `process_block` and `process_block_header` -/

/-- `ChainstateManager::process_block`. -/
def processBlock (tie : EntryPtr → EntryPtr → Bool) (env : Surroundings)
    (activation : List (Nat × ActivateEnv)) (object : BlockObject) (cs : Chainstate) :
    Option (ProcessBlockResult × Chainstate) := do
  let r ← processNewBlock hash256 params.toParams env cs.toChainstateManager object
  let cs ← cs.linkAccepted tie (object.block.getHash hash256) r
  if !r.accepted then return (.rejected, cs)
  else
    let (activated, cs) ← activateBestChain params.toParams activation none cs
    return (processBlockResult activated r.fNewBlock, cs)

/-- `ChainstateManager::process_block_header`. -/
def processBlockHeader (now : Int) (books : Books) (header : BlockHeader) (cs : Chainstate) :
    Option (ProcessBlockHeaderResult × Chainstate) := do
  let (result, m) ←
    Chainman.processBlockHeader hash256 params.toParams now books cs.toChainstateManager header
  return (result, { cs with toChainstateManager := m })

/-! ## `import_blocks` -/

/-- A block in a file, with what `LoadExternalBlockFile` meets at it. -/
structure FileBlock where
  block : Block
  tie : EntryPtr → EntryPtr → Bool
  env : Surroundings
  activation : List (Nat × ActivateEnv)
  /-- `ReadBlock`, for a block that comes before its parent. -/
  readBlock : Bool
  /-- `m_interrupt`, before the block. -/
  interrupted : Bool

/-- `AcceptBlock` for a block of a file: whether it was accepted, and whether the
state is an error. -/
def acceptFileBlock (item : FileBlock) (cs : Chainstate) : Option (Bool × Bool × Chainstate) := do
  let r ← acceptBlock hash256 params.toParams item.env cs.toChainstateManager
    { block := item.block } {}
  let cs ← cs.linkAccepted item.tie (item.block.getHash hash256) r
  return (r.accepted, r.state.mode = .error, cs)

/-- `LoadExternalBlockFile` accepts the children of one block that came too early.
The result holds the hashes that were accepted. -/
def acceptSuccessors : List FileBlock → Chainstate → Option (List Uint256 × Chainstate)
  | [], cs => some ([], cs)
  | item :: items, cs =>
    if !item.readBlock then acceptSuccessors items cs
    else do
      let (accepted, _, cs) ← acceptFileBlock hash256 params item cs
      let (hashes, cs) ← acceptSuccessors items cs
      return (if accepted then item.block.getHash hash256 :: hashes else hashes, cs)

/-- The queue of `LoadExternalBlockFile`, for the blocks that came before a block.
Every turn but the first takes one of them from the map. -/
def loadSuccessors : Nat → List Uint256 → List FileBlock → Chainstate →
    Option (List FileBlock × Chainstate)
  | 0, _, unknown, cs => some (unknown, cs)
  | _ + 1, [], unknown, cs => some (unknown, cs)
  | fuel + 1, head :: queue, unknown, cs => do
      let (hashes, cs) ←
        acceptSuccessors hash256 params (unknown.filter (·.block.hashPrevBlock = head)) cs
      loadSuccessors fuel (queue ++ hashes) (unknown.filter (·.block.hashPrevBlock ≠ head)) cs

/-- `LoadExternalBlockFile` on a block whose parent is known, up to the blocks that
came before it.  The boolean is false if the loop is left. -/
def loadFileBlock (item : FileBlock) (cs : Chainstate) : Option (Bool × Chainstate) := do
  let hash := item.block.getHash hash256
  let stored := ((cs.tree.lookupBlockIndex hash).bind cs.tree.index?).any BlockIndex.haveData
  let (error, cs) ←
    (if stored then some (false, cs)
      else (acceptFileBlock hash256 params item cs).map fun (_, error, cs) => (error, cs))
  if error then return (false, cs)
  else if hash = params.hashGenesisBlock ∧ cs.chain.height = -1 then
    activateBestChain params.toParams item.activation none cs
  else return (true, cs)

/-- `LoadExternalBlockFile`.  A reindex keeps the blocks whose parent is unknown. -/
def loadExternalBlockFile (reindex : Bool) : List FileBlock → List FileBlock → Chainstate →
    Option (List FileBlock × Chainstate)
  | [], unknown, cs => some (unknown, cs)
  | item :: items, unknown, cs =>
    if item.interrupted then some (unknown, cs)
    else if item.block.getHash hash256 ≠ params.hashGenesisBlock ∧
        cs.tree.lookupBlockIndex item.block.hashPrevBlock = none then
      loadExternalBlockFile reindex items (if reindex then unknown ++ [item] else unknown) cs
    else do
      let (go, cs) ← loadFileBlock hash256 params item cs
      if !go then return (unknown, cs)
      else
        let (unknown, cs) ←
          (if reindex then
              loadSuccessors hash256 params (unknown.length + 1) [item.block.getHash hash256]
                unknown cs
            else some (unknown, cs))
        loadExternalBlockFile reindex items unknown cs

/-- A block file, and `m_interrupt` behind it. -/
structure BlockFile where
  blocks : List FileBlock
  interrupted : Bool

/-- The loops of `ImportBlocks` over files.  The boolean is false after an
interrupt. -/
def importFiles (reindex : Bool) : List BlockFile → List FileBlock → Chainstate →
    Option (Bool × Chainstate)
  | [], _, cs => some (true, cs)
  | file :: files, unknown, cs => do
      let (unknown, cs) ← loadExternalBlockFile hash256 params reindex file.blocks unknown cs
      if file.interrupted then return (false, cs) else importFiles reindex files unknown cs

/-- What `ImportBlocks` reads and meets. -/
structure ImportEnv where
  blockFiles : List BlockFile
  importPaths : List BlockFile
  tie : EntryPtr → EntryPtr → Bool
  writeGenesis : Bool
  activation : List (Nat × ActivateEnv)

/-- The part of `ImportBlocks` for a reindex. -/
def reindex (env : ImportEnv) (cs : Chainstate) : Option (Bool × Chainstate) := do
  let (completed, cs) ← importFiles hash256 params true env.blockFiles [] cs
  if !completed then return (false, cs)
  else
    let (_, cs) ← loadGenesisBlock hash256 params env.tie env.writeGenesis
      { cs with blockfilesIndexed := true }
    return (true, cs)

/-- `ImportBlocks`, as one call alone. -/
def importBlocks (env : ImportEnv) (cs : Chainstate) : Option Chainstate := do
  let (go, cs) ←
    (if cs.blockfilesIndexed then some (true, cs) else reindex hash256 params env cs)
  if !go then return cs
  else
    let (go, cs) ← importFiles hash256 params false env.importPaths [] cs
    if !go then return cs
    else
      let (_, cs) ← activateBestChain params.toParams env.activation none cs
      return cs

end Chainstate

/-! ## Options and directories -/

/-- `KernelError`, as far as `wipe_db` returns it. -/
inductive BuilderError
  | invalidOptions (message : String)
deriving DecidableEq, Repr

/-- The options of `ChainstateManagerBuilder`.  The block tree is not wiped alone. -/
structure Options where
  wipeBlockTree : Bool := false
  wipeChainstate : Bool := false
  blockTreeDbInMemory : Bool := false
  chainstateDbInMemory : Bool := false
  wipe_chainstate_of_block_tree : wipeBlockTree = true → wipeChainstate = true := by decide

namespace Options

/-- `ChainstateManagerBuilder::wipe_db`. -/
def wipeDb (opts : Options) (wipeBlockTree wipeChainstate : Bool) : Except BuilderError Options :=
  if h : wipeBlockTree = true ∧ wipeChainstate ≠ true then
    .error (.invalidOptions
      "Wiping the block tree without also wiping the chainstate is currently unsupported")
  else
    .ok { opts with
      wipeBlockTree
      wipeChainstate
      wipe_chainstate_of_block_tree := fun htree => by
        by_contra hstate
        exact h ⟨htree, hstate⟩ }

/-- `ChainstateManagerBuilder::block_tree_db_in_memory`. -/
def setBlockTreeDbInMemory (opts : Options) (inMemory : Bool) : Options :=
  { opts with blockTreeDbInMemory := inMemory }

/-- `ChainstateManagerBuilder::chainstate_db_in_memory`. -/
def setChainstateDbInMemory (opts : Options) (inMemory : Bool) : Options :=
  { opts with chainstateDbInMemory := inMemory }

end Options

/-- The block tree database. -/
structure BlockTreeDb where
  tree : BlockTree := BlockTree.empty
  /-- The nodes with `nTx > 0`. -/
  received : List EntryPtr := []
  /-- `DB_REINDEX_FLAG`. -/
  reindexing : Bool := false
  /-- The flag `prunedblockfiles`. -/
  prunedBlockFiles : Bool := false

/-- The chainstate database: its best block, and the blocks of a flush that was
interrupted. -/
structure CoinsDb where
  bestBlock : Uint256 := Uint256.null
  headBlocks : List Uint256 := []
deriving DecidableEq, Repr

/-- A data directory. -/
structure DataDir where
  blockTree : BlockTreeDb := {}
  coins : CoinsDb := {}

/-- The block tree database after the constructor of `BlockManager`. -/
def Options.openBlockTree (opts : Options) (dir : DataDir) : BlockTreeDb :=
  let db := if opts.blockTreeDbInMemory || opts.wipeBlockTree then {} else dir.blockTree
  if opts.wipeBlockTree then { db with reindexing := true } else db

/-- The chainstate database after `InitCoinsDB`. -/
def Options.openCoins (opts : Options) (dir : DataDir) : CoinsDb :=
  if opts.chainstateDbInMemory || opts.wipeChainstate then {} else dir.coins

/-! ## `build` -/

/-- Why there is no manager. -/
inductive LoadFailure
  /-- A failed assertion. -/
  | abort
  /-- `btck_chainstate_manager_create` returns null, and `build` an internal
  error. -/
  | null
deriving DecidableEq, Repr

/-- What `btck_chainstate_manager_create` meets outside of the databases. -/
structure LoadEnv where
  interrupted : Bool
  /-- The checks of `LoadBlockIndexDB` on the records and on the block files. -/
  loadBlockIndexDb : Bool
  writeGenesis : Bool
  openCoinsDb : Bool
  needsUpgrade : Bool
  /-- `ReplayBlocks` can read the blocks that it needs. -/
  replayBlocks : Bool
  needsRedownload : Bool
  verifyLoadedChainstate : Bool
  tie : EntryPtr → EntryPtr → Bool
  activation : List (Nat × ActivateEnv)

/-- A pointer that is dereferenced, or an assertion. -/
def assertSome {α : Type} : Option α → Except LoadFailure α
  | some a => .ok a
  | none => .error .abort

/-- A failure that ends in a null pointer. -/
def failIf (failure : Bool) : Except LoadFailure Unit :=
  if failure then .error .null else .ok ()

namespace Chainstate

/-- The manager before anything is loaded. -/
def initial (blockfilesIndexed : Bool) : Chainstate :=
  { tree := BlockTree.empty, bestHeader := none, tip := none, blockfilesIndexed }

/-- `BlockManager::LoadBlockIndex` on one node: `m_chain_tx_count` and
`m_blocks_unlinked`. -/
def loadNode (received : List EntryPtr) (cs : Chainstate) (pindex : EntryPtr) : Chainstate :=
  match cs.tree.index? pindex with
  | none => cs
  | some index =>
    if pindex ∈ received then
      match index.pprev with
      | none => { cs with haveNumChainTxs := pindex :: cs.haveNumChainTxs }
      | some prev =>
        if prev ∈ cs.haveNumChainTxs then
          { cs with haveNumChainTxs := pindex :: cs.haveNumChainTxs }
        else if index.haveData then cs.addUnlinkedBlock prev pindex
        else cs
    else cs

/-- `ChainstateManager::LoadBlockIndex` on one node: `m_best_header`. -/
def loadBestHeader (tie : EntryPtr → EntryPtr → Bool) (cs : Chainstate) (pindex : EntryPtr) :
    Chainstate :=
  match cs.tree.index? pindex with
  | none => cs
  | some index =>
    if index.isValid blockValidTree &&
        cs.bestHeader.all (fun best => workLess tie cs.tree best pindex) then
      { cs with bestHeader := some pindex }
    else cs

/-- `ChainstateManager::LoadBlockIndex`, for a database that can be read. -/
def loadBlockIndex (tie : EntryPtr → EntryPtr → Bool) (db : BlockTreeDb) (cs : Chainstate) :
    Chainstate :=
  if cs.blockfilesIndexed then
    let vSortedByHeight := (List.range db.tree.entries.length).mergeSort fun a b =>
      (db.tree.height? a).getD 0 ≤ (db.tree.height? b).getD 0
    let cs := { cs with tree := db.tree }
    let cs := vSortedByHeight.foldl (loadNode db.received) cs
    let cs := vSortedByHeight.foldl (loadBestHeader tie) cs
    { cs with blockfilesIndexed := !db.reindexing }
  else cs

/-- `PopulateBlockIndexCandidates` on one node. -/
def populateNode (tie : EntryPtr → EntryPtr → Bool) (cs : Chainstate) (pindex : EntryPtr) :
    Chainstate :=
  match cs.tree.index? pindex with
  | none => cs
  | some index =>
    if index.isValid blockValidTransactions &&
        (pindex ∈ cs.haveNumChainTxs || index.pprev.isNone) then
      cs.tryAddBlockIndexCandidate tie pindex
    else cs

/-- `PopulateBlockIndexCandidates`. -/
def populateBlockIndexCandidates (tie : EntryPtr → EntryPtr → Bool) (cs : Chainstate) :
    Chainstate :=
  (List.range cs.tree.entries.length).foldl (populateNode tie) cs

/-- `LoadChainTip` in a chainstate without a tip, with its assertion. -/
def loadChainTip (bestBlock : Uint256) (cs : Chainstate) : Except LoadFailure Chainstate :=
  match cs.tree.lookupBlockIndex bestBlock with
  | none => .error .null
  | some pindex =>
    if cs.setBlockIndexCandidates.isEmpty then .ok (cs.setTip pindex) else .error .abort

/-- `ReplayBlocks`: the best block of the coins afterwards. -/
def replayBlocks (readable : Bool) (coins : CoinsDb) (cs : Chainstate) :
    Except LoadFailure Uint256 :=
  match coins.headBlocks with
  | [] => .ok coins.bestBlock
  | [new, old] =>
    if cs.tree.lookupBlockIndex new = none then .error .null
    else if old ≠ Uint256.null ∧ cs.tree.lookupBlockIndex old = none then .error .null
    else if readable then .ok new
    else .error .null
  | _ => .error .null

/-- `LoadGenesisBlock` during the initialization. -/
def initGenesisBlock (tie : EntryPtr → EntryPtr → Bool) (writeBlock : Bool) (cs : Chainstate) :
    Except LoadFailure Chainstate := do
  let (loaded, cs) ← assertSome (cs.loadGenesisBlock hash256 params tie writeBlock)
  failIf !loaded
  return cs

/-- `CompleteChainstateInitialization`, up to the block tree with its genesis
block. -/
def initBlockTree (opts : Options) (dir : DataDir) (env : LoadEnv) :
    Except LoadFailure Chainstate := do
  failIf env.interrupted
  let db := opts.openBlockTree dir
  failIf (!opts.wipeBlockTree && !env.loadBlockIndexDb)
  let cs := (initial !opts.wipeBlockTree).loadBlockIndex env.tie db
  failIf (!cs.tree.entries.isEmpty && cs.tree.lookupBlockIndex params.hashGenesisBlock = none)
  failIf (!opts.wipeBlockTree && db.prunedBlockFiles)
  if cs.blockfilesIndexed then cs.initGenesisBlock hash256 params env.tie env.writeGenesis
  else return cs

/-- `CompleteChainstateInitialization`, from the coins database to the tip. -/
def initChainTip (opts : Options) (dir : DataDir) (env : LoadEnv) (cs : Chainstate) :
    Except LoadFailure Chainstate := do
  failIf (!env.openCoinsDb || env.needsUpgrade)
  let bestBlock ← cs.replayBlocks env.replayBlocks (opts.openCoins dir)
  if opts.wipeChainstate || bestBlock = Uint256.null then return cs
  else cs.loadChainTip bestBlock

/-- `CompleteChainstateInitialization`. -/
def completeChainstateInitialization (opts : Options) (dir : DataDir) (env : LoadEnv) :
    Except LoadFailure Chainstate := do
  let cs ← initBlockTree hash256 params opts dir env
  let cs ← cs.initChainTip opts dir env
  failIf env.needsRedownload
  return cs.populateBlockIndexCandidates env.tie

/-- `ChainstateManagerBuilder::build`, with `btck_chainstate_manager_create`. -/
def build (opts : Options) (dir : DataDir) (env : LoadEnv) : Except LoadFailure Chainstate := do
  let cs ← completeChainstateInitialization hash256 params opts dir env
  failIf !env.verifyLoadedChainstate
  let (activated, cs) ← assertSome (activateBestChain params.toParams env.activation none cs)
  failIf !activated
  return cs

end Chainstate

/-! ## Calls -/

/-- The calls that can change a manager. -/
inductive ManagerCall
  | processBlock (tie : EntryPtr → EntryPtr → Bool) (env : Surroundings)
      (activation : List (Nat × ActivateEnv)) (object : BlockObject)
  | processBlockHeader (now : Int) (books : Books) (header : BlockHeader)
  | importBlocks (env : Chainstate.ImportEnv)

/-- The manager after a call. -/
def Chainstate.step (cs : Chainstate) : ManagerCall → Option Chainstate
  | .processBlock tie env activation object =>
    (cs.processBlock hash256 params tie env activation object).map (·.2)
  | .processBlockHeader now books header =>
    (cs.processBlockHeader hash256 params now books header).map (·.2)
  | .importBlocks env => cs.importBlocks hash256 params env

end BitcoinKernel.Validation.Chainman
