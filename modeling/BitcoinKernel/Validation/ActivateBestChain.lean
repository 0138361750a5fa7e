import BitcoinKernel.Validation.Chainman

/-!
# Activating the best chain

`FindMostWorkChain`, `ActivateBestChainStep`, `ConnectTip`, `DisconnectTip` and
`ActivateBestChain` (`validation.cpp`), with the state they work on: the active
chain, the set of candidates for its tip, and what is known of blocks whose
ancestors are not there yet.

`setBlockIndexCandidates` is a list.  Its order plays no role, because the
functions here look for the largest element by `CBlockIndexWorkComparator`.
Two blocks with the same work are told apart by the time of their arrival and by
their address, which is a parameter (`tie`).

What a call finds outside of the chainstate stands in `ActivateEnv`: the answers
of the disk, the verdict on each block, and the interrupts.  Every turn of the
outer loop of `ActivateBestChain` is one locked section with an environment of
its own.  The genesis block has no verdict.  `ConnectBlock` connects it without
looking at its transactions, after `CheckBlock`, which it has passed before it was
stored.

Left out are the notifications, the mempool, the flushes that do not fail, the
self-check `CheckBlockIndex` and the target block of a background chainstate.
-/

namespace BitcoinKernel.State

/-- `CBlockIndex::IsValid`. -/
def BlockIndex.isValid (index : BlockIndex) (nUpTo : Nat) : Bool :=
  if index.failedValid then false else index.nStatus &&& blockValidMask ≥ nUpTo

/-- `nChainWork` of a node. -/
def BlockTree.chainWork (t : BlockTree) (e : EntryPtr) : Nat :=
  ((t.index? e).map BlockIndex.nChainWork).getD 0

namespace CChain

/-- The loop of `FindFork`. -/
def findForkLoop (c : CChain) (t : BlockTree) : Nat → Option EntryPtr → Option EntryPtr
  | 0, _ => none
  | _ + 1, none => none
  | fuel + 1, some pindex =>
    if c.contains t pindex then some pindex else findForkLoop c t fuel (t.parent pindex)

/-- `CChain::FindFork`.  The inner `none` is the null pointer. -/
def findFork (c : CChain) (t : BlockTree) (e : EntryPtr) : Option (Option EntryPtr) := do
  let index ← t.index? e
  let pindex ← if index.nHeight > c.height then t.getAncestor e c.height else some (some e)
  return c.findForkLoop t (index.nHeight + 1) pindex

end CChain

end BitcoinKernel.State

namespace BitcoinKernel.Validation.Chainman

open Serialize Consensus State State.BlockTree

/-- `Chainstate`, with the manager that it belongs to. -/
structure Chainstate extends ChainstateManager where
  /-- `m_chain`. -/
  chain : CChain := {}
  setBlockIndexCandidates : List EntryPtr := []
  /-- The nodes with `HaveNumChainTxs`. -/
  haveNumChainTxs : List EntryPtr := []
  /-- `m_blocks_unlinked`: previous nodes and their children. -/
  blocksUnlinked : List (EntryPtr × EntryPtr) := []
  /-- `m_blockfiles_indexed`. -/
  blockfilesIndexed : Bool := true

/-- The verdict of `ConnectBlock`. -/
inductive ConnectVerdict
  | connected
  | invalid (result : BlockValidationResult)
  /-- A system error. -/
  | error
deriving DecidableEq, Repr

/-- What a locked section of `ActivateBestChain` finds outside of the
chainstate. -/
structure ActivateEnv where
  /-- The first of two blocks with the same work is the smaller one. -/
  tie : EntryPtr → EntryPtr → Bool
  /-- The order of the hash map of the block index. -/
  order : List EntryPtr
  readBlock : EntryPtr → Bool
  connectBlock : EntryPtr → ConnectVerdict
  /-- `DisconnectTip` can read the block and its undo data, and flush. -/
  disconnectBlock : EntryPtr → Bool
  /-- `FlushStateToDisk` in `ConnectTip`, and at the end of the section. -/
  flushConnected : EntryPtr → Bool
  flushPeriodic : Bool
  /-- `blockTip` answers with an interrupt. -/
  blockTipInterrupted : Bool
  /-- `m_interrupt`, at the end of the section. -/
  interrupted : Bool

/-- `CBlockIndexWorkComparator`. -/
def workLess (tie : EntryPtr → EntryPtr → Bool) (t : BlockTree) (pa pb : EntryPtr) : Bool :=
  if t.chainWork pa > t.chainWork pb then false
  else if t.chainWork pa < t.chainWork pb then true
  else tie pa pb

/-- The last element of a set that `less` orders. -/
def lastOf (less : EntryPtr → EntryPtr → Bool) : List EntryPtr → Option EntryPtr
  | [] => none
  | e :: es =>
    match lastOf less es with
    | none => some e
    | some best => if less best e then some e else some best

namespace Chainstate

variable (cs : Chainstate)

/-- `m_chain.SetTip`. -/
def setTip (e : EntryPtr) : Chainstate :=
  let chain := CChain.setTip cs.tree cs.chain e
  { cs with chain, tip := chain.tip }

/-- `setBlockIndexCandidates.erase`. -/
def eraseCandidate (e : EntryPtr) : Chainstate :=
  { cs with setBlockIndexCandidates := cs.setBlockIndexCandidates.filter (· ≠ e) }

/-- `setBlockIndexCandidates.insert`. -/
def insertCandidate (e : EntryPtr) : Chainstate :=
  if e ∈ cs.setBlockIndexCandidates then cs
  else { cs with setBlockIndexCandidates := e :: cs.setBlockIndexCandidates }

/-- `AddUnlinkedBlock`. -/
def addUnlinkedBlock (prev e : EntryPtr) : Chainstate :=
  if (prev, e) ∈ cs.blocksUnlinked then cs
  else { cs with blocksUnlinked := cs.blocksUnlinked ++ [(prev, e)] }

/-! ## Candidates -/

/-- `TryAddBlockIndexCandidate`, without a target block. -/
def tryAddBlockIndexCandidate (tie : EntryPtr → EntryPtr → Bool) (pindex : EntryPtr) : Chainstate :=
  match cs.chain.tip with
  | some tip => if workLess tie cs.tree pindex tip then cs else cs.insertCandidate pindex
  | none => cs.insertCandidate pindex

/-- `PruneBlockIndexCandidates`, with its assertion. -/
def pruneBlockIndexCandidates (tie : EntryPtr → EntryPtr → Bool) : Option Chainstate := do
  let tip ← cs.chain.tip
  let left := cs.setBlockIndexCandidates.filter fun e => !workLess tie cs.tree e tip
  if left.isEmpty then none else return { cs with setBlockIndexCandidates := left }

/-- The loop of `FindMostWorkChain` over the path of a candidate, with its
assertion.  The inner result is the first node that cannot be connected. -/
def firstUnusable : Nat → Option EntryPtr → Option (Option EntryPtr)
  | _, none => some none
  | 0, some _ => none
  | fuel + 1, some pindexTest =>
    if cs.chain.contains cs.tree pindexTest then some none
    else do
      let index ← cs.tree.index? pindexTest
      if !(pindexTest ∈ cs.haveNumChainTxs || index.nHeight = 0) then none
      else if index.failedValid || !index.haveData then some (some pindexTest)
      else firstUnusable fuel index.pprev

/-- `FindMostWorkChain` removes a path from the set, down to the node that cannot
be connected.  Blocks above a node without data are unlinked. -/
def removeChain (pindexTest : EntryPtr) (unlink : Bool) :
    Nat → EntryPtr → Chainstate → Option Chainstate
  | 0, _, _ => none
  | fuel + 1, pindexFailed, cs =>
    if pindexFailed = pindexTest then some (cs.eraseCandidate pindexTest)
    else do
      let prev ← cs.tree.parent pindexFailed
      let cs := if unlink then cs.addUnlinkedBlock prev pindexFailed else cs
      removeChain pindexTest unlink fuel prev (cs.eraseCandidate pindexFailed)

/-- The loop of `FindMostWorkChain`.  Every turn takes a candidate out of the
set, so its size is enough fuel. -/
def findMostWorkChainLoop (tie : EntryPtr → EntryPtr → Bool) :
    Nat → Chainstate → Option (Option EntryPtr × Chainstate)
  | 0, cs => some (none, cs)
  | fuel + 1, cs =>
    match lastOf (workLess tie cs.tree) cs.setBlockIndexCandidates with
    | none => some (none, cs)
    | some pindexNew => do
        let height ← cs.tree.height? pindexNew
        match ← cs.firstUnusable (height + 1) (some pindexNew) with
        | none => return (some pindexNew, cs)
        | some pindexTest => do
            let index ← cs.tree.index? pindexTest
            let unlink := !index.haveData && !index.failedValid
            let cs ← removeChain pindexTest unlink (height + 1) pindexNew cs
            findMostWorkChainLoop tie fuel cs

/-- `FindMostWorkChain`. -/
def findMostWorkChain (tie : EntryPtr → EntryPtr → Bool) : Option (Option EntryPtr × Chainstate) :=
  findMostWorkChainLoop tie cs.setBlockIndexCandidates.length cs

/-! ## One step -/

/-- `InvalidChainFound`. -/
def invalidChainFound (pindexNew : EntryPtr) (order : List EntryPtr) : Option Chainstate := do
  let m ← Chainman.invalidChainFound cs.toChainstateManager pindexNew order
  return { cs with toChainstateManager := m }

/-- `InvalidBlockFound`. -/
def invalidBlockFound (pindex : EntryPtr) (result : BlockValidationResult)
    (order : List EntryPtr) : Option Chainstate := do
  let m ← Chainman.invalidBlockFound cs.toChainstateManager pindex
    { mode := .invalid, result := some result } order
  let cs := if result ≠ .blockMutated then cs.eraseCandidate pindex else cs
  return { cs with toChainstateManager := m }

variable (params : Params) (env : ActivateEnv)

/-- `DisconnectTip`, with its assertions.  The boolean is false after a system
error. -/
def disconnectTip : Option (Bool × Chainstate) := do
  let pindexDelete ← cs.chain.tip
  let pprev ← cs.tree.parent pindexDelete
  if !env.disconnectBlock pindexDelete then return (false, cs) else return (true, cs.setTip pprev)

/-- The loop of `ActivateBestChainStep` that disconnects blocks. -/
def disconnectTo (pindexFork : Option EntryPtr) : Nat → Chainstate → Option (Bool × Chainstate)
  | 0, _ => none
  | fuel + 1, cs =>
    match cs.chain.tip with
    | none => some (true, cs)
    | some tip =>
      if some tip = pindexFork then some (true, cs)
      else do
        let (ok, cs) ← cs.disconnectTip env
        if ok then disconnectTo pindexFork fuel cs else return (false, cs)

/-- `ConnectTip`, with its assertion. -/
def connectTip (pindexNew : EntryPtr) : Option (ConnectVerdict × Chainstate) := do
  let index ← cs.tree.index? pindexNew
  if index.pprev ≠ cs.chain.tip then none
  else if !env.readBlock pindexNew then return (.error, cs)
  else
    let verdict :=
      if index.hash = params.hashGenesisBlock then .connected else env.connectBlock pindexNew
    match verdict with
    | .error => return (.error, cs)
    | .invalid result => do
        let cs ← cs.invalidBlockFound pindexNew result env.order
        return (.invalid result, cs)
    | .connected =>
      if !env.flushConnected pindexNew then return (.error, cs)
      else return (.connected, cs.setTip pindexNew)

/-- `vpindexToConnect`: the nodes above a height on the way down from a node. -/
def pathAbove (t : BlockTree) (nHeight : Int) : Nat → Option EntryPtr → List EntryPtr
  | 0, _ => []
  | _ + 1, none => []
  | fuel + 1, some pindexIter =>
    match t.index? pindexIter with
    | none => []
    | some index =>
      if (index.nHeight : Int) = nHeight then []
      else pindexIter :: pathAbove t nHeight fuel index.pprev

/-- How a loop of `ActivateBestChainStep` ends. -/
inductive StepEnd
  /-- All blocks are connected. -/
  | reached
  /-- The new tip has more work than the old one. -/
  | better
  | invalidFound
  | error
deriving DecidableEq, Repr

/-- `ActivateBestChainStep` connects the blocks of `vpindexToConnect`, whose first
element is `front`. -/
def connectBlocks (pindexOldTip : Option EntryPtr) (front : EntryPtr) :
    List EntryPtr → Chainstate → Option (StepEnd × Chainstate)
  | [], cs => some (.reached, cs)
  | pindexConnect :: rest, cs => do
      match ← cs.connectTip params env pindexConnect with
      | (.error, cs) => return (.error, cs)
      | (.invalid result, cs) => do
          let cs ← if result ≠ .blockMutated then cs.invalidChainFound front env.order else some cs
          return (.invalidFound, cs)
      | (.connected, cs) => do
          let cs ← cs.pruneBlockIndexCandidates env.tie
          match pindexOldTip, cs.chain.tip with
          | some old, some tip =>
            if cs.tree.chainWork tip > cs.tree.chainWork old then return (.better, cs)
            else connectBlocks pindexOldTip front rest cs
          | _, _ => return (.better, cs)

/-- The blocks of `vpindexToConnect`, from the lowest to the highest. -/
def connectVector (pindexOldTip : Option EntryPtr) (vpindexToConnect : List EntryPtr)
    (cs : Chainstate) : Option (StepEnd × Chainstate) :=
  match vpindexToConnect with
  | [] => some (.reached, cs)
  | front :: _ => connectBlocks params env pindexOldTip front vpindexToConnect.reverse cs

/-- The loop of `ActivateBestChainStep` that connects 32 blocks at a time. -/
def connectUpTo (pindexOldTip : Option EntryPtr) (indexMostWork : EntryPtr) (height : Nat) :
    Nat → Int → Chainstate → Option (StepEnd × Chainstate)
  | 0, _, _ => none
  | fuel + 1, nHeight, cs =>
    if nHeight = height then some (.reached, cs)
    else do
      let nTargetHeight := min (nHeight + 32) height
      let pindexIter ← cs.tree.getAncestor indexMostWork nTargetHeight
      let vpindexToConnect := pathAbove cs.tree nHeight (height + 1) pindexIter
      let (stepEnd, cs) ← connectVector params env pindexOldTip vpindexToConnect cs
      if stepEnd = .reached then
        connectUpTo pindexOldTip indexMostWork height fuel nTargetHeight cs
      else return (stepEnd, cs)

/-- `ActivateBestChainStep`. -/
def activateBestChainStep (indexMostWork : EntryPtr) : Option (StepEnd × Chainstate) := do
  let pindexOldTip := cs.chain.tip
  let pindexFork ← cs.chain.findFork cs.tree indexMostWork
  let (ok, cs) ← disconnectTo env pindexFork (cs.chain.vChain.length + 1) cs
  if !ok then return (.error, cs)
  else
    let height ← cs.tree.height? indexMostWork
    let nHeight : Int :=
      match pindexFork.bind cs.tree.height? with
      | some forkHeight => forkHeight
      | none => -1
    connectUpTo params env pindexOldTip indexMostWork height (height + 2) nHeight cs

/-! ## The loops of `ActivateBestChain` -/

/-- A locked section of `ActivateBestChain`: whether it met no system error,
whether it has connected blocks, and `pindexMostWork` at its end. -/
structure Section where
  ok : Bool
  blocksConnected : Bool
  pindexMostWork : Option EntryPtr
  chainstate : Chainstate

/-- `pindexMostWork`, which is looked for if it is null. -/
def chooseMostWork (tie : EntryPtr → EntryPtr → Bool) (pindexMostWork : Option EntryPtr) :
    Option (Option EntryPtr × Chainstate) :=
  match pindexMostWork with
  | some pindex => some (some pindex, cs)
  | none => cs.findMostWorkChain tie

/-- The loop of a section.  It goes on until there is progress. -/
def activateSection (startingTip : Option EntryPtr) :
    Nat → Bool → Option EntryPtr → Chainstate → Option Section
  | 0, _, _, _ => none
  | fuel + 1, blocksConnected, pindexMostWork, cs => do
      let (mostWork, cs) ← cs.chooseMostWork env.tie pindexMostWork
      match mostWork with
      | none => return { ok := true, blocksConnected, pindexMostWork := none, chainstate := cs }
      | some most =>
        if cs.chain.tip = some most then
          return { ok := true, blocksConnected, pindexMostWork := most, chainstate := cs }
        else do
          let (stepEnd, cs) ← cs.activateBestChainStep params env most
          if stepEnd = .error then
            return { ok := false, blocksConnected, pindexMostWork := most, chainstate := cs }
          else
            let mostWork := if stepEnd = .invalidFound then none else some most
            let again :=
              match cs.chain.tip, startingTip with
              | none, _ => true
              | some tip, some start => workLess env.tie cs.tree tip start
              | some _, none => false
            if again then activateSection startingTip fuel true mostWork cs
            else
              return { ok := true, blocksConnected := true, pindexMostWork := mostWork,
                       chainstate := cs }

/-- `ActivateBestChain`, with one environment for each section and the turns that
its loop may take.  The boolean is the return value. -/
def activateBestChain :
    List (Nat × ActivateEnv) → Option EntryPtr → Chainstate → Option (Bool × Chainstate)
  | [], _, _ => none
  | (turns, env) :: envs, pindexMostWork, cs => do
      let section_ ← activateSection params env cs.chain.tip turns false pindexMostWork cs
      let cs := section_.chainstate
      if !section_.ok then return (false, cs)
      else if !section_.blocksConnected || env.blockTipInterrupted then return (true, cs)
      else if !env.flushPeriodic then return (false, cs)
      else if env.interrupted || section_.pindexMostWork = cs.chain.tip then return (true, cs)
      else activateBestChain envs section_.pindexMostWork cs

end Chainstate

end BitcoinKernel.Validation.Chainman
