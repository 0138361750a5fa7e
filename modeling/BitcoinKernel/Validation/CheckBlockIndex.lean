import BitcoinKernel.State.Chain

/-!
# The self-check of the block index

`CheckBlockIndex` (`validation.cpp`) walks over the whole block tree and asserts what its
nodes should satisfy.  On the regression test network it runs after every header and every
block; a failed assertion ends the process (`none`).

The source walks depth-first from the genesis block.  At a node each of its seven pointers
`pindexFirst…` holds the oldest node on the path to it that has some flaw.  So the model looks
at every node below the genesis block with its path (`visitAt`); the order of the nodes plays
no role, since they are only counted.

What the check reads beside the tree stands in `Books`.  There is one chainstate, without a
snapshot and without a target block.
-/

namespace BitcoinKernel.Validation.Chainman

open State State.BlockTree

/-- What `CheckBlockIndex` reads of the nodes, the chainstate and the block manager, beside
the tree. -/
structure Books where
  nTx : EntryPtr → Nat := fun _ => 0
  /-- `m_chain_tx_count`. -/
  chainTxCount : EntryPtr → Nat := fun _ => 0
  setBlockIndexCandidates : List EntryPtr := []
  /-- `m_blocks_unlinked`: previous nodes and their children. -/
  blocksUnlinked : List (EntryPtr × EntryPtr) := []
  havePruned : Bool := false
  /-- The addresses of the nodes. -/
  address : EntryPtr → Nat := id

/-- `nStatus & BLOCK_VALID_MASK`. -/
def validity (index : BlockIndex) : Nat := index.nStatus &&& blockValidMask

/-- What `CheckBlockIndex` looks for: one flaw for each of its pointers `pindexFirst…`. -/
inductive Flaw
  | invalid
  | missing
  | neverProcessed
  | notTreeValid
  | notTransactionsValid
  | notChainValid
  | notScriptsValid
deriving DecidableEq, Repr

/-- Whether a node has the flaw. -/
def Flaw.has (books : Books) (e : EntryPtr) (index : BlockIndex) : Flaw → Bool
  | invalid => index.failedValid
  | missing => !index.haveData
  | neverProcessed => books.nTx e = 0
  | notTreeValid => index.pprev.isSome && validity index < blockValidTree
  | notTransactionsValid => index.pprev.isSome && validity index < blockValidTransactions
  -- `BLOCK_VALID_CHAIN` and `BLOCK_VALID_SCRIPTS`
  | notChainValid => index.pprev.isSome && validity index < 4
  | notScriptsValid => index.pprev.isSome && validity index < 5

/-- What the walk knows at a node. -/
structure Visit where
  /-- The oldest node with a flaw, from the genesis block down to this node. -/
  first : Flaw → Option EntryPtr
  nHeight : Nat
  e : EntryPtr
  index : BlockIndex
  prev : Option BlockIndex
  skip : Option BlockIndex

namespace Visit

variable (books : Books) (v : Visit)

/-- The assertions on the links of a node.  `genesis` is the first block of the active
chain. -/
def LinksOk (hashGenesisBlock : Uint256) (genesis : Option EntryPtr) : Prop :=
  (v.index.pprev = none → v.index.hash = hashGenesisBlock ∧ (genesis = none ∨ genesis = some v.e)) ∧
  v.index.nHeight = v.nHeight ∧
  v.prev.all (·.nChainWork ≤ v.index.nChainWork) = true ∧
  (v.nHeight < 2 ∨ v.skip.any (·.nHeight < v.nHeight) = true)

/-- The assertions on the numbers of transactions.  16 is `BLOCK_HAVE_UNDO`. -/
def CountsOk : Prop :=
  (books.chainTxCount v.e = 0 → v.index.nSequenceId ≤ 1) ∧
  (if books.havePruned then v.index.haveData = true → 0 < books.nTx v.e
    else (v.index.haveData = false ↔ books.nTx v.e = 0) ∧
      v.first .missing = v.first .neverProcessed) ∧
  (v.index.nStatus &&& 16 ≠ 0 → v.index.haveData = true) ∧
  (blockValidTransactions ≤ validity v.index ↔ 0 < books.nTx v.e) ∧
  (v.first .neverProcessed = none ↔ books.chainTxCount v.e ≠ 0) ∧
  (v.first .notTransactionsValid = none ↔ books.chainTxCount v.e ≠ 0) ∧
  books.chainTxCount v.e = match v.index.pprev with
    | none => books.nTx v.e
    | some prev =>
      if 0 < books.chainTxCount prev ∧ 0 < books.nTx v.e then
        (books.nTx v.e + books.chainTxCount prev) % 2 ^ 64
      else 0

/-- The assertions on the validity of a node and of its ancestors. -/
def ValidityOk : Prop :=
  v.first .notTreeValid = none ∧
  (4 ≤ validity v.index → v.first .notChainValid = none) ∧
  (5 ≤ validity v.index → v.first .notScriptsValid = none) ∧
  (v.first .invalid = none ↔ v.index.failedValid = false)

/-- `CBlockIndexWorkComparator`, for the node and the tip. -/
def worseThan (tip : EntryPtr) (tipIndex : BlockIndex) : Bool :=
  if v.index.nChainWork ≠ tipIndex.nChainWork then v.index.nChainWork < tipIndex.nChainWork
  else if v.index.nSequenceId ≠ tipIndex.nSequenceId then
    v.index.nSequenceId > tipIndex.nSequenceId
  else books.address v.e > books.address tip

/-- The assertions on `setBlockIndexCandidates`. -/
def CandidateOk (tip : EntryPtr) (tipIndex : BlockIndex) : Prop :=
  if v.worseThan books tip tipIndex = false ∧ v.first .neverProcessed = none then
    v.first .invalid = none ∧ (v.first .missing = none ∨ v.e = tip) →
      v.e ∈ books.setBlockIndexCandidates
  else v.e ∉ books.setBlockIndexCandidates

/-- How often the node is found in `m_blocks_unlinked`. -/
def unlinked : Nat := books.blocksUnlinked.countP fun p => some p.1 = v.index.pprev ∧ p.2 = v.e

/-- The assertions on `m_blocks_unlinked`. -/
def UnlinkedOk (tip : EntryPtr) (tipIndex : BlockIndex) : Prop :=
  v.unlinked books ≤ 1 ∧
  (v.index.pprev ≠ none ∧ v.index.haveData = true ∧ v.first .neverProcessed ≠ none ∧
    v.first .invalid = none → v.unlinked books = 1) ∧
  (v.index.haveData = false → v.unlinked books = 0) ∧
  (v.first .missing = none → v.unlinked books = 0) ∧
  (v.index.pprev ≠ none ∧ v.index.haveData = true ∧ v.first .neverProcessed = none ∧
    v.first .missing ≠ none → books.havePruned = true ∧
      (v.worseThan books tip tipIndex = false ∧ v.e ∉ books.setBlockIndexCandidates ∧
        v.first .invalid = none → v.unlinked books = 1))

/-- The assertions on a node, but for the one on the work of the best header. -/
def NodeOk (hashGenesisBlock : Uint256) (genesis : Option EntryPtr) (tip : EntryPtr)
    (tipIndex : BlockIndex) : Prop :=
  v.LinksOk hashGenesisBlock genesis ∧ v.CountsOk books ∧ v.ValidityOk ∧
    v.CandidateOk books tip tipIndex ∧ v.UnlinkedOk books tip tipIndex

variable (hashGenesisBlock : Uint256) (genesis : Option EntryPtr) (tip : EntryPtr)
  (tipIndex : BlockIndex)

instance : Decidable (v.LinksOk hashGenesisBlock genesis) := by delta LinksOk; infer_instance

instance : Decidable (v.CountsOk books) := by delta CountsOk; infer_instance

instance : Decidable v.ValidityOk := by delta ValidityOk; infer_instance

instance : Decidable (v.CandidateOk books tip tipIndex) := by delta CandidateOk; infer_instance

instance : Decidable (v.UnlinkedOk books tip tipIndex) := by delta UnlinkedOk; infer_instance

instance : Decidable (v.NodeOk books hashGenesisBlock genesis tip tipIndex) := by
  delta NodeOk; infer_instance

end Visit

/-- The nodes from the genesis block down to a node. -/
def pathTo (t : BlockTree) (e : EntryPtr) : List EntryPtr :=
  (CChain.setTip t {} e).vChain.reduceOption

/-- The node as the walk finds it. -/
def visitAt (books : Books) (t : BlockTree) (e : EntryPtr) (index : BlockIndex) : Visit where
  first flaw := (pathTo t e).find? fun x => (t.index? x).any fun i => flaw.has books x i
  nHeight := (pathTo t e).length - 1
  e
  index
  prev := index.pprev.bind t.index?
  skip := index.pskip.bind t.index?

variable (hashGenesisBlock : Uint256) (books : Books) (t : BlockTree)

/-- All assertions on a node. -/
def EntryOk (bestIndex : BlockIndex) (tip : EntryPtr) (tipIndex : BlockIndex) (e : EntryPtr)
    (index : BlockIndex) : Prop :=
  (visitAt books t e index).NodeOk books hashGenesisBlock (pathTo t tip).head? tip tipIndex ∧
    (index.failedValid = true ∨ index.nChainWork ≤ bestIndex.nChainWork)

instance (bestIndex : BlockIndex) (tip : EntryPtr) (tipIndex : BlockIndex) (e : EntryPtr)
    (index : BlockIndex) :
    Decidable (EntryOk hashGenesisBlock books t bestIndex tip tipIndex e index) :=
  inferInstanceAs (Decidable (_ ∧ _))

/-- `CheckBlockIndex`, where it runs. -/
def checkTree (bestHeader tip : Option EntryPtr) : Option Unit :=
  match tip with
  | none => if t.entries.length ≤ 1 then some () else none
  | some tip => do
      let tipIndex ← t.index? tip
      let best ← bestHeader
      let bestIndex ← t.index? best
      let bestHdrChain := CChain.setTip t {} best
      let forward :=
        (List.range t.entries.length).filter fun e => !bestHdrChain.contains t e
      let size := forward.length + bestHdrChain.vChain.length
      let pindex ← bestHdrChain.get 0
      let nodes := (List.range t.entries.length).filter fun e => (pathTo t e).head? = some pindex
      if bestIndex.failedValid = false ∧ (∀ e ∈ forward, t.parent e ≠ none) ∧
          size = t.entries.length ∧ nodes.length = size ∧
          (∀ e ∈ nodes, ∀ index ∈ t.index? e,
            EntryOk hashGenesisBlock books t bestIndex tip tipIndex e index) then
        return ()
      else none

end BitcoinKernel.Validation.Chainman
