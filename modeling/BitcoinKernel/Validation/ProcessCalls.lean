import BitcoinKernel.Lib.Runs
import BitcoinKernel.Validation.HeaderTree

/-!
# Runs of `process_block` and `process_block_header`

A call of `process_block` takes the lock several times.  In its first section
it checks the block and stores it.  Then `ActivateBestChain` takes the lock any
number of times, and at the end the call returns.  Other calls can run between
the sections, so a run is a list of sections (`Op`) and the world remembers
the calls that are still open.

`ActivateBestChain` connects and disconnects blocks.  Of the block index it
writes statuses, of the manager the best header and the tip.  An `Activation`
is any such change that leaves `BLOCK_HAVE_DATA` alone: only
`ReceivedBlockTransactions` sets that flag, and only pruning clears it.

A `Call` carries three fields that the source does not have: whether the data
of the block was stored when the call began, the hashes whose data it has
stored itself, and its answer.

Of the block tree, a section adds at most one header and changes statuses
(`acceptBlock_tree`, `processNewBlock_tree`).
-/

namespace BitcoinKernel.Validation.Chainman

open Serialize Consensus State State.BlockTree Option

/-! ## The machine -/

/-- One locked section of `ActivateBestChain`. -/
structure Activation where
  status : EntryPtr → Nat → Nat
  keepsData : ∀ e nStatus, status e nStatus &&& blockHaveData = nStatus &&& blockHaveData
  bestHeader : Option EntryPtr
  tip : Option EntryPtr

/-- The manager after a section of `ActivateBestChain`. -/
def Activation.apply (a : Activation) (m : ChainstateManager) : ChainstateManager :=
  { tree := m.tree.mapStatus a.status, bestHeader := a.bestHeader, tip := a.tip }

/-- `ProcessBlockResult`. -/
inductive ProcessBlockResult
  | newBlock
  | duplicate
  | rejected
deriving DecidableEq, Repr

/-- The answer of `process_block` by the return value and the flag of
`btck_chainstate_manager_process_block`. -/
def processBlockResult (isAccepted isNew : Bool) : ProcessBlockResult :=
  match isAccepted, isNew with
  | true, true => .newBlock
  | true, false => .duplicate
  | false, _ => .rejected

/-- The hashes of the blocks whose data is stored. -/
def ChainstateManager.stored (m : ChainstateManager) : List Uint256 :=
  (m.tree.entries.filter BlockIndex.haveData).map BlockIndex.hash

/-- A call of `process_block`. -/
structure Call where
  hash : Uint256
  /-- The data of the block was stored when the call began. -/
  hadData : Bool
  /-- `*new_block`. -/
  newBlock : Bool
  /-- The hashes whose data the sections of the call have stored. -/
  added : List Uint256
  /-- The answer, once the call has returned. -/
  result : Option ProcessBlockResult
deriving DecidableEq, Repr

/-- A manager, the blocks that the program holds and the calls so far. -/
structure World where
  manager : ChainstateManager
  blocks : List BlockObject := []
  calls : List Call := []

/-- The sections of the calls.  Blocks and calls are named by their position. -/
inductive Op
  /-- A new block object. -/
  | blockCreate (block : Block)
  | processBlockHeader (header : BlockHeader) (now : Int) (books : Books := {})
  /-- A new call of `process_block`, up to the end of its first section. -/
  | processBlock (block : Nat) (env : Surroundings)
  /-- A section of `ActivateBestChain` in a call. -/
  | activateBestChain (call : Nat) (activation : Activation)
  /-- The return of a call.  `activated` is the answer of `ActivateBestChain`. -/
  | processBlockReturn (call : Nat) (activated : Bool)

/-- The hashes stored in the second manager and not in the first. -/
def storedSince (m m' : ChainstateManager) : List Uint256 :=
  m'.stored.filter (· ∉ m.stored)

variable (hash256 : List UInt8 → Uint256) (params : Params)

/-- The record of a call after its first section.  A block that is not accepted
is rejected at once. -/
def Call.ofSection (m : ChainstateManager) (hash : Uint256) (r : AcceptedBlock) : Call where
  hash
  hadData := hash ∈ m.stored
  newBlock := r.fNewBlock
  added := storedSince m r.manager
  result := if r.accepted then none else some (processBlockResult false r.fNewBlock)

/-- One section.  A section of a call that is not open does not exist, and
changes nothing here. -/
def World.step (w : World) : Op → Option World
  | .blockCreate block => some { w with blocks := w.blocks ++ [{ block }] }
  | .processBlockHeader header now books => do
      let (_, manager) ← processBlockHeader hash256 params now books w.manager header
      return { w with manager }
  | .processBlock i env =>
    match w.blocks[i]? with
    | none => some w
    | some object => do
        let r ← processNewBlock hash256 params env w.manager object
        return { manager := r.manager
                 blocks := w.blocks.set i { object with cache := r.cache }
                 calls := w.calls ++ [Call.ofSection w.manager (object.block.getHash hash256) r] }
  | .activateBestChain i activation =>
    match w.calls[i]? with
    | some call =>
      if call.result.isNone then
        let manager := activation.apply w.manager
        let call := { call with added := call.added ++ storedSince w.manager manager }
        some { w with manager, calls := w.calls.set i call }
      else some w
    | none => some w
  | .processBlockReturn i activated =>
    match w.calls[i]? with
    | some call =>
      if call.result.isNone then
        let call := { call with result := some (processBlockResult activated call.newBlock) }
        some { w with calls := w.calls.set i call }
      else some w
    | none => some w

variable {hash256 params}

/-- What one section can do. -/
inductive World.StepCases (hash256 : List UInt8 → Uint256) (params : Params) (w : World) :
    Op → World → Prop
  /-- There is no such block, or no such call that is open. -/
  | skip {op : Op} : StepCases hash256 params w op w
  | blockCreate {block : Block} : StepCases hash256 params w (.blockCreate block)
        { w with blocks := w.blocks ++ [{ block }] }
  | processBlockHeader {header : BlockHeader} {now : Int} {books : Books}
      {result : ProcessBlockHeaderResult} {m' : ChainstateManager}
      (hheader : Chainman.processBlockHeader hash256 params now books w.manager header =
        some (result, m')) :
      StepCases hash256 params w (.processBlockHeader header now books) { w with manager := m' }
  | processBlock {i : Nat} {env : Surroundings} {object : BlockObject} {r : AcceptedBlock}
      (hobject : w.blocks[i]? = some object)
      (hr : processNewBlock hash256 params env w.manager object = some r) :
      StepCases hash256 params w (.processBlock i env)
        { manager := r.manager
          blocks := w.blocks.set i { object with cache := r.cache }
          calls := w.calls ++ [Call.ofSection w.manager (object.block.getHash hash256) r] }
  | activateBestChain {i : Nat} {activation : Activation} {call : Call}
      (hcall : w.calls[i]? = some call) (hopen : call.result = none) :
      StepCases hash256 params w (.activateBestChain i activation)
        { manager := activation.apply w.manager
          blocks := w.blocks
          calls := w.calls.set i
            { call with
              added := call.added ++ storedSince w.manager (activation.apply w.manager) } }
  | processBlockReturn {i : Nat} {activated : Bool} {call : Call}
      (hcall : w.calls[i]? = some call) (hopen : call.result = none) :
      StepCases hash256 params w (.processBlockReturn i activated)
        { manager := w.manager
          blocks := w.blocks
          calls := w.calls.set i
            { call with result := some (processBlockResult activated call.newBlock) } }

variable {w w' : World} {op : Op} {e : EntryPtr} {m m' : ChainstateManager} {order : List EntryPtr}
  {state : BlockValidationState} {env : Surroundings} {object : BlockObject} {r : AcceptedBlock}

theorem World.step_cases (h : w.step hash256 params op = some w') :
    w.StepCases hash256 params op w' := by
  cases op with
  | blockCreate block =>
    cases h
    exact .blockCreate
  | processBlockHeader header now books =>
    obtain ⟨⟨result, m'⟩, hheader, h⟩ := bind_eq_some_iff.mp h
    cases h
    exact .processBlockHeader hheader
  | processBlock i env =>
    unfold World.step at h
    cases hobject : w.blocks[i]? with
    | none =>
      simp only [hobject] at h
      cases h
      exact .skip
    | some object =>
      simp only [hobject] at h
      obtain ⟨r, hr, h⟩ := bind_eq_some_iff.mp h
      cases h
      exact .processBlock hobject hr
  | activateBestChain i activation =>
    unfold World.step at h
    cases hcall : w.calls[i]? with
    | none =>
      simp only [hcall] at h
      cases h
      exact .skip
    | some call =>
      simp only [hcall] at h
      split_ifs at h with hopen
      · cases h
        exact .activateBestChain hcall (isNone_iff_eq_none.mp hopen)
      · cases h
        exact .skip
  | processBlockReturn i activated =>
    unfold World.step at h
    cases hcall : w.calls[i]? with
    | none =>
      simp only [hcall] at h
      cases h
      exact .skip
    | some call =>
      simp only [hcall] at h
      split_ifs at h with hopen
      · cases h
        exact .processBlockReturn hcall (isNone_iff_eq_none.mp hopen)
      · cases h
        exact .skip

/-! ## The header tree along a run -/

theorem relabeled_setBlockFailureFlags {t t' : BlockTree} {nHeight : Nat}
    (h : setBlockFailureFlags t e nHeight = some t') : Relabeled t t' := by
  unfold setBlockFailureFlags at h
  obtain ⟨flags, -, h⟩ := bind_eq_some_iff.mp h
  cases h
  exact relabeled_mapStatus t _

theorem relabeled_invalidChainFound (h : invalidChainFound m e order = some m') :
    Relabeled m.tree m'.tree := by
  unfold invalidChainFound at h
  obtain ⟨index, -, h⟩ := bind_eq_some_iff.mp h
  obtain ⟨tree, htree, h⟩ := bind_eq_some_iff.mp h
  obtain ⟨best, -, h⟩ := bind_eq_some_iff.mp h
  obtain ⟨tip, -, h⟩ := bind_eq_some_iff.mp h
  cases h
  exact relabeled_setBlockFailureFlags htree

theorem relabeled_invalidBlockFound (h : invalidBlockFound m e state order = some m') :
    Relabeled m.tree m'.tree := by
  unfold invalidBlockFound at h
  split_ifs at h
  · exact (relabeled_mapStatus m.tree _).trans (relabeled_invalidChainFound h)
  · cases h
    exact Relabeled.refl _

theorem eraseStatus_raiseValidity (index : BlockIndex) (upTo : Nat) :
    eraseStatus (index.raiseValidity upTo) = eraseStatus index := by
  unfold BlockIndex.raiseValidity
  split_ifs <;> rfl

theorem relabeled_receivedBlockTransactions (t : BlockTree) (e : EntryPtr) :
    Relabeled t (receivedBlockTransactions params t e) := by
  intro i
  show ((t.entries.modify e _)[i]?).map eraseStatus = (t.entries[i]?).map eraseStatus
  rw [List.getElem?_modify]
  cases t.entries[i]? with
  | none => rfl
  | some index =>
    show some (eraseStatus (if e = i then _ else index)) = some (eraseStatus index)
    by_cases hei : e = i
    · rw [if_pos hei, eraseStatus_raiseValidity]
      rfl
    · rw [if_neg hei]

/-- The three ways out of `AcceptBlock` for a block whose data is not stored: it
is invalid, it could not be written, or it is stored. -/
theorem storeBlock_cases (h : storeBlock hash256 params env m object state e = some r) :
    (r.accepted = false ∧ r.fNewBlock = false ∧
      ∃ state', invalidBlockFound m e state' env.order = some r.manager) ∨
    (env.writeBlock = false ∧ r.manager = m) ∨
    (r.accepted = true ∧ r.fNewBlock = true ∧
      r.manager = { m with tree := receivedBlockTransactions params m.tree e }) := by
  unfold storeBlock at h
  obtain ⟨index, -, h⟩ := bind_eq_some_iff.mp h
  generalize runCheckBlock hash256 params object state = check at h
  obtain ⟨checked, state₁, cache⟩ := check
  dsimp only at h
  generalize (if checked = true then
    state₁.check (params.contextualCheckBlock m.tree index.pprev object.block)
    else (false, state₁)) = verdict at h
  obtain ⟨ok, state₂⟩ := verdict
  cases ok with
  | false =>
    obtain ⟨m', hm', h⟩ := bind_eq_some_iff.mp h
    cases h
    exact Or.inl ⟨rfl, rfl, state₂, hm'⟩
  | true =>
    cases hwrite : env.writeBlock with
    | false =>
      rw [hwrite] at h
      cases h
      exact Or.inr (Or.inl ⟨rfl, rfl⟩)
    | true =>
      rw [hwrite] at h
      obtain ⟨_, -, h⟩ := bind_eq_some_iff.mp h
      cases h
      exact Or.inr (Or.inr ⟨rfl, rfl, rfl⟩)

theorem relabeled_storeBlock (h : storeBlock hash256 params env m object state e = some r) :
    Relabeled m.tree r.manager.tree := by
  rcases storeBlock_cases h with ⟨-, -, state', hm'⟩ | ⟨-, hm'⟩ | ⟨-, -, hm'⟩
  · exact relabeled_invalidBlockFound hm'
  · rw [hm']
    exact Relabeled.refl _
  · rw [hm']
    exact relabeled_receivedBlockTransactions m.tree e

/-- `AcceptBlock` stops behind the header, which is rejected or whose data is stored, or goes
on to store the data. -/
theorem acceptBlock_cases (h : acceptBlock hash256 params env m object state = some r) :
    ∃ header, acceptBlockHeader hash256 params env.now m object.block.toBlockHeader state true =
        some header ∧
      ((r.fNewBlock = false ∧ r.manager = header.manager ∧
        (r.accepted = true → header.accepted = true ∧ ∃ e index, header.pindex = some e ∧
          header.manager.tree.index? e = some index ∧ index.haveData = true)) ∨
      (header.accepted = true ∧ ∃ e index, header.pindex = some e ∧
        header.manager.tree.index? e = some index ∧ index.haveData = false ∧
        storeBlock hash256 params env header.manager object header.state e = some r)) := by
  unfold acceptBlock at h
  obtain ⟨header, hheader, h⟩ := bind_eq_some_iff.mp h
  obtain ⟨_, -, h⟩ := bind_eq_some_iff.mp h
  refine ⟨header, hheader, ?_⟩
  cases haccepted : header.accepted with
  | false =>
    simp only [haccepted] at h
    cases h
    exact Or.inl ⟨rfl, rfl, nofun⟩
  | true =>
    simp only [haccepted, Bool.not_true, Bool.false_eq_true, if_false] at h
    obtain ⟨e, he, h⟩ := bind_eq_some_iff.mp h
    obtain ⟨index, hindex, h⟩ := bind_eq_some_iff.mp h
    split_ifs at h with hdata
    · cases h
      exact Or.inl ⟨rfl, rfl, fun _ => ⟨rfl, e, index, he, hindex, hdata⟩⟩
    · exact Or.inr ⟨rfl, e, index, he, hindex, eq_false_of_ne_true hdata, h⟩

/-- `AcceptBlock` adds the header, or not, and then changes statuses. -/
theorem acceptBlock_tree (h : m.tree.SkipLinked) (hstate : state.mode = .valid)
    (hr : acceptBlock hash256 params env m object state = some r) :
    ∃ m₁, (m₁ = m ∨ ∃ e, Added hash256 params m object.block.toBlockHeader m₁ e) ∧
      Relabeled m₁.tree r.manager.tree := by
  obtain ⟨header, hheader, hverdict⟩ := acceptBlockHeader_spec hash256 params h env.now
    object.block.toBlockHeader state hstate
  obtain ⟨header', hheader', hcases⟩ := acceptBlock_cases hr
  cases hheader.symm.trans hheader'
  refine ⟨header.manager, ?_, ?_⟩
  · cases hverdict with
    | rejected => exact Or.inl rfl
    | accepted _ e hadded => exact Or.inr ⟨e, hadded⟩
  · rcases hcases with ⟨-, hm, -⟩ | ⟨-, _, _, -, -, -, hstore⟩
    · rw [hm]
      exact Relabeled.refl _
    · exact relabeled_storeBlock hstore

/-- A check that passes leaves its state alone. -/
theorem runCheckBlock_of_passed {state' : BlockValidationState} {cache : BlockCache}
    (h : runCheckBlock hash256 params object state = (true, state', cache)) : state' = state := by
  unfold runCheckBlock at h
  generalize (checkBlock hash256 params.toConsensusParams object.block true true).run.run
    object.cache = result at h
  obtain ⟨verdict, cache'⟩ := result
  cases verdict with
  | ok =>
    cases h
    rfl
  | error rejection => cases h

/-- The first section of `process_block`, in the same way. -/
theorem processNewBlock_tree (h : m.tree.SkipLinked)
    (hr : processNewBlock hash256 params env m object = some r) :
    ∃ m₁, (m₁ = m ∨ ∃ e, Added hash256 params m object.block.toBlockHeader m₁ e) ∧
      Relabeled m₁.tree r.manager.tree := by
  unfold processNewBlock at hr
  obtain ⟨checked, state, cache, hcheck⟩ : ∃ checked state cache,
      runCheckBlock hash256 params object {} = (checked, state, cache) := ⟨_, _, _, rfl⟩
  rw [hcheck] at hr
  cases checked with
  | false =>
    cases hr
    exact ⟨m, Or.inl rfl, Relabeled.refl _⟩
  | true =>
    rw [runCheckBlock_of_passed hcheck] at hr
    have haccept : acceptBlock hash256 params env m ⟨object.block, cache⟩ {} = some r := hr
    have htree := acceptBlock_tree h rfl haccept
    exact htree

namespace Sample

/-- A hash that tells headers with different nonces apart. -/
def nonceHash (bytes : List UInt8) : Uint256 :=
  ⟨(bytes.reverse ++ List.replicate 32 0).take 32, by
    rw [List.length_take, List.length_append, List.length_replicate]
    omega⟩

def genesis : BlockHeader where
  nVersion := 1
  hashPrevBlock := Uint256.null
  hashMerkleRoot := Uint256.null
  nTime := 100
  nBits := 0x207fffff
  nNonce := 0

/-- A child of the genesis block. -/
def child : BlockHeader :=
  { genesis with hashPrevBlock := genesis.getHash nonceHash, nTime := 200, nNonce := 1 }

/-- Rules that any work meets. -/
def easyParams : Params where
  hashGenesisBlock := genesis.getHash nonceHash
  checkProofOfWork _ _ := true
  signetBlocks := false
  checkSignetBlockSolution _ := true
  getNextWorkRequired _ _ block := block.nBits
  enforceBip94 := true
  difficultyAdjustmentInterval := 2016
  deploymentHeight _ := 500
  contextualCheckBlock _ _ _ := .ok ()

/-- A manager that waits for a reindex. -/
def manager : ChainstateManager := ⟨BlockTree.empty, none, none⟩

end Sample

end BitcoinKernel.Validation.Chainman
