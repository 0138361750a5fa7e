import BitcoinKernel.Validation.BlockHistory
import BitcoinKernel.Validation.StoredOnce

/-!
# The two models of `ProcessNewBlock`

`CheckBlock` and `Chainman` both model `ProcessNewBlock`.  The model of `CheckBlock`
is smaller.  It keeps the block index and the marks on the block, takes the
verdicts of the contextual checks as given, and stops where the block is stored.
The model of `Chainman` has the block tree, and it computes these verdicts.

`ChainstateManager.shown` is what the smaller model sees of a manager.
`processNewBlock_agrees` says that every section of the larger model is one of the
smaller model: it accepts and rejects the same block for the same reason, calls the
same block new and leaves the same marks.
-/

namespace BitcoinKernel.Validation.Chainman

open Serialize Consensus State State.BlockTree BlockValidationState Stateful Option

variable {hash256 : List UInt8 → Uint256} {params : Params} {m : ChainstateManager}
  {env : Surroundings} {now : Int} {e : EntryPtr}

/-- What a failure says. -/
def rejectionOf : Failure → BlockRejection
  | .contextFree rejection | .contextual rejection => rejection

/-- The verdict that a check has left in a state. -/
def verdictOf : Option (Bool × BlockValidationState) → Except BlockRejection Unit
  | some (false, ⟨_, some result, rejectReason, debugMessage⟩) =>
    .error { result, rejectReason, debugMessage }
  | _ => .ok ()

/-- What the smaller model sees of a manager. -/
def ChainstateManager.shown (hash256 : List UInt8 → Uint256) (params : Params)
    (env : Surroundings) (m : ChainstateManager) : Manager where
  params := params.toConsensusParams
  blockIndex hash := ((m.tree.lookupBlockIndex hash).bind m.tree.index?).map fun index =>
    ⟨index.failedValid, index.haveData⟩
  contextualCheckBlockHeader header := verdictOf <|
    (m.tree.lookupBlockIndex header.hashPrevBlock).bind
      (contextualCheckBlockHeader params env.now m.tree header {})
  contextualCheckBlock block :=
    match acceptBlockHeader hash256 params env.now m block.toBlockHeader {} true with
    | some r => params.contextualCheckBlock r.manager.tree
        ((r.pindex.bind r.manager.tree.index?).bind BlockIndex.pprev) block
    | none => .ok ()

/-- A section ends as the smaller model says.  A new block may still not be written. -/
def Agrees (env : Surroundings) (r : AcceptedBlock) : Except Failure Bool × BlockCache → Prop
  | (.ok isNew, cache) =>
    r.accepted = (!isNew || env.writeBlock) ∧ r.fNewBlock = isNew ∧ r.cache = cache
  | (.error failure, cache) =>
    r.accepted = false ∧ r.fNewBlock = false ∧
      r.state = (invalid {} (rejectionOf failure)).2 ∧ r.cache = cache

theorem shown_params : (m.shown hash256 params env).params = params.toConsensusParams := rfl

theorem shown_blockIndex (hash : Uint256) : (m.shown hash256 params env).blockIndex hash =
    ((m.tree.lookupBlockIndex hash).bind m.tree.index?).map fun index =>
      ⟨index.failedValid, index.haveData⟩ := rfl

/-! ## The header -/

variable {block : BlockHeader}

theorem check_verdictOf {t : BlockTree} {r : Bool × BlockValidationState}
    (h : contextualCheckBlockHeader params now t block {} e = some r) :
    check {} (verdictOf (some r)) = r := by
  obtain ⟨index, -, h⟩ := bind_eq_some_iff.mp h
  dsimp only at h
  split_ifs at h <;> cases h <;> rfl

theorem checkNewHeader_shown {r : Bool × BlockValidationState}
    (h : checkNewHeader hash256 params env.now m.tree block {} = some r) :
    check {} ((acceptNewHeader hash256 (m.shown hash256 params env) block).mapError rejectionOf) =
      r := by
  unfold checkNewHeader at h
  rw [acceptNewHeader, shown_params, shown_blockIndex]
  cases hpow : checkBlockHeader hash256 params.toConsensusParams block true with
  | error rejection =>
    rw [hpow] at h
    cases h
    rfl
  | ok _ =>
    rw [hpow] at h
    cases hprev : m.tree.lookupBlockIndex block.hashPrevBlock with
    | none =>
      simp only [check, hprev] at h
      cases h
      rfl
    | some prev =>
      simp only [check, hprev] at h
      obtain ⟨index, hindex, h⟩ := bind_eq_some_iff.mp h
      simp only [bind_some, hindex, map_some]
      cases hfailed : index.failedValid with
      | true =>
        rw [hfailed] at h
        cases h
        rfl
      | false =>
        rw [hfailed, if_neg Bool.false_ne_true] at h
        rw [← check_verdictOf h, ← h]
        show check {} (Except.mapError rejectionOf (Except.mapError Failure.contextual
          (verdictOf ((m.tree.lookupBlockIndex block.hashPrevBlock).bind _)))) = _
        rw [hprev, bind_some]
        cases verdictOf (contextualCheckBlockHeader params env.now m.tree block {} prev) <;> rfl

theorem insertHeader_verdict {r : AcceptedHeader} {state : BlockValidationState}
    (h : insertHeader hash256 m block state true = some r) :
    r.accepted = true ∧ r.state = state := by
  obtain ⟨added, -, h⟩ := bind_eq_some_iff.mp h
  cases h
  exact ⟨rfl, rfl⟩

theorem acceptBlockHeader_shown {r : AcceptedHeader}
    (h : acceptBlockHeader hash256 params env.now m block {} true = some r) :
    check {} ((Validation.acceptBlockHeader hash256 (m.shown hash256 params env) block).mapError
      rejectionOf) = (r.accepted, r.state) := by
  unfold acceptBlockHeader at h
  rw [Validation.acceptBlockHeader, shown_params, shown_blockIndex]
  dsimp only at h ⊢
  by_cases hgenesis : block.getHash hash256 ≠ params.hashGenesisBlock
  · rw [if_pos hgenesis] at h ⊢
    cases hknown : m.tree.lookupBlockIndex (block.getHash hash256) with
    | some e =>
      simp only [hknown] at h
      obtain ⟨index, hindex, h⟩ := bind_eq_some_iff.mp h
      simp only [bind_some, hindex, map_some]
      cases hfailed : index.failedValid <;> rw [hfailed] at h <;> cases h <;> rfl
    | none =>
      simp only [hknown] at h
      obtain ⟨⟨ok, state⟩, hnew, h⟩ := bind_eq_some_iff.mp h
      refine (checkNewHeader_shown hnew).trans ?_
      cases ok with
      | false =>
        cases h
        rfl
      | true =>
        obtain ⟨haccepted, hstate⟩ := insertHeader_verdict h
        rw [haccepted, hstate]
  · rw [if_neg hgenesis] at h ⊢
    obtain ⟨haccepted, hstate⟩ := insertHeader_verdict h
    rw [haccepted, hstate]
    rfl

/-! ## The block -/

variable {object : BlockObject} {r : AcceptedBlock}

theorem any_haveData_shown (hash : Uint256) :
    ((m.shown hash256 params env).blockIndex hash).any IndexStatus.haveData = true ↔
      hash ∈ m.stored := by
  rw [shown_blockIndex]
  cases hlookup : m.tree.lookupBlockIndex hash with
  | none =>
    refine ⟨nofun, fun hmem => absurd ?_ (lookupBlockIndex_eq_none_iff.mp hlookup)⟩
    obtain ⟨index, hindex, rfl⟩ := List.mem_map.mp hmem
    exact List.mem_map_of_mem (List.mem_filter.mp hindex).1
  | some e =>
    obtain ⟨index, hindex, rfl⟩ :=
      exists_index?_of_hasHash (hasHash_of_lookupBlockIndex hlookup)
    rw [mem_stored_iff_haveData hindex, bind_some, hindex]
    rfl

/-- With the mark of a full check, only the contextual check can reject the data. -/
theorem storeBlock_agrees {index : BlockIndex} (hmark : object.cache.fChecked = true)
    (hindex : m.tree.index? e = some index)
    (h : storeBlock hash256 params env m object {} e = some r) :
    Agrees env r (((params.contextualCheckBlock m.tree index.pprev object.block).mapError
      Failure.contextual).map fun _ => true, object.cache) := by
  have hcheck : runCheckBlock hash256 params object {} = (true, {}, object.cache) :=
    runCheckBlock_of_exec hash256 params {} (exec_checkBlock_of_fChecked hash256 _ _ _ _ hmark)
  unfold storeBlock at h
  simp only [hindex, hcheck, bind_eq_bind, bind_some, if_true] at h
  cases hcontent : params.contextualCheckBlock m.tree index.pprev object.block with
  | error rejection =>
    rw [hcontent] at h
    obtain ⟨m', -, h⟩ := bind_eq_some_iff.mp h
    cases h
    exact ⟨rfl, rfl, rfl, rfl⟩
  | ok _ =>
    rw [hcontent] at h
    cases hwrite : env.writeBlock with
    | false =>
      rw [hwrite] at h
      cases h
      exact ⟨hwrite.symm, rfl, rfl⟩
    | true =>
      rw [hwrite] at h
      obtain ⟨_, -, h⟩ := bind_eq_some_iff.mp h
      cases h
      exact ⟨hwrite.symm, rfl, rfl⟩

theorem acceptBlock_agrees (h : acceptBlock hash256 params env m object {} = some r)
    (hmark : object.cache.fChecked = true) :
    Agrees env r (exec (Validation.acceptBlock hash256 (m.shown hash256 params env) object.block)
      object.cache) := by
  unfold acceptBlock at h
  obtain ⟨header, hheader, h⟩ := bind_eq_some_iff.mp h
  obtain ⟨_, -, h⟩ := bind_eq_some_iff.mp h
  have hverdict := acceptBlockHeader_shown hheader
  unfold Validation.acceptBlock
  cases hshown : Validation.acceptBlockHeader hash256 (m.shown hash256 params env)
      object.block.toBlockHeader with
  | error failure =>
    rw [hshown] at hverdict
    obtain ⟨haccepted, hstate⟩ := Prod.mk.inj hverdict
    rw [exec_bind_of_error (exec_lift _ _)]
    simp only [← haccepted] at h
    cases h
    exact ⟨rfl, rfl, hstate.symm, rfl⟩
  | ok _ =>
    rw [hshown] at hverdict
    obtain ⟨haccepted, hstate⟩ := Prod.mk.inj hverdict
    rw [exec_bind_of_ok (exec_lift _ _)]
    simp only [← haccepted, ← hstate, Bool.not_true, Bool.false_eq_true, if_false] at h
    obtain ⟨e, he, h⟩ := bind_eq_some_iff.mp h
    obtain ⟨index, hindex, h⟩ := bind_eq_some_iff.mp h
    have hiff := (haveData_of_acceptBlockHeader hheader haccepted.symm he hindex).2
    by_cases hdata : index.haveData = true
    · rw [if_pos hdata] at h
      rw [if_pos ((any_haveData_shown _).mpr (hiff.mpr hdata))]
      cases h
      exact ⟨rfl, rfl, rfl⟩
    · rw [if_neg hdata] at h
      rw [if_neg fun hstored => hdata (hiff.mp ((any_haveData_shown _).mp hstored)),
        exec_bind_of_ok (exec_adapt_checkBlock_of_fChecked hash256 _ _ hmark)]
      have hcontent : (m.shown hash256 params env).contextualCheckBlock object.block =
          params.contextualCheckBlock header.manager.tree index.pprev object.block := by
        simp only [ChainstateManager.shown, hheader, he, bind_some, hindex]
      rw [hcontent]
      have hstore := storeBlock_agrees hmark hindex h
      cases hverdict : params.contextualCheckBlock header.manager.tree index.pprev object.block <;>
        rw [hverdict] at hstore <;> exact hstore

/-- The first section of `process_block` ends as the smaller model says. -/
theorem processNewBlock_agrees (h : processNewBlock hash256 params env m object = some r) :
    Agrees env r (exec (Validation.processNewBlock hash256 (m.shown hash256 params env)
      object.block) object.cache) := by
  unfold processNewBlock at h
  unfold Validation.processNewBlock
  cases hexec : exec (checkBlock hash256 params.toConsensusParams object.block true true)
      object.cache with
  | mk verdict cache =>
    have hadapt : exec (ExceptT.adapt Failure.contextFree (checkBlock hash256
        (m.shown hash256 params env).params object.block true true)) object.cache =
          (verdict.mapError .contextFree, cache) := by
      rw [exec_adapt, shown_params, hexec]
    rw [runCheckBlock_of_exec hash256 params {} hexec] at h
    cases verdict with
    | error rejection =>
      rw [exec_bind_of_error hadapt]
      cases h
      exact ⟨rfl, rfl, rfl, rfl⟩
    | ok _ =>
      rw [exec_bind_of_ok hadapt]
      have haccept : acceptBlock hash256 params env m ⟨object.block, cache⟩ {} = some r := h
      have hagrees := acceptBlock_agrees haccept (fChecked_of_checkBlock hash256 hexec)
      exact hagrees

end BitcoinKernel.Validation.Chainman
