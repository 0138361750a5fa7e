import BitcoinKernel.Lib.Stateful
import Mathlib.Data.List.Induction
import BitcoinKernel.Validation.CheckBlock

/-!
# Whether earlier checks of a block change a later verdict

A block object is made from bytes without marks, and then `check` and
`process_block` are called on it or on its clones, which are handles to the
same object, with any parameters and managers.  The question is whether the
verdict of the next call is the one that a block without marks would get.

The mark on the merkle root is harmless: it depends on the block alone, and it
is set only if the check behind it succeeds (`computes_checkMerkleRoot`).  The
mark `fChecked` also stands for the proof of work and the signet solution, which
depend on the parameters, and it does not say with which parameters they were
checked.  So after a full check that succeeds, a call with other parameters
succeeds too, whatever these parameters say about the block.
`verdict_history_independent_iff` says exactly when this changes the verdict.
-/

namespace BitcoinKernel.Validation

open Serialize Consensus Stateful

/-! ## Calls on a block -/

/-- A call on a block object that runs the context-free checks. -/
inductive Call
  | check (params : ConsensusParams) (flags : UInt32)
  | processBlock (manager : Manager)

variable (hash256 : List UInt8 → Uint256)

/-- Whether the context-free checks passed, in the outcome of an acceptance. -/
def contextFreeVerdict {α : Type} : Except Failure α → Except BlockRejection Unit
  | .error (.contextFree rejection) => .error rejection
  | _ => .ok ()

namespace Call

/-- The verdict of the context-free checks of a call, and the marks on the
block after the call. -/
def verdict (block : Block) (cache : BlockCache) : Call → Except BlockRejection Unit × BlockCache
  | check params flags => exec (blockCheck hash256 params block flags) cache
  | processBlock manager =>
    let (outcome, cache) := exec (processNewBlock hash256 manager block) cache
    (contextFreeVerdict outcome, cache)

/-- The verdict of a call on a block object, and the object after it. -/
def run (object : BlockObject) (call : Call) : Except BlockRejection Unit × BlockObject :=
  let (result, cache) := call.verdict hash256 object.block object.cache
  (result, { object with cache })

/-- The parameters that a call checks the block with. -/
def params : Call → ConsensusParams
  | check params _ => params
  | processBlock manager => manager.params

/-- Whether a call checks the proof of work. -/
def checksPow : Call → Bool
  | check _ flags => flags &&& blockCheckPow ≠ 0
  | processBlock _ => true

/-- Whether a call checks the merkle root. -/
def checksMerkle : Call → Bool
  | check _ flags => flags &&& blockCheckMerkle ≠ 0
  | processBlock _ => true

end Call

/-- A block object after the calls `history` on it and on its clones. -/
def BlockObject.after (object : BlockObject) (history : List Call) : BlockObject :=
  history.foldl (fun object call => (call.run hash256 object).2) object

/-- The proof of work and, on a signet, the solution are right. -/
def PowOk (params : ConsensusParams) (block : Block) : Prop :=
  params.checkProofOfWork (block.getHash hash256) block.nBits = true ∧
    (params.signetBlocks = true → params.checkSignetBlockSolution block = true)

/-- The merkle root and the structure of the block are right. -/
def ContentOk (block : Block) : Prop :=
  checkMerkleRootUncached hash256 block = .ok () ∧ checkStructure hash256 block = .ok ()

/-- A call that checks everything of a block for which everything is right. -/
def Call.Completes (call : Call) (block : Block) : Prop :=
  call.checksPow = true ∧ call.checksMerkle = true ∧ PowOk hash256 call.params block ∧
    ContentOk hash256 block

/-- A call whose verdict on a block with right contents is the same if it does
not look at the block: it would not look at the proof of work, or would find it
right, or it finds the proof of work wrong in another place, as `process_block`
does for a header that the manager does not have. -/
def Call.Unaffected (call : Call) (block : Block) : Prop :=
  match call with
  | check params _ => call.checksPow = false ∨ PowOk hash256 params block
  | processBlock manager =>
    PowOk hash256 manager.params block ∨
      manager.params.checkProofOfWork (block.getHash hash256) block.nBits = false ∧
        block.getHash hash256 ≠ manager.params.hashGenesisBlock ∧
        manager.blockIndex (block.getHash hash256) = none

/-! ## `CheckBlock` on a block with right marks -/

/-- The verdict of `CheckBlock` on a block without marks. -/
def freshVerdict (params : ConsensusParams) (block : Block) (fCheckPOW fCheckMerkleRoot : Bool) :
    Except BlockRejection Unit := do
  checkBlockHeader hash256 params block.toBlockHeader fCheckPOW
  checkSignet params block fCheckPOW
  if fCheckMerkleRoot then checkMerkleRootUncached hash256 block
  checkStructure hash256 block

/-- The mark of a full check is not set, and the mark on the merkle root is
right. -/
structure Unchecked (block : Block) (cache : BlockCache) : Prop where
  fChecked : cache.fChecked = false
  merkle : cache.checkedMerkleRoot = true → checkMerkleRootUncached hash256 block = .ok ()

theorem computes_checkMerkleRoot (block : Block) :
    Computes (Unchecked hash256 block) (checkMerkleRoot hash256 block)
      (checkMerkleRootUncached hash256 block) := by
  intro cache hcache
  rw [checkMerkleRoot, exec_get_bind]
  split
  · next hmark => exact ⟨(hcache.merkle hmark).symm, hcache⟩
  · cases hroot : checkMerkleRootUncached hash256 block with
    | error e =>
      rw [exec_bind_of_error (exec_lift _ _)]
      exact ⟨rfl, hcache⟩
    | ok _ =>
      rw [exec_bind_of_ok (exec_lift _ _), exec_modify]
      exact ⟨rfl, hcache.fChecked, fun _ => hroot⟩

theorem computes_checkBlockUncached (params : ConsensusParams) (block : Block)
    (fCheckPOW fCheckMerkleRoot : Bool) :
    Computes (Unchecked hash256 block)
      (checkBlockUncached hash256 params block fCheckPOW fCheckMerkleRoot)
      (freshVerdict hash256 params block fCheckPOW fCheckMerkleRoot) := by
  refine .bind (.lift _) fun _ => .bind (.lift _) fun _ => ?_
  cases fCheckMerkleRoot with
  | false => exact .lift _
  | true => exact .bind (computes_checkMerkleRoot hash256 block) fun _ => .lift _

variable {cache : BlockCache} {block : Block} {history : List Call}

theorem exec_checkBlock_of_fChecked (params : ConsensusParams) (block : Block)
    (fCheckPOW fCheckMerkleRoot : Bool) (h : cache.fChecked = true) :
    exec (checkBlock hash256 params block fCheckPOW fCheckMerkleRoot) cache = (.ok (), cache) := by
  simp [checkBlock, h]

/-- A full check that passes leaves its mark. -/
theorem fChecked_of_checkBlock {params : ConsensusParams} {cache' : BlockCache}
    (h : exec (checkBlock hash256 params block true true) cache = (.ok (), cache')) :
    cache'.fChecked = true := by
  rw [checkBlock, exec_get_bind] at h
  split at h
  · next hmark =>
    cases h
    exact hmark
  · cases hexec : exec (checkBlockUncached hash256 params block true true) cache with
    | mk result cache₁ =>
      cases result with
      | error e =>
        rw [exec_bind_of_error hexec] at h
        cases h
      | ok _ =>
        rw [exec_bind_of_ok hexec] at h
        cases h
        rfl

theorem exec_adapt_checkBlock_of_fChecked (params : ConsensusParams) (block : Block)
    (h : cache.fChecked = true) :
    exec (ExceptT.adapt Failure.contextFree (checkBlock hash256 params block true true)) cache =
      (.ok (), cache) := by
  rw [exec_adapt, exec_checkBlock_of_fChecked hash256 _ _ _ _ h]
  rfl

/-- Without the mark of a full check, the verdict is the one of a fresh block,
and the mark is set by a full check that succeeds. -/
theorem exec_checkBlock_of_unchecked (params : ConsensusParams) (fCheckPOW fCheckMerkleRoot : Bool)
    (h : Unchecked hash256 block cache) :
    let verdict := freshVerdict hash256 params block fCheckPOW fCheckMerkleRoot
    let after := exec (checkBlock hash256 params block fCheckPOW fCheckMerkleRoot) cache
    after.1 = verdict ∧
      (after.2.fChecked = true ↔ (fCheckPOW && fCheckMerkleRoot) = true ∧ verdict = .ok ()) ∧
      (after.2.checkedMerkleRoot = true → checkMerkleRootUncached hash256 block = .ok ()) := by
  obtain ⟨hverdict, hafter⟩ :=
    computes_checkBlockUncached hash256 params block fCheckPOW fCheckMerkleRoot cache h
  cases hexec : exec (checkBlockUncached hash256 params block fCheckPOW fCheckMerkleRoot) cache with
  | mk result cache' =>
    replace hverdict : result = freshVerdict hash256 params block fCheckPOW fCheckMerkleRoot := by
      rw [← hverdict, hexec]
    replace hafter : Unchecked hash256 block cache' := by rwa [hexec] at hafter
    rw [← hverdict, checkBlock, exec_get_bind, h.fChecked, if_neg (by decide)]
    cases result with
    | error e =>
      rw [exec_bind_of_error hexec]
      exact ⟨rfl, by simp [hafter.fChecked], hafter.merkle⟩
    | ok _ =>
      rw [exec_bind_of_ok hexec]
      cases hfull : fCheckPOW && fCheckMerkleRoot with
      | false => exact ⟨rfl, by simp [hafter.fChecked], hafter.merkle⟩
      | true => exact ⟨rfl, by simp, hafter.merkle⟩

/-- What a fresh block needs to pass. -/
theorem freshVerdict_eq_ok_iff (params : ConsensusParams) (block : Block)
    (fCheckPOW fCheckMerkleRoot : Bool) :
    freshVerdict hash256 params block fCheckPOW fCheckMerkleRoot = .ok () ↔
      (fCheckPOW = true → PowOk hash256 params block) ∧
        (fCheckMerkleRoot = true → checkMerkleRootUncached hash256 block = .ok ()) ∧
        checkStructure hash256 block = .ok () := by
  rw [freshVerdict, bind_eq_ok_iff, bind_eq_ok_iff, checkBlockHeader, checkSignet,
    throwIf_eq_ok_iff, throwIf_eq_ok_iff]
  cases fCheckPOW <;> cases fCheckMerkleRoot <;>
    simp [bind_eq_ok_iff, PowOk, BlockHeader.getHash, and_assoc]

/-! ## `ProcessNewBlock` on a block with right marks -/

/-- The context-free verdict of `AcceptBlockHeader`. -/
def headerVerdict (manager : Manager) (block : Block) : Except BlockRejection Unit :=
  if block.getHash hash256 ≠ manager.params.hashGenesisBlock ∧
      manager.blockIndex (block.getHash hash256) = none then
    checkBlockHeader hash256 manager.params block.toBlockHeader true
  else .ok ()

theorem contextFreeVerdict_acceptNewHeader (manager : Manager) (header : BlockHeader) :
    contextFreeVerdict (acceptNewHeader hash256 manager header) =
      checkBlockHeader hash256 manager.params header true := by
  rw [acceptNewHeader]
  cases checkBlockHeader hash256 manager.params header true with
  | error e => rfl
  | ok _ =>
    cases manager.blockIndex header.hashPrevBlock with
    | none => rfl
    | some prev =>
      cases hfailed : prev.failedValid <;>
        cases manager.contextualCheckBlockHeader header <;> simp [hfailed] <;> rfl

theorem contextFreeVerdict_acceptBlockHeader (manager : Manager) (block : Block) :
    contextFreeVerdict (acceptBlockHeader hash256 manager block.toBlockHeader) =
      headerVerdict hash256 manager block := by
  rw [acceptBlockHeader, headerVerdict]
  split
  · next hgenesis =>
      cases hindex : manager.blockIndex (block.getHash hash256) with
      | none =>
        rw [if_pos ⟨hgenesis, rfl⟩]
        exact contextFreeVerdict_acceptNewHeader hash256 manager block.toBlockHeader
      | some status =>
        rw [if_neg (by simp)]
        cases hfailed : status.failedValid <;> simp [hfailed] <;> rfl
  · next hgenesis =>
      rw [if_neg fun h => hgenesis h.1]
      rfl

/-- With the mark of a full check, `AcceptBlock` leaves the marks alone, and of
the context-free checks it does the one of the header. -/
theorem exec_acceptBlock_of_fChecked (manager : Manager) (block : Block)
    (h : cache.fChecked = true) :
    contextFreeVerdict (exec (acceptBlock hash256 manager block) cache).1 =
        headerVerdict hash256 manager block ∧
      (exec (acceptBlock hash256 manager block) cache).2 = cache := by
  rw [acceptBlock, ← contextFreeVerdict_acceptBlockHeader]
  cases acceptBlockHeader hash256 manager block.toBlockHeader with
  | error failure =>
    rw [exec_bind_of_error (exec_lift _ _)]
    cases failure <;> exact ⟨rfl, rfl⟩
  | ok _ =>
    rw [exec_bind_of_ok (exec_lift _ _)]
    split
    · exact ⟨rfl, rfl⟩
    · rw [exec_bind_of_ok (exec_adapt_checkBlock_of_fChecked hash256 _ _ h)]
      cases manager.contextualCheckBlock block <;> exact ⟨rfl, rfl⟩

/-- `ProcessNewBlock` in terms of its first `CheckBlock`, which sets the mark of
a full check if it passes. -/
theorem exec_processNewBlock (manager : Manager) (block : Block) {cache' : BlockCache}
    {result : Except BlockRejection Unit}
    (hcheck : exec (checkBlock hash256 manager.params block true true) cache = (result, cache')) :
    (Call.processBlock manager).verdict hash256 block cache =
      (result >>= fun _ => headerVerdict hash256 manager block, cache') := by
  have hadapt : exec (ExceptT.adapt Failure.contextFree
      (checkBlock hash256 manager.params block true true)) cache =
        (result.mapError .contextFree, cache') := by
    rw [exec_adapt, hcheck]
  rw [Call.verdict, processNewBlock]
  cases result with
  | error e =>
    rw [exec_bind_of_error hadapt]
    rfl
  | ok _ =>
    obtain ⟨hverdict, hcache⟩ := exec_acceptBlock_of_fChecked hash256 manager block
      (fChecked_of_checkBlock hash256 hcheck)
    rw [exec_bind_of_ok hadapt]
    exact Prod.ext hverdict hcache

/-! ## One call -/

/-- The verdict of a call on a fresh block. -/
def Call.freshVerdict (call : Call) (block : Block) : Except BlockRejection Unit :=
  Validation.freshVerdict hash256 call.params block call.checksPow call.checksMerkle

/-- The verdict of a call on a block with the mark of a full check. -/
def Call.markedVerdict (call : Call) (block : Block) : Except BlockRejection Unit :=
  match call with
  | check _ _ => .ok ()
  | processBlock manager => headerVerdict hash256 manager block

theorem checkBlockHeader_eq_ok_iff (params : ConsensusParams) (header : BlockHeader) :
    checkBlockHeader hash256 params header true = .ok () ↔
      params.checkProofOfWork (header.getHash hash256) header.nBits = true := by
  rw [checkBlockHeader, throwIf_eq_ok_iff]
  simp

theorem headerVerdict_of_powOk {manager : Manager} (h : PowOk hash256 manager.params block) :
    headerVerdict hash256 manager block = .ok () := by
  rw [headerVerdict]
  split
  · exact (checkBlockHeader_eq_ok_iff hash256 _ _).mpr h.1
  · rfl

theorem Call.verdict_of_fChecked (call : Call) (block : Block) (h : cache.fChecked = true) :
    call.verdict hash256 block cache = (call.markedVerdict hash256 block, cache) := by
  cases call with
  | check params flags => exact exec_checkBlock_of_fChecked hash256 params block _ _ h
  | processBlock manager =>
    exact exec_processNewBlock hash256 manager block
      (exec_checkBlock_of_fChecked hash256 manager.params block _ _ h)

/-- A call that checks everything passes a fresh block exactly if it completes. -/
theorem Call.completes_iff (call : Call) (block : Block) : call.Completes hash256 block ↔
      (call.checksPow && call.checksMerkle) = true ∧ call.freshVerdict hash256 block = .ok () := by
  rw [Call.freshVerdict, freshVerdict_eq_ok_iff, Call.Completes, ContentOk, Bool.and_eq_true]
  constructor
  · rintro ⟨hpow, hmerkle, hok, hroot, hstructure⟩
    exact ⟨⟨hpow, hmerkle⟩, fun _ => hok, fun _ => hroot, hstructure⟩
  · rintro ⟨⟨hpow, hmerkle⟩, hok, hroot, hstructure⟩
    exact ⟨hpow, hmerkle, hok hpow, hroot hmerkle, hstructure⟩

theorem Call.verdict_of_unchecked (call : Call) (h : Unchecked hash256 block cache) :
    (call.verdict hash256 block cache).1 = call.freshVerdict hash256 block ∧
      ((call.verdict hash256 block cache).2.fChecked = true ↔ call.Completes hash256 block) ∧
      ((call.verdict hash256 block cache).2.checkedMerkleRoot = true →
        checkMerkleRootUncached hash256 block = .ok ()) := by
  rw [Call.completes_iff]
  cases call with
  | check params flags => exact exec_checkBlock_of_unchecked hash256 params _ _ h
  | processBlock manager =>
    obtain ⟨hverdict, hmark, hroot⟩ :=
      exec_checkBlock_of_unchecked hash256 manager.params true true h
    rw [exec_processNewBlock hash256 manager block (Prod.ext hverdict rfl)]
    refine ⟨bind_eq_left fun hfresh => ?_, hmark, hroot⟩
    exact headerVerdict_of_powOk hash256 (((freshVerdict_eq_ok_iff ..).mp hfresh).1 rfl)

/-! ## Every history of calls -/

/-- What the calls `history` leave on a block: the mark of a full check is set
exactly if one of them was complete, and the mark on the merkle root is right. -/
structure Marks (block : Block) (history : List Call) (cache : BlockCache) : Prop where
  fChecked : cache.fChecked = true ↔ ∃ call ∈ history, call.Completes hash256 block
  merkle : cache.checkedMerkleRoot = true → checkMerkleRootUncached hash256 block = .ok ()

theorem Marks.unchecked (h : Marks hash256 block history cache) (hnot : ¬cache.fChecked = true) :
    Unchecked hash256 block cache :=
  ⟨eq_false_of_ne_true hnot, h.merkle⟩

/-- One more call. -/
theorem Marks.step (h : Marks hash256 block history cache) (call : Call) :
    Marks hash256 block (history ++ [call]) (call.verdict hash256 block cache).2 := by
  by_cases hmark : cache.fChecked = true
  · rw [Call.verdict_of_fChecked hash256 call block hmark]
    obtain ⟨earlier, hmem, hcomplete⟩ := h.fChecked.mp hmark
    have hstill : ∃ call' ∈ history ++ [call], call'.Completes hash256 block :=
      ⟨earlier, List.mem_append_left _ hmem, hcomplete⟩
    exact ⟨iff_of_true hmark hstill, h.merkle⟩
  · obtain ⟨-, hcomplete, hmerkle⟩ := call.verdict_of_unchecked hash256 (h.unchecked hash256 hmark)
    refine ⟨?_, hmerkle⟩
    have hbefore : ¬∃ call ∈ history, call.Completes hash256 block := fun hex =>
      hmark (h.fChecked.mpr hex)
    rw [hcomplete]
    constructor
    · intro hcall
      exact ⟨call, List.mem_append_right _ (List.mem_singleton_self call), hcall⟩
    · rintro ⟨earlier, hmem, hearlier⟩
      rcases List.mem_append.mp hmem with hmem | hmem
      · exact absurd ⟨earlier, hmem, hearlier⟩ hbefore
      · rwa [List.mem_singleton.mp hmem] at hearlier

theorem BlockObject.after_snoc (object : BlockObject) (history : List Call) (call : Call) :
    object.after hash256 (history ++ [call]) =
      (call.run hash256 (object.after hash256 history)).2 := by
  simp [BlockObject.after]

/-- All calls of a history. -/
theorem marks_after (block : Block) (history : List Call) :
    (BlockObject.after hash256 { block } history).block = block ∧
      Marks hash256 block history (BlockObject.after hash256 { block } history).cache := by
  induction history using List.reverseRecOn with
  | nil => exact ⟨rfl, by simp [BlockObject.after], by simp [BlockObject.after]⟩
  | append_singleton history call ih =>
    obtain ⟨hblock, hmarks⟩ := ih
    rw [BlockObject.after_snoc]
    generalize BlockObject.after hash256 { block } history = object at hblock hmarks
    subst hblock
    exact ⟨rfl, hmarks.step hash256 call⟩

/-! ## The verdict of the next call -/

/-- On a block with right contents, the mark of a full check changes the verdict
of exactly the calls that are not unaffected. -/
theorem Call.markedVerdict_eq_iff (call : Call) (h : ContentOk hash256 block) :
    call.markedVerdict hash256 block = call.freshVerdict hash256 block ↔
      call.Unaffected hash256 block := by
  have hfresh : call.freshVerdict hash256 block = .ok () ↔
      (call.checksPow = true → PowOk hash256 call.params block) := by
    rw [Call.freshVerdict, freshVerdict_eq_ok_iff]
    simp [h.1, h.2]
  cases call with
  | check params flags =>
    rw [Call.markedVerdict, eq_comm, hfresh, Call.Unaffected]
    cases (check params flags).checksPow <;> simp [Call.params]
  | processBlock manager =>
    by_cases hpow : PowOk hash256 manager.params block
    · rw [Call.markedVerdict, hfresh.mpr fun _ => hpow, headerVerdict_of_powOk hash256 hpow]
      exact iff_of_true rfl (.inl hpow)
    · have hne : (processBlock manager).freshVerdict hash256 block ≠ .ok () := fun hok =>
        hpow (hfresh.mp hok rfl)
      rw [Call.markedVerdict, Call.Unaffected, or_iff_right hpow, headerVerdict]
      split
      · next hnew =>
          have hheader := checkBlockHeader_eq_ok_iff hash256 manager.params block.toBlockHeader
          rw [and_iff_left hnew, ← Bool.not_eq_true, ← hheader]
          cases hcheck : checkBlockHeader hash256 manager.params block.toBlockHeader true with
          | error e =>
            have hreject : (processBlock manager).freshVerdict hash256 block = .error e := by
              simp only [Call.freshVerdict, Validation.freshVerdict, Call.params,
                Call.checksPow, hcheck]
              rfl
            exact iff_of_true hreject.symm (by simp)
          | ok _ => exact iff_of_false (fun heq => hne heq.symm) (by simp)
      · next hknown =>
          exact iff_of_false (fun heq => hne heq.symm) fun hun => hknown hun.2

/-- Nothing is marked on a block that was just made. -/
theorem exists_of_blockCreate {rawBlock : List UInt8} {fresh : BlockObject}
    (hcreate : blockCreate rawBlock = some fresh) : ∃ block : Block, fresh = { block } := by
  rw [blockCreate] at hcreate
  split at hcreate
  · exact ⟨_, (Option.some.inj hcreate).symm⟩
  · cases hcreate

/-- The next call on a block gives the verdict that it gives on a block that was
just made from the same bytes, unless an earlier call checked everything with
success and the next one is affected by the mark that this leaves. -/
theorem verdict_history_independent_iff {rawBlock : List UInt8} {fresh : BlockObject}
    (hcreate : blockCreate rawBlock = some fresh) (history : List Call) (next : Call) :
    (next.run hash256 (fresh.after hash256 history)).1 = (next.run hash256 fresh).1 ↔
      (¬∃ call ∈ history, call.Completes hash256 fresh.block) ∨
        next.Unaffected hash256 fresh.block := by
  obtain ⟨block, rfl⟩ := exists_of_blockCreate hcreate
  obtain ⟨hblock, hmarks⟩ := marks_after hash256 block history
  have hnew : (next.run hash256 { block }).1 = next.freshVerdict hash256 block :=
    (next.verdict_of_unchecked hash256 ⟨rfl, by simp⟩).1
  rw [hnew, ← hmarks.fChecked, Call.run, hblock]
  by_cases hmark : (BlockObject.after hash256 { block } history).cache.fChecked = true
  · obtain ⟨call, -, hcomplete⟩ := hmarks.fChecked.mp hmark
    rw [next.verdict_of_fChecked hash256 block hmark, or_iff_right (not_not_intro hmark)]
    exact next.markedVerdict_eq_iff hash256 hcomplete.2.2.2
  · exact iff_of_true (next.verdict_of_unchecked hash256 (hmarks.unchecked hash256 hmark)).1
      (.inl hmark)

/-! ## A block of a test network -/

/-- A hash function for examples: every hash is null. -/
def nullHash (_ : List UInt8) : Uint256 := Uint256.null

/-- Parameters that reject the targets above a limit and accept the proof of
work otherwise. -/
def limitParams (powLimit : UInt32) : ConsensusParams where
  hashGenesisBlock := Uint256.null
  checkProofOfWork := fun _ nBits => nBits ≤ powLimit
  signetBlocks := false
  checkSignetBlockSolution := fun _ => false

/-- Parameters with the limit of the regression test network. -/
def regtestParams : ConsensusParams := limitParams 0x207fffff

/-- Parameters with the limit of the main network. -/
def mainParams : ConsensusParams := limitParams 0x1d00ffff

/-- `BLOCK_CHECK_ALL`. -/
def blockCheckAll : UInt32 := blockCheckPow ||| blockCheckMerkle

/-- The bytes of a block with one transaction and the target of the regression
test network. -/
def sampleRawBlock : List UInt8 :=
  writeBlock true
    { nVersion := 1, hashPrevBlock := Uint256.null, hashMerkleRoot := Uint256.null
      nTime := 0, nBits := 0x207fffff, nNonce := 0
      vtx := [{ version := 1
                vin := [{ prevout := ⟨Uint256.null, OutPoint.nullIndex⟩
                          scriptSig := [0x51, 0x51], nSequence := 0xffffffff }]
                vout := [{ nValue := 5000000000, scriptPubKey := [0x51] }]
                nLockTime := 0 }] }

/-- A check without proof of work is not affected by a full one before it. -/
theorem verdict_history_independent_sample : ∃ fresh, blockCreate sampleRawBlock = some fresh ∧
      ((Call.check mainParams blockCheckMerkle).run nullHash
          (fresh.after nullHash [.check regtestParams blockCheckAll])).1 =
        ((Call.check mainParams blockCheckMerkle).run nullHash fresh).1 := by
  have hsome : (blockCreate sampleRawBlock).isSome = true := by decide +kernel
  obtain ⟨fresh, hcreate⟩ := Option.isSome_iff_exists.mp hsome
  refine ⟨fresh, hcreate, (verdict_history_independent_iff nullHash hcreate _ _).mpr (.inr ?_)⟩
  exact .inl (by decide)

/-- The block passes the full check with the parameters of its own network.  A
full check with those of the main network then passes too, which a fresh block
does not. -/
theorem not_verdict_history_independent_sample : ∃ fresh, blockCreate sampleRawBlock = some fresh ∧
      ((Call.check mainParams blockCheckAll).run nullHash
          (fresh.after nullHash [.check regtestParams blockCheckAll])).1 ≠
        ((Call.check mainParams blockCheckAll).run nullHash fresh).1 := by
  have hrun : (blockCreate sampleRawBlock).map (fun fresh =>
      decide (((Call.check mainParams blockCheckAll).run nullHash
          (fresh.after nullHash [.check regtestParams blockCheckAll])).1 ≠
        ((Call.check mainParams blockCheckAll).run nullHash fresh).1)) = some true := by
    decide +kernel
  obtain ⟨fresh, hcreate, hne⟩ := Option.map_eq_some_iff.mp hrun
  exact ⟨fresh, hcreate, of_decide_eq_true hne⟩

end BitcoinKernel.Validation
