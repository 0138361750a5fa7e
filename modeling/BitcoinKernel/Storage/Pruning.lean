import Mathlib.Algebra.BigOperators.Group.List.Basic
import BitcoinKernel.Storage.BlockFilesRuns

/-!
# Which files are pruned

`FlushStateToDisk` asks `FindFilesToPrune` or `FindFilesToPruneManual` for the files that
have to go.  Both loops walk over the files below the last one and prune as they go.

* `filesToPrune` is this choice, with the prune locks and `GetPruneRange`.
* `Selection` is what both loops have in common: pruning as they go is pruning the files
  that they return, and each of these was in the range.
* `unprunable_blocks_kept`: in every reachable state with a chain the choice is made without
  a failed assertion, and a block that is not old enough, or that a prune lock or a snapshot
  needs, is read back after the flush.
* `prune_reaches_target`: the automatic choice stops only below the target or when no file
  is left that may go, and prunes no file when it is below the target already.

Two bounds are lower than their names say.  The genesis block may be pruned at any height of
the chain, and no prune lock keeps the blocks at heights 0 and 1.
-/

namespace BitcoinKernel.Storage

open State Serialize Validation List Option

/-! ## The model -/

/-- `MIN_BLOCKS_TO_KEEP`. -/
def minBlocksToKeep : Int := 288

/-- `PRUNE_LOCK_BUFFER`. -/
def pruneLockBuffer : Int := 10

/-- `MIN_DISK_SPACE_FOR_BLOCK_FILES`. -/
def minDiskSpaceForBlockFiles : Nat := 550 * 2 ^ 20

/-- `std::numeric_limits<int>::max()`. -/
def intMax : Int := 2 ^ 31 - 1

/-- A cast to `unsigned`. -/
def toUnsigned (n : Int) : Nat := (n % 2 ^ 32).toNat

/-- What pruning reads of the options and the chainstates. -/
structure PruneView where
  isPruneMode : Bool
  checkForPruning : Bool
  blockfilesIndexed : Bool
  /-- `m_chain.Height()`, an `int`. -/
  chainHeight : Int
  chainHeight_lt : chainHeight < 2 ^ 31
  /-- The height of `SnapshotBase()`, when the snapshot is not validated. -/
  snapshotBase : Option Nat
  snapshotBase_lt : ∀ base, snapshotBase = some base → base + 1 < 2 ^ 31
  /-- There is a historical chainstate. -/
  historical : Bool
  bestHeaderHeight : Nat
  initialBlockDownload : Bool
  pruneTarget : Nat
  pruneAfterHeight : Nat
  /-- `height_first` of the prune locks. -/
  pruneLocks : List Int

namespace PruneView

/-- `prune_start` in `GetPruneRange`. -/
def pruneStart (v : PruneView) : Int :=
  match v.snapshotBase with
  | some base => base + 1
  | none => 0

/-- `Chainstate::GetPruneRange`. -/
def getPruneRange (v : PruneView) (lastHeightCanPrune : Int) : Int × Int :=
  if v.chainHeight ≤ 0 then (0, 0)
  else
    let maxPrune := max 0 (v.chainHeight - minBlocksToKeep)
    (v.pruneStart, min lastHeightCanPrune maxPrune)

/-- One prune lock in `FlushStateToDisk`. -/
def applyLock (lastPrune heightFirst : Int) : Int :=
  if heightFirst = intMax then lastPrune
  else max 1 (min lastPrune (heightFirst - pruneLockBuffer - 1))

/-- `last_prune` in `FlushStateToDisk`. -/
def lastPrune (v : PruneView) : Int := v.pruneLocks.foldl applyLock v.chainHeight

/-- `target` in `FindFilesToPrune`. -/
def target (v : PruneView) : Nat :=
  max minDiskSpaceForBlockFiles (v.pruneTarget / if v.historical then 2 else 1)

/-- `nBuffer` in the loop of `FindFilesToPrune`. -/
def nBuffer (v : PruneView) : Nat :=
  blockfileChunkSize + undofileChunkSize +
    if v.initialBlockDownload ∧ v.bestHeaderHeight > v.chainHeight.toNat then
      1000000 * (v.bestHeaderHeight - v.chainHeight.toNat)
    else 0

end PruneView

/-- The bytes of a file and its undo file, in the type `unsigned`. -/
def FileInfo.usage (info : FileInfo) : Nat := (info.nSize + info.nUndoSize) % 2 ^ 32

/-- The file may have a block that is not in the range. -/
def FileInfo.OutOfRange (range : Int × Int) (info : FileInfo) : Prop :=
  info.nHeightLast > toUnsigned range.2 ∨ info.nHeightFirst < toUnsigned range.1

instance (range : Int × Int) (info : FileInfo) : Decidable (info.OutOfRange range) :=
  inferInstanceAs (Decidable (_ ∨ _))

namespace BlockStore

/-- `CalculateCurrentUsage`. -/
def calculateCurrentUsage (s : BlockStore) : Nat := (s.infos.map FileInfo.usage).sum

/-- The loop of `FindFilesToPruneManual`. -/
def pruneManualLoop (range : Int × Int) : List Nat → BlockStore → Option (List Nat × BlockStore)
  | [], s => some ([], s)
  | fileNumber :: rest, s => do
      let fileinfo ← s.infos[fileNumber]?
      if fileinfo.nSize = 0 ∨ fileinfo.OutOfRange range then pruneManualLoop range rest s
      else
        let s ← s.pruneOneBlockFile fileNumber
        let (setFilesToPrune, s) ← pruneManualLoop range rest s
        return (fileNumber :: setFilesToPrune, s)

/-- `FindFilesToPruneManual`. -/
def findFilesToPruneManual (v : PruneView) (s : BlockStore) (nManualPruneHeight : Int) :
    Option (List Nat × BlockStore) :=
  if ¬ (v.isPruneMode = true ∧ nManualPruneHeight > 0) then none
  else if v.chainHeight < 0 then some ([], s)
  else pruneManualLoop (v.getPruneRange nManualPruneHeight) (List.range s.maxBlockfileNum) s

/-- The loop of `FindFilesToPrune`. -/
def pruneLoop (range : Int × Int) (nBuffer target : Nat) :
    List Nat → Nat → BlockStore → Option (List Nat × BlockStore)
  | [], _, s => some ([], s)
  | fileNumber :: rest, nCurrentUsage, s => do
      let fileinfo ← s.infos[fileNumber]?
      let nBytesToPrune := fileinfo.usage
      if fileinfo.nSize = 0 then pruneLoop range nBuffer target rest nCurrentUsage s
      else if nCurrentUsage + nBuffer < target then some ([], s)
      else if fileinfo.OutOfRange range then
        pruneLoop range nBuffer target rest nCurrentUsage s
      else
        let s ← s.pruneOneBlockFile fileNumber
        let (setFilesToPrune, s) ←
          pruneLoop range nBuffer target rest (nCurrentUsage - nBytesToPrune) s
        return (fileNumber :: setFilesToPrune, s)

/-- `FindFilesToPrune`. -/
def findFilesToPrune (v : PruneView) (s : BlockStore) (lastPrune : Int) :
    Option (List Nat × BlockStore) :=
  if v.chainHeight < 0 ∨ v.target = 0 then some ([], s)
  else if v.chainHeight.toNat ≤ v.pruneAfterHeight then some ([], s)
  else if s.calculateCurrentUsage + (blockfileChunkSize + undofileChunkSize) ≥ v.target then
    pruneLoop (v.getPruneRange lastPrune) v.nBuffer v.target (List.range s.maxBlockfileNum)
      s.calculateCurrentUsage s
  else some ([], s)

/-- The files that `FlushStateToDisk` prunes, and the store behind it. -/
def filesToPrune (v : PruneView) (s : BlockStore) (nManualPruneHeight : Int) :
    Option (List Nat × BlockStore) :=
  if v.isPruneMode = true ∧ (v.checkForPruning = true ∨ nManualPruneHeight > 0) ∧
      v.blockfilesIndexed = true then
    if nManualPruneHeight > 0 then findFilesToPruneManual v s (min v.lastPrune nManualPruneHeight)
    else findFilesToPrune v s v.lastPrune
  else some ([], s)

end BlockStore

/-! ## What the loops have in common -/

variable {s s' s'' : BlockStore} {range : Int × Int} {files prunes : List Nat} {n : Nat}

/-- The file is in use, and all its blocks are in the range. -/
def FileInfo.Prunable (range : Int × Int) (info : FileInfo) : Prop :=
  info.nSize ≠ 0 ∧ ¬ info.OutOfRange range

/-- A loop over `files` has pruned `prunes`. -/
structure Selection (range : Int × Int) (files : List Nat) (s : BlockStore) (prunes : List Nat)
    (s' : BlockStore) : Prop where
  fold : prunes.foldlM BlockStore.pruneOneBlockFile s = some s'
  subset : prunes ⊆ files
  prunable : ∀ n ∈ prunes, ∃ info, s.infos[n]? = some info ∧ info.Prunable range

namespace Selection

theorem nil (range : Int × Int) (files : List Nat) (s : BlockStore) :
    Selection range files s [] s :=
  ⟨rfl, nil_subset _, by simp⟩

/-- A turn that goes on with the next file. -/
theorem skip (h : Selection range files s prunes s') : Selection range (n :: files) s prunes s' :=
  ⟨h.fold, subset_cons_of_subset n h.subset, h.prunable⟩

/-- A turn that prunes. -/
theorem prune {info : FileInfo} (hn : n ∉ files) (hinfo : s.infos[n]? = some info)
    (hprunable : info.Prunable range) (hone : s.pruneOneBlockFile n = some s')
    (hpruned : Pruned [n] s s') (h : Selection range files s' prunes s'') :
    Selection range (n :: files) s (n :: prunes) s'' := by
  refine ⟨?_, cons_subset_cons n h.subset, ?_⟩
  · rw [foldlM_cons, hone]
    exact h.fold
  · intro m hm
    rcases mem_cons.mp hm with rfl | hm
    · exact ⟨info, hinfo, hprunable⟩
    · -- the first turn left the information of the other files alone
      have hne : m ∉ [n] := fun hmem => hn (mem_singleton.mp hmem ▸ h.subset hm)
      rw [← hpruned.info m hne]
      exact h.prunable m hm

theorem pruned (h : Selection range files s prunes s')
    (hlt : ∀ n ∈ files, n < s.infos.length) : Pruned prunes s s' := by
  obtain ⟨s₁, hfold, hpruned⟩ := Pruned.all fun n hn => hlt n (h.subset hn)
  rw [h.fold] at hfold
  cases hfold
  exact hpruned

/-- The information of a file that the loop did not come to. -/
theorem info_eq (h : Selection range files s prunes s') (hlt : ∀ n ∈ files, n < s.infos.length)
    (hn : n ∉ files) : s'.infos[n]? = s.infos[n]? :=
  (h.pruned hlt).info n fun hmem => hn (h.subset hmem)

end Selection

theorem pruneManualLoop_spec (hfiles : files.Nodup) (hlt : ∀ n ∈ files, n < s.infos.length) :
    ∃ prunes s', BlockStore.pruneManualLoop range files s = some (prunes, s') ∧
      Selection range files s prunes s' := by
  induction files generalizing s with
  | nil => exact ⟨[], s, rfl, .nil ..⟩
  | cons n files ih =>
    obtain ⟨hn, hfiles⟩ := nodup_cons.mp hfiles
    have hn' := hlt n mem_cons_self
    have hrest : ∀ m ∈ files, m < s.infos.length := fun m hm =>
      hlt m (mem_cons_of_mem n hm)
    have hinfo := getElem?_eq_getElem hn'
    rw [BlockStore.pruneManualLoop, hinfo, bind_eq_bind, bind_some]
    split_ifs with hskip
    · obtain ⟨prunes, s', hloop, hsel⟩ := ih hfiles hrest
      exact ⟨prunes, s', hloop, hsel.skip⟩
    · obtain ⟨s₁, hone, hpruned⟩ := Pruned.one hn'
      obtain ⟨prunes, s', hloop, hsel⟩ := ih (s := s₁) hfiles (by rwa [hpruned.length])
      refine ⟨n :: prunes, s', ?_, .prune hn hinfo (not_or.mp hskip) hone hpruned hsel⟩
      rw [hone, bind_eq_bind, bind_some, hloop]
      rfl

/-! ## The bytes in use -/

/-- A change of one element changes the sum by the difference. -/
theorem sum_map_modify {α : Type} (weight : α → Nat) (f : α → α) {l : List α} {n : Nat} {a : α}
    (h : l[n]? = some a) :
    ((l.modify n f).map weight).sum + weight a = (l.map weight).sum + weight (f a) := by
  induction l generalizing n with
  | nil => simp at h
  | cons head tail ih =>
    cases n with
    | zero =>
      simp at h
      subst head
      simp
      omega
    | succ n =>
      simp at h
      have htail := ih h
      simp
      omega

theorem usage_pruneOneBlockFile {info : FileInfo} (hinfo : s.infos[n]? = some info)
    (hone : s.pruneOneBlockFile n = some s') :
    s'.calculateCurrentUsage + info.usage = s.calculateCurrentUsage := by
  rw [BlockStore.pruneOneBlockFile, hinfo] at hone
  cases hone
  exact sum_map_modify FileInfo.usage (fun _ => {}) hinfo

/-- Every file was pruned while the usage was not below the target. -/
def Needed (nBuffer target : Nat) (s : BlockStore) (prunes : List Nat) : Prop :=
  ∀ before n after, prunes = before ++ n :: after →
    ∀ s₁, before.foldlM BlockStore.pruneOneBlockFile s = some s₁ →
      target ≤ s₁.calculateCurrentUsage + nBuffer

variable {nBuffer target : Nat}

theorem Needed.cons (husage : target ≤ s.calculateCurrentUsage + nBuffer)
    (hone : s.pruneOneBlockFile n = some s') (h : Needed nBuffer target s' prunes) :
    Needed nBuffer target s (n :: prunes) := by
  intro before m after heq s₁ hfold
  cases before with
  | nil =>
    cases hfold
    exact husage
  | cons k before =>
    obtain ⟨rfl, hprunes⟩ := List.cons.inj heq
    rw [foldlM_cons, hone] at hfold
    exact h before m after hprunes s₁ hfold

/-- No file that the loop passed may be pruned. -/
def Exhausted (range : Int × Int) (files : List Nat) (s : BlockStore) : Prop :=
  ∀ n ∈ files, ∀ info, s.infos[n]? = some info → ¬ info.Prunable range

theorem pruneLoop_spec (hfiles : files.Nodup) (hlt : ∀ n ∈ files, n < s.infos.length) :
    ∃ prunes s', BlockStore.pruneLoop range nBuffer target files s.calculateCurrentUsage s =
        some (prunes, s') ∧
      Selection range files s prunes s' ∧ Needed nBuffer target s prunes ∧
      (s'.calculateCurrentUsage + nBuffer < target ∨ Exhausted range files s') := by
  induction files generalizing s with
  | nil =>
    refine ⟨[], s, rfl, .nil .., ?_, Or.inr (by simp [Exhausted])⟩
    intro before n after heq
    simp at heq
  | cons n files ih =>
    obtain ⟨hn, hfiles⟩ := nodup_cons.mp hfiles
    have hn' := hlt n mem_cons_self
    have hrest : ∀ m ∈ files, m < s.infos.length := fun m hm =>
      hlt m (mem_cons_of_mem n hm)
    have hinfo := getElem?_eq_getElem hn'
    -- a file that is passed over is as it was when the loop ends
    have hskip : ∀ {prunes s'}, ¬ (s.infos[n]).Prunable range → Selection range files s prunes s' →
        (s'.calculateCurrentUsage + nBuffer < target ∨ Exhausted range files s') →
        (s'.calculateCurrentUsage + nBuffer < target ∨ Exhausted range (n :: files) s') := by
      intro prunes s' hnot hsel hend
      refine hend.imp_right fun hex m hm info hm' => ?_
      rcases mem_cons.mp hm with rfl | hm
      · rw [hsel.info_eq hrest hn, hinfo] at hm'
        cases hm'
        exact hnot
      · exact hex m hm info hm'
    rw [BlockStore.pruneLoop, hinfo, bind_eq_bind, bind_some]
    dsimp only
    split_ifs with hempty hbelow hout
    · obtain ⟨prunes, s', hloop, hsel, hneeded, hend⟩ := ih hfiles hrest
      exact ⟨prunes, s', hloop, hsel.skip, hneeded, hskip (fun hp => hp.1 hempty) hsel hend⟩
    · refine ⟨[], s, rfl, .nil .., ?_, Or.inl hbelow⟩
      intro before m after heq
      simp at heq
    · obtain ⟨prunes, s', hloop, hsel, hneeded, hend⟩ := ih hfiles hrest
      exact ⟨prunes, s', hloop, hsel.skip, hneeded, hskip (fun hp => hp.2 hout) hsel hend⟩
    · obtain ⟨s₁, hone, hpruned⟩ := Pruned.one hn'
      have husage := usage_pruneOneBlockFile hinfo hone
      have hrest₁ : ∀ m ∈ files, m < s₁.infos.length := by rwa [hpruned.length]
      obtain ⟨prunes, s', hloop, hsel, hneeded, hend⟩ := ih hfiles hrest₁
      refine ⟨n :: prunes, s', ?_, .prune hn hinfo ⟨hempty, hout⟩ hone hpruned hsel,
        hneeded.cons (Nat.le_of_not_lt hbelow) hone, ?_⟩
      · rw [← husage, Nat.add_sub_cancel, hone, bind_eq_bind, bind_some, hloop]
        rfl
      · refine hend.imp_right fun hex m hm info hm' hprunable => ?_
        rcases mem_cons.mp hm with rfl | hm
        · -- the file that was pruned is empty
          rw [hsel.info_eq hrest₁ hn, hpruned.prunedInfo m mem_cons_self] at hm'
          cases hm'
          exact hprunable.1 rfl
        · exact hex m hm info hm' hprunable

/-! ## The range -/

theorem toUnsigned_of_nonneg {n : Int} (h : 0 ≤ n) (hlt : n < 2 ^ 32) :
    (toUnsigned n : Int) = n := by
  rw [toUnsigned, Int.emod_eq_of_lt h hlt]
  omega

namespace PruneView

variable {v : PruneView} {last nManualPruneHeight : Int}

theorem applyLock_le (last heightFirst : Int) : applyLock last heightFirst ≤ max 1 last := by
  unfold applyLock
  split <;> omega

theorem applyLock_pos (heightFirst : Int) (h : 0 < last) : 0 < applyLock last heightFirst := by
  unfold applyLock
  split <;> omega

/-- The locks only lower the height, to 1 at the least. -/
theorem foldl_applyLock (locks : List Int) (h : 0 < last) :
    0 < locks.foldl applyLock last ∧ locks.foldl applyLock last ≤ last ∧
      ∀ heightFirst ∈ locks, heightFirst ≠ intMax →
        locks.foldl applyLock last ≤ max 1 (heightFirst - pruneLockBuffer - 1) := by
  induction locks generalizing last with
  | nil => exact ⟨h, Int.le_refl _, by simp⟩
  | cons first locks ih =>
    obtain ⟨hpos, hle, hlocks⟩ := ih (applyLock_pos first h)
    have hfirst := applyLock_le last first
    rw [foldl_cons]
    refine ⟨hpos, by omega, fun heightFirst hmem hne => ?_⟩
    rcases mem_cons.mp hmem with rfl | hmem
    · rw [applyLock, if_neg hne] at hle ⊢
      omega
    · exact hlocks heightFirst hmem hne

/-- What is asked of the height of a block that is pruned. -/
structure MayPrune (v : PruneView) (nManualPruneHeight : Int) (nHeight : Nat) : Prop where
  old : (nHeight : Int) ≤ max 0 (v.chainHeight - minBlocksToKeep)
  locks : ∀ heightFirst ∈ v.pruneLocks, heightFirst ≠ intMax →
    (nHeight : Int) ≤ max 1 (heightFirst - pruneLockBuffer - 1)
  manual : 0 < nManualPruneHeight → (nHeight : Int) ≤ nManualPruneHeight
  snapshot : ∀ base, v.snapshotBase = some base → base < nHeight

/-- The last height that is handed to `GetPruneRange`. -/
def lastHeight (v : PruneView) (nManualPruneHeight : Int) : Int :=
  if nManualPruneHeight > 0 then min v.lastPrune nManualPruneHeight else v.lastPrune

theorem lastHeight_pos (h : 0 < v.chainHeight) (nManualPruneHeight : Int) :
    0 < v.lastHeight nManualPruneHeight := by
  have hlast : 0 < v.lastPrune := (foldl_applyLock v.pruneLocks h).1
  unfold lastHeight
  split <;> omega

/-- The blocks of a file that may be pruned are in the range. -/
theorem MayPrune.of_prunable (h : 0 < v.chainHeight) {info : FileInfo} {nHeight : Nat}
    (hprunable : info.Prunable (v.getPruneRange (v.lastHeight nManualPruneHeight)))
    (hcovers : info.Covers nHeight) : v.MayPrune nManualPruneHeight nHeight := by
  obtain ⟨-, hle, hlocks⟩ := foldl_applyLock v.pruneLocks h
  have hpos := lastHeight_pos h nManualPruneHeight
  have hlast : v.lastHeight nManualPruneHeight ≤ v.lastPrune ∧
      (0 < nManualPruneHeight → v.lastHeight nManualPruneHeight ≤ nManualPruneHeight) := by
    unfold lastHeight
    split <;> omega
  have hrange := hprunable.2
  rw [getPruneRange, if_neg (Int.not_le.mpr h), FileInfo.OutOfRange, not_or] at hrange
  obtain ⟨hrangeLast, hrangeFirst⟩ := hrange
  have hlt := v.chainHeight_lt
  -- neither cast wraps
  have hcast : (toUnsigned (min (v.lastHeight nManualPruneHeight)
      (max 0 (v.chainHeight - minBlocksToKeep))) : Int) = _ :=
    toUnsigned_of_nonneg (by omega) (by unfold minBlocksToKeep; omega)
  have hlastPrune : v.lastPrune ≤ v.chainHeight := hle
  have hfirst := hcovers.first
  have hheightLast := hcovers.last
  have hheight : (nHeight : Int) ≤ min (v.lastHeight nManualPruneHeight)
      (max 0 (v.chainHeight - minBlocksToKeep)) := by
    dsimp only at hrangeLast
    omega
  refine ⟨by omega, fun heightFirst hmem hne => ?_, fun hmanual => ?_, fun base hbase => ?_⟩
  · have hlock : v.lastPrune ≤ _ := hlocks heightFirst hmem hne
    omega
  · have hmanual := hlast.2 hmanual
    omega
  · have hbaselt := v.snapshotBase_lt base hbase
    have hcastFirst : (toUnsigned v.pruneStart : Int) = (base : Int) + 1 := by
      have hstart : v.pruneStart = (base : Int) + 1 := by rw [pruneStart, hbase]
      rw [hstart]
      exact toUnsigned_of_nonneg (by omega) (by omega)
    dsimp only at hrangeFirst
    omega

end PruneView

/-! ## The choice -/

variable {v : PruneView} {nManualPruneHeight : Int}

theorem lt_length_of_mem_range (hs : s.Wf) : ∀ n ∈ List.range s.maxBlockfileNum,
    n < s.infos.length := fun _ hn =>
  Intact.lt_length_of_lt_max hs (mem_range.mp hn)

/-- The choice is made, and every file of it was in the range. -/
theorem filesToPrune_spec (hs : s.Wf) (h : 0 < v.chainHeight) (nManualPruneHeight : Int) :
    ∃ prunes s', BlockStore.filesToPrune v s nManualPruneHeight = some (prunes, s') ∧
      Selection (v.getPruneRange (v.lastHeight nManualPruneHeight))
        (List.range s.maxBlockfileNum) s prunes s' := by
  have hnodup := nodup_range (n := s.maxBlockfileNum)
  have hlt := lt_length_of_mem_range hs
  have hpos := PruneView.lastHeight_pos h nManualPruneHeight
  have hheight : ¬ v.chainHeight < 0 := by omega
  unfold BlockStore.filesToPrune
  split_ifs with hmode hmanual
  · rw [PruneView.lastHeight, if_pos hmanual] at hpos ⊢
    rw [BlockStore.findFilesToPruneManual, if_neg (not_not.mpr ⟨hmode.1, hpos⟩), if_neg hheight]
    exact pruneManualLoop_spec hnodup hlt
  · rw [PruneView.lastHeight, if_neg hmanual]
    unfold BlockStore.findFilesToPrune
    split_ifs
    · exact ⟨[], s, rfl, .nil ..⟩
    · exact ⟨[], s, rfl, .nil ..⟩
    · obtain ⟨prunes, s', hloop, hsel, -⟩ := pruneLoop_spec hnodup hlt
      exact ⟨prunes, s', hloop, hsel⟩
    · exact ⟨[], s, rfl, .nil ..⟩
  · exact ⟨[], s, rfl, .nil ..⟩

/-! ## Main results -/

variable {o : StorageOptions} {keys : PubKeys} {hash256 : List UInt8 → Uint256}
  {params : ConsensusParams} {entry : EntryPtr → BlockIndex} {w w' : Node} {e : EntryPtr}

theorem undos_flushState {tipHeight : Nat} {env : WriteEnv} {removes : Nat → Bool × Bool}
    (h : w.flushState prunes tipHeight env removes = some w') : w'.undos = w.undos := by
  unfold Node.flushState at h
  obtain ⟨s, -, h⟩ := bind_eq_some_iff.mp h
  dsimp only at h
  split_ifs at h
  · cases h
    rfl
  · obtain ⟨s₁, -, h⟩ := bind_eq_some_iff.mp h
    cases h
    rfl

/-- An entry whose file is pruned has a height at which blocks may be pruned. -/
theorem Intact.mayPrune (h : Intact o keys hash256 params entry w) (hheight : 0 < v.chainHeight)
    (hsel : Selection (v.getPruneRange (v.lastHeight nManualPruneHeight))
      (List.range w.maxBlockfileNum) w.toBlockStore prunes s')
    (hdata : (w.position e).haveData = true) (hfile : (w.position e).nFile ∈ prunes) :
    v.MayPrune nManualPruneHeight (entry e).nHeight := by
  obtain ⟨info, hinfo, hprunable⟩ := hsel.prunable _ hfile
  obtain ⟨block, hblock⟩ := (h.entry e).data hdata
  obtain ⟨info', hinfo', hhas⟩ := hblock.stored.info
  cases hinfo.symm.trans hinfo'
  exact .of_prunable hheight hprunable hhas.height

/-- In every reachable state the files to prune are chosen without a failed assertion, and a
block at a height that may not be pruned is read back behind the flush, with its undo data. -/
theorem unprunable_blocks_kept {ops : List StorageOp}
    (hops : AllowedRun o keys hash256 params entry {} ops)
    (hrun : Runs.run (Node.step o keys hash256 entry) {} ops = some w) (v : PruneView)
    (hheight : 0 < v.chainHeight) (nManualPruneHeight : Int) (tipHeight : Nat) {env : WriteEnv}
    (hspace : env.diskSpace = true) (removes : Nat → Bool × Bool) :
    ∃ prunes s' w', BlockStore.filesToPrune v w.toBlockStore nManualPruneHeight =
        some (prunes, s') ∧
      prunes.foldlM BlockStore.pruneOneBlockFile w.toBlockStore = some s' ∧
      w.flushState prunes tipHeight env removes = some w' ∧
      ∀ e, ¬ v.MayPrune nManualPruneHeight (entry e).nHeight →
        ((w.position e).haveData = true → ∃ block,
          w.readBlock o hash256 params (w.position e).getBlockPos (some (entry e).hash) =
            some block ∧
          w'.readBlock o hash256 params (w'.position e).getBlockPos (some (entry e).hash) =
            some block) ∧
        ((w.position e).haveUndo = true → ∃ undo prevHash,
          w.readBlockUndo keys hash256 o e prevHash = some undo ∧
          w'.readBlockUndo keys hash256 o e prevHash = some undo) := by
  have hintact := Intact.of_run hops hrun
  obtain ⟨prunes, s', hchoice, hsel⟩ := filesToPrune_spec hintact.wf hheight nManualPruneHeight
  have hprunes : ∀ n ∈ prunes, n < w.maxBlockfileNum := fun n hn =>
    mem_range.mp (hsel.subset hn)
  obtain ⟨w', hflush, hintact', hblocks, hposition, -⟩ :=
    hintact.flushState hprunes tipHeight (Or.inl hspace) removes
  have hundos := undos_flushState hflush
  refine ⟨prunes, s', w', hchoice, hsel.fold, hflush, fun e hnot => ?_⟩
  have hkept : (w.position e).haveData = true → w'.position e = w.position e := fun hdata =>
    hposition e fun hfile => hnot (hintact.mayPrune hheight hsel hdata hfile)
  refine ⟨fun hdata => ?_, fun hundo => ?_⟩
  · obtain ⟨block, hblock, hread, -⟩ := hintact.read hdata
    obtain ⟨block', hblock', hread', -⟩ := hintact'.read (by rwa [hkept hdata])
    rw [hblocks, hblock] at hblock'
    cases hblock'
    exact ⟨block, hread, hread'⟩
  · obtain ⟨_, _, hstored⟩ := (hintact.entry e).undo hundo
    obtain ⟨undo, prevHash, hundo₁, hprev, hread⟩ := hintact.readUndo hundo
    obtain ⟨undo', prevHash', hundo₂, hprev', hread'⟩ :=
      hintact'.readUndo (by rwa [hkept hstored.data])
    rw [hundos, hundo₁] at hundo₂
    rw [hprev] at hprev'
    cases hundo₂
    cases hprev'
    exact ⟨undo, prevHash, hread, hread'⟩

namespace Sample

/-- A coin with the longest script. -/
def largeCoin : Coin := ⟨⟨40, List.replicate 10000 0x51⟩, false, 1⟩

def largeUndo : BlockUndo := ⟨[⟨List.replicate 60000 largeCoin⟩]⟩

theorem length_largeUndo : (writeBlockUndo generatorKeys largeUndo).length = 600300004 := by
  have hcoin : (writeTxInUndo generatorKeys largeCoin).length = 10005 := by decide +kernel
  simp only [writeBlockUndo, writeTxUndo, largeUndo, writeVector, flatMap_singleton,
    length_append, length_flatMap, map_replicate, sum_replicate, hcoin,
    length_replicate, length_singleton]
  decide

theorem largeUndo_storable : BlockUndoStorable largeUndo := by
  refine ⟨by decide, forall_mem_singleton.mpr ⟨?_, fun coin hcoin => ?_⟩⟩
  · rw [length_replicate]
    decide
  · rw [eq_of_mem_replicate hcoin]
    exact ⟨by decide, by rw [largeCoin, length_replicate]; decide⟩

/-- The room for the undo data is taken, but the file does not open.  The block behind the
snapshot goes into a second file. -/
def snapshotOps : List StorageOp :=
  [.acceptBlock 1 storedBlock writeEnv,
    .writeUndo 1 largeUndo { allocation := none, opens := false }, .loadSnapshot 500,
    .acceptBlock 900 storedBlock writeEnv]

theorem snapshotOps_reserved : (Runs.run (Node.step storageOptions generatorKeys constantHash
      storedEntry) {} (snapshotOps.take 2)).map (fun w => w.infos) =
      some [⟨1, 285, 600300044, 1, 1, 5, 5⟩] := by
  simp only [snapshotOps, List.take, Runs.run_cons, Node.step, Node.writeUndo,
    BlockStore.writeBlockUndo, length_largeUndo]
  decide +kernel

/-- A pruning node at height 1000 with two locks, which has yet to download as many blocks. -/
def pruneView : PruneView where
  isPruneMode := true
  checkForPruning := true
  blockfilesIndexed := true
  chainHeight := 1000
  chainHeight_lt := by decide
  snapshotBase := none
  snapshotBase_lt := fun _ h => by cases h
  historical := false
  bestHeaderHeight := 2000
  initialBlockDownload := true
  pruneTarget := 1
  pruneAfterHeight := 0
  pruneLocks := [intMax, 950]

theorem snapshotOps_run : (Runs.run (Node.step storageOptions generatorKeys constantHash
      storedEntry) {} snapshotOps).map (fun w => ((w.position 900).haveData,
        (BlockStore.filesToPrune pruneView w.toBlockStore 1).map Prod.fst,
        (BlockStore.findFilesToPrune pruneView w.toBlockStore 700).map Prod.fst)) =
      some (true, some [0], some [0]) := by
  simp only [snapshotOps, Runs.run_cons, Node.step, Node.writeUndo, BlockStore.writeBlockUndo,
    length_largeUndo]
  decide +kernel

theorem snapshotOps_allowed : AllowedRun storageOptions generatorKeys constantHash easyParams
    storedEntry {} snapshotOps := by
  refine ⟨⟨storedBlock_acceptable 1, fun _ _ h => by cases h⟩, fun w hstep => ⟨?_, fun w₁ hundo =>
    ⟨trivial, fun w₂ hload => ⟨⟨storedBlock_acceptable 900, fun n info h => ?_⟩, fun _ _ =>
      trivial⟩⟩⟩⟩
  · refine allowed_writeUndo hstep largeUndo_storable ?_
    rw [length_largeUndo]
    decide
  · have hreserved := snapshotOps_reserved
    rw [snapshotOps, List.take, List.take, List.take, Runs.run_cons, hstep, bind_some,
      Runs.run_cons, hundo] at hreserved
    cases hload
    have hinfos : w₁.infos = _ := Option.some.inj hreserved
    have hmem : info ∈ w₁.infos := mem_of_getElem? h
    rw [hinfos, mem_singleton] at hmem
    rw [hmem]
    decide

end Sample

open Sample

theorem unprunable_blocks_kept_sample : ∃ w s' w',
    Runs.run (Node.step storageOptions generatorKeys constantHash storedEntry) {} snapshotOps =
      some w ∧
    BlockStore.filesToPrune pruneView w.toBlockStore 1 = some ([0], s') ∧
    w.flushState [0] 1000 writeEnv (fun _ => (true, true)) = some w' ∧
    ∃ block, w'.readBlock storageOptions constantHash easyParams (w'.position 900).getBlockPos
      (some (Uint256.filled 7)) = some block := by
  obtain ⟨w, hrun, hw⟩ := map_eq_some_iff.mp snapshotOps_run
  rw [Prod.mk.injEq, Prod.mk.injEq] at hw
  obtain ⟨prunes, s', w', hchoice, -, hflush, hkept⟩ := unprunable_blocks_kept
    snapshotOps_allowed hrun pruneView (by decide) 1 1000
    (show writeEnv.diskSpace = true from rfl) fun _ => (true, true)
  have hprunes := hw.2.1
  rw [hchoice, map_some] at hprunes
  cases hprunes
  have hnot : ¬ pruneView.MayPrune 1 (storedEntry 900).nHeight := fun h => absurd h.old (by decide)
  obtain ⟨block, -, hread⟩ := (hkept 900 hnot).1 hw.1
  exact ⟨w, s', w', hrun, hchoice, hflush, block, hread⟩

/-- Automatic pruning in a reachable state.  Every file that goes was pruned while the usage
was not below the target.  Behind it there is room for the next allocation, or no file is
left that may go. -/
theorem prune_reaches_target {ops : List StorageOp}
    (hops : AllowedRun o keys hash256 params entry {} ops)
    (hrun : Runs.run (Node.step o keys hash256 entry) {} ops = some w) (v : PruneView)
    (hheight : v.pruneAfterHeight < v.chainHeight.toNat) (lastPrune : Int) :
    ∃ prunes s', BlockStore.findFilesToPrune v w.toBlockStore lastPrune = some (prunes, s') ∧
      prunes.foldlM BlockStore.pruneOneBlockFile w.toBlockStore = some s' ∧
      Needed v.nBuffer v.target w.toBlockStore prunes ∧
      (s'.calculateCurrentUsage + (blockfileChunkSize + undofileChunkSize) < v.target ∨
        ∀ n < w.maxBlockfileNum, ∀ info, s'.infos[n]? = some info →
          ¬ info.Prunable (v.getPruneRange lastPrune)) := by
  have hintact := Intact.of_run hops hrun
  have hbuffer : blockfileChunkSize + undofileChunkSize ≤ v.nBuffer := Nat.le_add_right _ _
  have htarget : minDiskSpaceForBlockFiles ≤ v.target := Nat.le_max_left _ _
  have hstart : ¬ (v.chainHeight < 0 ∨ v.target = 0) := by
    unfold minDiskSpaceForBlockFiles at htarget
    omega
  rw [BlockStore.findFilesToPrune, if_neg hstart, if_neg (Nat.not_le.mpr hheight)]
  split_ifs with husage
  · obtain ⟨prunes, s', hloop, hsel, hneeded, hend⟩ :=
      pruneLoop_spec nodup_range (lt_length_of_mem_range hintact.wf)
    refine ⟨prunes, s', hloop, hsel.fold, hneeded, hend.imp (fun hbelow => ?_) fun hex n hn => ?_⟩
    · omega
    · exact hex n (mem_range.mpr hn)
  · refine ⟨[], w.toBlockStore, rfl, rfl, ?_, Or.inl (Nat.lt_of_not_le husage)⟩
    intro before n after heq
    simp at heq

theorem prune_reaches_target_sample : ∃ w s',
    Runs.run (Node.step storageOptions generatorKeys constantHash storedEntry) {} snapshotOps =
      some w ∧
    BlockStore.findFilesToPrune pruneView w.toBlockStore 700 = some ([0], s') ∧
    Needed pruneView.nBuffer pruneView.target w.toBlockStore [0] := by
  obtain ⟨w, hrun, hw⟩ := map_eq_some_iff.mp snapshotOps_run
  obtain ⟨prunes, s', hchoice, -, hneeded, -⟩ := prune_reaches_target
    snapshotOps_allowed hrun pruneView (by decide) 700
  have hprunes := congrArg (fun p => p.2.2) hw
  dsimp only at hprunes
  rw [hchoice, map_some] at hprunes
  cases hprunes
  exact ⟨w, s', hrun, hchoice, hneeded⟩

end BitcoinKernel.Storage
