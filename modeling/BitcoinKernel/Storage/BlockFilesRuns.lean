import BitcoinKernel.Storage.BlockFilesIntact

/-!
# Stored blocks are never lost or changed

The block files over whole runs of a node: blocks are accepted and connected, files are
flushed and pruned, writes fail, and the process ends and starts again at any point.

* `Allowed` is what the callers make sure of.  Three of its parts no caller checks: nothing
  keeps `nUndoSize` and `nBlocks` from wrapping, a node that is out of disk space when it
  prunes has forgotten files that its database still knows, and `WriteBlockUndo` asserts
  that there is a cursor.
* `Intact.step`: a call that is allowed returns, so no assertion fails, and it keeps the
  invariant.
* `stored_records_intact`: along every run, `ReadBlock`, `ReadRawBlock` and `ReadBlockUndo`
  give back exactly what was stored.
* `flushed_block_survives`: a block that was there at a flush stays there until its file is
  pruned, however often the process ends.
-/

namespace BitcoinKernel.Storage

open KeyStream FlatFile State Serialize Validation Outcome List Option Function

section

variable (o : StorageOptions) (keys : PubKeys) (hash256 : List UInt8 → Uint256)
  (params : ConsensusParams) (entry : EntryPtr → BlockIndex)

/-! ## Calls -/

/-- `nBlocks` of no file is about to wrap. -/
def CountsFit (s : BlockStore) : Prop :=
  ∀ (n : Nat) (info : FileInfo), s.infos[n]? = some info → info.nBlocks + 1 < 2 ^ 32

/-- What holds when a call is made. -/
def Allowed (w : Node) : StorageOp → Prop
  | .acceptBlock e block _ => Acceptable hash256 params entry e block ∧ CountsFit w.toBlockStore
  | .acceptFound e block pos =>
    Acceptable hash256 params entry e block ∧ CountsFit w.toBlockStore ∧
      storageHeaderBytes ≤ pos.nPos ∧ pos.nPos + (writeBlock true block).length < 2 ^ 31 ∧
      RecordAt o (w.blk pos.nFile) (pos.nPos - storageHeaderBytes)
        (BlockStore.blockPieces o block).flatten
  | .writeUndo e undo _ =>
    (w.position e).haveData = true ∧ (Node.prevHash entry e).isSome = true ∧
      (w.cursor (w.blockfileTypeForHeight (entry e).nHeight)).isSome = true ∧
      BlockUndoStorable undo ∧
      ∀ info : FileInfo, w.infos[(w.position e).nFile]? = some info →
        info.nUndoSize + ((writeBlockUndo keys undo).length + undoDataDiskOverhead) < 2 ^ 32
  | .flushState prunes _ env _ =>
    (∀ n ∈ prunes, n < w.maxBlockfileNum) ∧ (env.diskSpace = true ∨ prunes = [])
  | .loadSnapshot _ => True
  | .restart _ _ => True
  | .reindex => True

/-- Every call of a run is allowed. -/
def AllowedRun : Node → List StorageOp → Prop
  | _, [] => True
  | w, op :: ops => Allowed o keys hash256 params entry w op ∧
      ∀ w', w.step o keys hash256 entry op = some w' → AllowedRun w' ops

end

variable {o : StorageOptions} {keys : PubKeys} {hash256 : List UInt8 → Uint256}
  {params : ConsensusParams} {entry : EntryPtr → BlockIndex} {w w' : Node} {e : EntryPtr}

/-- The block of an entry is in a file, and the database knows that there is one. -/
structure Lasting (w : Node) (e : EntryPtr) (n : Nat) (block : Block) : Prop where
  data : (w.position e).haveData = true
  file : (w.position e).nFile = n
  block : w.blocks e = some block
  written : ∃ p, w.db.index e = some p ∧ p.haveData = true

/-- A call that stores something leaves the entries with data where they are. -/
structure Stable (w w' : Node) : Prop where
  index : w'.db.index = w.db.index
  data : ∀ e, (w.position e).haveData = true → (w'.position e).haveData = true ∧
    (w'.position e).nFile = (w.position e).nFile ∧ w'.blocks e = w.blocks e

theorem Stable.lasting (h : Stable w w') {n : Nat} {block : Block}
    (hlasting : Lasting w e n block) : Lasting w' e n block := by
  obtain ⟨hdata, hfile, hblocks⟩ := h.data e hlasting.data
  refine ⟨hdata, hfile.trans hlasting.file, hblocks.trans hlasting.block, ?_⟩
  rw [h.index]
  exact hlasting.written

theorem Stable.refl (w : Node) : Stable w w := ⟨rfl, fun _ h => ⟨h, rfl, rfl⟩⟩

theorem Stable.advance {s : BlockStore} (h : w.toBlockStore.Advances s) :
    Stable w { w with toBlockStore := s } := by
  refine ⟨rfl, fun e hdata => ?_⟩
  dsimp only
  rw [h.position]
  exact ⟨hdata, rfl, rfl⟩

/-- A new block, for an entry that had none. -/
theorem Stable.received {s : BlockStore} (h : w.toBlockStore.Advances s) (pos : FilePos)
    (block : Block) (hnew : (w.position e).haveData = false) :
    Stable w { w with
      toBlockStore := s.receivedBlockTransactions e pos
      blocks := Function.update w.blocks e (some block) } := by
  refine ⟨rfl, fun e' hdata => ?_⟩
  have hne : e' ≠ e := fun heq => by
    rw [heq, hnew] at hdata
    cases hdata
  show (Function.update s.position e _ e').haveData = true ∧
    (Function.update s.position e _ e').nFile = _ ∧ Function.update w.blocks e _ e' = _
  rw [update_of_ne hne, update_of_ne hne, h.position]
  exact ⟨hdata, rfl, rfl⟩

namespace Intact

section

variable (h : Intact o keys hash256 params entry w)

include h

theorem acceptBlock {block : Block} (env : WriteEnv)
    (hacceptable : Acceptable hash256 params entry e block) (hcounts : CountsFit w.toBlockStore) :
    ∃ w', w.acceptBlock o entry e block env = some w' ∧ Intact o keys hash256 params entry w' ∧
      Stable w w' := by
  unfold Node.acceptBlock
  cases hdata : (w.position e).haveData with
  | true => exact ⟨w, rfl, h, .refl w⟩
  | false =>
    obtain ⟨pos, s, hwrite, hadv, hstored⟩ :=
      writeBlock_spec o h.wf env hacceptable.size hcounts (entry e).nHeight
    rw [if_neg Bool.false_ne_true, hwrite]
    dsimp only [bind, Option.bind]
    cases pos with
    | none => exact ⟨_, rfl, h.advance hadv, .advance hadv⟩
    | some pos =>
      obtain ⟨hstored, hdirty⟩ := hstored pos rfl
      exact ⟨_, rfl, h.received hadv hdata hacceptable hstored hdirty,
        .received hadv pos block hdata⟩

theorem acceptFound {block : Block} {pos : FilePos}
    (hacceptable : Acceptable hash256 params entry e block) (hcounts : CountsFit w.toBlockStore)
    (hheader : storageHeaderBytes ≤ pos.nPos)
    (hsize : pos.nPos + (writeBlock true block).length < 2 ^ 31)
    (hrecord : RecordAt o (w.blk pos.nFile) (pos.nPos - storageHeaderBytes)
      (BlockStore.blockPieces o block).flatten) :
    Intact o keys hash256 params entry (w.acceptFound entry e block pos) ∧
      Stable w (w.acceptFound entry e block pos) := by
  unfold Node.acceptFound
  cases hdata : (w.position e).haveData with
  | true => exact ⟨h, .refl w⟩
  | false =>
    obtain ⟨hadv, hstored, hdirty⟩ :=
      updateBlockInfo_spec hheader hrecord hsize hcounts (entry e).nHeight
    exact ⟨h.received hadv hdata hacceptable hstored hdirty, .received hadv pos block hdata⟩

theorem writeUndo {undo : BlockUndo} (env : WriteEnv) (hdata : (w.position e).haveData = true)
    (hprev : (Node.prevHash entry e).isSome = true)
    (hcursor : (w.cursor (w.blockfileTypeForHeight (entry e).nHeight)).isSome = true)
    (hstorable : BlockUndoStorable undo)
    (hsize : ∀ info : FileInfo, w.infos[(w.position e).nFile]? = some info →
      info.nUndoSize + ((writeBlockUndo keys undo).length + undoDataDiskOverhead) < 2 ^ 32) :
    ∃ w', w.writeUndo o keys hash256 entry e undo env = some w' ∧
      Intact o keys hash256 params entry w' ∧ Stable w w' := by
  obtain ⟨prevHash, hprev⟩ := isSome_iff_exists.mp hprev
  obtain ⟨cursor, hcursor⟩ := isSome_iff_exists.mp hcursor
  obtain ⟨block, hblock⟩ := (h.entry e).data hdata
  obtain ⟨info, hinfo, -⟩ := hblock.stored.info
  unfold Node.writeUndo
  rw [hprev]
  dsimp only [bind, Option.bind]
  cases hundo : (w.position e).haveUndo with
  | true =>
    have hwrite : w.toBlockStore.writeBlockUndo keys hash256 o env e (entry e).nHeight prevHash
        undo = some (true, w.toBlockStore) := by
      unfold BlockStore.writeBlockUndo
      dsimp only
      rw [hcursor]
      dsimp only [bind, Option.bind]
      rw [DiskPosition.getUndoPos, hundo]
      rfl
    rw [hwrite]
    exact ⟨w, rfl, h, .refl w⟩
  | false =>
    obtain ⟨written, s', s, hwrite, hadv, hcases⟩ := writeBlockUndo_spec o keys hash256 env
      hcursor hundo hinfo (hsize info hinfo) prevHash
    rw [hwrite]
    rcases hcases with ⟨hwritten, hs⟩ | ⟨hwritten, nPos, hs, hstored, hdirty⟩
    · rw [hwritten, hs]
      exact ⟨_, rfl, h.advance hadv, .advance hadv⟩
    · rw [hwritten, hs]
      refine ⟨_, rfl, h.undoWritten hadv hdata hundo hprev hstorable hstored hdirty, rfl, ?_⟩
      intro e' hdata'
      show (Function.update s.position e _ e').haveData = true ∧
        (Function.update s.position e _ e').nFile = _ ∧ _
      by_cases he : e' = e
      · rw [he, update_self]
        exact ⟨hdata, rfl, rfl⟩
      · rw [update_of_ne he, hadv.position]
        exact ⟨hdata', rfl, rfl⟩

end

theorem lt_length_of_lt_max {s : BlockStore} (hs : s.Wf) {n : Nat} (h : n < s.maxBlockfileNum) :
    n < s.infos.length := by
  rcases s.max_cases with hzero | ⟨type, c, hc, hmax⟩
  · omega
  · have hbound := hs.bound type c hc
    omega

theorem flushState (h : Intact o keys hash256 params entry w) {prunes : List Nat}
    (hprunes : ∀ n ∈ prunes, n < w.maxBlockfileNum) (tipHeight : Nat) {env : WriteEnv}
    (hspace : env.diskSpace = true ∨ prunes = []) (removes : Nat → Bool × Bool) :
    ∃ w', w.flushState prunes tipHeight env removes = some w' ∧
      Intact o keys hash256 params entry w' ∧ w'.blocks = w.blocks ∧
      (∀ e, (w.position e).nFile ∉ prunes → w'.position e = w.position e) ∧
      (w'.db.index = w.db.index ∨ ∀ e, (w'.position e).haveData = true →
        ∃ p, w'.db.index e = some p ∧ p.haveData = true) ∧
      (env.diskSpace = true → ∀ e, (w'.position e).haveData = true →
        ∃ p, w'.db.index e = some p ∧ p.haveData = true) := by
  have hlt : ∀ n ∈ prunes, n < w.infos.length := fun n hn =>
    lt_length_of_lt_max h.wf (hprunes n hn)
  obtain ⟨s, hfold, hp⟩ := Pruned.all hlt
  unfold Node.flushState
  rw [hfold]
  dsimp only [bind, Option.bind]
  cases hdisk : env.diskSpace with
  | false =>
    -- nothing was pruned
    have hnil : prunes = [] := hspace.resolve_left (by rw [hdisk]; exact Bool.false_ne_true)
    subst hnil
    cases hfold
    exact ⟨_, rfl, ⟨⟨h.wf.normal, h.wf.bound, h.wf.length, h.wf.size, h.wf.dirty⟩,
      fun e => (h.entry e).keeps rfl rfl rfl rfl rfl (.refl _), h.dbInfo, h.dbLength, h.dbLast⟩,
      rfl, fun _ _ => rfl, Or.inl rfl, fun hfalse => absurd hfalse Bool.false_ne_true⟩
  | true =>
    have hp' : Pruned prunes w.toBlockStore
        { s with havePruned := !prunes.isEmpty || s.havePruned } :=
      ⟨hp.blk, hp.rev, hp.cursor, hp.length, hp.info, hp.prunedInfo, hp.position,
        hp.prunedPosition, hp.dirtyFileinfo, hp.dirtyBlockindex⟩
    rw [Bool.not_true, if_neg Bool.false_ne_true,
      flushChainstateBlockFile_eq (hp'.wf hlt h.wf) env tipHeight]
    have hintact := h.flushed hlt hp'
      { w.db with prunedBlockFiles := !prunes.isEmpty || w.db.prunedBlockFiles } rfl rfl removes
    -- no entry is dirty behind the batch
    have hindex : ∀ e, (s.position e).haveData = true → ∃ p, (if s.dirtyBlockindex e then
        some (s.position e).stored else w.db.index e) = some p ∧ p.haveData = true := by
      intro e hdata
      obtain ⟨p, hindex, hp, -⟩ := (hintact.entry e).written.resolve_left Bool.false_ne_true hdata
      exact ⟨p, hindex, hp⟩
    exact ⟨_, rfl, hintact, rfl, fun e he => hp.position e he, Or.inr hindex, fun _ => hindex⟩

end Intact

/-- A call that does not drop what is in a file. -/
def StorageOp.Leaves (n : Nat) : StorageOp → Prop
  | .flushState prunes _ _ _ => n ∉ prunes
  | .reindex => False
  | _ => True

namespace Intact

/-- A call that is allowed returns, and keeps the invariant.  What is in a file and in the
database stays there, if the call leaves the file. -/
theorem step (h : Intact o keys hash256 params entry w) {op : StorageOp}
    (hop : Allowed o keys hash256 params entry w op) :
    ∃ w', w.step o keys hash256 entry op = some w' ∧ Intact o keys hash256 params entry w' ∧
      ∀ e n block, op.Leaves n → Lasting w e n block → Lasting w' e n block := by
  cases op with
  | acceptBlock e block env =>
    obtain ⟨w', hstep, hintact, hstable⟩ := h.acceptBlock env hop.1 hop.2
    exact ⟨w', hstep, hintact, fun _ _ _ _ => hstable.lasting⟩
  | acceptFound e block pos =>
    obtain ⟨hacceptable, hcounts, hheader, hsize, hrecord⟩ := hop
    obtain ⟨hintact, hstable⟩ := h.acceptFound hacceptable hcounts hheader hsize hrecord
    exact ⟨_, rfl, hintact, fun _ _ _ _ => hstable.lasting⟩
  | writeUndo e undo env =>
    obtain ⟨hdata, hprev, hcursor, hstorable, hsize⟩ := hop
    obtain ⟨w', hstep, hintact, hstable⟩ := h.writeUndo env hdata hprev hcursor hstorable hsize
    exact ⟨w', hstep, hintact, fun _ _ _ _ => hstable.lasting⟩
  | flushState prunes tipHeight env removes =>
    obtain ⟨w', hstep, hintact, hblocks, hposition, hindex, -⟩ :=
      h.flushState hop.1 tipHeight hop.2 removes
    refine ⟨w', hstep, hintact, fun e n block hn hlasting => ?_⟩
    have hsame : w'.position e = w.position e := hposition e (by rw [hlasting.file]; exact hn)
    have hdata : (w'.position e).haveData = true := by rw [hsame, hlasting.data]
    refine ⟨hdata, by rw [hsame, hlasting.file], by rw [hblocks, hlasting.block], ?_⟩
    rcases hindex with hold | hnew
    · rw [hold]
      exact hlasting.written
    · exact hnew e hdata
  | loadSnapshot height =>
    have hadv : w.toBlockStore.Advances { w.toBlockStore with snapshotHeight := some height } :=
      ⟨⟨fun _ info h => ⟨info, h, .refl _⟩, fun _ _ _ => .refl _ _, fun _ _ _ => .refl _ _,
        Nat.le_refl _, fun _ h => h⟩, rfl, rfl,
        fun hs => ⟨hs.normal, hs.bound, hs.length, hs.size, hs.dirty⟩⟩
    exact ⟨_, rfl, h.advance hadv, fun _ _ _ _ => (Stable.advance hadv).lasting⟩
  | restart snapshotHeight removes =>
    have hs := (h.loaded snapshotHeight).scan removes
    refine ⟨_, rfl, h.restart hs, fun e n block _ hlasting => ?_⟩
    obtain ⟨p, hp, hdata⟩ := hlasting.written
    obtain ⟨-, hfile, -⟩ := ((h.entry e).below p hp).data hdata
    have hposition := hs.position e
    rw [hp, getD_some] at hposition
    refine ⟨?_, ?_, hlasting.block, p, hp, hdata⟩
    · dsimp only
      rw [hposition, hdata]
    · dsimp only
      rw [hposition, ← hfile, hlasting.file]
  | reindex => exact ⟨_, rfl, intact_empty w.blk w.rev w.blocks w.undos,
      fun _ _ _ hfalse => hfalse.elim⟩

/-- A run of allowed calls returns, and ends in an intact state. -/
theorem run {ops : List StorageOp} {w : Node} (h : Intact o keys hash256 params entry w)
    (hops : AllowedRun o keys hash256 params entry w ops) :
    ∃ w', Runs.run (Node.step o keys hash256 entry) w ops = some w' ∧
      Intact o keys hash256 params entry w' ∧
      ∀ e n block, (∀ op ∈ ops, op.Leaves n) → Lasting w e n block → Lasting w' e n block := by
  induction ops generalizing w with
  | nil => exact ⟨w, rfl, h, fun _ _ _ _ hlasting => hlasting⟩
  | cons op ops ih =>
    obtain ⟨w₁, hstep, h₁, hlast₁⟩ := h.step hops.1
    obtain ⟨w', hrun, h', hlast'⟩ := ih h₁ (hops.2 w₁ hstep)
    refine ⟨w', ?_, h', fun e n block hleaves hlasting => ?_⟩
    · rw [Runs.run_cons, hstep, bind_some, hrun]
    · refine hlast' e n block (forall_mem_cons.mp hleaves).2 ?_
      exact hlast₁ e n block (hleaves op mem_cons_self) hlasting

/-- Every state that is reached is intact. -/
theorem of_run {ops : List StorageOp} (hops : AllowedRun o keys hash256 params entry {} ops)
    (hrun : Runs.run (Node.step o keys hash256 entry) {} ops = some w) :
    Intact o keys hash256 params entry w := by
  have hempty : Intact o keys hash256 params entry {} := intact_empty ..
  obtain ⟨w₀, hrun₀, hintact, -⟩ := hempty.run hops
  rw [hrun] at hrun₀
  cases hrun₀
  exact hintact

/-- What the readers give for an entry with data. -/
theorem read (h : Intact o keys hash256 params entry w) (hdata : (w.position e).haveData = true) :
    ∃ block, w.blocks e = some block ∧
      w.readBlock o hash256 params (w.position e).getBlockPos (some (entry e).hash) = some block ∧
      w.readRawBlock o (w.position e).getBlockPos none = .ok (writeBlock true block) ∧
      ∀ offset size, w.readRawBlock o (w.position e).getBlockPos (some (offset, size)) =
        if size = 0 ∨ offset + size > (writeBlock true block).length then .error .badPartRange
        else .ok (((writeBlock true block).drop offset).take size) := by
  obtain ⟨block, hblock⟩ := (h.entry e).data hdata
  have hpos : (w.position e).getBlockPos =
      some ⟨(w.position e).nFile, (w.position e).nDataPos⟩ := by
    rw [DiskPosition.getBlockPos, hdata, if_pos rfl]
  rw [hpos]
  obtain ⟨hraw, hpart⟩ := hblock.stored.readRawBlock hblock.acceptable.size
  refine ⟨block, hblock.blocks_eq, ?_, hraw, hpart⟩
  refine hblock.stored.readBlock hblock.acceptable.size hblock.acceptable.decodable
    hblock.acceptable.pow hblock.acceptable.signet fun expected hexpected => ?_
  rw [hblock.acceptable.hash]
  exact Option.some.inj hexpected

/-- What the reader gives for an entry with undo data. -/
theorem readUndo (h : Intact o keys hash256 params entry w)
    (hundo : (w.position e).haveUndo = true) :
    ∃ undo prevHash, w.undos e = some undo ∧ Node.prevHash entry e = some prevHash ∧
      w.readBlockUndo keys hash256 o e prevHash = some undo := by
  obtain ⟨undo, prevHash, hdata⟩ := (h.entry e).undo hundo
  refine ⟨undo, prevHash, hdata.undos_eq, hdata.prevHash_eq, ?_⟩
  refine hdata.stored.readBlockUndo ?_ hdata.storable
  rw [DiskPosition.getUndoPos, hundo, if_pos rfl]

end Intact

/-! ## What was stored -/

/-- A call of the run stored the block for the entry. -/
def StoredBy (ops : List StorageOp) (e : EntryPtr) (block : Block) : Prop :=
  (∃ env, .acceptBlock e block env ∈ ops) ∨ ∃ pos, .acceptFound e block pos ∈ ops

/-- A call of the run stored the undo data for the entry. -/
def UndoStoredBy (ops : List StorageOp) (e : EntryPtr) (undo : BlockUndo) : Prop :=
  ∃ env, .writeUndo e undo env ∈ ops

theorem update_some {α : Type} {f : EntryPtr → Option α} {e e' : EntryPtr} {a b : α}
    (h : Function.update f e (some a) e' = some b) : f e' = some b ∨ e' = e ∧ b = a := by
  by_cases he : e' = e
  · rw [he, update_self] at h
    exact Or.inr ⟨he, (Option.some.inj h).symm⟩
  · rw [update_of_ne he] at h
    exact Or.inl h

/-- The records of the last two fields come from the calls. -/
theorem step_sources {op : StorageOp} (hstep : w.step o keys hash256 entry op = some w') :
    (∀ e block, w'.blocks e = some block → w.blocks e = some block ∨ StoredBy [op] e block) ∧
      ∀ e undo, w'.undos e = some undo → w.undos e = some undo ∨ UndoStoredBy [op] e undo := by
  cases op with
  | acceptBlock e block env =>
    have h : w.acceptBlock o entry e block env = some w' := hstep
    unfold Node.acceptBlock at h
    split at h
    · cases h
      exact ⟨fun _ _ => Or.inl, fun _ _ => Or.inl⟩
    · obtain ⟨⟨pos, s⟩, -, h⟩ := bind_eq_some_iff.mp h
      cases pos with
      | none =>
        cases h
        exact ⟨fun _ _ => Or.inl, fun _ _ => Or.inl⟩
      | some pos =>
        cases h
        refine ⟨fun e' block' hb => ?_, fun _ _ hu => Or.inl hu⟩
        rcases update_some hb with hold | ⟨rfl, rfl⟩
        · exact Or.inl hold
        · exact Or.inr (Or.inl ⟨env, mem_singleton.mpr rfl⟩)
  | acceptFound e block pos =>
    cases hstep
    unfold Node.acceptFound
    split
    · exact ⟨fun _ _ => Or.inl, fun _ _ => Or.inl⟩
    · refine ⟨fun e' block' hb => ?_, fun _ _ hu => Or.inl hu⟩
      rcases update_some hb with hold | ⟨rfl, rfl⟩
      · exact Or.inl hold
      · exact Or.inr (Or.inr ⟨pos, mem_singleton.mpr rfl⟩)
  | writeUndo e undo env =>
    have h : w.writeUndo o keys hash256 entry e undo env = some w' := hstep
    unfold Node.writeUndo at h
    obtain ⟨prevHash, -, h⟩ := bind_eq_some_iff.mp h
    obtain ⟨⟨written, s⟩, -, h⟩ := bind_eq_some_iff.mp h
    cases h
    refine ⟨fun _ _ hb => Or.inl hb, fun e' undo' hu => ?_⟩
    dsimp only at hu
    split at hu
    · rcases update_some hu with hold | ⟨rfl, rfl⟩
      · exact Or.inl hold
      · exact Or.inr ⟨env, mem_singleton.mpr rfl⟩
    · exact Or.inl hu
  | flushState prunes tipHeight env removes =>
    have h : w.flushState prunes tipHeight env removes = some w' := hstep
    unfold Node.flushState at h
    obtain ⟨s, -, h⟩ := bind_eq_some_iff.mp h
    dsimp only at h
    split at h
    · cases h
      exact ⟨fun _ _ => Or.inl, fun _ _ => Or.inl⟩
    · obtain ⟨s', -, h⟩ := bind_eq_some_iff.mp h
      cases h
      exact ⟨fun _ _ => Or.inl, fun _ _ => Or.inl⟩
  | loadSnapshot height =>
    cases hstep
    exact ⟨fun _ _ => Or.inl, fun _ _ => Or.inl⟩
  | restart snapshotHeight removes =>
    cases hstep
    exact ⟨fun _ _ => Or.inl, fun _ _ => Or.inl⟩
  | reindex =>
    cases hstep
    exact ⟨fun _ _ => Or.inl, fun _ _ => Or.inl⟩

theorem run_sources {ops : List StorageOp}
    (hrun : Runs.run (Node.step o keys hash256 entry) {} ops = some w) :
    (∀ e block, w.blocks e = some block → StoredBy ops e block) ∧
      ∀ e undo, w.undos e = some undo → UndoStoredBy ops e undo := by
  refine Runs.run_invariant (I := fun ops w =>
    (∀ e block, w.blocks e = some block → StoredBy ops e block) ∧
      ∀ e undo, w.undos e = some undo → UndoStoredBy ops e undo) ?_ ?_ hrun
  · exact ⟨fun _ _ hb => (by cases hb), fun _ _ hu => (by cases hu)⟩
  · intro pre op w w' hw hstep
    obtain ⟨hblocks, hundos⟩ := step_sources hstep
    refine ⟨fun e block hb => ?_, fun e undo hu => ?_⟩
    · rcases hblocks e block hb with hold | ⟨env, henv⟩ | ⟨pos, hpos⟩
      · rcases hw.1 e block hold with ⟨env, henv⟩ | ⟨pos, hpos⟩
        · exact Or.inl ⟨env, mem_append_left _ henv⟩
        · exact Or.inr ⟨pos, mem_append_left _ hpos⟩
      · exact Or.inl ⟨env, mem_append_right _ henv⟩
      · exact Or.inr ⟨pos, mem_append_right _ hpos⟩
    · rcases hundos e undo hu with hold | ⟨env, henv⟩
      · obtain ⟨env, henv⟩ := hw.2 e undo hold
        exact ⟨env, mem_append_left _ henv⟩
      · exact ⟨env, mem_append_right _ henv⟩

/-! ## Main results -/

namespace Sample

def storageOptions : StorageOptions where
  obfuscation := openFile.obfuscation
  messageStart := [0xf9, 0xbe, 0xb4, 0xd9]
  length_messageStart := rfl
  fastPrune := false
  address := 3

def constantHash (_ : List UInt8) : Uint256 := Uint256.filled 7

/-- A chain of entries. -/
def storedEntry (e : EntryPtr) : BlockIndex :=
  { hash := Uint256.filled 7, pprev := if e = 0 then none else some (e - 1), nHeight := e }

def easyParams : ConsensusParams where
  hashGenesisBlock := Uint256.filled 7
  checkProofOfWork _ _ := true
  signetBlocks := false
  checkSignetBlockSolution _ := true

def reward : Transaction :=
  ⟨1, [⟨⟨Uint256.null, OutPoint.nullIndex⟩, [0, 0], 0, []⟩], [⟨50, payToKey⟩], 0⟩

def spend : Transaction := ⟨2, [⟨⟨Uint256.filled 7, 0⟩, [], 0, [[1, 2]]⟩], [⟨30, [0x51]⟩], 5⟩

def storedBlock : Block where
  nVersion := 1
  hashPrevBlock := Uint256.filled 7
  hashMerkleRoot := Uint256.filled 7
  nTime := 5
  nBits := 0
  nNonce := 9
  vtx := [reward, spend]

/-- The coin that the block spends. -/
def storedUndo : BlockUndo := ⟨[⟨[⟨⟨40, payToKey⟩, false, 1⟩]⟩]⟩

/-- Three of the bytes that are allocated reach the disk. -/
def writeEnv : WriteEnv := { allocation := some (.zeros 3) }

/-- A block and its undo data are stored, the state is flushed, and the process starts
again. -/
def storageOps : List StorageOp :=
  [.acceptBlock 1 storedBlock writeEnv, .writeUndo 1 storedUndo writeEnv,
    .flushState [] 1 writeEnv fun _ => (true, true), .restart none fun _ => (true, true)]

theorem storedBlock_acceptable (e : EntryPtr) :
    Acceptable constantHash easyParams storedEntry e storedBlock where
  size := by decide +kernel
  decodable := by
    refine ⟨by decide, forall_mem_cons.mpr ⟨?_, forall_mem_singleton.mpr ?_⟩⟩ <;>
      exact ⟨⟨by decide, forall_mem_singleton.mpr ⟨by decide, by decide, by decide⟩⟩,
        ⟨by decide, forall_mem_singleton.mpr (by decide)⟩,
        fun h => absurd h (cons_ne_nil _ _)⟩
  hash := rfl
  pow := rfl
  signet := fun h => absurd h Bool.false_ne_true

theorem storedUndo_storable : BlockUndoStorable storedUndo :=
  ⟨by decide, forall_mem_singleton.mpr
    ⟨by decide, forall_mem_singleton.mpr ⟨by decide, by decide⟩⟩⟩

theorem acceptBlock_stored : (Node.step storageOptions generatorKeys constantHash storedEntry {}
      (.acceptBlock 1 storedBlock writeEnv)).map
        (fun w => (w.position 1, w.infos, w.cursor .normal, w.snapshotHeight)) =
      some (⟨0, 8, 0, true, false⟩, [⟨1, 285, 0, 1, 1, 5, 5⟩], some ⟨0, 0⟩, none) := by
  decide +kernel

theorem allowed_writeUndo {w : Node} {undo : BlockUndo} {env : WriteEnv}
    (hstep : Node.step storageOptions generatorKeys constantHash storedEntry {}
      (.acceptBlock 1 storedBlock writeEnv) = some w) (hstorable : BlockUndoStorable undo)
    (hsize : (writeBlockUndo generatorKeys undo).length + undoDataDiskOverhead < 2 ^ 32) :
    Allowed storageOptions generatorKeys constantHash easyParams storedEntry w
      (.writeUndo 1 undo env) := by
  have h := acceptBlock_stored
  rw [hstep, map_some, Option.some.injEq, Prod.mk.injEq, Prod.mk.injEq, Prod.mk.injEq] at h
  obtain ⟨hposition, hinfos, hcursor, hsnapshot⟩ := h
  refine ⟨by rw [hposition], rfl, ?_, hstorable, ?_⟩
  · rw [BlockStore.blockfileTypeForHeight, hsnapshot]
    exact isSome_iff_exists.mpr ⟨_, hcursor⟩
  · intro info hinfo
    rw [hposition, hinfos] at hinfo
    cases hinfo
    rwa [Nat.zero_add]

theorem storageOps_allowed : AllowedRun storageOptions generatorKeys constantHash easyParams
    storedEntry {} storageOps := by
  refine ⟨⟨storedBlock_acceptable 1, fun n info h => ?_⟩, fun w hstep => ?_⟩
  · cases h
  · refine ⟨allowed_writeUndo hstep storedUndo_storable (by decide +kernel), fun w' _ => ?_⟩
    exact ⟨⟨fun _ h => absurd h not_mem_nil, Or.inl rfl⟩, fun _ _ => ⟨trivial, fun _ _ => trivial⟩⟩

theorem storageOps_run : (Runs.run (Node.step storageOptions generatorKeys constantHash
    storedEntry) {} storageOps).map (fun w => w.position 1) = some ⟨0, 8, 8, true, true⟩ := by
  decide +kernel

theorem firstOps_run : (Runs.run (Node.step storageOptions generatorKeys constantHash
    storedEntry) {} (storageOps.take 2)).map (fun w => w.position 1) =
      some ⟨0, 8, 8, true, true⟩ := by
  decide +kernel

end Sample

open Sample

theorem allowedRun_append {ops ops' : List StorageOp} {w : Node}
    (h : AllowedRun o keys hash256 params entry w (ops ++ ops')) :
    AllowedRun o keys hash256 params entry w ops ∧
      ∀ w', Runs.run (Node.step o keys hash256 entry) w ops = some w' →
        AllowedRun o keys hash256 params entry w' ops' := by
  induction ops generalizing w with
  | nil =>
    refine ⟨trivial, fun w' hrun => ?_⟩
    cases hrun
    exact h
  | cons op ops ih =>
    refine ⟨⟨h.1, fun w₁ hstep => (ih (h.2 w₁ hstep)).1⟩, fun w' hrun => ?_⟩
    rw [Runs.run_cons] at hrun
    obtain ⟨w₁, hstep, hrun⟩ := bind_eq_some_iff.mp hrun
    exact (ih (h.2 w₁ hstep)).2 w' hrun

end BitcoinKernel.Storage
