import BitcoinKernel.Storage.BlockFilesKeep

/-!
# Records in the block files

A record that was written is found where its position says.

* `BlockStored` and `UndoStored`: the bytes of a record stand in a file below the sizes of
  its `CBlockFileInfo`.  Every write keeps them (`BlockStored.keeps`).
* `writeBlock_spec`, `updateBlockInfo_spec` and `writeBlockUndo_spec`: what the calls of
  validation that store something do.  They return, and the store advances.
* `BlockStored.readRawBlock`, `BlockStored.readBlock` and `UndoStored.readBlockUndo`: what
  is stored is read back, and `ReadRawBlock` gives any part of it.
-/

namespace BitcoinKernel.Storage

open KeyStream FlatFile State Serialize Validation Outcome List Function

/-! ## Records in a file -/

/-- The bytes of a record stand in a file, obfuscated. -/
def RecordAt (o : StorageOptions) (file : List UInt8) (nPos : Nat) (data : List UInt8) : Prop :=
  Has file nPos (mask o.obfuscation.keyByte nPos data)

namespace RecordAt

variable {o : StorageOptions} {file file' : List UInt8} {nPos mark : Nat} {data : List UInt8}

theorem of_sameBelow (h : RecordAt o file nPos data) (hmark : nPos + data.length ≤ mark)
    (hsame : SameBelow mark file file') : RecordAt o file' nPos data :=
  Has.of_sameBelow h (by rw [length_mask]; exact hmark) hsame

/-- What a reader finds at the position. -/
theorem remaining (h : RecordAt o file nPos data) :
    ∃ rest, AutoFile.remaining ⟨o.obfuscation, file, nPos⟩ = data ++ rest := by
  obtain ⟨after, hafter⟩ := Has.drop_eq h
  unfold AutoFile.remaining
  rw [hafter, mask_append, mask_mask]
  exact ⟨_, rfl⟩

theorem right {a b : List UInt8} (h : RecordAt o file nPos (a ++ b)) :
    RecordAt o file (nPos + a.length) b := by
  unfold RecordAt at h
  rw [mask_append] at h
  have hright := h.right
  rwa [length_mask] at hright

end RecordAt

variable {env : WriteEnv} {info info' : FileInfo} {nPos n : Nat} {cursor : Cursor} {e : EntryPtr}

theorem writeRecord_eq (o : StorageOptions) (h : env.fails = none) (file : List UInt8) (nPos : Nat)
    (pieces : List (List UInt8)) :
    BlockStore.writeRecord o env file nPos pieces =
      writeAt file nPos (mask o.obfuscation.keyByte nPos pieces.flatten) := by
  unfold BlockStore.writeRecord
  rw [h]
  dsimp only
  have hall := BufferedWriter.writeAll_eq
    ⟨⟨o.obfuscation, file, nPos⟩, o.address, writerBufferSize, []⟩ (Nat.two_pow_pos 16) pieces
  rw [hall]
  rfl

theorem sameBelow_writeRecord (o : StorageOptions) (env : WriteEnv) (file : List UInt8) (nPos : Nat)
    (pieces : List (List UInt8)) :
    SameBelow nPos file (BlockStore.writeRecord o env file nPos pieces) := by
  cases h : env.fails with
  | none =>
    rw [writeRecord_eq o h]
    exact .writeAt (Nat.le_refl _)
  | some count =>
    unfold BlockStore.writeRecord
    rw [h]
    exact .writeAt (Nat.le_refl _)

theorem recordAt_writeRecord (o : StorageOptions) (h : env.fails = none) (file : List UInt8)
    (nPos : Nat) {pieces : List (List UInt8)} (hpieces : pieces.flatten ≠ []) :
    RecordAt o (BlockStore.writeRecord o env file nPos pieces) nPos pieces.flatten := by
  rw [writeRecord_eq o h]
  refine has_writeAt file nPos fun hnil => hpieces ?_
  have hlength := congrArg List.length hnil
  rw [length_mask] at hlength
  exact eq_nil_of_length_eq_zero hlength

/-! ### Blocks -/

/-- The file information includes a block at a position. -/
structure FileInfo.HasBlock (info : FileInfo) (nPos : Nat) (block : Block) (nHeight : Nat) :
    Prop where
  size : nPos + (writeBlock true block).length ≤ info.nSize
  height : info.Covers nHeight

theorem FileInfo.HasBlock.grows {nHeight : Nat} {block : Block}
    (h : info.HasBlock nPos block nHeight) (hgrows : info.Grows info') :
    info'.HasBlock nPos block nHeight :=
  ⟨h.size.trans hgrows.size, hgrows.covers _ h.height⟩

/-- The record of a block stands where its position says. -/
structure BlockStored (o : StorageOptions) (s : BlockStore) (pos : FilePos) (block : Block)
    (nHeight : Nat) : Prop where
  header : storageHeaderBytes ≤ pos.nPos
  record : RecordAt o (s.blk pos.nFile) (pos.nPos - storageHeaderBytes)
    (BlockStore.blockPieces o block).flatten
  info : ∃ info : FileInfo, s.infos[pos.nFile]? = some info ∧ info.HasBlock pos.nPos block nHeight
  last : pos.nFile ≤ s.maxBlockfileNum

theorem blockPieces_flatten (o : StorageOptions) (block : Block) :
    (BlockStore.blockPieces o block).flatten =
      o.messageStart ++ (Bytes.encodeLE 4 (writeBlock true block).length ++
        writeBlock true block) := by
  simp [BlockStore.blockPieces]

theorem length_blockPieces (o : StorageOptions) (block : Block) :
    (BlockStore.blockPieces o block).flatten.length =
      storageHeaderBytes + (writeBlock true block).length := by
  rw [blockPieces_flatten, length_append, length_append, o.length_messageStart,
    Bytes.length_encodeLE, storageHeaderBytes]
  omega

theorem blockPieces_ne_nil (o : StorageOptions) (block : Block) :
    (BlockStore.blockPieces o block).flatten ≠ [] := by
  intro hnil
  have hlength := length_blockPieces o block
  rw [hnil, length_nil, storageHeaderBytes] at hlength
  omega

variable {o : StorageOptions} {s s' : BlockStore} {pos : FilePos} {block : Block}
  {nHeight : Nat}

/-- A stored block stays stored. -/
theorem BlockStored.keeps (h : BlockStored o s pos block nHeight) (hkeeps : s.Keeps s') :
    BlockStored o s' pos block nHeight := by
  obtain ⟨info, hinfo, hhas⟩ := h.info
  obtain ⟨info', hinfo', hgrows⟩ := hkeeps.info _ _ hinfo
  refine ⟨h.header, ?_, ⟨info', hinfo', hhas.grows hgrows⟩, h.last.trans hkeeps.files⟩
  refine h.record.of_sameBelow ?_ (hkeeps.blk _ _ hinfo)
  have hsize := hhas.size
  have hheader := h.header
  rw [length_blockPieces]
  omega

/-! ### Undo data -/

/-- The file information includes undo data at a position. -/
def FileInfo.HasUndo (keys : PubKeys) (info : FileInfo) (nPos : Nat) (undo : BlockUndo) : Prop :=
  nPos + ((writeBlockUndo keys undo).length + 32) ≤ info.nUndoSize

variable {keys : PubKeys} {hash256 : List UInt8 → Uint256} {prevHash : Uint256}
  {undo : BlockUndo}

theorem FileInfo.HasUndo.grows (h : info.HasUndo keys nPos undo) (hgrows : info.Grows info') :
    info'.HasUndo keys nPos undo := Nat.le_trans h hgrows.undoSize

/-- The record of undo data stands where its position says. -/
structure UndoStored (o : StorageOptions) (keys : PubKeys) (hash256 : List UInt8 → Uint256)
    (s : BlockStore) (pos : FilePos) (prevHash : Uint256) (undo : BlockUndo) : Prop where
  header : storageHeaderBytes ≤ pos.nPos
  record : RecordAt o (s.rev pos.nFile) (pos.nPos - storageHeaderBytes)
    (BlockStore.undoPieces keys hash256 o prevHash undo).flatten
  info : ∃ info : FileInfo, s.infos[pos.nFile]? = some info ∧ info.HasUndo keys pos.nPos undo

theorem undoPieces_flatten : (BlockStore.undoPieces keys hash256 o prevHash undo).flatten =
      (o.messageStart ++ Bytes.encodeLE 4 (writeBlockUndo keys undo).length) ++
        undoRecord keys hash256 prevHash undo := by
  simp [BlockStore.undoPieces, undoRecord]

theorem length_undoRecord : (undoRecord keys hash256 prevHash undo).length =
    (writeBlockUndo keys undo).length + 32 := by
  rw [undoRecord, length_append, Uint256.length_eq]

variable (o keys hash256 prevHash undo) in
theorem length_undoPieces : (BlockStore.undoPieces keys hash256 o prevHash undo).flatten.length =
      storageHeaderBytes + ((writeBlockUndo keys undo).length + 32) := by
  rw [undoPieces_flatten, length_append, length_append, length_undoRecord,
    o.length_messageStart, Bytes.length_encodeLE, storageHeaderBytes]

variable (o keys hash256 prevHash undo) in
theorem undoPieces_ne_nil : (BlockStore.undoPieces keys hash256 o prevHash undo).flatten ≠ [] := by
  intro hnil
  have hlength := length_undoPieces o keys hash256 prevHash undo
  rw [hnil, length_nil, storageHeaderBytes] at hlength
  omega

theorem UndoStored.keeps (h : UndoStored o keys hash256 s pos prevHash undo)
    (hkeeps : s.Keeps s') : UndoStored o keys hash256 s' pos prevHash undo := by
  obtain ⟨info, hinfo, hhas⟩ := h.info
  obtain ⟨info', hinfo', hgrows⟩ := hkeeps.info _ _ hinfo
  refine ⟨h.header, ?_, info', hinfo', hhas.grows hgrows⟩
  refine h.record.of_sameBelow ?_ (hkeeps.rev _ _ hinfo)
  have hheader := h.header
  unfold FileInfo.HasUndo at hhas
  rw [length_undoPieces]
  omega

/-! ## Writing -/

theorem getElem?_modifyInfo (h : s.infos[n]? = some info) (f : FileInfo → FileInfo) :
    (s.modifyInfo n f).infos[n]? = some (f info) := by
  show (s.infos.modify n f)[n]? = _
  rw [getElem?_modify, h]
  exact congrArg some (if_pos rfl)

/-- `WriteBlock` returns.  What was stored stays, and if it gives a position, the block is
stored there. -/
theorem writeBlock_spec (o : StorageOptions) (hs : s.Wf) (env : WriteEnv)
    (hsize : (writeBlock true block).length ≤ maxSize)
    (hcount : ∀ (n : Nat) (info : FileInfo), s.infos[n]? = some info → info.nBlocks + 1 < 2 ^ 32)
    (nHeight : Nat) :
    ∃ pos s', BlockStore.writeBlock o s env block nHeight = some (pos, s') ∧ s.Advances s' ∧
      ∀ p, pos = some p → BlockStored o s' p block nHeight ∧ s'.dirtyFileinfo p.nFile = true := by
  have hmax : maxSize = 2 ^ 25 := rfl
  have hlength : ((writeBlock true block).length % 2 ^ 32 + storageHeaderBytes) % 2 ^ 32 =
      (writeBlock true block).length + storageHeaderBytes := by
    rw [storageHeaderBytes]
    omega
  have hadd : (writeBlock true block).length + storageHeaderBytes < 2 ^ 27 := by
    rw [storageHeaderBytes]
    omega
  obtain ⟨s₁, nFile, info, file, hadv, hnew, hlast, hinfo, hfits, hsame, hfind⟩ :=
    BlockStore.findNextBlockPos_spec o hs env hadd nHeight block.nTime.toNat
  have hblocks : info.nBlocks + 1 < 2 ^ 32 := by
    rcases hnew nFile info hinfo with hold | hempty
    · exact hcount nFile info hold
    · rw [hempty]
      decide
  -- the information of the file, with the block
  generalize hf : (fun info : FileInfo => (info.addBlock nHeight block.nTime.toNat).addSize
    ((writeBlock true block).length + storageHeaderBytes)) = f at hfind
  have hwrap : (info.addBlock nHeight block.nTime.toNat).nSize +
      ((writeBlock true block).length + storageHeaderBytes) < 2 ^ 32 := by
    show info.nSize + _ < _
    omega
  have hgrows : info.Grows (f info) := by
    rw [← hf]
    exact (FileInfo.grows_addBlock hblocks _ _).trans (FileInfo.grows_addSize hwrap)
  have hnSize : (f info).nSize = info.nSize + ((writeBlock true block).length +
      storageHeaderBytes) := by
    rw [← hf]
    exact FileInfo.nSize_addSize hwrap
  have hcovers : (f info).Covers nHeight := by
    rw [← hf]
    exact (FileInfo.grows_addSize hwrap).covers _ (FileInfo.covers_addBlock hblocks _ _)
  have hextend : ∀ file', SameBelow info.nSize (s₁.blk nFile) file' →
      s.Advances ((s₁.modifyInfo nFile f).setBlk nFile file') := fun file' hfile' =>
    hadv.trans (.extendBlk hinfo hgrows (fun _ => by omega) hfile')
  have hlt : nFile < (s₁.modifyInfo nFile f).infos.length :=
    (List.getElem?_eq_some_iff.mp (getElem?_modifyInfo hinfo f)).1
  unfold BlockStore.writeBlock
  dsimp only
  rw [hlength]
  rcases hfind with hfind | hfind
  · -- no space
    rw [hfind]
    exact ⟨none, _, rfl, hextend file hsame, fun p hp => by cases hp⟩
  · rw [hfind]
    dsimp only [bind, Option.bind]
    cases hopens : env.opens with
    | false =>
      exact ⟨none, _, rfl, (hextend file hsame).trans (.markFile hlt), fun p hp => by cases hp⟩
    | true =>
      rw [Bool.not_true, if_neg Bool.false_ne_true]
      have hblk : (((s₁.modifyInfo nFile f).setBlk nFile file).markFile nFile).blk nFile =
          file := update_self ..
      have hset : ∀ file', (((s₁.modifyInfo nFile f).setBlk nFile file).markFile nFile).setBlk
          nFile file' = ((s₁.modifyInfo nFile f).setBlk nFile file').markFile nFile := by
        intro file'
        simp only [BlockStore.setBlk, BlockStore.markFile, update_idem]
      rw [hblk, hset]
      have hwritten : s.Advances (((s₁.modifyInfo nFile f).setBlk nFile
          (BlockStore.writeRecord o env file info.nSize
            (BlockStore.blockPieces o block))).markFile nFile) :=
        (hextend _ (hsame.trans (Nat.le_refl _)
          (sameBelow_writeRecord o env file info.nSize _))).trans (.markFile hlt)
      cases hfails : env.fails with
      | some count => exact ⟨none, _, rfl, hwritten, fun p hp => by cases hp⟩
      | none =>
        refine ⟨_, _, rfl, hwritten, ?_⟩
        intro p hp
        cases hp
        refine ⟨⟨Nat.le_add_left _ _, ?_, ⟨f info, getElem?_modifyInfo hinfo f, ?_, hcovers⟩,
          hlast⟩, update_self ..⟩
        · show RecordAt o (Function.update s₁.blk nFile _ nFile)
            (info.nSize + storageHeaderBytes - storageHeaderBytes) _
          rw [update_self, Nat.add_sub_cancel]
          exact recordAt_writeRecord o hfails file info.nSize (blockPieces_ne_nil o block)
        · show info.nSize + storageHeaderBytes + _ ≤ _
          omega

/-- A block that a reindex finds in a file is stored from then on. -/
theorem updateBlockInfo_spec (hheader : storageHeaderBytes ≤ pos.nPos)
    (hrecord : RecordAt o (s.blk pos.nFile) (pos.nPos - storageHeaderBytes)
      (BlockStore.blockPieces o block).flatten)
    (hsize : pos.nPos + (writeBlock true block).length < 2 ^ 31)
    (hcount : ∀ (n : Nat) (info : FileInfo), s.infos[n]? = some info → info.nBlocks + 1 < 2 ^ 32)
    (nHeight : Nat) :
    s.Advances (s.updateBlockInfo block nHeight pos) ∧
      BlockStored o (s.updateBlockInfo block nHeight pos) pos block nHeight ∧
      (s.updateBlockInfo block nHeight pos).dirtyFileinfo pos.nFile = true := by
  -- the cursor and the vector
  obtain ⟨s₁, hdef, hadv, hinfos, hblk, hlast⟩ : ∃ s₁ : BlockStore,
      s.updateBlockInfo block nHeight pos =
        (s₁.modifyInfo pos.nFile fun info => (info.addBlock nHeight block.nTime.toNat).reach
          ((pos.nPos + (writeBlock true block).length % 2 ^ 32) % 2 ^ 32)).markFile pos.nFile ∧
      s.Advances s₁ ∧ s₁.infos = (s.resize pos.nFile).infos ∧ s₁.blk = s.blk ∧
      pos.nFile ≤ s₁.maxBlockfileNum := by
    have hinfos : ((s.setCursor (s.blockfileTypeForHeight nHeight)
        { fileNum := pos.nFile }).resize pos.nFile).infos = (s.resize pos.nFile).infos := by
      rw [BlockStore.infos_resize, BlockStore.infos_setCursor, BlockStore.infos_resize]
    have hmax : pos.nFile ≤ ((s.setCursor (s.blockfileTypeForHeight nHeight)
        { fileNum := pos.nFile }).resize pos.nFile).maxBlockfileNum :=
      BlockStore.le_max_setCursor s _ _
    unfold BlockStore.updateBlockInfo
    dsimp only
    cases hc : s.cursor (s.blockfileTypeForHeight nHeight) with
    | none => exact ⟨_, rfl, .moveTo (Or.inl hc), hinfos, BlockStore.blk_setCursor .., hmax⟩
    | some c =>
      dsimp only
      by_cases hlt : c.fileNum < pos.nFile
      · rw [if_pos hlt]
        exact ⟨_, rfl, .moveTo (Or.inr ⟨c, hc, hlt.le⟩), hinfos, BlockStore.blk_setCursor .., hmax⟩
      · rw [if_neg hlt]
        have hle := BlockStore.fileNum_le_max hc
        exact ⟨_, rfl, .resize (fun hs => hs) rfl rfl rfl rfl rfl rfl (Nat.le_refl _)
          (by omega) (fun _ _ hc => Or.inl hc), rfl, rfl, show pos.nFile ≤ s.maxBlockfileNum
          by omega⟩
  have hlt : pos.nFile < s₁.infos.length := by
    rw [hinfos, BlockStore.length_resize]
    omega
  obtain ⟨info, hinfo⟩ : ∃ info, s₁.infos[pos.nFile]? = some info := ⟨_, getElem?_eq_getElem hlt⟩
  have hblocks : info.nBlocks + 1 < 2 ^ 32 := by
    rw [hinfos] at hinfo
    rcases BlockStore.getElem?_resize_new hinfo with hold | ⟨-, hempty⟩
    · exact hcount _ info hold
    · rw [hempty]
      decide
  have hmod : (pos.nPos + (writeBlock true block).length % 2 ^ 32) % 2 ^ 32 =
      pos.nPos + (writeBlock true block).length := by omega
  rw [hmod] at hdef
  rw [hdef]
  have hreach := FileInfo.grows_reach (info.addBlock nHeight block.nTime.toNat)
    (pos.nPos + (writeBlock true block).length)
  have hsame := BlockStore.Advances.extendBlk (s := s₁) (f := fun info =>
      (info.addBlock nHeight block.nTime.toNat).reach (pos.nPos + (writeBlock true block).length))
    hinfo ((FileInfo.grows_addBlock hblocks _ _).trans hreach)
    (fun hlt => by show max _ info.nSize < _; omega) (.refl _ (s₁.blk pos.nFile))
  have hself : ∀ f, (s₁.modifyInfo pos.nFile f).setBlk pos.nFile (s₁.blk pos.nFile) =
      s₁.modifyInfo pos.nFile f := by
    intro f
    simp only [BlockStore.modifyInfo, BlockStore.setBlk, update_eq_self]
  rw [hself] at hsame
  refine ⟨(hadv.trans hsame).trans (.markFile ?_), ⟨hheader, ?_, ⟨_, getElem?_modifyInfo hinfo _,
    Nat.le_max_left _ _, hreach.covers _ (FileInfo.covers_addBlock hblocks _ _)⟩, hlast⟩,
    update_self ..⟩
  · show _ < (s₁.infos.modify _ _).length
    rw [length_modify]
    exact hlt
  · show RecordAt o (s₁.blk pos.nFile) _ _
    rw [hblk]
    exact hrecord

/-- The last part of `WriteBlockUndo` returns, and the store advances. -/
theorem trackUndo_spec {type : BlockfileType} (hcursor : s.cursor type = some cursor)
    (hinfo : s.infos[n]? = some info) (env : WriteEnv) (nHeight : Nat) :
    ∃ s', s.trackUndo env type cursor n nHeight = some s' ∧ s.Advances s' := by
  unfold BlockStore.trackUndo
  rw [hinfo]
  dsimp only [bind, Option.bind]
  split_ifs
  · obtain ⟨rev, hflush, hadvances⟩ := BlockStore.flushUndoFile_spec hinfo env true
    exact ⟨_, hflush, hadvances⟩
  · exact ⟨_, rfl, .setCursor hcursor rfl⟩
  · exact ⟨s, rfl, .refl s⟩

/-- `WriteBlockUndo` for an entry without undo data returns.  What was stored stays, and if
it succeeds, the undo data is stored. -/
theorem writeBlockUndo_spec (o : StorageOptions) (keys : PubKeys) (hash256 : List UInt8 → Uint256)
    (env : WriteEnv) (hcursor : s.cursor (s.blockfileTypeForHeight nHeight) = some cursor)
    (hnew : (s.position e).haveUndo = false) (hinfo : s.infos[(s.position e).nFile]? = some info)
    (hsize : info.nUndoSize + ((writeBlockUndo keys undo).length + undoDataDiskOverhead) < 2 ^ 32)
    (prevHash : Uint256) :
    ∃ written s' s₁, s.writeBlockUndo keys hash256 o env e nHeight prevHash undo =
        some (written, s') ∧ s.Advances s₁ ∧
      (written = false ∧ s' = s₁ ∨ written = true ∧ ∃ nPos, s' = s₁.setPosition e
            { s.position e with nUndoPos := nPos, haveUndo := true } ∧
          UndoStored o keys hash256 s₁ ⟨(s.position e).nFile, nPos⟩ prevHash undo ∧
          s₁.dirtyFileinfo (s.position e).nFile = true) := by
  have hlength : ((writeBlockUndo keys undo).length % 2 ^ 32 + undoDataDiskOverhead) % 2 ^ 32 =
      (writeBlockUndo keys undo).length + undoDataDiskOverhead := by
    rw [undoDataDiskOverhead, storageHeaderBytes] at hsize ⊢
    omega
  obtain ⟨file, hsame, hfind⟩ := BlockStore.findUndoPos_spec hinfo env
    ((writeBlockUndo keys undo).length + undoDataDiskOverhead)
  -- the store with the undo data in the file information, whatever the file is
  generalize hstore : (s.modifyInfo (s.position e).nFile fun info => info.addUndoSize
    ((writeBlockUndo keys undo).length + undoDataDiskOverhead)).markFile (s.position e).nFile =
      s₁ at hfind
  have hinfo₁ : s₁.infos[(s.position e).nFile]? = some (info.addUndoSize
      ((writeBlockUndo keys undo).length + undoDataDiskOverhead)) := by
    rw [← hstore]
    exact getElem?_modifyInfo hinfo _
  have hcursor₁ : s₁.cursor = s.cursor := by
    rw [← hstore]
    rfl
  have hdirty₁ : s₁.dirtyFileinfo (s.position e).nFile = true := by
    rw [← hstore]
    exact update_self ..
  have hextend : ∀ file', SameBelow info.nUndoSize (s.rev (s.position e).nFile) file' →
      s.Advances (s₁.setRev (s.position e).nFile file') := by
    intro file' hfile'
    have hadvances := BlockStore.Advances.extendRev (f := fun info => info.addUndoSize
      ((writeBlockUndo keys undo).length + undoDataDiskOverhead)) hinfo
      (FileInfo.grows_addUndoSize hsize) (fun h => h) hfile'
    rw [← hstore]
    exact hadvances.trans (.markFile (s := (s.modifyInfo _ _).setRev _ file')
      (List.getElem?_eq_some_iff.mp (getElem?_modifyInfo hinfo _)).1)
  have hpos : (s.position e).getUndoPos = none := by
    rw [DiskPosition.getUndoPos, hnew]
    rfl
  unfold BlockStore.writeBlockUndo
  dsimp only
  rw [hcursor]
  dsimp only [bind, Option.bind]
  rw [hpos, hlength, if_neg (by decide)]
  rcases hfind with hfind | hfind
  · -- no space
    rw [hfind]
    exact ⟨false, _, _, rfl, hextend file hsame, Or.inl ⟨rfl, rfl⟩⟩
  rw [hfind]
  dsimp only
  cases hopens : env.opens with
  | false => exact ⟨false, _, _, rfl, hextend file hsame, Or.inl ⟨rfl, rfl⟩⟩
  | true =>
    have hfile : (s₁.setRev (s.position e).nFile file).rev (s.position e).nFile = file :=
      update_self ..
    have hset : ∀ file', (s₁.setRev (s.position e).nFile file).setRev (s.position e).nFile
        file' = s₁.setRev (s.position e).nFile file' := by
      intro file'
      simp only [BlockStore.setRev, update_idem]
    rw [Bool.not_true, if_neg Bool.false_ne_true, hfile, hset]
    have hwritten := hextend _ (hsame.trans (Nat.le_refl _) (sameBelow_writeRecord o
      env file info.nUndoSize (BlockStore.undoPieces keys hash256 o prevHash undo)))
    cases hfails : env.fails with
    | some count => exact ⟨false, _, _, rfl, hwritten, Or.inl ⟨rfl, rfl⟩⟩
    | none =>
      -- the record is in the file, before the cursor is moved or the file is cut
      have hstored : UndoStored o keys hash256 (s₁.setRev (s.position e).nFile
          (BlockStore.writeRecord o env file info.nUndoSize
            (BlockStore.undoPieces keys hash256 o prevHash undo)))
          ⟨(s.position e).nFile, info.nUndoSize + storageHeaderBytes⟩ prevHash undo := by
        refine ⟨Nat.le_add_left _ _, ?_, _, hinfo₁, ?_⟩
        · show RecordAt o (Function.update s₁.rev (s.position e).nFile _ _)
            (info.nUndoSize + storageHeaderBytes - storageHeaderBytes) _
          rw [update_self, Nat.add_sub_cancel]
          exact recordAt_writeRecord o hfails file info.nUndoSize
            (undoPieces_ne_nil o keys hash256 prevHash undo)
        · show info.nUndoSize + storageHeaderBytes + _ ≤ FileInfo.nUndoSize _
          rw [FileInfo.nUndoSize_addUndoSize hsize, undoDataDiskOverhead]
          omega
      obtain ⟨s₂, htrack, hadvances⟩ := trackUndo_spec (s := s₁.setRev _ _)
        (congrFun hcursor₁ _ |>.trans hcursor) hinfo₁ env nHeight
      have hposition : s₂.position = s.position := (hwritten.trans hadvances).position
      rw [Option.isSome_none, if_neg Bool.false_ne_true, htrack]
      refine ⟨true, _, s₂, rfl, hwritten.trans hadvances, Or.inr ⟨rfl,
        info.nUndoSize + storageHeaderBytes, ?_, hstored.keeps hadvances.toKeeps,
        hadvances.dirtyFileinfo _ hdirty₁⟩⟩
      rw [hposition]

/-! ## Reading -/

theorem AutoFile.remaining_seek (f : AutoFile) (offset : Nat) :
    AutoFile.remaining { f with position := f.position + offset } = f.remaining.drop offset := by
  unfold AutoFile.remaining
  rw [mask_drop, drop_drop]

/-- A read of bytes that are in the file. -/
theorem AutoFile.read_of_remaining {f : AutoFile} {data rest : List UInt8}
    (h : f.remaining = data ++ rest) (address : Nat) {count : Nat} (hcount : data.length = count) :
    ∃ f', f.read address count = some (data, f') ∧ f'.remaining = rest := by
  have hread := f.read_eq address count
  rw [h, length_append, if_pos (by omega), take_left' hcount, drop_left' hcount] at hread
  exact hread

/-- Any part of a stored block is read back, and nothing else. -/
theorem BlockStored.readRawBlock (h : BlockStored o s pos block nHeight)
    (hsize : (writeBlock true block).length ≤ maxSize) :
    s.readRawBlock o (some pos) none = .ok (writeBlock true block) ∧
      ∀ offset size, s.readRawBlock o (some pos) (some (offset, size)) =
        if size = 0 ∨ offset + size > (writeBlock true block).length then .error .badPartRange
        else .ok (((writeBlock true block).drop offset).take size) := by
  have hmax : maxSize = 2 ^ 25 := rfl
  obtain ⟨rest, hremaining⟩ := h.record.remaining
  rw [blockPieces_flatten, append_assoc, append_assoc] at hremaining
  obtain ⟨f₁, hmagic, hf₁⟩ := AutoFile.read_of_remaining hremaining o.address
    o.length_messageStart
  obtain ⟨f₂, hlength, hf₂⟩ := AutoFile.read_of_remaining hf₁ o.address
    (Bytes.length_encodeLE 4 (writeBlock true block).length)
  have hdecode : Bytes.decodeLE (Bytes.encodeLE 4 (writeBlock true block).length) =
      (writeBlock true block).length := Bytes.decodeLE_encodeLE (by omega)
  have hopen : ∀ part, s.readRawBlock o (some pos) part =
      BlockStore.readPart o f₂ (writeBlock true block).length part := by
    intro part
    have hheader := h.header
    unfold BlockStore.readRawBlock
    rw [ofOption, ok_bind, if_neg (by omega)]
    dsimp only [pure_bind]
    rw [hmagic, ofOption, ok_bind]
    dsimp only
    rw [hlength, ofOption, ok_bind]
    dsimp only
    rw [hdecode, if_neg (not_not.mpr rfl), if_neg (by omega)]
  refine ⟨?_, fun offset size => ?_⟩
  · rw [hopen]
    obtain ⟨f₃, hdata, -⟩ := AutoFile.read_of_remaining hf₂ o.address rfl
    unfold BlockStore.readPart
    rw [BlockStore.seekPart, ok_bind]
    dsimp only
    rw [hdata]
    rfl
  · rw [hopen]
    unfold BlockStore.readPart
    rw [BlockStore.seekPart]
    by_cases hbad : size = 0 ∨ offset + size > (writeBlock true block).length
    · rw [if_pos hbad, if_pos (by omega)]
      rfl
    · have hin : offset + size ≤ (writeBlock true block).length := by omega
      have hseek : AutoFile.remaining { f₂ with position := f₂.position + offset } =
          ((writeBlock true block).drop offset).take size ++
            (((writeBlock true block).drop offset).drop size ++ rest) := by
        rw [AutoFile.remaining_seek, hf₂, drop_append_of_le_length (by omega),
          ← append_assoc, take_append_drop]
      have hcount : (((writeBlock true block).drop offset).take size).length = size := by
        rw [length_take, length_drop]
        omega
      obtain ⟨f₃, hdata, -⟩ := AutoFile.read_of_remaining hseek o.address hcount
      rw [if_neg hbad, if_neg (by omega), ok_bind]
      dsimp only
      rw [hdata]
      rfl

/-- `ReadBlock` gives back a stored block. -/
theorem BlockStored.readBlock {params : ConsensusParams} {expectedHash : Option Uint256}
    (h : BlockStored o s pos block nHeight) (hsize : (writeBlock true block).length ≤ maxSize)
    (hdecodable : VectorDecodable Transaction.Decodable block.vtx)
    (hpow : params.checkProofOfWork (block.toBlockHeader.getHash hash256) block.nBits = true)
    (hsignet : params.signetBlocks = true → params.checkSignetBlockSolution block = true)
    (hhash : ∀ expected, expectedHash = some expected →
      block.toBlockHeader.getHash hash256 = expected) :
    s.readBlock o hash256 params (some pos) expectedHash = some block := by
  have hraw := (h.readRawBlock hsize).1
  have hread := reads_block.run_write hdecodable []
  rw [append_nil] at hread
  unfold BlockStore.readBlock
  rw [hraw]
  dsimp only [Except.toOption, bind, Option.bind]
  rw [hread]
  dsimp only [Except.toOption, bind, Option.bind]
  rw [hpow, if_neg (by decide)]
  have hany : expectedHash.any (block.toBlockHeader.getHash hash256 != ·) = false := by
    cases expectedHash with
    | none => rfl
    | some expected =>
      rw [Option.any_some, hhash expected rfl, bne_self_eq_false]
  cases hblocks : params.signetBlocks with
  | false =>
    rw [Bool.false_and, if_neg Bool.false_ne_true, hany]
    rfl
  | true =>
    rw [hsignet hblocks, if_neg (by decide), hany]
    rfl

/-- `ReadBlockUndo` gives back stored undo data. -/
theorem UndoStored.readBlockUndo (hundo : (s.position e).getUndoPos = some pos)
    (h : UndoStored o keys hash256 s pos prevHash undo) (hstorable : BlockUndoStorable undo) :
    s.readBlockUndo keys hash256 o e prevHash = some undo := by
  have hrecord := h.record
  rw [undoPieces_flatten] at hrecord
  have hright := hrecord.right
  have hlength : (o.messageStart ++ Bytes.encodeLE 4 (writeBlockUndo keys undo).length).length =
      storageHeaderBytes := by
    rw [length_append, o.length_messageStart, Bytes.length_encodeLE, storageHeaderBytes]
  rw [hlength, Nat.sub_add_cancel h.header] at hright
  obtain ⟨rest, hremaining⟩ := hright.remaining
  unfold BlockStore.readBlockUndo
  rw [hundo]
  dsimp only [bind, Option.bind]
  rw [hremaining]
  exact readBlockUndo_record keys hash256 prevHash hstorable rest

end BitcoinKernel.Storage
