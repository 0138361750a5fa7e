import BitcoinKernel.Lib.Runs
import BitcoinKernel.Storage.BlockRecords

/-!
# The invariant of the block files

What holds of the block files, the memory and the database between any two calls.

* `EntryIntact`: an entry with `BLOCK_HAVE_DATA` has its block in the files, and one with
  `BLOCK_HAVE_UNDO` has its undo data.  The database says of an entry what the memory says,
  or less, and its own file information is enough to find the records again.
* `Intact` is this for all entries, with the file information in the database below that in
  memory.
* `Intact.received` and `Intact.undoWritten` are for the calls that store a record,
  `Intact.flushed` for `FlushStateToDisk` with the files that it prunes, and `Intact.restart`
  for a new process.
-/

namespace BitcoinKernel.Storage

open KeyStream FlatFile State Serialize Validation Outcome List Function

/-- The record of a file in the database. -/
def BlockTreeDB.info (db : BlockTreeDB) (n : Nat) : Option FileInfo := db.fileInfo[n]?.join

section

variable (o : StorageOptions) (keys : PubKeys) (hash256 : List UInt8 → Uint256)
  (params : ConsensusParams) (entry : EntryPtr → BlockIndex)

/-! ## The invariant -/

/-- What `AcceptBlock` knows of a block and its entry: it was deserialised, and it passed
`CheckBlock`. -/
structure Acceptable (e : EntryPtr) (block : Block) : Prop where
  size : (writeBlock true block).length ≤ maxSize
  decodable : VectorDecodable Transaction.Decodable block.vtx
  hash : block.toBlockHeader.getHash hash256 = (entry e).hash
  pow : params.checkProofOfWork (block.toBlockHeader.getHash hash256) block.nBits = true
  signet : params.signetBlocks = true → params.checkSignetBlockSolution block = true

/-- A `CBlockFileInfo` includes the records of an entry. -/
structure Covered (w : Node) (info : Option FileInfo) (e : EntryPtr) (p : DiskPosition) :
    Prop where
  block : p.haveData = true → ∀ block, w.blocks e = some block →
    ∃ i : FileInfo, info = some i ∧ i.HasBlock p.nDataPos block (entry e).nHeight
  undo : p.haveUndo = true → ∀ undo, w.undos e = some undo →
    ∃ i : FileInfo, info = some i ∧ i.HasUndo keys p.nUndoPos undo

/-- The first positions say what the second say, or less. -/
structure DiskPosition.Below (p q : DiskPosition) : Prop where
  data : p.haveData = true → q.haveData = true ∧ q.nFile = p.nFile ∧ q.nDataPos = p.nDataPos
  undo : p.haveUndo = true → p.haveData = true ∧ q.haveUndo = true ∧ q.nUndoPos = p.nUndoPos

/-- The block of an entry is stored. -/
structure HasData (w : Node) (e : EntryPtr) (block : Block) : Prop where
  blocks_eq : w.blocks e = some block
  acceptable : Acceptable hash256 params entry e block
  stored : BlockStored o w.toBlockStore ⟨(w.position e).nFile, (w.position e).nDataPos⟩ block
    (entry e).nHeight

/-- The undo data of an entry is stored. -/
structure HasUndoData (w : Node) (e : EntryPtr) (undo : BlockUndo) (prevHash : Uint256) :
    Prop where
  undos_eq : w.undos e = some undo
  prevHash_eq : Node.prevHash entry e = some prevHash
  storable : BlockUndoStorable undo
  data : (w.position e).haveData = true
  stored : UndoStored o keys hash256 w.toBlockStore
    ⟨(w.position e).nFile, (w.position e).nUndoPos⟩ prevHash undo

/-- The records of an entry are where the memory says, and what the database says of them
is true and enough to find them. -/
structure EntryIntact (w : Node) (e : EntryPtr) : Prop where
  data : (w.position e).haveData = true → ∃ block, HasData o hash256 params entry w e block
  undo : (w.position e).haveUndo = true →
    ∃ undo prevHash, HasUndoData o keys hash256 entry w e undo prevHash
  synced : w.dirtyFileinfo (w.position e).nFile = true ∨
    Covered keys entry w (w.db.info (w.position e).nFile) e (w.position e)
  written : w.dirtyBlockindex e = true ∨ ((w.position e).haveData = true →
    ∃ p, w.db.index e = some p ∧ p.haveData = true ∧
      ((w.position e).haveUndo = true → p.haveUndo = true))
  below : ∀ p, w.db.index e = some p → p.Below (w.position e)
  covered : ∀ p, w.db.index e = some p → Covered keys entry w (w.db.info p.nFile) e p
  last : ∀ p, w.db.index e = some p → p.haveData = true → p.nFile ≤ w.db.lastBlock

/-- All entries are intact, and the file information in the database is below the one in
memory. -/
structure Intact (w : Node) : Prop where
  wf : w.toBlockStore.Wf
  entry : ∀ e, EntryIntact o keys hash256 params entry w e
  dbInfo : ∀ (n : Nat) (info : FileInfo), w.db.info n = some info →
    ∃ info', w.infos[n]? = some info' ∧ info.Grows info'
  dbLength : w.db.fileInfo.length ≤ w.db.lastBlock + 1
  dbLast : w.db.lastBlock ≤ w.maxBlockfileNum

end

variable {o : StorageOptions} {keys : PubKeys} {hash256 : List UInt8 → Uint256}
  {params : ConsensusParams} {entry : EntryPtr → BlockIndex} {w w' : Node} {s : BlockStore}
  {e : EntryPtr}

theorem not_eq_true {b : Bool} (h : b = false) : ¬ b = true := by
  rw [h]
  exact Bool.false_ne_true

variable {p q : DiskPosition} {bound n : Nat}

/-- No records are always covered. -/
theorem Covered.of_none {info : Option FileInfo} (hdata : p.haveData = false)
    (hundo : p.haveUndo = false) : Covered keys entry w info e p :=
  ⟨fun h => absurd h (not_eq_true hdata), fun h => absurd h (not_eq_true hundo)⟩

theorem DiskPosition.Below.of_none (hdata : p.haveData = false) (hundo : p.haveUndo = false) :
    p.Below q :=
  ⟨fun h => absurd h (not_eq_true hdata), fun h => absurd h (not_eq_true hundo)⟩

/-- Positions below ones without data have none. -/
theorem DiskPosition.Below.none (h : p.Below q) (hdata : q.haveData = false) :
    p.haveData = false ∧ p.haveUndo = false := by
  have hnone : p.haveData = false := by
    cases hp : p.haveData with
    | false => rfl
    | true =>
      rw [(h.data hp).1] at hdata
      cases hdata
  refine ⟨hnone, ?_⟩
  cases hp : p.haveUndo with
  | false => rfl
  | true =>
    rw [(h.undo hp).1] at hnone
    cases hnone

/-- What covers the records of an entry covers those that positions below name. -/
theorem Covered.below {info : Nat → Option FileInfo} (h : Covered keys entry w (info q.nFile) e q)
    (hbelow : p.Below q) : Covered keys entry w (info p.nFile) e p := by
  refine ⟨fun hdata block hblock => ?_, fun hundo undo hb => ?_⟩
  · obtain ⟨hq, hfile, hpos⟩ := hbelow.data hdata
    rw [← hfile, ← hpos]
    exact h.block hq block hblock
  · obtain ⟨hdata, hq, hpos⟩ := hbelow.undo hundo
    obtain ⟨-, hfile, -⟩ := hbelow.data hdata
    rw [← hfile, ← hpos]
    exact h.undo hq undo hb

namespace EntryIntact

/-- An entry whose own data does not change stays intact when the store keeps what it
has. -/
theorem keeps (h : EntryIntact o keys hash256 params entry w e)
    (hposition : w'.position e = w.position e) (hblocks : w'.blocks e = w.blocks e)
    (hundos : w'.undos e = w.undos e) (hdb : w'.db = w.db)
    (hdirty : w'.dirtyBlockindex e = w.dirtyBlockindex e)
    (hkeeps : w.toBlockStore.Keeps w'.toBlockStore) :
    EntryIntact o keys hash256 params entry w' e := by
  have hcovered : ∀ info p, Covered keys entry w info e p → Covered keys entry w' info e p :=
    fun info p hc => ⟨fun hd block hb => hc.block hd block (hblocks.symm.trans hb),
      fun hu undo hb => hc.undo hu undo (hundos.symm.trans hb)⟩
  refine ⟨?_, ?_, ?_, ?_, ?_, ?_, ?_⟩
  · intro hdata
    rw [hposition] at hdata
    obtain ⟨block, hblock⟩ := h.data hdata
    refine ⟨block, hblocks.trans hblock.blocks_eq, hblock.acceptable, ?_⟩
    rw [hposition]
    exact hblock.stored.keeps hkeeps
  · intro hundo
    rw [hposition] at hundo
    obtain ⟨undo, prevHash, hundo⟩ := h.undo hundo
    refine ⟨undo, prevHash, hundos.trans hundo.undos_eq, hundo.prevHash_eq, hundo.storable, ?_, ?_⟩
    · rw [hposition, hundo.data]
    · rw [hposition]
      exact hundo.stored.keeps hkeeps
  · rw [hposition, hdb]
    exact h.synced.imp (hkeeps.dirtyFileinfo _) (hcovered _ _)
  · rw [hposition, hdb, hdirty]
    exact h.written
  · rw [hposition, hdb]
    exact h.below
  · rw [hdb]
    exact fun p hp => hcovered _ _ (h.covered p hp)
  · rw [hdb]
    exact h.last

/-- An entry without any positions is intact. -/
theorem of_empty (hposition : w.position e = {}) (hindex : ∀ p, w.db.index e = some p → p = {}) :
    EntryIntact o keys hash256 params entry w e := by
  refine ⟨?_, ?_, Or.inr ?_, Or.inr ?_, ?_, ?_, ?_⟩
  · intro hdata
    rw [hposition] at hdata
    cases hdata
  · intro hundo
    rw [hposition] at hundo
    cases hundo
  · rw [hposition]
    exact .of_none rfl rfl
  · intro hdata
    rw [hposition] at hdata
    cases hdata
  · intro p hp
    rw [hindex p hp]
    exact .of_none rfl rfl
  · intro p hp
    rw [hindex p hp]
    exact .of_none rfl rfl
  · intro p hp hdata
    rw [hindex p hp] at hdata
    cases hdata

/-- An entry is intact if its records are in the files and the database covers them. -/
theorem of_covered {p : DiskPosition} (hposition : w.position e = p)
    (hdata : p.haveData = true → ∃ block, w.blocks e = some block ∧
      Acceptable hash256 params entry e block ∧
      BlockStored o w.toBlockStore ⟨p.nFile, p.nDataPos⟩ block (entry e).nHeight)
    (hundo : p.haveUndo = true → p.haveData = true ∧ ∃ undo prevHash, w.undos e = some undo ∧
      Node.prevHash entry e = some prevHash ∧ BlockUndoStorable undo ∧
      UndoStored o keys hash256 w.toBlockStore ⟨p.nFile, p.nUndoPos⟩ prevHash undo)
    (hcovered : Covered keys entry w (w.db.info p.nFile) e p)
    (hwritten : p.haveData = true → ∃ q, w.db.index e = some q ∧
      q.haveData = true ∧ (p.haveUndo = true → q.haveUndo = true))
    (hbelow : ∀ q, w.db.index e = some q → q.Below p)
    (hlast : p.haveData = true → p.nFile ≤ w.db.lastBlock) :
    EntryIntact o keys hash256 params entry w e := by
  subst hposition
  refine ⟨fun hd => ?_, fun hu => ?_, Or.inr hcovered, Or.inr hwritten, hbelow,
    fun q hq => hcovered.below (hbelow q hq), ?_⟩
  · obtain ⟨block, hblocks, hacceptable, hstored⟩ := hdata hd
    exact ⟨block, hblocks, hacceptable, hstored⟩
  · obtain ⟨hd, undo, prevHash, hundos, hprev, hstorable, hstored⟩ := hundo hu
    exact ⟨undo, prevHash, hundos, hprev, hstorable, hd, hstored⟩
  · intro q hq hq'
    obtain ⟨hd, hfile, -⟩ := (hbelow q hq).data hq'
    rw [← hfile]
    exact hlast hd

/-- An entry without data has no undo data either. -/
theorem haveUndo_eq_false (h : EntryIntact o keys hash256 params entry w e)
    (hdata : (w.position e).haveData = false) : (w.position e).haveUndo = false := by
  cases hundo : (w.position e).haveUndo with
  | false => rfl
  | true =>
    obtain ⟨undo, prevHash, hstored⟩ := h.undo hundo
    rw [hstored.data] at hdata
    cases hdata

end EntryIntact

/-! ## Calls that write -/

theorem intact_empty (blk rev : Nat → List UInt8) (blocks : EntryPtr → Option Block)
    (undos : EntryPtr → Option BlockUndo) :
    Intact o keys hash256 params entry { blk, rev, blocks, undos } := by
  refine ⟨⟨rfl, ?_, Nat.zero_le _, ?_, ?_⟩, fun e => .of_empty rfl ?_, ?_, Nat.zero_le _,
    Nat.zero_le _⟩
  · intro type c hc
    cases type with
    | normal =>
      cases hc
      exact Nat.one_pos
    | assumed => cases hc
  all_goals intros; contradiction

namespace Intact

section

variable (h : Intact o keys hash256 params entry w)

include h

/-- The store advances, and the positions and the data of one entry may change. -/
theorem update (hadv : w.toBlockStore.Advances s)
    (hstore : w'.toBlockStore = s.setPosition e (w'.position e))
    (hblocks : ∀ e', e' ≠ e → w'.blocks e' = w.blocks e')
    (hundos : ∀ e', e' ≠ e → w'.undos e' = w.undos e') (hdb : w'.db = w.db)
    (hentry : EntryIntact o keys hash256 params entry w' e) :
    Intact o keys hash256 params entry w' := by
  have hkeeps : w.toBlockStore.Keeps w'.toBlockStore := by
    rw [hstore]
    exact hadv.toKeeps.setPosition e _
  have hwf := hadv.wf h.wf
  refine ⟨?_, ?_, ?_, ?_, ?_⟩
  · rw [hstore]
    exact ⟨hwf.normal, hwf.bound, hwf.length, hwf.size, hwf.dirty⟩
  · intro e'
    by_cases he : e' = e
    · rw [he]
      exact hentry
    · have hposition : w'.position e' = w.position e' := by
        have hset := congrFun (congrArg BlockStore.position hstore) e'
        rw [hset]
        show Function.update s.position e _ e' = _
        rw [update_of_ne he, hadv.position]
      have hdirty : w'.dirtyBlockindex e' = w.dirtyBlockindex e' := by
        have hset := congrFun (congrArg BlockStore.dirtyBlockindex hstore) e'
        rw [hset]
        show Function.update s.dirtyBlockindex e true e' = _
        rw [update_of_ne he, hadv.dirtyBlockindex]
      exact (h.entry e').keeps hposition (hblocks e' he) (hundos e' he) hdb hdirty hkeeps
  · intro n info hinfo
    rw [hdb] at hinfo
    obtain ⟨info', hinfo', hgrows⟩ := h.dbInfo n info hinfo
    obtain ⟨info'', hinfo'', hgrows'⟩ := hkeeps.info n info' hinfo'
    exact ⟨info'', hinfo'', hgrows.trans hgrows'⟩
  · rw [hdb]
    exact h.dbLength
  · rw [hdb]
    exact h.dbLast.trans hkeeps.files

/-- The store advances, and nothing else changes. -/
theorem advance (hadv : w.toBlockStore.Advances s) :
    Intact o keys hash256 params entry { w with toBlockStore := s } := by
  have hwf := hadv.wf h.wf
  refine ⟨hwf, fun e => (h.entry e).keeps (congrFun hadv.position e) rfl rfl rfl
    (congrFun hadv.dirtyBlockindex e) hadv.toKeeps, ?_,
    h.dbLength, h.dbLast.trans hadv.files⟩
  intro n info hinfo
  obtain ⟨info', hinfo', hgrows⟩ := h.dbInfo n info hinfo
  obtain ⟨info'', hinfo'', hgrows'⟩ := hadv.info n info' hinfo'
  exact ⟨info'', hinfo'', hgrows.trans hgrows'⟩

/-- A block was stored, and `ReceivedBlockTransactions` sets the positions of its entry. -/
theorem received (hadv : w.toBlockStore.Advances s) {block : Block} {pos : FilePos}
    (hnew : (w.position e).haveData = false) (hacceptable : Acceptable hash256 params entry e block)
    (hstored : BlockStored o s pos block (entry e).nHeight)
    (hdirty : s.dirtyFileinfo pos.nFile = true) : Intact o keys hash256 params entry { w with
      toBlockStore := s.receivedBlockTransactions e pos
      blocks := Function.update w.blocks e (some block) } := by
  have hundo : (s.position e).haveUndo = false := by
    rw [hadv.position]
    exact (h.entry e).haveUndo_eq_false hnew
  have hreceived : s.receivedBlockTransactions e pos =
      s.setPosition e ⟨pos.nFile, pos.nPos, 0, true, false⟩ := by
    simp only [BlockStore.receivedBlockTransactions, hundo]
  have hself : (s.receivedBlockTransactions e pos).position e =
      ⟨pos.nFile, pos.nPos, 0, true, false⟩ := by
    rw [hreceived]
    exact update_self ..
  refine h.update hadv (e := e) (hreceived.trans (congrArg (s.setPosition e) hself.symm))
    (fun e' he => update_of_ne he ..) (fun _ _ => rfl) rfl
    ⟨?_, ?_, ?_, Or.inl (update_self ..), ?_, ?_, ?_⟩
  · intro _
    refine ⟨block, update_self .., hacceptable, ?_⟩
    dsimp only
    rw [hself]
    exact ⟨hstored.header, hstored.record, hstored.info, hstored.last⟩
  · intro hundo
    dsimp only at hundo
    rw [hself] at hundo
    cases hundo
  · left
    dsimp only
    rw [hself]
    exact hdirty
  -- the database has no data for the entry, or the memory would have had it
  · intro p hp
    obtain ⟨hdata, hundo⟩ := ((h.entry e).below p hp).none hnew
    exact .of_none hdata hundo
  · intro p hp
    obtain ⟨hdata, hundo⟩ := ((h.entry e).below p hp).none hnew
    exact .of_none hdata hundo
  · intro p hp
    obtain ⟨hdata, -⟩ := ((h.entry e).below p hp).none hnew
    exact fun hd => absurd hd (not_eq_true hdata)

/-- Undo data was stored. -/
theorem undoWritten (hadv : w.toBlockStore.Advances s) {undo : BlockUndo} {prevHash : Uint256}
    {nPos : Nat} (hdata : (w.position e).haveData = true) (hnew : (w.position e).haveUndo = false)
    (hprev : Node.prevHash entry e = some prevHash) (hstorable : BlockUndoStorable undo)
    (hstored : UndoStored o keys hash256 s ⟨(w.position e).nFile, nPos⟩ prevHash undo)
    (hdirty : s.dirtyFileinfo (w.position e).nFile = true) :
    Intact o keys hash256 params entry { w with
      toBlockStore := s.setPosition e { w.position e with nUndoPos := nPos, haveUndo := true }
      undos := Function.update w.undos e (some undo) } := by
  have hself : (s.setPosition e { w.position e with nUndoPos := nPos, haveUndo := true }).position
      e = { w.position e with nUndoPos := nPos, haveUndo := true } := update_self ..
  have hkeeps := hadv.toKeeps.setPosition e
    { w.position e with nUndoPos := nPos, haveUndo := true }
  -- the database has no undo data for the entry
  have hbelow : ∀ p, w.db.index e = some p → p.haveUndo = false := by
    intro p hp
    cases hpu : p.haveUndo with
    | false => rfl
    | true =>
      rw [(((h.entry e).below p hp).undo hpu).2.1] at hnew
      cases hnew
  refine h.update hadv (e := e) (congrArg (s.setPosition e) hself.symm) (fun _ _ => rfl)
    (fun e' he => update_of_ne he ..) rfl
    ⟨?_, ?_, ?_, Or.inl (update_self ..), ?_, ?_, ?_⟩
  · intro _
    obtain ⟨block, hblock⟩ := (h.entry e).data hdata
    refine ⟨block, hblock.blocks_eq, hblock.acceptable, ?_⟩
    dsimp only
    rw [hself]
    exact hblock.stored.keeps hkeeps
  · intro _
    refine ⟨undo, prevHash, update_self .., hprev, hstorable, ?_, ?_⟩
    · dsimp only
      rw [hself]
      exact hdata
    · dsimp only
      rw [hself]
      exact ⟨hstored.header, hstored.record, hstored.info⟩
  · left
    dsimp only
    rw [hself]
    exact hdirty
  · intro p hp
    dsimp only
    rw [hself]
    exact ⟨((h.entry e).below p hp).data, fun hpu => absurd hpu (not_eq_true (hbelow p hp))⟩
  · intro p hp
    exact ⟨((h.entry e).covered p hp).block, fun hpu => absurd hpu (not_eq_true (hbelow p hp))⟩
  · exact (h.entry e).last

end

end Intact

/-! ## Pruning -/

/-- The files of a list were pruned in memory. -/
structure Pruned (prunes : List Nat) (s s' : BlockStore) : Prop where
  blk : s'.blk = s.blk
  rev : s'.rev = s.rev
  cursor : s'.cursor = s.cursor
  length : s'.infos.length = s.infos.length
  info : ∀ n, n ∉ prunes → s'.infos[n]? = s.infos[n]?
  prunedInfo : ∀ n ∈ prunes, s'.infos[n]? = some {}
  position : ∀ e, (s.position e).nFile ∉ prunes → s'.position e = s.position e
  prunedPosition : ∀ e, (s.position e).nFile ∈ prunes → s'.position e = {}
  dirtyFileinfo : ∀ n, s'.dirtyFileinfo n = true ↔ n ∈ prunes ∨ s.dirtyFileinfo n = true
  dirtyBlockindex : ∀ e, s'.dirtyBlockindex e = true ↔
    (s.position e).nFile ∈ prunes ∨ s.dirtyBlockindex e = true

namespace Pruned

variable {prunes : List Nat} {s' s'' : BlockStore} {n : Nat}

theorem one (h : n < s.infos.length) : ∃ s', s.pruneOneBlockFile n = some s' ∧ Pruned [n] s s' := by
  unfold BlockStore.pruneOneBlockFile
  rw [getElem?_eq_getElem h]
  have hinfos : ∀ m, (s.infos.modify n fun _ => {})[m]? =
      s.infos[m]?.map fun info => if n = m then ({} : FileInfo) else info := fun m =>
    getElem?_modify ..
  refine ⟨_, rfl, rfl, rfl, rfl, length_modify .., ?_, ?_, ?_, ?_, ?_, ?_⟩
  · intro m hm
    have hne : ¬ n = m := fun heq => hm (mem_singleton.mpr heq.symm)
    refine (hinfos m).trans ?_
    simp only [hne, if_false, Option.map_id']
  · intro m hm
    refine (hinfos m).trans ?_
    rw [mem_singleton.mp hm, getElem?_eq_getElem h]
    exact congrArg some (if_pos rfl)
  · intro e he
    exact if_neg (by rwa [beq_iff_eq, ← mem_singleton])
  · intro e he
    exact if_pos (by rwa [beq_iff_eq, ← mem_singleton])
  · intro m
    show Function.update s.dirtyFileinfo n true m = true ↔ _
    rw [mem_singleton]
    by_cases hmn : m = n
    · rw [hmn, update_self]
      exact iff_of_true rfl (Or.inl rfl)
    · rw [update_of_ne hmn]
      exact ⟨Or.inr, fun h => h.resolve_left hmn⟩
  · intro e
    show (((s.position e).nFile == n) || s.dirtyBlockindex e) = true ↔ _
    rw [Bool.or_eq_true, beq_iff_eq, mem_singleton]

theorem cons (h : Pruned [n] s s') (h' : Pruned prunes s' s'') : Pruned (n :: prunes) s s'' := by
  refine ⟨h'.blk.trans h.blk, h'.rev.trans h.rev, h'.cursor.trans h.cursor,
    h'.length.trans h.length, ?_, ?_, ?_, ?_, ?_, ?_⟩
  · intro m hm
    rw [mem_cons, not_or] at hm
    rw [h'.info m hm.2, h.info m (by rw [mem_singleton]; exact hm.1)]
  · intro m hm
    by_cases hrest : m ∈ prunes
    · exact h'.prunedInfo m hrest
    · rw [h'.info m hrest]
      refine h.prunedInfo m ?_
      rw [mem_singleton]
      exact (mem_cons.mp hm).resolve_right hrest
  · intro e he
    rw [mem_cons, not_or] at he
    have hone := h.position e (by rw [mem_singleton]; exact he.1)
    rw [h'.position e (by rw [hone]; exact he.2), hone]
  · intro e he
    by_cases hn : (s.position e).nFile = n
    · -- the entry is empty, and stays so if the first file is pruned as well
      have hone := h.prunedPosition e (mem_singleton.mpr hn)
      by_cases hrest : (s'.position e).nFile ∈ prunes
      · exact h'.prunedPosition e hrest
      · rw [h'.position e hrest, hone]
    · have hone := h.position e (by rw [mem_singleton]; exact hn)
      refine h'.prunedPosition e ?_
      rw [hone]
      exact (mem_cons.mp he).resolve_left hn
  · intro m
    rw [h'.dirtyFileinfo, h.dirtyFileinfo, mem_singleton, mem_cons]
    tauto
  · intro e
    rw [h'.dirtyBlockindex, h.dirtyBlockindex, mem_singleton, mem_cons]
    by_cases hn : (s.position e).nFile = n
    · simp only [hn, true_or, or_true]
    · rw [h.position e (by rw [mem_singleton]; exact hn)]
      simp only [hn, false_or]

/-- `FindFilesToPrune` and `FindFilesToPruneManual` prune one file after another. -/
theorem all {prunes : List Nat} {s : BlockStore} (h : ∀ n ∈ prunes, n < s.infos.length) :
    ∃ s', prunes.foldlM BlockStore.pruneOneBlockFile s = some s' ∧ Pruned prunes s s' := by
  induction prunes generalizing s with
  | nil =>
    exact ⟨s, rfl, rfl, rfl, rfl, rfl, fun _ _ => rfl, by simp, fun _ _ => rfl, by simp,
      by simp, by simp⟩
  | cons n prunes ih =>
    obtain ⟨s', hstep, hone⟩ := one (h n mem_cons_self)
    obtain ⟨s'', hrest, hprunes⟩ := ih (s := s') (by
      intro m hm
      rw [hone.length]
      exact h m (mem_cons_of_mem n hm))
    refine ⟨s'', ?_, hone.cons hprunes⟩
    rw [foldlM_cons, hstep]
    exact hrest

theorem maxBlockfileNum (h : Pruned prunes s s') : s'.maxBlockfileNum = s.maxBlockfileNum := by
  have hnormal : s'.normalCursor = s.normalCursor := congrFun h.cursor .normal
  have hassumed : s'.assumedCursor = s.assumedCursor := congrFun h.cursor .assumed
  rw [BlockStore.maxBlockfileNum, hnormal, hassumed, BlockStore.maxBlockfileNum]

theorem wf (h : Pruned prunes s s') (hprunes : ∀ n ∈ prunes, n < s.infos.length) (hs : s.Wf) :
    s'.Wf := by
  refine ⟨?_, ?_, ?_, ?_, ?_⟩
  · have hnormal : s'.normalCursor = s.normalCursor := congrFun h.cursor .normal
    rw [hnormal]
    exact hs.normal
  · rw [h.length, h.cursor]
    exact hs.bound
  · rw [h.length, h.maxBlockfileNum]
    exact hs.length
  · intro n info hinfo
    by_cases hn : n ∈ prunes
    · rw [h.prunedInfo n hn] at hinfo
      cases hinfo
      exact Nat.two_pow_pos 31
    · rw [h.info n hn] at hinfo
      exact hs.size n info hinfo
  · intro n hn
    rw [h.length]
    rcases (h.dirtyFileinfo n).mp hn with hmem | hdirty
    · exact hprunes n hmem
    · exact hs.dirty n hdirty

end Pruned

/-! ## Flushing -/

/-- A flush that does not finalise changes no file. -/
theorem flushChainstateBlockFile_eq (hs : s.Wf) (env : WriteEnv) (tipHeight : Nat) :
    s.flushChainstateBlockFile env tipHeight = some s := by
  unfold BlockStore.flushChainstateBlockFile
  cases hc : s.cursor (s.blockfileTypeForHeight tipHeight) with
  | none => rfl
  | some c =>
    have hbound := hs.bound _ c hc
    show s.flushBlockFile env c.fileNum false false = some s
    unfold BlockStore.flushBlockFile
    by_cases hlength : s.infos.length < 1
    · rw [if_pos hlength]
      rfl
    · rw [if_neg hlength]
      have hlt : c.fileNum < s.infos.length := by omega
      simp [BlockStore.flushUndoFile, flatFileFlush, BlockStore.setBlk, BlockStore.setRev,
        getElem?_eq_getElem hlt]

/-- The file information after a batch. -/
theorem info_writeBlockIndexDB (hs : s.Wf) (db : BlockTreeDB) (n : Nat) :
    (s.writeBlockIndexDB db).2.info n =
      if s.dirtyFileinfo n = true then s.infos[n]? else db.info n := by
  show ((List.range (max db.fileInfo.length s.infos.length)).map _)[n]?.join = _
  rw [getElem?_map]
  by_cases hn : n < max db.fileInfo.length s.infos.length
  · rw [getElem?_range hn]
    show (if s.dirtyFileinfo n then some (s.infos[n]?.getD {}) else db.fileInfo[n]?.join) = _
    split
    · next hdirty => rw [getElem?_eq_getElem (hs.dirty n hdirty), Option.getD_some]
    · rfl
  · have hclean : ¬ s.dirtyFileinfo n = true := fun hdirty => by
      have hlt := hs.dirty n hdirty
      omega
    rw [getElem?_eq_none (by rw [length_range]; omega), if_neg hclean,
      BlockTreeDB.info, getElem?_eq_none (by omega)]
    rfl

theorem DiskPosition.stored_below (h : p.haveUndo = true → p.haveData = true) :
    p.stored.Below p := by
  refine ⟨fun hd => ⟨hd, ?_, ?_⟩, fun hu => ⟨h hu, hu, ?_⟩⟩
  · have hdata : p.haveData = true := hd
    simp only [DiskPosition.stored, hdata, Bool.true_or, if_true]
  · have hdata : p.haveData = true := hd
    simp only [DiskPosition.stored, hdata, if_true]
  · have hundo : p.haveUndo = true := hu
    simp only [DiskPosition.stored, hundo, if_true]

namespace Intact

/-- The memory covers the records of every entry. -/
theorem covered_infos (h : Intact o keys hash256 params entry w) (e : EntryPtr) :
    Covered keys entry w w.infos[(w.position e).nFile]? e (w.position e) := by
  refine ⟨fun hdata block hblock => ?_, fun hundo undo hb => ?_⟩
  · obtain ⟨block', hdata'⟩ := (h.entry e).data hdata
    rw [hdata'.blocks_eq] at hblock
    cases hblock
    exact hdata'.stored.info
  · obtain ⟨undo', prevHash, hundo'⟩ := (h.entry e).undo hundo
    rw [hundo'.undos_eq] at hb
    cases hb
    exact hundo'.stored.info

end Intact

section Flush

variable {prunes : List Nat} (hp : Pruned prunes w.toBlockStore s) (db : BlockTreeDB)
  (removes : Nat → Bool × Bool)

/-- The entries in the database after a batch. -/
theorem index_writeBlockIndexDB {db : BlockTreeDB}
    (h : (s.writeBlockIndexDB db).2.index e = some p) :
    s.dirtyBlockindex e = true ∧ p = (s.position e).stored ∨
      s.dirtyBlockindex e = false ∧ db.index e = some p := by
  have hindex : (if s.dirtyBlockindex e then some (s.position e).stored else db.index e) = some p :=
    h
  split at hindex
  · next hdirty => exact Or.inl ⟨hdirty, (Option.some.inj hindex).symm⟩
  · next hclean => exact Or.inr ⟨Bool.eq_false_iff.mpr hclean, hindex⟩

include hp

/-- A block in a file that is not pruned stays there. -/
theorem Pruned.blockStored {pos : FilePos} {block : Block} {nHeight : Nat}
    (hmem : pos.nFile ∉ prunes) (h : BlockStored o w.toBlockStore pos block nHeight) :
    BlockStored o ((s.writeBlockIndexDB db).1.unlinkPrunedFiles removes prunes) pos block
      nHeight := by
  refine ⟨h.header, ?_, ?_, ?_⟩
  · show RecordAt o (if _ ∧ _ then [] else s.blk pos.nFile) _ _
    rw [if_neg fun hc => hmem hc.1, hp.blk]
    exact h.record
  · show ∃ info, s.infos[pos.nFile]? = some info ∧ _
    rw [hp.info _ hmem]
    exact h.info
  · show pos.nFile ≤ s.maxBlockfileNum
    rw [hp.maxBlockfileNum]
    exact h.last

theorem Pruned.undoStored {pos : FilePos} {prevHash : Uint256} {undo : BlockUndo}
    (hmem : pos.nFile ∉ prunes) (h : UndoStored o keys hash256 w.toBlockStore pos prevHash undo) :
    UndoStored o keys hash256 ((s.writeBlockIndexDB db).1.unlinkPrunedFiles removes prunes) pos
      prevHash undo := by
  refine ⟨h.header, ?_, ?_⟩
  · show RecordAt o (if _ ∧ _ then [] else s.rev pos.nFile) _ _
    rw [if_neg fun hc => hmem hc.1, hp.rev]
    exact h.record
  · show ∃ info, s.infos[pos.nFile]? = some info ∧ _
    rw [hp.info _ hmem]
    exact h.info

end Flush

namespace Intact

section Flush

variable (h : Intact o keys hash256 params entry w) {prunes : List Nat}
  (hprunes : ∀ n ∈ prunes, n < w.infos.length) (hp : Pruned prunes w.toBlockStore s)
  (db : BlockTreeDB) (hfileInfo : db.fileInfo = w.db.fileInfo) (hindex : db.index = w.db.index)
  (removes : Nat → Bool × Bool)

include h hprunes hp hfileInfo

/-- The batch covers the records of an entry whose file is not pruned. -/
theorem covered_flushed (hmem : (w.position e).nFile ∉ prunes) :
    Covered keys entry w ((s.writeBlockIndexDB db).2.info (w.position e).nFile) e
      (w.position e) := by
  rw [info_writeBlockIndexDB (hp.wf hprunes h.wf)]
  split
  · rw [hp.info _ hmem]
    exact h.covered_infos e
  · next hclean =>
      rw [BlockTreeDB.info, hfileInfo]
      refine (h.entry e).synced.resolve_left fun hdirty => hclean ?_
      exact (hp.dirtyFileinfo _).mpr (Or.inr hdirty)

include hindex

/-- An entry whose file is not pruned is intact behind the flush. -/
theorem entry_flushed (hmem : (w.position e).nFile ∉ prunes) :
    EntryIntact o keys hash256 params entry { w with
      toBlockStore := (s.writeBlockIndexDB db).1.unlinkPrunedFiles removes prunes
      db := (s.writeBlockIndexDB db).2 } e := by
  have hposition := hp.position e hmem
  have hcovered := h.covered_flushed hprunes hp db hfileInfo hmem
  refine .of_covered (p := w.position e) hposition ?_ ?_ ⟨hcovered.block, hcovered.undo⟩ ?_ ?_ ?_
  · intro hdata
    obtain ⟨block, hblock⟩ := (h.entry e).data hdata
    exact ⟨block, hblock.blocks_eq, hblock.acceptable, hp.blockStored db removes hmem hblock.stored⟩
  · intro hundo
    obtain ⟨undo, prevHash, hdata⟩ := (h.entry e).undo hundo
    exact ⟨hdata.data, undo, prevHash, hdata.undos_eq, hdata.prevHash_eq, hdata.storable,
      hp.undoStored db removes hmem hdata.stored⟩
  · intro hdata
    show ∃ p, (if s.dirtyBlockindex e then some (s.position e).stored else db.index e) = some p ∧ _
    rw [hposition, hindex]
    split
    · exact ⟨_, rfl, hdata, fun hundo => hundo⟩
    · next hclean =>
        refine (h.entry e).written.resolve_left (fun hdirty => hclean ?_) hdata
        exact (hp.dirtyBlockindex e).mpr (Or.inr hdirty)
  · intro p hp'
    rcases index_writeBlockIndexDB hp' with ⟨-, rfl⟩ | ⟨-, hold⟩
    · rw [hposition]
      exact DiskPosition.stored_below fun hundo => by
        obtain ⟨undo, prevHash, hdata⟩ := (h.entry e).undo hundo
        exact hdata.data
    · exact (h.entry e).below p (hindex ▸ hold)
  · intro hdata
    obtain ⟨block, hblock⟩ := (h.entry e).data hdata
    exact (hp.blockStored db removes hmem hblock.stored).last

/-- Files were pruned in memory, the batch was written, and then the files were removed. -/
theorem flushed :
    Intact o keys hash256 params entry { w with
      toBlockStore := (s.writeBlockIndexDB db).1.unlinkPrunedFiles removes prunes
      db := (s.writeBlockIndexDB db).2 } := by
  have hs := hp.wf hprunes h.wf
  refine ⟨⟨hs.normal, hs.bound, hs.length, hs.size, fun n hn => by cases hn⟩, fun e => ?_, ?_, ?_,
    Nat.le_refl _⟩
  · by_cases hmem : (w.position e).nFile ∈ prunes
    · -- the entry is empty in memory, and dirty
      refine .of_empty (hp.prunedPosition e hmem) fun p hp' => ?_
      rcases index_writeBlockIndexDB hp' with ⟨-, rfl⟩ | ⟨hclean, -⟩
      · rw [hp.prunedPosition e hmem]
        rfl
      · rw [(hp.dirtyBlockindex e).mpr (Or.inl hmem)] at hclean
        cases hclean
    · exact h.entry_flushed hprunes hp db hfileInfo hindex removes hmem
  · intro n info hn
    have hn' : (s.writeBlockIndexDB db).2.info n = some info := hn
    rw [info_writeBlockIndexDB hs] at hn'
    show ∃ info', s.infos[n]? = some info' ∧ _
    split at hn'
    · exact ⟨info, hn', .refl info⟩
    · next hclean =>
        have hnot : n ∉ prunes := fun hmem => hclean ((hp.dirtyFileinfo n).mpr (Or.inl hmem))
        rw [BlockTreeDB.info, hfileInfo] at hn'
        rw [hp.info n hnot]
        exact h.dbInfo n info hn'
  · show ((List.range (max db.fileInfo.length s.infos.length)).map _).length ≤
      s.maxBlockfileNum + 1
    have hwf := hs.length
    have hdb := h.dbLength
    have hlast := h.dbLast
    have hmax := hp.maxBlockfileNum
    rw [length_map, length_range, hfileInfo]
    omega

end Flush

end Intact

/-! ## Restarts -/

/-- Only the cursors are others. -/
structure CursorsOnly (s s' : BlockStore) : Prop where
  infos : s'.infos = s.infos
  position : s'.position = s.position
  dirtyFileinfo : s'.dirtyFileinfo = s.dirtyFileinfo
  blk : s'.blk = s.blk
  rev : s'.rev = s.rev

/-- The cursors point to files below a bound. -/
structure CursorsBelow (s : BlockStore) (bound : Nat) : Prop where
  normal : s.normalCursor.isSome = true
  below : ∀ type c, s.cursor type = some c → c.fileNum < bound

theorem cursorsOnly_setCursor (s : BlockStore) (type : BlockfileType) (c : Cursor) :
    CursorsOnly s (s.setCursor type c) := by
  cases type <;> exact ⟨rfl, rfl, rfl, rfl, rfl⟩

theorem CursorsBelow.setCursor (h : CursorsBelow s bound) (type : BlockfileType) (hn : n < bound) :
    CursorsBelow (s.setCursor type { fileNum := n }) bound := by
  refine ⟨BlockStore.normal_setCursor h.normal _, ?_⟩
  intro type' c hc
  by_cases htype : type' = type
  · subst htype
    rw [BlockStore.cursor_setCursor_self] at hc
    cases hc
    exact hn
  · rw [BlockStore.cursor_setCursor_of_ne htype] at hc
    exact h.below type' c hc

/-- The loop of `LoadBlockIndexDB` over files below a bound. -/
theorem foldl_setCursor (files : List (FileInfo × Nat)) (s : BlockStore) (h : CursorsBelow s bound)
    (hfiles : ∀ p ∈ files, p.2 < bound) :
    CursorsOnly s (files.foldl (fun s p =>
        s.setCursor (s.blockfileTypeForHeight p.1.nHeightLast) { fileNum := p.2 }) s) ∧
      CursorsBelow (files.foldl (fun s p =>
        s.setCursor (s.blockfileTypeForHeight p.1.nHeightLast) { fileNum := p.2 }) s) bound := by
  induction files generalizing s with
  | nil => exact ⟨⟨rfl, rfl, rfl, rfl, rfl⟩, h⟩
  | cons p files ih =>
    have hone := cursorsOnly_setCursor s (s.blockfileTypeForHeight p.1.nHeightLast)
      { fileNum := p.2 }
    obtain ⟨hrest, hbelow⟩ := ih _ (h.setCursor (s.blockfileTypeForHeight p.1.nHeightLast)
      (hfiles p mem_cons_self)) (forall_mem_cons.mp hfiles).2
    exact ⟨⟨hrest.infos.trans hone.infos, hrest.position.trans hone.position,
      hrest.dirtyFileinfo.trans hone.dirtyFileinfo, hrest.blk.trans hone.blk,
      hrest.rev.trans hone.rev⟩, hbelow⟩

/-- After `LoadBlockIndexDB` the cursors point into the vector, and one to its end. -/
theorem loadCursors_spec (h : CursorsBelow s s.infos.length) :
    CursorsOnly s s.loadCursors ∧ CursorsBelow s.loadCursors s.infos.length ∧
      s.infos.length ≤ s.loadCursors.maxBlockfileNum + 1 := by
  have hfiles : ∀ p ∈ s.infos.zipIdx, p.2 < s.infos.length := by
    intro p hp
    have hmem := snd_lt_of_mem_zipIdx hp
    omega
  obtain ⟨honly, hbelow⟩ := foldl_setCursor s.infos.zipIdx s h hfiles
  refine ⟨honly, hbelow, ?_⟩
  rcases eq_nil_or_concat s.infos with hnil | ⟨init, last, hconcat⟩
  · rw [hnil]
    exact Nat.zero_le _
  · unfold BlockStore.loadCursors
    rw [hconcat, concat_eq_append, zipIdx_append, foldl_append, length_append, Nat.zero_add]
    exact Nat.add_le_add_right (BlockStore.le_max_setCursor _ _ init.length) 1

theorem loadInfos_eq {db : BlockTreeDB} (h : db.fileInfo.length ≤ db.lastBlock + 1) :
    db.loadInfos = (List.range (db.lastBlock + 1)).map fun n => (db.info n).getD {} := by
  unfold BlockTreeDB.loadInfos
  rw [drop_eq_nil_of_le h]
  exact append_nil _

/-- `ScanAndUnlinkAlreadyPrunedFiles` removes no file that is used. -/
theorem scanAndUnlink_used {info : FileInfo} (hinfo : s.infos[n]? = some info)
    (hused : info.nSize ≠ 0) (removes : Nat → Bool × Bool) :
    (s.scanAndUnlinkAlreadyPrunedFiles removes).blk n = s.blk n ∧
      (s.scanAndUnlinkAlreadyPrunedFiles removes).rev n = s.rev n := by
  unfold BlockStore.scanAndUnlinkAlreadyPrunedFiles
  split
  · exact ⟨rfl, rfl⟩
  · have hnot : n ∉ (List.range s.maxBlockfileNum).filter
        fun n => (s.infos[n]?.getD {}).nSize == 0 := by
      rw [mem_filter, hinfo]
      simp [hused]
    exact ⟨if_neg fun h => hnot h.1, if_neg fun h => hnot h.1⟩

namespace Intact

/-- The store of a new process. -/
structure Restarted (w : Node) (s : BlockStore) : Prop where
  wf : s.Wf
  position : ∀ e, s.position e = (w.db.index e).getD {}
  info : ∀ (n : Nat) (info : FileInfo), w.db.info n = some info → s.infos[n]? = some info
  files : ∀ (n : Nat) (info : FileInfo), s.infos[n]? = some info → info.nSize ≠ 0 →
    s.blk n = w.blk n ∧ s.rev n = w.rev n
  last : w.db.lastBlock ≤ s.maxBlockfileNum

/-- Unlinking files that are not used changes nothing of it. -/
theorem Restarted.scan (h : Restarted w s) (removes : Nat → Bool × Bool) :
    Restarted w (s.scanAndUnlinkAlreadyPrunedFiles removes) := by
  have hused : ∀ (n : Nat) (info : FileInfo), s.infos[n]? = some info → info.nSize ≠ 0 →
      (s.scanAndUnlinkAlreadyPrunedFiles removes).blk n = w.blk n ∧
        (s.scanAndUnlinkAlreadyPrunedFiles removes).rev n = w.rev n := by
    intro n info hinfo hne
    obtain ⟨hblk, hrev⟩ := scanAndUnlink_used hinfo hne removes
    obtain ⟨hblk', hrev'⟩ := h.files n info hinfo hne
    exact ⟨hblk.trans hblk', hrev.trans hrev'⟩
  revert hused
  unfold BlockStore.scanAndUnlinkAlreadyPrunedFiles
  split
  · exact fun _ => h
  · intro hused
    exact ⟨⟨h.wf.normal, h.wf.bound, h.wf.length, h.wf.size, h.wf.dirty⟩, h.position, h.info,
      hused, h.last⟩

theorem loaded (h : Intact o keys hash256 params entry w) (snapshotHeight : Option Nat) :
    Restarted w (w.toBlockStore.loadBlockIndexDB w.db snapshotHeight) := by
  have hload := loadInfos_eq h.dbLength
  have hlength : w.db.loadInfos.length = w.db.lastBlock + 1 := by
    rw [hload, length_map, length_range]
  have hget : ∀ n < w.db.loadInfos.length, w.db.loadInfos[n]? = some ((w.db.info n).getD {}) := by
    intro n hn
    rw [hload, getElem?_map, getElem?_range (by omega)]
    rfl
  -- the cursors, which start at the first file
  have hfirst : CursorsBelow ({
      blk := w.blk
      rev := w.rev
      snapshotHeight
      infos := w.db.loadInfos
      position := fun e => (w.db.index e).getD {}
      havePruned := w.db.prunedBlockFiles } : BlockStore) w.db.loadInfos.length := by
    refine ⟨rfl, fun type c hc => ?_⟩
    cases type with
    | normal =>
      cases hc
      rw [hlength]
      exact Nat.succ_pos _
    | assumed => cases hc
  obtain ⟨honly, hbelow, hmax⟩ := loadCursors_spec hfirst
  have hfits : w.db.lastBlock + 1 ≤ (w.toBlockStore.loadBlockIndexDB w.db
      snapshotHeight).maxBlockfileNum + 1 := hlength.symm.le.trans hmax
  have hinfos : (w.toBlockStore.loadBlockIndexDB w.db snapshotHeight).infos = w.db.loadInfos :=
    honly.infos
  refine ⟨⟨hbelow.normal, ?_, hinfos ▸ hmax, ?_, ?_⟩, congrFun honly.position, ?_,
    fun n _ _ _ => ⟨congrFun honly.blk n, congrFun honly.rev n⟩, Nat.le_of_succ_le_succ hfits⟩
  · intro type c hc
    rw [hinfos]
    exact (hbelow.below type c hc).trans_le (Nat.le_max_right _ _)
  · intro n info hinfo
    rw [hinfos] at hinfo
    rw [hget n (List.getElem?_eq_some_iff.mp hinfo).1] at hinfo
    cases hdb : w.db.info n with
    | none =>
      rw [hdb] at hinfo
      cases hinfo
      exact Nat.two_pow_pos 31
    | some info' =>
      rw [hdb] at hinfo
      cases hinfo
      obtain ⟨info'', hinfo'', hgrows⟩ := h.dbInfo n info' hdb
      exact hgrows.size.trans_lt (h.wf.size n info'' hinfo'')
  · intro n hn
    cases (congrFun honly.dirtyFileinfo n).symm.trans hn
  · intro n info hinfo
    have hn : n < w.db.loadInfos.length := by
      have hsome : w.db.fileInfo[n]? ≠ none := by
        intro hnone
        rw [BlockTreeDB.info, hnone] at hinfo
        cases hinfo
      have hlt := getElem?_eq_none_iff.not.mp hsome
      have hdb := h.dbLength
      omega
    rw [hinfos, hget n hn, hinfo]
    rfl

/-- The process ends and starts again. -/
theorem restart (h : Intact o keys hash256 params entry w) (hs : Restarted w s) :
    Intact o keys hash256 params entry { w with toBlockStore := s } := by
  refine ⟨hs.wf, fun e => ?_, fun n info hinfo => ⟨info, hs.info n info hinfo, .refl _⟩,
    h.dbLength, hs.last⟩
  have hposition := hs.position e
  cases hp : w.db.index e with
  | none =>
    rw [hp] at hposition
    refine .of_empty hposition fun p hp' => ?_
    have hnone : w.db.index e = some p := hp'
    rw [hp] at hnone
    cases hnone
  | some p =>
    rw [hp, Option.getD_some] at hposition
    have hbelow := (h.entry e).below p hp
    have hcovered := (h.entry e).covered p hp
    -- the file of the entry is used, so it is still there
    have hfile : p.haveData = true → ∃ block info, HasData o hash256 params entry w e block ∧
        s.infos[p.nFile]? = some info ∧ info.HasBlock p.nDataPos block (entry e).nHeight ∧
        s.blk p.nFile = w.blk p.nFile ∧ s.rev p.nFile = w.rev p.nFile := by
      intro hdata
      obtain ⟨hdata', hnFile, hnDataPos⟩ := hbelow.data hdata
      obtain ⟨block, hblock⟩ := (h.entry e).data hdata'
      obtain ⟨info, hinfo, hhas⟩ := hcovered.block hdata block hblock.blocks_eq
      have hinfo' := hs.info p.nFile info hinfo
      have hused : info.nSize ≠ 0 := by
        have hsize := hhas.size
        have hheader : 8 ≤ (w.position e).nDataPos := hblock.stored.header
        omega
      obtain ⟨hblk, hrev⟩ := hs.files p.nFile info hinfo' hused
      exact ⟨block, info, hblock, hinfo', hhas, hblk, hrev⟩
    have hlast : p.haveData = true → p.nFile ≤ s.maxBlockfileNum := fun hdata =>
      ((h.entry e).last p hp hdata).trans hs.last
    refine .of_covered hposition ?_ ?_ ⟨hcovered.block, hcovered.undo⟩
      (fun hdata => ⟨p, hp, hdata, fun hundo => hundo⟩) ?_ ((h.entry e).last p hp)
    · intro hdata
      obtain ⟨block, info, hblock, hinfo, hhas, hblk, -⟩ := hfile hdata
      obtain ⟨-, hnFile, hnDataPos⟩ := hbelow.data hdata
      have hstored := hblock.stored
      rw [hnFile, hnDataPos] at hstored
      refine ⟨block, hblock.blocks_eq, hblock.acceptable, hstored.header, ?_,
        ⟨info, hinfo, hhas⟩, hlast hdata⟩
      rw [hblk]
      exact hstored.record
    · intro hundo
      obtain ⟨hdata, hundo', hnUndoPos⟩ := hbelow.undo hundo
      obtain ⟨block, info, -, hinfo, -, -, hrev⟩ := hfile hdata
      obtain ⟨-, hnFile, -⟩ := hbelow.data hdata
      obtain ⟨undo, prevHash, hstored⟩ := (h.entry e).undo hundo'
      obtain ⟨info', hinfo', hhas⟩ := hcovered.undo hundo undo hstored.undos_eq
      have hrecord := hstored.stored
      rw [hnFile, hnUndoPos] at hrecord
      refine ⟨hdata, undo, prevHash, hstored.undos_eq, hstored.prevHash_eq, hstored.storable,
        hrecord.header, ?_, info', hs.info _ _ hinfo', hhas⟩
      rw [hrev]
      exact hrecord.record
    · intro q hq
      have hq' : w.db.index e = some q := hq
      rw [hp] at hq'
      cases hq'
      exact ⟨fun hd => ⟨hd, rfl, rfl⟩, fun hu => ⟨(hbelow.undo hu).1, hu, rfl⟩⟩

end Intact

end BitcoinKernel.Storage
