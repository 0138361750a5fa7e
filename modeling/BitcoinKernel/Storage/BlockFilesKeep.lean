import BitcoinKernel.Storage.BlockFiles

/-!
# What a write leaves alone

The block files are never written below the sizes in `m_blockfile_info`.  This module says
so for the functions of `BlockManager` that find a place for a record and write it.

* `Keeps s s'`: the file information has only grown, and the files have the same bytes below
  the sizes that it had.  The functions of this module also leave the entries alone, which is
  `Advances s s'`, and their steps compose (`Advances.trans`).
* `Wf` is what the assertions of these functions need: the cursors point into
  `m_blockfile_info`, and no size can wrap.
* `findNextBlockPos_spec`: `FindNextBlockPos` returns, and the place that it finds is behind
  what the file is used for.
-/

namespace BitcoinKernel.Storage

open KeyStream FlatFile State Serialize Validation Outcome List Function

/-! ## File information that grows -/

namespace FileInfo

/-- The heights of the file include a height. -/
structure Covers (info : FileInfo) (height : Nat) : Prop where
  blocks : info.nBlocks ≠ 0
  first : info.nHeightFirst ≤ height
  last : height ≤ info.nHeightLast

/-- The second information says of a file that it is used as the first says, and perhaps
more. -/
structure Grows (info info' : FileInfo) : Prop where
  size : info.nSize ≤ info'.nSize
  undoSize : info.nUndoSize ≤ info'.nUndoSize
  covers : ∀ height, info.Covers height → info'.Covers height

namespace Grows

variable {info info' info'' : FileInfo}

protected theorem refl (info : FileInfo) : Grows info info :=
  ⟨Nat.le_refl _, Nat.le_refl _, fun _ h => h⟩

protected theorem trans (h : Grows info info') (h' : Grows info' info'') : Grows info info'' :=
  ⟨h.size.trans h'.size, h.undoSize.trans h'.undoSize, fun _ hc => h'.covers _ (h.covers _ hc)⟩

end Grows

variable {info : FileInfo}

theorem covers_addBlock (h : info.nBlocks + 1 < 2 ^ 32) (nHeight nTime : Nat) :
    (info.addBlock nHeight nTime).Covers nHeight := by
  refine ⟨?_, ?_, ?_⟩
  · show (info.nBlocks + 1) % 2 ^ 32 ≠ 0
    rw [Nat.mod_eq_of_lt h]
    omega
  · show (if info.nBlocks = 0 ∨ info.nHeightFirst > nHeight then nHeight
      else info.nHeightFirst) ≤ nHeight
    split_ifs <;> omega
  · show nHeight ≤ if nHeight > info.nHeightLast then nHeight else info.nHeightLast
    split_ifs <;> omega

theorem grows_addBlock (h : info.nBlocks + 1 < 2 ^ 32) (nHeight nTime : Nat) :
    Grows info (info.addBlock nHeight nTime) := by
  refine ⟨Nat.le_refl _, Nat.le_refl _, fun height hc => ⟨?_, ?_, ?_⟩⟩
  · exact (covers_addBlock h nHeight nTime).blocks
  · have hblocks := hc.blocks
    have hfirst := hc.first
    show (if info.nBlocks = 0 ∨ info.nHeightFirst > nHeight then nHeight
      else info.nHeightFirst) ≤ height
    split_ifs <;> omega
  · have hlast := hc.last
    show height ≤ if nHeight > info.nHeightLast then nHeight else info.nHeightLast
    split_ifs <;> omega

theorem nSize_addSize {nAddSize : Nat} (h : info.nSize + nAddSize < 2 ^ 32) :
    (info.addSize nAddSize).nSize = info.nSize + nAddSize := Nat.mod_eq_of_lt h

theorem grows_addSize {nAddSize : Nat} (h : info.nSize + nAddSize < 2 ^ 32) :
    Grows info (info.addSize nAddSize) :=
  ⟨by rw [nSize_addSize h]; omega, Nat.le_refl _, fun _ hc => ⟨hc.blocks, hc.first, hc.last⟩⟩

theorem nUndoSize_addUndoSize {nAddSize : Nat} (h : info.nUndoSize + nAddSize < 2 ^ 32) :
    (info.addUndoSize nAddSize).nUndoSize = info.nUndoSize + nAddSize := Nat.mod_eq_of_lt h

theorem grows_addUndoSize {nAddSize : Nat} (h : info.nUndoSize + nAddSize < 2 ^ 32) :
    Grows info (info.addUndoSize nAddSize) :=
  ⟨Nat.le_refl _, by rw [nUndoSize_addUndoSize h]; omega,
    fun _ hc => ⟨hc.blocks, hc.first, hc.last⟩⟩

theorem grows_reach (info : FileInfo) (last : Nat) : Grows info (info.reach last) :=
  ⟨Nat.le_max_right _ _, Nat.le_refl _, fun _ hc => ⟨hc.blocks, hc.first, hc.last⟩⟩

end FileInfo

/-! ## Stores that advance -/

namespace BlockStore

/-- The cursors point into `m_blockfile_info`, which reaches as far as they do, and the
sizes are far from wrapping. -/
structure Wf (s : BlockStore) : Prop where
  normal : s.normalCursor.isSome = true
  bound : ∀ type c, s.cursor type = some c → c.fileNum < max 1 s.infos.length
  length : s.infos.length ≤ s.maxBlockfileNum + 1
  size : ∀ (n : Nat) (info : FileInfo), s.infos[n]? = some info → info.nSize < 2 ^ 31
  dirty : ∀ n, s.dirtyFileinfo n = true → n < s.infos.length

/-- What was stored in `s` is still stored in `s'`: the file information has only grown, and
the files have the same bytes below the sizes. -/
structure Keeps (s s' : BlockStore) : Prop where
  info : ∀ (n : Nat) (info : FileInfo), s.infos[n]? = some info →
    ∃ info', s'.infos[n]? = some info' ∧ info.Grows info'
  blk : ∀ (n : Nat) (info : FileInfo), s.infos[n]? = some info →
    SameBelow info.nSize (s.blk n) (s'.blk n)
  rev : ∀ (n : Nat) (info : FileInfo), s.infos[n]? = some info →
    SameBelow info.nUndoSize (s.rev n) (s'.rev n)
  files : s.maxBlockfileNum ≤ s'.maxBlockfileNum
  dirtyFileinfo : ∀ n, s.dirtyFileinfo n = true → s'.dirtyFileinfo n = true

/-- A step that also leaves the entries alone. -/
structure Advances (s s' : BlockStore) : Prop extends Keeps s s' where
  position : s'.position = s.position
  dirtyBlockindex : s'.dirtyBlockindex = s.dirtyBlockindex
  wf : s.Wf → s'.Wf

variable {s s' s'' : BlockStore} {type : BlockfileType} {n : Nat}

protected theorem Keeps.refl (s : BlockStore) : Keeps s s :=
  ⟨fun _ info h => ⟨info, h, .refl info⟩, fun _ _ _ => .refl _ _, fun _ _ _ => .refl _ _,
    Nat.le_refl _, fun _ h => h⟩

protected theorem Keeps.trans (h : Keeps s s') (h' : Keeps s' s'') : Keeps s s'' := by
  refine ⟨?_, ?_, ?_, h.files.trans h'.files, fun n hn => h'.dirtyFileinfo n (h.dirtyFileinfo n hn)⟩
  · intro n info hinfo
    obtain ⟨info', hinfo', hgrows⟩ := h.info n info hinfo
    obtain ⟨info'', hinfo'', hgrows'⟩ := h'.info n info' hinfo'
    exact ⟨info'', hinfo'', hgrows.trans hgrows'⟩
  · intro n info hinfo
    obtain ⟨info', hinfo', hgrows⟩ := h.info n info hinfo
    exact (h.blk n info hinfo).trans hgrows.size (h'.blk n info' hinfo')
  · intro n info hinfo
    obtain ⟨info', hinfo', hgrows⟩ := h.info n info hinfo
    exact (h.rev n info hinfo).trans hgrows.undoSize (h'.rev n info' hinfo')

/-- The positions of an entry are not in the files. -/
theorem Keeps.setPosition (h : Keeps s s') (e : EntryPtr) (p : DiskPosition) :
    Keeps s (s'.setPosition e p) := ⟨h.info, h.blk, h.rev, h.files, h.dirtyFileinfo⟩

protected theorem Advances.refl (s : BlockStore) : Advances s s :=
  ⟨.refl s, rfl, rfl, fun h => h⟩

protected theorem Advances.trans (h : Advances s s') (h' : Advances s' s'') : Advances s s'' :=
  ⟨h.toKeeps.trans h'.toKeeps, h'.position.trans h.position,
    h'.dirtyBlockindex.trans h.dirtyBlockindex, fun hs => h'.wf (h.wf hs)⟩

/-! ### The cursors -/

@[simp] theorem cursor_setCursor_self (s : BlockStore) (type : BlockfileType) (c : Cursor) :
    (s.setCursor type c).cursor type = some c := by
  cases type <;> rfl

theorem cursor_setCursor_of_ne {type' : BlockfileType} (h : type' ≠ type) (s : BlockStore)
    (c : Cursor) : (s.setCursor type c).cursor type' = s.cursor type' := by
  cases type <;> cases type' <;> first | rfl | exact absurd rfl h

variable {c : Cursor} {m maxSize nAddSize turns : Nat} {info : FileInfo}

theorem fileNum_le_max (h : s.cursor type = some c) : c.fileNum ≤ s.maxBlockfileNum := by
  cases type with
  | normal =>
    have hc : s.normalCursor = some c := h
    rw [maxBlockfileNum, hc]
    exact Nat.le_max_left _ _
  | assumed =>
    have hc : s.assumedCursor = some c := h
    rw [maxBlockfileNum, hc]
    exact Nat.le_max_right _ _

/-- The number of the last file is zero or that of a cursor. -/
theorem max_cases (s : BlockStore) : s.maxBlockfileNum = 0 ∨
    ∃ type c, s.cursor type = some c ∧ c.fileNum = s.maxBlockfileNum := by
  rcases Nat.le_total (s.normalCursor.getD {}).fileNum (s.assumedCursor.getD {}).fileNum
    with hle | hle
  · rw [maxBlockfileNum, Nat.max_eq_right hle]
    cases hc : s.assumedCursor with
    | none => exact Or.inl rfl
    | some c => exact Or.inr ⟨.assumed, c, hc, rfl⟩
  · rw [maxBlockfileNum, Nat.max_eq_left hle]
    cases hc : s.normalCursor with
    | none => exact Or.inl rfl
    | some c => exact Or.inr ⟨.normal, c, hc, rfl⟩

/-- A cursor is moved up. -/
theorem max_le_setCursor
    (h : s.cursor type = none ∨
    ∃ c', s.cursor type = some c' ∧ c'.fileNum ≤ c.fileNum) :
    s.maxBlockfileNum ≤ (s.setCursor type c).maxBlockfileNum := by
  rcases s.max_cases with hzero | ⟨type', c', hc', hmax⟩
  · rw [hzero]
    exact Nat.zero_le _
  · rw [← hmax]
    by_cases htype : type' = type
    · subst htype
      have hle : c'.fileNum ≤ c.fileNum := by
        rcases h with hnone | ⟨c'', hc'', hle⟩
        · rw [hnone] at hc'
          cases hc'
        · rw [hc''] at hc'
          cases hc'
          exact hle
      exact hle.trans (fileNum_le_max (cursor_setCursor_self s type' c))
    · exact fileNum_le_max ((cursor_setCursor_of_ne htype s c).trans hc')

theorem le_max_setCursor (s : BlockStore) (type : BlockfileType) (next : Nat) :
    next ≤ (s.setCursor type { fileNum := next }).maxBlockfileNum :=
  fileNum_le_max (cursor_setCursor_self s type { fileNum := next })

@[simp] theorem infos_setCursor (s : BlockStore) (type : BlockfileType) (c : Cursor) :
    (s.setCursor type c).infos = s.infos := by
  cases type <;> rfl

@[simp] theorem blk_setCursor (s : BlockStore) (type : BlockfileType) (c : Cursor) :
    (s.setCursor type c).blk = s.blk := by
  cases type <;> rfl

@[simp] theorem rev_setCursor (s : BlockStore) (type : BlockfileType) (c : Cursor) :
    (s.setCursor type c).rev = s.rev := by
  cases type <;> rfl

@[simp] theorem position_setCursor (s : BlockStore) (type : BlockfileType) (c : Cursor) :
    (s.setCursor type c).position = s.position := by
  cases type <;> rfl

@[simp] theorem dirtyBlockindex_setCursor (s : BlockStore) (type : BlockfileType) (c : Cursor) :
    (s.setCursor type c).dirtyBlockindex = s.dirtyBlockindex := by
  cases type <;> rfl

@[simp] theorem dirtyFileinfo_setCursor (s : BlockStore) (type : BlockfileType) (c : Cursor) :
    (s.setCursor type c).dirtyFileinfo = s.dirtyFileinfo := by
  cases type <;> rfl

theorem normal_setCursor (hs : s.normalCursor.isSome = true) (c : Cursor) :
    (s.setCursor type c).normalCursor.isSome = true := by
  cases type with
  | normal => rfl
  | assumed => exact hs

/-! ### Steps -/

theorem infos_resize (s : BlockStore) (n : Nat) : (s.resize n).infos =
      s.infos ++ List.replicate (n + 1 - s.infos.length) ({} : FileInfo) := rfl

theorem length_resize (s : BlockStore) (n : Nat) :
    (s.resize n).infos.length = max s.infos.length (n + 1) := by
  rw [infos_resize, length_append, length_replicate]
  omega

theorem getElem?_resize (h : s.infos[m]? = some info) : (s.resize n).infos[m]? = some info := by
  have hm : m < s.infos.length := (List.getElem?_eq_some_iff.mp h).1
  rw [infos_resize, getElem?_append_left hm, h]

/-- A file that a longer vector has in addition is unused. -/
theorem getElem?_resize_new (h : (s.resize n).infos[m]? = some info) :
    s.infos[m]? = some info ∨ s.infos.length ≤ m ∧ info = {} := by
  rw [infos_resize] at h
  by_cases hm : m < s.infos.length
  · rw [getElem?_append_left hm] at h
    exact Or.inl h
  · rw [getElem?_append_right (by omega), getElem?_replicate] at h
    split at h
    · exact Or.inr ⟨by omega, (Option.some.inj h).symm⟩
    · cases h

/-- The vector is made longer, and a cursor may have been moved up for this. -/
theorem Advances.resize (hnormal : s.normalCursor.isSome = true → s'.normalCursor.isSome = true)
    (hinfos : s'.infos = s.infos) (hblk : s'.blk = s.blk) (hrev : s'.rev = s.rev)
    (hposition : s'.position = s.position) (hindex : s'.dirtyBlockindex = s.dirtyBlockindex)
    (hfile : s'.dirtyFileinfo = s.dirtyFileinfo) (hmax : s.maxBlockfileNum ≤ s'.maxBlockfileNum)
    (hn : n ≤ s'.maxBlockfileNum)
    (hcursor : ∀ type c, s'.cursor type = some c → s.cursor type = some c ∨ c.fileNum = n) :
    Advances s (s'.resize n) := by
  have hinfo : ∀ (m : Nat) (info : FileInfo), s.infos[m]? = some info →
      (s'.resize n).infos[m]? = some info := fun m info h => getElem?_resize (by rw [hinfos, h])
  refine ⟨⟨fun m info h => ⟨info, hinfo m info h, .refl _⟩, ?_, ?_, hmax, ?_⟩, hposition, hindex,
    ?_⟩
  · intro m info _
    show SameBelow info.nSize (s.blk m) (s'.blk m)
    rw [hblk]
    exact .refl _ _
  · intro m info _
    show SameBelow info.nUndoSize (s.rev m) (s'.rev m)
    rw [hrev]
    exact .refl _ _
  · intro m hm
    show s'.dirtyFileinfo m = true
    rw [hfile, hm]
  · intro hs
    have hlength := length_resize s' n
    rw [hinfos] at hlength
    refine ⟨hnormal hs.normal, ?_, ?_, ?_, ?_⟩
    · intro type c hc
      rcases hcursor type c hc with hold | hnew
      · have hbound := hs.bound type c hold
        omega
      · omega
    · have hle := hs.length
      show (s'.resize n).infos.length ≤ s'.maxBlockfileNum + 1
      omega
    · intro m info h
      rcases getElem?_resize_new h with hold | ⟨-, hempty⟩
      · rw [hinfos] at hold
        exact hs.size m info hold
      · rw [hempty]
        exact Nat.two_pow_pos 31
    · intro m hm
      have hdirty : s'.dirtyFileinfo m = true := hm
      rw [hfile] at hdirty
      have hlt := hs.dirty m hdirty
      omega

/-- A cursor is moved up to a file. -/
theorem Advances.moveTo {next : Nat} (h : s.cursor type = none ∨
    ∃ c, s.cursor type = some c ∧ c.fileNum ≤ next) :
    Advances s ((s.setCursor type { fileNum := next }).resize next) := by
  refine .resize (fun hs => normal_setCursor hs _) (infos_setCursor ..) (blk_setCursor ..)
    (rev_setCursor ..) (position_setCursor ..) (dirtyBlockindex_setCursor ..)
    (dirtyFileinfo_setCursor ..) (max_le_setCursor h) (le_max_setCursor s type next) ?_
  intro type' c hc
  by_cases htype : type' = type
  · subst htype
    rw [cursor_setCursor_self] at hc
    cases hc
    exact Or.inr rfl
  · rw [cursor_setCursor_of_ne htype] at hc
    exact Or.inl hc

/-- The file of a cursor has its information. -/
theorem Advances.resizeTo (h : s.cursor type = some c) : Advances s (s.resize c.fileNum) :=
  .resize (fun hs => hs) rfl rfl rfl rfl rfl rfl (Nat.le_refl _) (fileNum_le_max h)
    (fun _ _ hc => Or.inl hc)

/-- A cursor gets another height for the undo data. -/
theorem Advances.setCursor {c' : Cursor} (h : s.cursor type = some c)
    (hnum : c'.fileNum = c.fileNum) : Advances s (s.setCursor type c') := by
  have hmax : s.maxBlockfileNum ≤ (s.setCursor type c').maxBlockfileNum :=
    max_le_setCursor (Or.inr ⟨c, h, Nat.le_of_eq hnum.symm⟩)
  refine ⟨⟨?_, ?_, ?_, hmax, ?_⟩, position_setCursor .., dirtyBlockindex_setCursor .., ?_⟩
  · intro n info hinfo
    rw [infos_setCursor]
    exact ⟨info, hinfo, .refl _⟩
  · intro n info _
    rw [blk_setCursor]
    exact .refl _ _
  · intro n info _
    rw [rev_setCursor]
    exact .refl _ _
  · intro n hn
    rw [dirtyFileinfo_setCursor, hn]
  · intro hs
    refine ⟨normal_setCursor hs.normal _, ?_, ?_, ?_, ?_⟩
    · intro type' c'' hc
      rw [infos_setCursor]
      by_cases htype : type' = type
      · subst htype
        rw [cursor_setCursor_self] at hc
        cases hc
        rw [hnum]
        exact hs.bound type' c h
      · rw [cursor_setCursor_of_ne htype] at hc
        exact hs.bound type' c'' hc
    · rw [infos_setCursor]
      exact hs.length.trans (Nat.add_le_add_right hmax 1)
    · rw [infos_setCursor]
      exact hs.size
    · rw [infos_setCursor, dirtyFileinfo_setCursor]
      exact hs.dirty

theorem Advances.markFile (h : n < s.infos.length) : Advances s (s.markFile n) := by
  refine ⟨⟨fun _ info h => ⟨info, h, .refl _⟩, fun _ _ _ => .refl _ _, fun _ _ _ => .refl _ _,
    Nat.le_refl _, ?_⟩, rfl, rfl, ?_⟩
  · intro m hm
    show Function.update s.dirtyFileinfo n true m = true
    by_cases hmn : m = n
    · rw [hmn, update_self]
    · rw [update_of_ne hmn, hm]
  · intro hs
    refine ⟨hs.normal, hs.bound, hs.length, hs.size, ?_⟩
    intro m hm
    have hdirty : Function.update s.dirtyFileinfo n true m = true := hm
    by_cases hmn : m = n
    · rw [hmn]
      exact h
    · rw [update_of_ne hmn] at hdirty
      exact hs.dirty m hdirty

section Modify

variable {info : FileInfo} {f : FileInfo → FileInfo} {blk rev : List UInt8}
  (hinfo : s.infos[n]? = some info) (hgrows : info.Grows (f info))
  (hsize : info.nSize < 2 ^ 31 → (f info).nSize < 2 ^ 31)

include hinfo hgrows hsize

/-- The information of one file grows, and its files change behind the sizes. -/
theorem Advances.modify (hblk : SameBelow info.nSize (s.blk n) blk)
    (hrev : SameBelow info.nUndoSize (s.rev n) rev) :
    Advances s (((s.modifyInfo n f).setBlk n blk).setRev n rev) := by
  have hget : ∀ m, (((s.modifyInfo n f).setBlk n blk).setRev n rev).infos[m]? =
      if n = m then s.infos[m]?.map f else s.infos[m]? := by
    intro m
    show (s.infos.modify n f)[m]? = _
    rw [getElem?_modify]
    split_ifs <;> simp
  refine ⟨⟨?_, ?_, ?_, Nat.le_refl _, fun _ h => h⟩, rfl, rfl, ?_⟩
  · intro m info' hinfo'
    rw [hget, hinfo']
    by_cases hmn : n = m
    · subst hmn
      rw [hinfo] at hinfo'
      cases hinfo'
      rw [if_pos rfl]
      exact ⟨f info, rfl, hgrows⟩
    · rw [if_neg hmn]
      exact ⟨info', rfl, .refl _⟩
  · intro m info' hinfo'
    show SameBelow info'.nSize (s.blk m) (Function.update s.blk n blk m)
    by_cases hmn : m = n
    · subst hmn
      rw [hinfo] at hinfo'
      cases hinfo'
      rw [update_self]
      exact hblk
    · rw [update_of_ne hmn]
      exact .refl _ _
  · intro m info' hinfo'
    show SameBelow info'.nUndoSize (s.rev m) (Function.update s.rev n rev m)
    by_cases hmn : m = n
    · subst hmn
      rw [hinfo] at hinfo'
      cases hinfo'
      rw [update_self]
      exact hrev
    · rw [update_of_ne hmn]
      exact .refl _ _
  · intro hs
    have hlength : (((s.modifyInfo n f).setBlk n blk).setRev n rev).infos.length =
        s.infos.length := length_modify ..
    refine ⟨hs.normal, ?_, ?_, ?_, ?_⟩
    · rw [hlength]
      exact hs.bound
    · rw [hlength]
      exact hs.length
    · intro m info' hinfo'
      rw [hget] at hinfo'
      by_cases hmn : n = m
      · subst hmn
        rw [if_pos rfl, hinfo] at hinfo'
        cases hinfo'
        exact hsize (hs.size n info hinfo)
      · rw [if_neg hmn] at hinfo'
        exact hs.size m info' hinfo'
    · rw [hlength]
      exact hs.dirty

/-- The same for the block file alone. -/
theorem Advances.extendBlk (hblk : SameBelow info.nSize (s.blk n) blk) :
    Advances s ((s.modifyInfo n f).setBlk n blk) := by
  have h := Advances.modify hinfo hgrows hsize hblk (.refl _ (s.rev n))
  have heq : ((s.modifyInfo n f).setBlk n blk).setRev n (s.rev n) =
      (s.modifyInfo n f).setBlk n blk := by
    simp only [BlockStore.modifyInfo, BlockStore.setBlk, BlockStore.setRev, update_eq_self]
  rwa [heq] at h

/-- The same for the undo file alone. -/
theorem Advances.extendRev (hrev : SameBelow info.nUndoSize (s.rev n) rev) :
    Advances s ((s.modifyInfo n f).setRev n rev) := by
  have h := Advances.modify hinfo hgrows hsize (.refl _ (s.blk n)) hrev
  have heq : ((s.modifyInfo n f).setBlk n (s.blk n)).setRev n rev =
      (s.modifyInfo n f).setRev n rev := by
    simp only [BlockStore.modifyInfo, BlockStore.setBlk, BlockStore.setRev, update_eq_self]
  rwa [heq] at h

end Modify

/-- A block file changes behind its size. -/
theorem Advances.setBlk {blk : List UInt8} (hinfo : s.infos[n]? = some info)
    (hblk : SameBelow info.nSize (s.blk n) blk) : Advances s (s.setBlk n blk) := by
  have h := Advances.extendBlk (f := id) hinfo (.refl info) (fun h => h) hblk
  rwa [modifyInfo, modify_id] at h

/-- An undo file changes behind its size. -/
theorem Advances.setRev {rev : List UInt8} (hinfo : s.infos[n]? = some info)
    (hrev : SameBelow info.nUndoSize (s.rev n) rev) : Advances s (s.setRev n rev) := by
  have h := Advances.extendRev (f := id) hinfo (.refl info) (fun h => h) hrev
  rwa [modifyInfo, modify_id] at h

/-! ### Files -/

theorem sameBelow_allocateFileRange (how : Allocation) (file : List UInt8) (offset length : Nat) :
    SameBelow offset file (allocateFileRange how file offset length) := by
  cases how with
  | setEnd => exact .truncate (Nat.le_add_right _ _)
  | fallocate => exact .allocate
  | zeros written => exact .writeAt (Nat.le_refl _)

theorem sameBelow_flatFileAllocate (env : WriteEnv) (chunkSize : Nat) (file : List UInt8)
    (nPos addSize : Nat) :
    SameBelow nPos file (flatFileAllocate env chunkSize file nPos addSize).1 := by
  unfold flatFileAllocate
  dsimp only
  split_ifs
  · cases env.allocation with
    | none => exact .refl _ _
    | some how => exact sameBelow_allocateFileRange how file nPos _
  · exact .refl _ _
  · exact .refl _ _

theorem sameBelow_flatFileFlush (success : Bool) (file : List UInt8) (nPos : Nat)
    (finalize : Bool) : SameBelow nPos file (flatFileFlush success file nPos finalize) := by
  unfold flatFileFlush
  split
  · exact .truncate (Nat.le_refl _)
  · exact .refl _ _

theorem flushUndoFile_spec (hinfo : s.infos[n]? = some info) (env : WriteEnv) (finalize : Bool) :
    ∃ rev, s.flushUndoFile env n finalize = some (s.setRev n rev) ∧
      Advances s (s.setRev n rev) := by
  unfold flushUndoFile
  rw [hinfo]
  exact ⟨_, rfl, .setRev hinfo (sameBelow_flatFileFlush _ _ _ _)⟩

theorem flushBlockFile_spec (hinfo : s.infos[n]? = some info) (env : WriteEnv)
    (fFinalize finalizeUndo : Bool) :
    ∃ s', s.flushBlockFile env n fFinalize finalizeUndo = some s' ∧ Advances s s' ∧
      s'.infos = s.infos ∧ s'.cursor = s.cursor := by
  have hlength : ¬ s.infos.length < 1 := by
    have := (List.getElem?_eq_some_iff.mp hinfo).1
    omega
  have hblk := Advances.setBlk hinfo
    (sameBelow_flatFileFlush env.flushesBlock (s.blk n) info.nSize fFinalize)
  unfold flushBlockFile
  rw [if_neg hlength, hinfo]
  dsimp only [bind, Option.bind]
  split
  · obtain ⟨rev, hrev, hadvances⟩ := flushUndoFile_spec (s := s.setBlk n
      (flatFileFlush env.flushesBlock (s.blk n) info.nSize fFinalize)) hinfo env finalizeUndo
    exact ⟨_, hrev, hblk.trans hadvances, rfl, rfl⟩
  · exact ⟨_, rfl, hblk, rfl, rfl⟩

/-! ### `FindNextBlockPos` -/

/-- The files of `s'` are those of `s`, and unused ones. -/
def OnlyNew (s s' : BlockStore) : Prop :=
  ∀ (m : Nat) (info : FileInfo), s'.infos[m]? = some info → s.infos[m]? = some info ∨ info = {}

theorem OnlyNew.trans (h : OnlyNew s s') (h' : OnlyNew s' s'') : OnlyNew s s'' := by
  intro m info hinfo
  rcases h' m info hinfo with hold | hnew
  · exact h m info hold
  · exact Or.inr hnew

theorem onlyNew_resize (s : BlockStore) (n : Nat) : OnlyNew s (s.resize n) :=
  fun _ _ hinfo => (getElem?_resize_new hinfo).imp id And.right

/-- A cursor of the type that has the file. -/
def CursorAt (s : BlockStore) (type : BlockfileType) (n : Nat) : Prop :=
  ∃ c, s.cursor type = some c ∧ c.fileNum = n

theorem withCursor_spec (hs : s.Wf) (type : BlockfileType) :
    ∃ c s', s.withCursor type = some (c, s') ∧ Advances s (s'.resize c.fileNum) ∧
      OnlyNew s (s'.resize c.fileNum) ∧ CursorAt (s'.resize c.fileNum) type c.fileNum := by
  unfold withCursor
  cases hc : s.cursor type with
  | some c => exact ⟨c, s, rfl, .resizeTo hc, onlyNew_resize s _, c, hc, rfl⟩
  | none =>
    cases type with
    | normal =>
      have hnormal := hs.normal
      have hnone : s.normalCursor = none := hc
      rw [hnone] at hnormal
      cases hnormal
    | assumed => exact ⟨_, _, rfl, .moveTo (Or.inl hc), onlyNew_resize _ _, _, rfl, rfl⟩

theorem nextFile_of_fits (finalizeUndo : Bool) (hinfo : s.infos[n]? = some info)
    (hfits : info.nSize + nAddSize < maxSize) (hmax : maxSize ≤ 2 ^ 32) :
    nextFile type maxSize nAddSize (turns + 1) n finalizeUndo s = some (n, finalizeUndo, s) := by
  rw [nextFile, hinfo]
  dsimp only [bind, Option.bind]
  rw [Nat.mod_eq_of_lt (by omega), if_neg (by omega)]
  rfl

/-- The loop ends at the first file or at the next one, which is unused. -/
theorem nextFile_spec (hs : s.Wf) (hadd : nAddSize < maxSize) (hmax : maxSize ≤ 2 ^ 31)
    (hturns : 2 ≤ turns) (hlt : n < s.infos.length) (hcursor : CursorAt s type n) :
    ∃ m finalizeUndo s' info, nextFile type maxSize nAddSize turns n false s =
        some (m, finalizeUndo, s') ∧
      Advances s s' ∧ OnlyNew s s' ∧ CursorAt s' type m ∧ s'.infos[m]? = some info ∧
        info.nSize + nAddSize < maxSize := by
  obtain ⟨info, hinfo⟩ : ∃ info, s.infos[n]? = some info := ⟨_, getElem?_eq_getElem hlt⟩
  obtain ⟨turns, rfl⟩ : ∃ t, turns = t + 2 := ⟨turns - 2, by omega⟩
  by_cases hfits : info.nSize + nAddSize < maxSize
  · exact ⟨n, false, s, info, nextFile_of_fits false hinfo hfits (by omega), .refl s,
      fun _ _ h => Or.inl h, hcursor, hinfo, hfits⟩
  · obtain ⟨c, hc, -⟩ := hcursor
    have hsize := hs.size n info hinfo
    have hlength := hs.length
    -- the loop turns once, to a file behind the last one
    have hopen := Advances.moveTo (Or.inr ⟨c, hc, (fileNum_le_max hc).trans
      (Nat.le_succ s.maxBlockfileNum)⟩)
    have hfresh : ((s.setCursor type { fileNum := s.maxBlockfileNum + 1 }).resize
        (s.maxBlockfileNum + 1)).infos[s.maxBlockfileNum + 1]? = some {} := by
      rw [infos_resize, infos_setCursor, getElem?_append_right (by omega),
        getElem?_replicate, if_pos (by omega)]
    have hnew : OnlyNew s ((s.setCursor type { fileNum := s.maxBlockfileNum + 1 }).resize
        (s.maxBlockfileNum + 1)) := by
      have h := onlyNew_resize (s.setCursor type { fileNum := s.maxBlockfileNum + 1 })
        (s.maxBlockfileNum + 1)
      intro m info' hinfo'
      rw [← infos_setCursor s type { fileNum := s.maxBlockfileNum + 1 }]
      exact h m info' hinfo'
    have hzero : ({} : FileInfo).nSize + nAddSize < maxSize := by
      show 0 + nAddSize < maxSize
      omega
    have hcursor' : CursorAt ((s.setCursor type { fileNum := s.maxBlockfileNum + 1 }).resize
        (s.maxBlockfileNum + 1)) type (s.maxBlockfileNum + 1) :=
      ⟨_, cursor_setCursor_self s type _, rfl⟩
    refine ⟨_, info.nHeightLast == c.undoHeight, _, {}, ?_, hopen, hnew, hcursor', hfresh, hzero⟩
    rw [nextFile, hinfo]
    dsimp only [bind, Option.bind]
    rw [Nat.mod_eq_of_lt (by omega), if_pos (by omega), hc]
    exact nextFile_of_fits _ hfresh hzero (by omega)

theorem leaveFile_spec {lastBlockfile : Nat} (hlast : lastBlockfile < s.infos.length)
    (hcursor : CursorAt s type n) (env : WriteEnv) (finalizeUndo : Bool) :
    ∃ s', s.leaveFile env type n lastBlockfile finalizeUndo = some s' ∧ Advances s s' ∧
      s'.infos = s.infos := by
  unfold leaveFile
  split
  · obtain ⟨s', hflush, hadvances, hinfos, hcursors⟩ :=
      flushBlockFile_spec (getElem?_eq_getElem hlast) env true finalizeUndo
    obtain ⟨c, hc, hnum⟩ := hcursor
    rw [hflush]
    refine ⟨_, rfl, hadvances.trans (.setCursor (c := c) (by rw [hcursors, hc]) hnum.symm), ?_⟩
    rw [infos_setCursor, hinfos]
  · exact ⟨s, rfl, .refl s, rfl⟩

theorem maxBlockfileSizeFor_spec (o : StorageOptions) (h : nAddSize < 2 ^ 27) :
    nAddSize < maxBlockfileSizeFor o nAddSize ∧ maxBlockfileSizeFor o nAddSize ≤ 2 ^ 27 := by
  unfold maxBlockfileSizeFor maxBlockfileSize
  split_ifs <;> omega

/-- `FindNextBlockPos` opens files, and then it adds the block to one of them. -/
theorem findNextBlockPos_spec (o : StorageOptions) (hs : s.Wf) (env : WriteEnv)
    (hadd : nAddSize < 2 ^ 27) (nHeight nTime : Nat) :
    ∃ s' nFile info file, Advances s s' ∧ OnlyNew s s' ∧ nFile ≤ s'.maxBlockfileNum ∧
      s'.infos[nFile]? = some info ∧ info.nSize + nAddSize < 2 ^ 27 ∧
      SameBelow info.nSize (s'.blk nFile) file ∧
      (findNextBlockPos o s env nAddSize nHeight nTime = some (none,
          (s'.modifyInfo nFile fun info => (info.addBlock nHeight nTime).addSize
            nAddSize).setBlk nFile file) ∨
        findNextBlockPos o s env nAddSize nHeight nTime = some (some ⟨nFile, info.nSize⟩,
          ((s'.modifyInfo nFile fun info => (info.addBlock nHeight nTime).addSize
            nAddSize).setBlk nFile file).markFile nFile)) := by
  obtain ⟨hlt, hle⟩ := maxBlockfileSizeFor_spec o hadd
  obtain ⟨c, s₀, hwith, hadv₀, hnew₀, hcursor₀⟩ :=
    withCursor_spec hs (s.blockfileTypeForHeight nHeight)
  have hlength := length_resize s₀ c.fileNum
  have hturns : 2 ≤ (s₀.resize c.fileNum).infos.length + 1 := by omega
  obtain ⟨nFile, finalizeUndo, s₁, info, hnext, hadv₁, hnew₁, hcursor₁, hinfo, hfits⟩ :=
    nextFile_spec (hadv₀.wf hs) hlt (by omega) hturns (by omega) hcursor₀
  have hlast : c.fileNum < s₁.infos.length := by
    obtain ⟨info', hinfo', -⟩ := hadv₁.info c.fileNum _
      (getElem?_eq_getElem (by omega))
    exact (List.getElem?_eq_some_iff.mp hinfo').1
  obtain ⟨s₂, hleave, hadv₂, hinfos⟩ := leaveFile_spec hlast hcursor₁ env finalizeUndo
  have hfile : nFile ≤ s₂.maxBlockfileNum := by
    obtain ⟨c', hc', hnum⟩ := hcursor₁
    rw [← hnum]
    exact (fileNum_le_max hc').trans hadv₂.files
  refine ⟨s₂, nFile, info, _, (hadv₀.trans hadv₁).trans hadv₂, ?_, hfile, by rw [hinfos, hinfo],
    by omega, sameBelow_flatFileAllocate env o.blockChunk (s₂.blk nFile) info.nSize nAddSize, ?_⟩
  · intro m info' hinfo'
    rw [hinfos] at hinfo'
    exact (hnew₀.trans hnew₁) m info' hinfo'
  · unfold findNextBlockPos
    dsimp only
    rw [hwith]
    dsimp only [bind, Option.bind]
    rw [if_neg (by omega)]
    rw [hnext]
    dsimp only
    rw [hinfo]
    dsimp only
    rw [hleave]
    dsimp only
    by_cases hspace : (flatFileAllocate env o.blockChunk (s₂.blk nFile) info.nSize
      nAddSize).2 = true
    · exact Or.inl (if_pos hspace)
    · exact Or.inr (if_neg hspace)

/-- `FindUndoPos` finds a place behind what the undo file is used for. -/
theorem findUndoPos_spec (hinfo : s.infos[n]? = some info) (env : WriteEnv) (nAddSize : Nat) :
    ∃ file, SameBelow info.nUndoSize (s.rev n) file ∧ (s.findUndoPos env n nAddSize = some (none,
          ((s.modifyInfo n fun info => info.addUndoSize nAddSize).markFile n).setRev n file) ∨
        s.findUndoPos env n nAddSize = some (some ⟨n, info.nUndoSize⟩,
          ((s.modifyInfo n fun info => info.addUndoSize nAddSize).markFile n).setRev n file)) := by
  refine ⟨_, sameBelow_flatFileAllocate env undofileChunkSize (s.rev n) info.nUndoSize nAddSize, ?_⟩
  unfold findUndoPos
  rw [hinfo]
  by_cases hspace : (flatFileAllocate env undofileChunkSize (s.rev n) info.nUndoSize
    nAddSize).2 = true
  · exact Or.inl (if_pos hspace)
  · exact Or.inr (if_neg hspace)

end BlockStore

end BitcoinKernel.Storage
