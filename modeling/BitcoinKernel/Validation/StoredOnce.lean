import Mathlib.Data.Nat.Bitwise
import BitcoinKernel.Validation.ProcessCalls

/-!
# `process_block` says `NewBlock` at most once for a block

The answer of `process_block` combines a flag that is set in the middle of the
first section with a return value that is decided later.  This module follows
the flag `BLOCK_HAVE_DATA` through all sections of all calls.

There are three groups.

* The flag.  `SameData` says that two trees have the same nodes with the same
  flags.  Marking blocks as failed and activating chains keep it;
  `ReceivedBlockTransactions` sets it in one node (`haveData_received`).
* The first section.  `processNewBlock_stores` is its specification: it stores
  the block that it calls new, which was not stored before, and otherwise it
  stores nothing.
* Runs.  `CallsOk` relates the calls so far to the stored blocks, `CallsOk.step`
  is the step lemma, and `process_block_new_once` is the result.

No assumption on the tree or on the hash is needed: twins with one hash share
the node, and so the flag.
-/

namespace BitcoinKernel.Validation.Chainman

open Serialize Consensus State State.BlockTree List Option

variable {hash256 : List UInt8 → Uint256} {params : Params}

/-! ## The flag -/

/-- What the set of stored blocks reads of a node. -/
def dataKey (index : BlockIndex) : Uint256 × Bool := (index.hash, index.haveData)

/-- Both trees have the same nodes, with the same blocks stored. -/
def SameData (t t' : BlockTree) : Prop := ∀ e, (t'.index? e).map dataKey = (t.index? e).map dataKey

theorem SameData.refl (t : BlockTree) : SameData t t := fun _ => rfl

variable {t t' : BlockTree} {m m' : ChainstateManager} {hash : Uint256} {e : EntryPtr}
  {state : BlockValidationState} {index : BlockIndex} {now : Int} {env : Surroundings}
  {object : BlockObject} {r : AcceptedBlock} {call : Call} {w : World}

theorem SameData.trans {t'' : BlockTree} (h : SameData t t') (h' : SameData t' t'') :
    SameData t t'' := fun e => (h' e).trans (h e)

theorem mem_stored : hash ∈ m.stored ↔ ∃ e, (m.tree.index? e).map dataKey = some (hash, true) := by
  unfold ChainstateManager.stored
  constructor
  · intro h
    obtain ⟨index, hindex, rfl⟩ := List.mem_map.mp h
    obtain ⟨hmem, hdata⟩ := mem_filter.mp hindex
    obtain ⟨e, he⟩ := mem_iff_getElem?.mp hmem
    refine ⟨e, ?_⟩
    rw [index?, he, map_some, dataKey, hdata]
  · rintro ⟨e, he⟩
    obtain ⟨index, hindex, hkey⟩ := map_eq_some_iff.mp he
    have hhash : index.hash = hash := congrArg Prod.fst hkey
    have hdata : index.haveData = true := congrArg Prod.snd hkey
    apply List.mem_map.mpr
    exact ⟨index, mem_filter.mpr ⟨mem_of_getElem? hindex, hdata⟩, hhash⟩

theorem SameData.mem_stored_iff (h : SameData m.tree m'.tree) (hash : Uint256) :
    hash ∈ m'.stored ↔ hash ∈ m.stored := by
  rw [mem_stored, mem_stored]
  constructor
  · rintro ⟨e, he⟩
    exact ⟨e, (h e).symm.trans he⟩
  · rintro ⟨e, he⟩
    exact ⟨e, (h e).trans he⟩

theorem and_blockHaveData (n : Nat) : n &&& blockHaveData = n / 8 % 2 * 8 := by
  show n &&& 2 ^ 3 = _
  rw [Nat.and_two_pow, Nat.testBit_eq_decide_div_mod_eq]
  show (decide (n / 8 % 2 = 1)).toNat * 8 = _
  rcases Nat.mod_two_eq_zero_or_one (n / 8) with h | h <;> rw [h] <;> rfl

/-- A bit that is not the flag. -/
theorem or_and_blockHaveData (n : Nat) {bits : Nat} (h : bits &&& blockHaveData = 0) :
    (n ||| bits) &&& blockHaveData = n &&& blockHaveData := by
  rw [Nat.and_or_distrib_right, h, Nat.or_zero]

theorem sameData_mapStatus (t : BlockTree) {f : EntryPtr → Nat → Nat}
    (hf : ∀ e nStatus, f e nStatus &&& blockHaveData = nStatus &&& blockHaveData) :
    SameData t (t.mapStatus f) := by
  intro e
  show ((withStatus t.entries f)[e]?).map dataKey = (t.entries[e]?).map dataKey
  rw [getElem?_withStatus]
  cases t.entries[e]? with
  | none => rfl
  | some index =>
    show some (index.hash, f e index.nStatus &&& blockHaveData != 0) = _
    rw [hf]
    rfl

/-- Marking nodes as failed keeps the flag. -/
theorem sameData_markFailed (t : BlockTree) (p : EntryPtr → Bool) :
    SameData t (t.mapStatus fun e nStatus =>
      if p e then nStatus ||| blockFailedValid else nStatus) := by
  apply sameData_mapStatus
  intro e nStatus
  split_ifs
  · exact or_and_blockHaveData nStatus rfl
  · rfl

theorem sameData_invalidBlockFound {order : List EntryPtr}
    (h : invalidBlockFound m e state order = some m') : SameData m.tree m'.tree := by
  unfold invalidBlockFound at h
  split_ifs at h
  · obtain ⟨index, -, h⟩ := bind_eq_some_iff.mp h
    obtain ⟨tree, htree, h⟩ := bind_eq_some_iff.mp h
    obtain ⟨best, -, h⟩ := bind_eq_some_iff.mp h
    obtain ⟨tip, -, h⟩ := bind_eq_some_iff.mp h
    obtain ⟨flags, -, htree⟩ := bind_eq_some_iff.mp htree
    cases htree
    cases h
    have hself := sameData_markFailed m.tree (fun i => decide (i = e))
    simp only [decide_eq_true_eq] at hself
    exact hself.trans (sameData_markFailed _ _)
  · cases h
    exact SameData.refl _

theorem haveData_raiseValidity (index : BlockIndex) :
    (index.raiseValidity blockValidTransactions).haveData = index.haveData := by
  unfold BlockIndex.raiseValidity
  split_ifs
  · rfl
  · have hmask : index.nStatus &&& blockValidMask = index.nStatus % 8 :=
      Nat.and_two_pow_sub_one_eq_mod index.nStatus 3
    show ((index.nStatus - (index.nStatus &&& blockValidMask) ||| blockValidTransactions) &&&
      blockHaveData != 0) = (index.nStatus &&& blockHaveData != 0)
    rw [or_and_blockHaveData _ rfl, hmask, and_blockHaveData, and_blockHaveData]
    have hbit : (index.nStatus - index.nStatus % 8) / 8 = index.nStatus / 8 := by omega
    rw [hbit]
  · rfl

theorem or_blockHaveData (n : Nat) : ((n ||| blockHaveData) &&& blockHaveData != 0) = true := by
  rw [Nat.and_or_distrib_right, and_blockHaveData n]
  rcases Nat.mod_two_eq_zero_or_one (n / 8) with h | h <;> rw [h] <;> rfl

/-- `ReceivedBlockTransactions` sets the flag of one node. -/
theorem haveData_received (t : BlockTree) (e i : EntryPtr) :
    ((receivedBlockTransactions params t e).index? i).map dataKey =
      (t.index? i).map fun index => (index.hash, index.haveData || decide (e = i)) := by
  show ((t.entries.modify e _)[i]?).map dataKey = (t.entries[i]?).map _
  rw [getElem?_modify]
  cases t.entries[i]? with
  | none => rfl
  | some index =>
    show some (dataKey (if e = i then _ else index)) =
      some (index.hash, index.haveData || decide (e = i))
    by_cases hei : e = i
    · rw [if_pos hei, dataKey, haveData_raiseValidity, BlockIndex.hash_raiseValidity,
        decide_eq_true hei, Bool.or_true]
      congr 2
      show ((if _ then _ else _) &&& blockHaveData != 0) = true
      split_ifs
      · rw [or_and_blockHaveData _ rfl]
        exact or_blockHaveData _
      · exact or_blockHaveData _
    · rw [if_neg hei, decide_eq_false hei, Bool.or_false]
      rfl

/-! ## The first section -/

/-- A section that stores nothing. -/
theorem storedSince_eq_nil (h : ∀ hash, hash ∈ m'.stored → hash ∈ m.stored) :
    storedSince m m' = [] := by
  unfold storedSince
  apply filter_eq_nil_iff.mpr
  intro hash hmem
  rw [decide_eq_true_eq, not_not]
  exact h hash hmem

/-- `AddToBlockIndex` finds the node of the hash, or appends one without data. -/
theorem addToBlockIndex_node {getHash : BlockHeader → Uint256} {block : BlockHeader}
    {best best' : Option EntryPtr}
    (h : t.addToBlockIndex getHash block best = some (t', best', e)) :
    (t' = t ∧ t.HasHash e (getHash block)) ∨
      (e = t.entries.length ∧ ∃ index, Appended t t' index ∧ index.hash = getHash block ∧
        index.haveData = false) := by
  unfold addToBlockIndex at h
  rcases t.tryEmplace_cases (BlockIndex.ofHeader (getHash block) block) with
    ⟨e₁, he₁, hput⟩ | ⟨hnew, hput⟩
  · rw [hput] at h
    cases h
    exact Or.inl ⟨rfl, he₁⟩
  · rw [hput] at h
    simp only [Bool.not_true, Bool.false_eq_true, if_false, Option.pure_def, Option.bind_eq_bind,
      bind_eq_some_iff, Option.some.injEq, Prod.mk.injEq] at h
    obtain ⟨index, hindex, linked, hlinked, rfl, -, rfl⟩ := h
    obtain ⟨-, hnode⟩ := index?_push hnew
    have hindex' : index = BlockIndex.ofHeader (getHash block) block :=
      Option.some.inj (hindex.symm.trans hnode)
    have hstatus : linked.nStatus = 0 := by
      unfold linkToPrev at hlinked
      split at hlinked
      · cases hlinked
        rw [hindex']
        rfl
      · obtain ⟨pprev, -, hlinked⟩ := bind_eq_some_iff.mp hlinked
        obtain ⟨pskip, -, hlinked⟩ := bind_eq_some_iff.mp hlinked
        cases hlinked
        rw [hindex']
        rfl
    refine Or.inr ⟨rfl, _, ⟨modify_last t.entries _ _⟩, rfl, ?_⟩
    rw [raiseValidity_of_nStatus_eq_zero hstatus]
    show (blockValidTree &&& blockHaveData != 0) = false
    decide

theorem stored_appended (h : Appended m.tree m'.tree index) (hdata : index.haveData = false)
    (hash : Uint256) : hash ∈ m'.stored ↔ hash ∈ m.stored := by
  unfold ChainstateManager.stored
  rw [h.entries, filter_append, filter_singleton, hdata]
  simp

/-- `AcceptBlockHeader` stores no block, and an accepted header has a node. -/
theorem acceptBlockHeader_stored {block : BlockHeader} {r : AcceptedHeader}
    (h : acceptBlockHeader hash256 params now m block state true = some r) :
    (∀ hash, hash ∈ r.manager.stored ↔ hash ∈ m.stored) ∧
      (r.accepted = true → ∃ e index, r.pindex = some e ∧
        r.manager.tree.index? e = some index ∧ index.hash = block.getHash hash256) := by
  have hinsert : ∀ state r, insertHeader hash256 m block state true = some r →
      (∀ hash, hash ∈ r.manager.stored ↔ hash ∈ m.stored) ∧
        (r.accepted = true → ∃ e index, r.pindex = some e ∧
          r.manager.tree.index? e = some index ∧ index.hash = block.getHash hash256) := by
    intro state r h
    unfold insertHeader at h
    rw [Bool.not_true, if_neg (by decide)] at h
    obtain ⟨⟨t', best', e⟩, hadd, h⟩ := bind_eq_some_iff.mp h
    cases h
    rcases addToBlockIndex_node hadd with ⟨rfl, he⟩ | ⟨rfl, index, happend, hhash, hdata⟩
    · obtain ⟨index, hindex, hhash⟩ := exists_index?_of_hasHash he
      exact ⟨fun _ => Iff.rfl, fun _ => ⟨e, index, rfl, hindex, hhash⟩⟩
    · exact ⟨stored_appended happend hdata, fun _ => ⟨_, index, rfl, happend.index?_length, hhash⟩⟩
  unfold acceptBlockHeader at h
  dsimp only at h
  split_ifs at h with hgenesis
  · cases hknown : m.tree.lookupBlockIndex (block.getHash hash256) with
    | some e =>
      simp only [hknown] at h
      obtain ⟨index, hindex, h⟩ := bind_eq_some_iff.mp h
      obtain ⟨index', hindex', hhash⟩ :=
        exists_index?_of_hasHash (hasHash_of_lookupBlockIndex hknown)
      have heq : index' = index := Option.some.inj (hindex'.symm.trans hindex)
      split_ifs at h
      · cases h
        exact ⟨fun _ => Iff.rfl, nofun⟩
      · cases h
        exact ⟨fun _ => Iff.rfl, fun _ => ⟨e, index, rfl, hindex, heq ▸ hhash⟩⟩
    | none =>
      simp only [hknown] at h
      obtain ⟨⟨ok, state'⟩, -, h⟩ := bind_eq_some_iff.mp h
      cases ok with
      | false =>
        cases h
        exact ⟨fun _ => Iff.rfl, nofun⟩
      | true => exact hinsert state' r h
  · exact hinsert state r h

/-- What the first section of `process_block` stores: the block that it calls
new, which was not stored before, or nothing.  A block that is accepted and not
new was stored before. -/
inductive Stores (m : ChainstateManager) (hash : Uint256) (r : AcceptedBlock) : Prop
  | new (haccepted : r.accepted = true) (hnew : r.fNewBlock = true) (hnot : hash ∉ m.stored)
      (hstored : ∀ x, x ∈ r.manager.stored ↔ x ∈ m.stored ∨ x = hash)
  | nothing (hnew : r.fNewBlock = false) (hdata : r.accepted = true → hash ∈ m.stored)
      (hstored : ∀ x, x ∈ r.manager.stored ↔ x ∈ m.stored)

theorem mem_stored_received (he : m.tree.index? e = some index) (hash : Uint256) :
    hash ∈ ({ m with tree := receivedBlockTransactions params m.tree e } :
        ChainstateManager).stored ↔
      hash ∈ m.stored ∨ hash = index.hash := by
  rw [mem_stored, mem_stored]
  constructor
  · rintro ⟨i, hi⟩
    rw [haveData_received, map_eq_some_iff] at hi
    obtain ⟨node, hnode, hkey⟩ := hi
    obtain ⟨rfl, hdata⟩ := Prod.mk.inj hkey
    rcases (Bool.or_eq_true _ _).mp hdata with hdata | hei
    · refine Or.inl ⟨i, ?_⟩
      rw [hnode, map_some, dataKey, hdata]
    · rw [← of_decide_eq_true hei, he] at hnode
      cases hnode
      exact Or.inr rfl
  · rintro (⟨i, hi⟩ | rfl)
    · obtain ⟨node, hnode, hkey⟩ := map_eq_some_iff.mp hi
      obtain ⟨rfl, hdata⟩ := Prod.mk.inj hkey
      refine ⟨i, ?_⟩
      rw [haveData_received, hnode, map_some, hdata, Bool.true_or]
    · refine ⟨e, ?_⟩
      rw [haveData_received, he, map_some, decide_eq_true rfl, Bool.or_true]

theorem mem_stored_iff_haveData (he : m.tree.index? e = some index) :
    index.hash ∈ m.stored ↔ index.haveData = true := by
  rw [mem_stored]
  constructor
  · rintro ⟨i, hi⟩
    obtain ⟨node, hnode, hkey⟩ := map_eq_some_iff.mp hi
    obtain ⟨hhash, hdata⟩ := Prod.mk.inj hkey
    -- both nodes have the hash, so they are one node
    have hi' : m.tree.HasHash i index.hash := by
      rw [HasHash, hashes, getElem?_map]
      show (m.tree.index? i).map BlockIndex.hash = _
      rw [hnode, map_some, hhash]
    have he' : m.tree.HasHash e index.hash := by
      rw [HasHash, hashes, getElem?_map]
      show (m.tree.index? e).map BlockIndex.hash = _
      rw [he, map_some]
    rw [hi'.unique he', he] at hnode
    cases hnode
    exact hdata
  · intro hdata
    exact ⟨e, by rw [he, map_some, dataKey, hdata]⟩

/-- The node of an accepted header tells whether the data was stored. -/
theorem haveData_of_acceptBlockHeader {block : BlockHeader} {header : AcceptedHeader}
    (h : acceptBlockHeader hash256 params now m block state true = some header)
    (haccepted : header.accepted = true) (he : header.pindex = some e)
    (hindex : header.manager.tree.index? e = some index) :
    index.hash = block.getHash hash256 ∧
      (block.getHash hash256 ∈ m.stored ↔ index.haveData = true) := by
  obtain ⟨hstored, hnode⟩ := acceptBlockHeader_stored h
  obtain ⟨e', index', he', hindex', hhash⟩ := hnode haccepted
  cases he.symm.trans he'
  cases hindex.symm.trans hindex'
  refine ⟨hhash, ?_⟩
  rw [← hhash, ← hstored, mem_stored_iff_haveData hindex]

theorem acceptBlock_stores (hwrite : env.writeBlock = true)
    (h : acceptBlock hash256 params env m object state = some r) :
    Stores m (object.block.getHash hash256) r := by
  obtain ⟨header, hheader, hcases⟩ := acceptBlock_cases h
  have hstored := (acceptBlockHeader_stored hheader).1
  rcases hcases with ⟨hnew, hm, hyes⟩ | ⟨haccepted, e, index, he, hindex, hdata, hstore⟩
  · refine .nothing hnew (fun hr => ?_) (hm ▸ hstored)
    obtain ⟨haccepted, e, index, he, hindex, hdata⟩ := hyes hr
    exact (haveData_of_acceptBlockHeader hheader haccepted he hindex).2.mpr hdata
  · obtain ⟨hhash, hiff⟩ := haveData_of_acceptBlockHeader hheader haccepted he hindex
    have hnot : object.block.getHash hash256 ∉ m.stored := by
      rw [hiff, hdata]
      exact Bool.false_ne_true
    rcases storeBlock_cases hstore with ⟨haccepted, hnew, state', hm'⟩ | ⟨hno, -⟩ |
      ⟨haccepted, hnew, hm'⟩
    · refine .nothing hnew (fun hyes => ?_) (fun x => ?_)
      · rw [haccepted] at hyes
        cases hyes
      · rw [(sameData_invalidBlockFound hm').mem_stored_iff, hstored]
    · rw [hwrite] at hno
      cases hno
    · refine .new haccepted hnew hnot (fun x => ?_)
      rw [hm', mem_stored_received hindex, hstored, hhash]

/-- The specification of the first section. -/
theorem processNewBlock_stores (hwrite : env.writeBlock = true)
    (h : processNewBlock hash256 params env m object = some r) :
    Stores m (object.block.getHash hash256) r := by
  unfold processNewBlock at h
  generalize runCheckBlock hash256 params object {} = check at h
  obtain ⟨checked, state, cache⟩ := check
  cases checked with
  | false =>
    cases h
    exact .nothing rfl nofun (fun _ => Iff.rfl)
  | true =>
    have haccept : acceptBlock hash256 params env m ⟨object.block, cache⟩ state = some r := h
    have hstores := acceptBlock_stores hwrite haccept
    exact hstores

/-- `process_block_header` stores no block. -/
theorem processBlockHeader_stored {header : BlockHeader} {result : ProcessBlockHeaderResult}
    {books : Books} (h : processBlockHeader hash256 params now books m header = some (result, m'))
    (hash : Uint256) : hash ∈ m'.stored ↔ hash ∈ m.stored := by
  obtain ⟨r, hr, rfl⟩ := exists_acceptBlockHeader h
  exact (acceptBlockHeader_stored hr).1 hash

/-! ## Runs -/

/-- The section meets no system error: the block can be written, and
`ActivateBestChain` succeeds. -/
def Op.NoSystemError : Op → Prop
  | .processBlock _ env => env.writeBlock = true
  | .processBlockReturn _ activated => activated = true
  | _ => True

/-- What holds of a call in every state: it has stored its block and answers
`NewBlock`, or the block was stored before and it answers `Duplicate`, or it is
rejected.  In the last two cases it has stored nothing. -/
inductive CallOk (m : ChainstateManager) (call : Call) : Prop
  | new (hnew : call.newBlock = true) (hstored : call.hash ∈ m.stored)
      (hresult : call.result = none ∨ call.result = some .newBlock)
  | known (hnew : call.newBlock = false) (hadded : call.added = []) (hdata : call.hadData = true)
      (hresult : call.result = none ∨ call.result = some .duplicate)
  | rejected (hnew : call.newBlock = false) (hadded : call.added = [])
      (hresult : call.result = some .rejected)

/-- The invariant of the runs. -/
structure CallsOk (w : World) : Prop where
  each : ∀ call ∈ w.calls, CallOk w.manager call
  /-- Two calls that found their block new had different blocks. -/
  once : ∀ (i j : Nat) (call call' : Call), w.calls[i]? = some call → w.calls[j]? = some call' →
    call.newBlock = true → call'.newBlock = true → call.hash = call'.hash → i = j

theorem callsOk_start (m : ChainstateManager) : CallsOk { manager := m } := ⟨nofun, nofun⟩

theorem CallOk.mono (h : CallOk m call) (hstored : ∀ hash, hash ∈ m.stored → hash ∈ m'.stored) :
    CallOk m' call := by
  cases h with
  | new hnew hmem hresult => exact .new hnew (hstored _ hmem) hresult
  | known hnew hadded hdata hresult => exact .known hnew hadded hdata hresult
  | rejected hnew hadded hresult => exact .rejected hnew hadded hresult

/-- A call that has answered `NewBlock` has found its block new. -/
theorem CallOk.newBlock (h : CallOk m call) (hanswer : call.result = some .newBlock) :
    call.newBlock = true := by
  cases h with
  | new hnew _ _ => exact hnew
  | known _ _ _ hresult =>
    rw [hanswer] at hresult
    rcases hresult with h | h <;> cases h
  | rejected _ _ hresult =>
    rw [hanswer] at hresult
    cases hresult

/-- A section that starts no call and changes no record. -/
theorem CallsOk.frame (h : CallsOk w) (hstored : ∀ hash, hash ∈ w.manager.stored → hash ∈ m'.stored)
    (blocks : List BlockObject) : CallsOk { manager := m', blocks, calls := w.calls } :=
  ⟨fun call hcall => (h.each call hcall).mono hstored, h.once⟩

/-- A section that changes the record of one call. -/
theorem CallsOk.set (h : CallsOk w) {i : Nat} (call' : Call) (hcall : w.calls[i]? = some call)
    (hhash : call'.hash = call.hash) (hnew : call'.newBlock = call.newBlock)
    (hstored : ∀ hash, hash ∈ w.manager.stored → hash ∈ m'.stored) (hok : CallOk m' call')
    (blocks : List BlockObject) :
    CallsOk { manager := m', blocks, calls := w.calls.set i call' } := by
  -- every record afterwards has the hash and the flag of the one before it
  have hold : ∀ (j : Nat) (d : Call), (w.calls.set i call')[j]? = some d →
      ∃ d₀ : Call, w.calls[j]? = some d₀ ∧ d₀.hash = d.hash ∧ d₀.newBlock = d.newBlock := by
    intro j d hd
    rw [getElem?_set] at hd
    split_ifs at hd with hij
    · cases hd
      exact ⟨call, hij ▸ hcall, hhash.symm, hnew.symm⟩
    · exact ⟨d, hd, rfl, rfl⟩
  refine ⟨fun d hd => ?_, fun j k d e hd he hdnew henew hde => ?_⟩
  · rcases mem_or_eq_of_mem_set hd with hd | rfl
    · exact (h.each d hd).mono hstored
    · exact hok
  · obtain ⟨d₀, hd₀, hdhash, hdnew₀⟩ := hold j d hd
    obtain ⟨e₀, he₀, hehash, henew₀⟩ := hold k e he
    apply h.once j k d₀ e₀ hd₀ he₀ (hdnew₀.trans hdnew) (henew₀.trans henew)
    rw [hdhash, hehash, hde]

/-- A section that starts a call. -/
theorem CallsOk.append (h : CallsOk w)
    (hstored : ∀ hash, hash ∈ w.manager.stored → hash ∈ m'.stored) (hok : CallOk m' call)
    (hnot : call.newBlock = true → call.hash ∉ w.manager.stored) (blocks : List BlockObject) :
    CallsOk { manager := m', blocks, calls := w.calls ++ [call] } := by
  have hother : ∀ d ∈ w.calls, d.newBlock = true → call.newBlock = true → d.hash ≠ call.hash := by
    intro d hd hdnew hnew heq
    cases h.each d hd with
    | new _ hmem _ => exact hnot hnew (heq ▸ hmem)
    | known hdnew' => exact absurd (hdnew.symm.trans hdnew') (by decide)
    | rejected hdnew' => exact absurd (hdnew.symm.trans hdnew') (by decide)
  refine ⟨fun d hd => ?_, fun i j d e hd he hdnew henew hde => ?_⟩
  · rcases mem_append.mp hd with hd | hd
    · exact (h.each d hd).mono hstored
    · rw [mem_singleton.mp hd]
      exact hok
  · rcases getElem?_concat_cases hd with hd' | ⟨rfl, rfl⟩ <;>
      rcases getElem?_concat_cases he with he' | ⟨rfl, rfl⟩
    · exact h.once i j d e hd' he' hdnew henew hde
    · exact absurd hde (hother d (mem_of_getElem? hd') hdnew henew)
    · exact absurd hde.symm (hother e (mem_of_getElem? he') henew hdnew)
    · rfl

/-- The record of a call after its first section. -/
theorem callOk_ofSection (h : Stores m hash r) : CallOk r.manager (Call.ofSection m hash r) := by
  cases h with
  | new haccepted hnew hnot hstored =>
    refine .new hnew ((hstored hash).mpr (Or.inr rfl)) (Or.inl ?_)
    show (if r.accepted then _ else _) = none
    rw [if_pos haccepted]
  | nothing hnew hdata hstored =>
    have hadded : storedSince m r.manager = [] := storedSince_eq_nil fun x => (hstored x).mp
    cases haccepted : r.accepted with
    | true =>
      refine .known hnew hadded (decide_eq_true (hdata haccepted)) (Or.inl ?_)
      show (if r.accepted then _ else _) = none
      rw [if_pos haccepted]
    | false =>
      refine .rejected hnew hadded ?_
      show (if r.accepted then _ else _) = some ProcessBlockResult.rejected
      rw [haccepted]
      rfl

/-- The step lemma. -/
theorem CallsOk.step {w' : World} {op : Op} (h : CallsOk w) (hop : op.NoSystemError)
    (hstep : w.step hash256 params op = some w') : CallsOk w' := by
  cases World.step_cases hstep with
  | skip => exact h
  | blockCreate => exact h.frame (fun _ hmem => hmem) _
  | processBlockHeader hheader =>
    exact h.frame (fun hash => (processBlockHeader_stored hheader hash).mpr) _
  | processBlock hobject hr =>
    have hstores := processNewBlock_stores hop hr
    refine h.append ?_ (callOk_ofSection hstores) ?_ _
    · intro hash hmem
      cases hstores with
      | new _ _ _ hstored => exact (hstored hash).mpr (Or.inl hmem)
      | nothing _ _ hstored => exact (hstored hash).mpr hmem
    · intro hnew
      cases hstores with
      | new _ _ hnot _ => exact hnot
      | nothing hnew' _ _ => exact absurd (hnew.symm.trans hnew') (by decide)
  | @activateBestChain i activation call hcall hopen =>
    have hsame : SameData w.manager.tree (activation.apply w.manager).tree :=
      sameData_mapStatus w.manager.tree activation.keepsData
    have hnone : storedSince w.manager (activation.apply w.manager) = [] :=
      storedSince_eq_nil fun hash => (hsame.mem_stored_iff hash).mp
    have hmono : ∀ hash, hash ∈ w.manager.stored → hash ∈ (activation.apply w.manager).stored :=
      fun hash => (hsame.mem_stored_iff hash).mpr
    rw [hnone, append_nil]
    exact h.set call hcall rfl rfl hmono ((h.each call (mem_of_getElem? hcall)).mono hmono) _
  | @processBlockReturn i activated call hcall hopen =>
    have hactivated : activated = true := hop
    apply h.set { call with result := some (processBlockResult activated call.newBlock) } hcall
      rfl rfl (fun _ hmem => hmem)
    cases h.each call (mem_of_getElem? hcall) with
    | new hnew hstored _ =>
      refine .new hnew hstored (Or.inr ?_)
      show some (processBlockResult activated call.newBlock) = _
      rw [hactivated, hnew]
      rfl
    | known hnew hadded hdata _ =>
      refine .known hnew hadded hdata (Or.inr ?_)
      show some (processBlockResult activated call.newBlock) = _
      rw [hactivated, hnew]
      rfl
    | rejected _ _ hresult => exact absurd (hresult.symm.trans hopen) nofun

/-- In every run without system errors, two calls that have answered `NewBlock`
for one hash are one call, a call that has answered `Duplicate` found the data of
its block stored when it began, and a call that has answered `Rejected` has
stored nothing. -/
theorem process_block_new_once (m₀ : ChainstateManager) {ops : List Op}
    (hops : ∀ op ∈ ops, op.NoSystemError) {w : World}
    (hrun : Runs.run (World.step hash256 params) { manager := m₀ } ops = some w) :
    (∀ (i j : Nat) (call call' : Call), w.calls[i]? = some call → w.calls[j]? = some call' →
      call.result = some .newBlock → call'.result = some .newBlock → call.hash = call'.hash →
      i = j) ∧
    ∀ call ∈ w.calls, (call.result = some .duplicate → call.hadData = true) ∧
      (call.result = some .rejected → call.added = []) := by
  have hok : CallsOk w := by
    refine Runs.run_invariant (I := fun pre w => (∀ op ∈ pre, op.NoSystemError) → CallsOk w)
      (fun _ => callsOk_start m₀) ?_ hrun hops
    intro pre op w w' h hstep hpre
    exact (h fun op hop => hpre op (mem_append_left _ hop)).step
      (hpre op (mem_append_right _ (mem_singleton_self op))) hstep
  constructor
  · intro i j call call' hi hj hcall hcall' hhash
    exact hok.once i j call call' hi hj ((hok.each call (mem_of_getElem? hi)).newBlock hcall)
      ((hok.each call' (mem_of_getElem? hj)).newBlock hcall') hhash
  · intro call hcall
    cases hok.each call hcall with
    | new _ _ hresult => rcases hresult with h | h <;> rw [h] <;> exact ⟨nofun, nofun⟩
    | known _ hadded hdata _ => exact ⟨fun _ => hdata, fun _ => hadded⟩
    | rejected _ hadded hresult =>
      rw [hresult]
      exact ⟨nofun, fun _ => hadded⟩

namespace Sample

def coinbase : Transaction where
  version := 1
  vin := [{ prevout := ⟨Uint256.null, OutPoint.nullIndex⟩, scriptSig := [1, 1], nSequence := 0 }]
  vout := [{ nValue := 50, scriptPubKey := [] }]
  nLockTime := 0

/-- A block on top of the genesis block. -/
def block : Block :=
  { child with hashMerkleRoot := coinbase.getHash nonceHash, vtx := [coinbase] }

def surroundings : Surroundings where
  now := 250
  order := []
  writeBlock := true

/-- A section that only sets the tip. -/
def activation (tip : Option EntryPtr) : Activation := ⟨fun _ n => n, fun _ _ => rfl, tip, tip⟩

/-- Two calls with one block.  The second runs between the sections of the
first. -/
def twoCalls : List Op :=
  [.processBlockHeader genesis 150, .blockCreate block, .processBlock 0 surroundings,
    .processBlock 0 surroundings, .activateBestChain 0 (activation none),
    .processBlockReturn 1 true, .processBlockReturn 0 true]

theorem isSome_run_twoCalls :
    (Runs.run (World.step nonceHash easyParams) { manager } twoCalls).isSome = true := by
  decide +kernel

/-- The world after both calls. -/
def worldTwoCalls : World :=
  (Runs.run (World.step nonceHash easyParams) { manager } twoCalls).get isSome_run_twoCalls

theorem run_twoCalls :
    Runs.run (World.step nonceHash easyParams) { manager } twoCalls = some worldTwoCalls :=
  (some_get isSome_run_twoCalls).symm

theorem noSystemError_twoCalls : ∀ op ∈ twoCalls, op.NoSystemError := by
  intro op hop
  simp only [twoCalls, mem_cons, not_mem_nil, or_false] at hop
  rcases hop with rfl | rfl | rfl | rfl | rfl | rfl | rfl
  all_goals first | exact trivial | rfl

end Sample

/-- The first call answers `NewBlock`, the second `Duplicate`. -/
theorem process_block_new_once_sample :
    Sample.worldTwoCalls.calls.map Call.result = [some .newBlock, some .duplicate] ∧
      ∀ (i j : Nat) (call call' : Call), Sample.worldTwoCalls.calls[i]? = some call →
        Sample.worldTwoCalls.calls[j]? = some call' → call.result = some .newBlock →
        call'.result = some .newBlock → call.hash = call'.hash → i = j :=
  ⟨by decide +kernel,
    (process_block_new_once Sample.manager Sample.noSystemError_twoCalls Sample.run_twoCalls).1⟩

end BitcoinKernel.Validation.Chainman
