import BitcoinKernel.Lib.Bytes
import BitcoinKernel.Lib.Runs
import BitcoinKernel.State.BlockIndex

/-!
# Looking up a block by its hash

`BlockHash` of the crate is a struct with one field, a pointer to a `uint256`
that the kernel allocated.  The kernel functions take a `btck_BlockHash*` and
dereference it as a `uint256`.  So there are two addresses for one hash, the
address of the struct and the address in it, and `as_ptr` answers the second.

`ChainstateManager::get_block_tree_entry` does not use `as_ptr`.  It casts
the reference `&BlockHash` itself, so the kernel reads its 32 bytes at the
address of the struct: the eight bytes of the pointer and the 24 bytes that
happen to lie behind it.

`Process` keeps the two levels apart.  It has one byte memory, in which live
the keys of the block index, the kernel objects that the crate owns, and the
structs of the crate.  Every call of the crate that makes a `BlockHash` is an
`Op`.  The allocator and the place of a struct are arguments of the call, and
a call with a place that is not free does not happen (`none`).

`Process.Ok` is the invariant: the keys in memory are the hashes of the tree.
It survives because nobody writes to a range that is in use
(`Free.read_write`).  `getBlockTreeEntry_correct_iff` says when a lookup is
right: the 32 bytes at the struct are the bytes of the hash, or the tree has
neither of the two.
-/

namespace BitcoinKernel.State

open Bytes Runs

/-- An address of the process. -/
abbrev Addr := Nat

/-- `*reinterpret_cast<const uint256*>(ptr)`. -/
def uint256At (m : Memory) (ptr : Addr) : Uint256 := ⟨m.read ptr 32, m.length_read ptr 32⟩

/-- A process that uses the crate. -/
structure Process where
  memory : Memory
  tree : BlockTree := .empty
  bestHeader : Option EntryPtr := none
  /-- Where the keys of the nodes are, in the order of the nodes. -/
  keys : List Addr := []
  /-- The `uint256` objects that the kernel allocated for the crate. -/
  objects : List Addr := []
  /-- Where the live `BlockHash` structs are. -/
  hashes : List Addr := []

namespace Process

/-! ## The crate and the kernel -/

/-- `BlockHash::as_ptr`: the field `inner` of the struct. -/
def asPtr (p : Process) (hash : Addr) : Addr := p.memory.readPointer hash

/-- `BlockHash::to_bytes`. -/
def toBytes (p : Process) (hash : Addr) : Uint256 := uint256At p.memory (p.asPtr hash)

/-- `btck_chainstate_manager_get_block_tree_entry_by_hash`. -/
def getBlockTreeEntryByHash (p : Process) (blockHash : Addr) : Option EntryPtr :=
  p.tree.lookupBlockIndex (uint256At p.memory blockHash)

/-- `ChainstateManager::get_block_tree_entry`.  The pointer that it hands to
the kernel is the address of the struct. -/
def getBlockTreeEntry (p : Process) (hash : Addr) : Option EntryPtr :=
  p.getBlockTreeEntryByHash hash

/-- The ranges of memory that are in use, as start and size. -/
def live (p : Process) : List (Addr × Nat) :=
  p.keys.map (·, 32) ++ p.objects.map (·, 32) ++ p.hashes.map (·, 8)

/-- The two ranges have no byte in common. -/
def Apart (r r' : Addr × Nat) : Prop := r.1 + r.2 ≤ r'.1 ∨ r'.1 + r'.2 ≤ r.1

instance : DecidableRel Apart := fun _ _ => inferInstanceAs (Decidable (_ ∨ _))

/-- A range that the allocator, or the compiler for a local variable, may
hand out. -/
def Free (p : Process) (addr size : Nat) : Prop :=
  0 < addr ∧ addr + size ≤ 2 ^ 64 ∧ ∀ r ∈ p.live, Apart (addr, size) r

instance (p : Process) (addr size : Nat) : Decidable (p.Free addr size) :=
  inferInstanceAs (Decidable (_ ∧ _))

/-- `btck_block_hash_create`, and `btck_block_hash_copy` of a hash with these
bytes, where the allocator answers `inner`. -/
def blockHashCreate (p : Process) (hash : Uint256) (inner : Addr) : Option Process :=
  if p.Free inner 32 then
    some { p with memory := p.memory.write inner hash.bytes, objects := p.objects ++ [inner] }
  else none

/-- The struct `BlockHash { inner }` comes into being at `addr`. -/
def putStruct (p : Process) (inner addr : Addr) : Option Process :=
  if p.Free addr 8 then
    some { p with memory := p.memory.writePointer addr inner, hashes := p.hashes ++ [addr] }
  else none

/-- A fresh `BlockHash` with the given bytes. -/
def makeHash (p : Process) (hash : Uint256) (inner addr : Addr) : Option Process :=
  (p.blockHashCreate hash inner).bind (·.putStruct inner addr)

/-- A new node of the block index puts its key into memory. -/
def putKey (p : Process) (tree : BlockTree) (hash : Uint256) (key : Addr) : Option Process :=
  if hash ∈ p.tree.hashes then some { p with tree }
  else if p.Free key 32 then
    some { p with tree, memory := p.memory.write key hash.bytes, keys := p.keys ++ [key] }
  else none

/-- What a process can do. -/
inductive Op where
  /-- The kernel indexes a header. -/
  | addToBlockIndex (block : BlockHeader) (key : Addr)
  /-- The kernel loads a node from its database. -/
  | insertBlockIndex (hash : Uint256) (key : Addr)
  /-- `BlockHash::new`, and the conversions from byte arrays. -/
  | new (rawBytes : List UInt8) (inner addr : Addr)
  /-- `BlockHash::clone`. -/
  | clone (hash inner addr : Addr)
  /-- `entry.block_hash().to_owned()`. -/
  | entryToOwned (entry : EntryPtr) (inner addr : Addr)
  /-- A `BlockHash` moves to another place. -/
  | move (hash addr : Addr)
  /-- A `BlockHash` goes out of scope. -/
  | drop (hash : Addr)
  /-- Anything else in the process writes to memory that is its own. -/
  | store (addr : Addr) (bytes : List UInt8)

/-- One operation.  `none` is an operation that cannot happen.  A call on a
`BlockHash` or an entry that does not exist changes nothing. -/
def step (getHash : BlockHeader → Uint256) (p : Process) : Op → Option Process
  | .addToBlockIndex block key => do
      let (tree, bestHeader, _) ← p.tree.addToBlockIndex getHash block p.bestHeader
      let p ← p.putKey tree (getHash block) key
      return { p with bestHeader }
  | .insertBlockIndex hash key =>
    if hash.isNull then some p
    else p.putKey (p.tree.insertBlockIndex hash).1 hash key
  | .new rawBytes inner addr =>
    -- a slice of another length is an error
    if h : rawBytes.length = 32 then p.makeHash ⟨rawBytes, h⟩ inner addr else some p
  | .clone hash inner addr =>
    if hash ∈ p.hashes then p.makeHash (p.toBytes hash) inner addr else some p
  | .entryToOwned entry inner addr =>
    match p.keys[entry]? with
    | some key => p.makeHash (uint256At p.memory key) inner addr
    | none => some p
  | .move hash addr =>
    if hash ∈ p.hashes then
      (p.putStruct (p.asPtr hash) addr).map fun q => { q with hashes := q.hashes.erase hash }
    else some p
  | .drop hash =>
    if hash ∈ p.hashes then
      some { p with hashes := p.hashes.erase hash, objects := p.objects.erase (p.asPtr hash) }
    else some p
  | .store addr bytes =>
    if p.Free addr bytes.length then some { p with memory := p.memory.write addr bytes } else none

/-- The process before the first operation. -/
def init (memory : Memory) : Process := { memory }

/-! ## What is in memory -/

variable {p p' : Process} {addr inner : Addr} {bytes : List UInt8} {hash : Uint256}
  {getHash : BlockHeader → Uint256}

/-- A write to a free range is not seen in a range that is in use. -/
theorem Free.read_write (h : p.Free addr bytes.length) {r : Addr × Nat} (hr : r ∈ p.live) :
    (p.memory.write addr bytes).read r.1 r.2 = p.memory.read r.1 r.2 :=
  Memory.read_write_disjoint _ (Or.symm (h.2.2 r hr))

/-- The keys in memory are the hashes of the tree. -/
def Ok (p : Process) : Prop := p.keys.map (uint256At p.memory) = p.tree.hashes

/-- A write to a free range keeps the keys. -/
theorem Free.keys_write (h : p.Free addr bytes.length) :
    p.keys.map (uint256At (p.memory.write addr bytes)) = p.keys.map (uint256At p.memory) := by
  refine List.map_congr_left fun key hkey => Uint256.ext ?_
  have hlive : (key, 32) ∈ p.live := by simp [live, hkey]
  exact h.read_write hlive

theorem uint256At_write (m : Memory) (addr : Addr) (hash : Uint256) :
    uint256At (m.write addr hash.bytes) addr = hash :=
  Uint256.ext (m.read_write_same addr hash.bytes hash.length_eq)

/-- What a call that makes a `BlockHash` does: the struct is there, its bytes
are the given ones, and the keys and the tree are as before. -/
theorem makeHash_spec (h : p.makeHash hash inner addr = some p') :
    p'.toBytes addr = hash ∧ p'.tree = p.tree ∧ p'.keys = p.keys ∧
      p'.keys.map (uint256At p'.memory) = p.keys.map (uint256At p.memory) := by
  obtain ⟨q, hq, hp'⟩ := Option.bind_eq_some_iff.mp h
  rw [blockHashCreate] at hq
  split at hq
  case isFalse => cases hq
  case isTrue hinner =>
    rw [Option.some.injEq] at hq
    rw [putStruct] at hp'
    split at hp'
    case isFalse => cases hp'
    case isTrue haddr =>
      cases hp'
      subst hq
      have hptr : inner < 2 ^ 64 :=
        Nat.lt_of_lt_of_le (Nat.lt_add_of_pos_right (by decide)) hinner.2.1
      rw [← length_encodeLE 8 inner] at haddr
      rw [← hash.length_eq] at hinner
      refine ⟨?_, rfl, rfl, haddr.keys_write.trans hinner.keys_write⟩
      -- the struct was written after the object, to a range apart from it
      rw [toBytes, asPtr, Memory.readPointer_writePointer _ _ hptr]
      refine Uint256.ext (Eq.trans ?_
        (congrArg Uint256.bytes (uint256At_write p.memory inner hash)))
      exact haddr.read_write (r := (inner, 32)) (by simp [live])

theorem ok_makeHash (hok : p.Ok) (h : p.makeHash hash inner addr = some p') : p'.Ok := by
  obtain ⟨-, htree, -, hkeys⟩ := makeHash_spec h
  rw [Ok, hkeys, htree]
  exact hok

/-- An insertion into the block index keeps the keys and the tree in step. -/
theorem ok_putKey (hok : p.Ok) {tree : BlockTree} {key : Addr}
    (htree : tree.hashes = BlockTree.withHash p.tree.hashes hash)
    (h : p.putKey tree hash key = some p') : p'.Ok := by
  rw [BlockTree.withHash] at htree
  rw [putKey] at h
  split at h
  case isTrue hmem =>
    cases h
    rw [if_pos hmem] at htree
    exact hok.trans htree.symm
  case isFalse hmem =>
    rw [if_neg hmem] at htree
    split at h
    case isFalse => cases h
    case isTrue hfree =>
      cases h
      rw [← hash.length_eq] at hfree
      rw [Ok, List.map_append, hfree.keys_write, hok, htree, List.map_singleton, uint256At_write]

theorem ok_putStruct (hok : p.Ok) (h : p.putStruct inner addr = some p') : p'.Ok := by
  rw [putStruct] at h
  split at h
  case isFalse => cases h
  case isTrue hfree =>
    cases h
    rw [← length_encodeLE 8 inner] at hfree
    exact hfree.keys_write.trans hok

/-- Every operation keeps the keys in memory. -/
theorem ok_step (hok : p.Ok) {op : Op} (h : p.step getHash op = some p') : p'.Ok := by
  cases op with
  | addToBlockIndex block key =>
    obtain ⟨⟨tree, bestHeader, e⟩, htree, h⟩ := Option.bind_eq_some_iff.mp h
    obtain ⟨q, hq, h⟩ := Option.bind_eq_some_iff.mp h
    have hokq : q.Ok := ok_putKey hok (BlockTree.hashes_addToBlockIndex htree) hq
    rw [Option.pure_def, Option.some.injEq] at h
    exact h ▸ hokq
  | insertBlockIndex hash key =>
    rw [step] at h
    split at h
    case isTrue => exact Option.some.inj h ▸ hok
    case isFalse hnull =>
      refine ok_putKey hok ?_ h
      rw [BlockTree.hashes_insertBlockIndex, if_neg hnull]
  | new rawBytes inner addr =>
    rw [step] at h
    split at h
    case isTrue => exact ok_makeHash hok h
    case isFalse => exact Option.some.inj h ▸ hok
  | clone hash inner addr =>
    rw [step] at h
    split at h
    case isTrue => exact ok_makeHash hok h
    case isFalse => exact Option.some.inj h ▸ hok
  | entryToOwned entry inner addr =>
    rw [step] at h
    split at h
    · exact ok_makeHash hok h
    · exact Option.some.inj h ▸ hok
  | move hash addr =>
    rw [step] at h
    split at h
    case isTrue =>
      obtain ⟨q, hq, rfl⟩ := Option.map_eq_some_iff.mp h
      have hokq : q.Ok := ok_putStruct hok hq
      exact hokq
    case isFalse => exact Option.some.inj h ▸ hok
  | drop hash =>
    rw [step] at h
    split at h
    case isTrue => exact Option.some.inj h ▸ hok
    case isFalse => exact Option.some.inj h ▸ hok
  | store addr bytes =>
    rw [step] at h
    split at h
    case isTrue hfree =>
      cases h
      exact hfree.keys_write.trans hok
    case isFalse => cases h

theorem ok_of_run {memory : Memory} {ops : List Op}
    (h : run (step getHash) (init memory) ops = some p) : p.Ok :=
  run_invariant (I := fun _ p => p.Ok) rfl (fun _ _ _ _ hok hstep => ok_step hok hstep) h

/-! ## Lookups -/

/-- A lookup by the `BlockHash` at `hash` is right: it answers an entry
exactly when the tree has one with the bytes of the hash, and it answers that
entry. -/
def LookupCorrect (p : Process) (hash : Addr) : Prop :=
  ∀ e, p.getBlockTreeEntry hash = some e ↔ p.tree.HasHash e (p.toBytes hash)

/-- The bytes of the hash are the bytes that lie at the struct: those of its
own pointer and the 24 behind it. -/
def BytesAtStruct (p : Process) (hash : Addr) : Prop :=
  (p.toBytes hash).bytes = encodeLE 8 (p.asPtr hash) ++ p.memory.read (hash + 8) 24

theorem bytesAtStruct_iff {hash : Addr} :
    p.BytesAtStruct hash ↔ uint256At p.memory hash = p.toBytes hash := by
  rw [BytesAtStruct, asPtr, ← Memory.read_at_pointer, eq_comm]
  exact ⟨fun h => Uint256.ext h, fun h => congrArg Uint256.bytes h⟩

theorem lookupCorrect_iff_lookup_eq {hash : Addr} : p.LookupCorrect hash ↔
      p.tree.lookupBlockIndex (uint256At p.memory hash) =
        p.tree.lookupBlockIndex (p.toBytes hash) := by
  simp only [LookupCorrect, ← BlockTree.lookupBlockIndex_eq_some_iff, getBlockTreeEntry,
    getBlockTreeEntryByHash]
  exact ⟨fun h => Option.ext h, fun h e => by rw [h]⟩

/-- When lookups are right, in every process that any operations can reach.
A lookup by a `BlockHash` is right exactly when the bytes at its struct
happen to be the bytes of the hash, or when the tree knows neither of the
two.  A lookup by a copy of the hash of an entry answers that entry exactly
in the first case. -/
theorem getBlockTreeEntry_correct_iff {getHash : BlockHeader → Uint256} {memory : Memory}
    {ops : List Op} {p : Process} (hrun : run (step getHash) (init memory) ops = some p) :
    (∀ hash ∈ p.hashes, p.LookupCorrect hash ↔ p.BytesAtStruct hash ∨
      (p.toBytes hash ∉ p.tree.hashes ∧ uint256At p.memory hash ∉ p.tree.hashes)) ∧
    (∀ e inner addr p', e < p.tree.hashes.length →
      p.step getHash (.entryToOwned e inner addr) = some p' →
      (p'.getBlockTreeEntry addr = some e ↔ p'.BytesAtStruct addr)) := by
  constructor
  · intro hash _
    rw [lookupCorrect_iff_lookup_eq, BlockTree.lookupBlockIndex_eq_iff, bytesAtStruct_iff]
    exact or_congr_right and_comm
  · intro e inner addr p' he hstep
    have hok : p.keys.map (uint256At p.memory) = p.tree.hashes := ok_of_run hrun
    have hlt : e < p.keys.length := by
      rw [← hok, List.length_map] at he
      exact he
    have hentry : p.tree.HasHash e (uint256At p.memory p.keys[e]) := by
      rw [BlockTree.HasHash, ← hok, List.getElem?_map, List.getElem?_eq_getElem hlt,
        Option.map_some]
    rw [step, List.getElem?_eq_getElem hlt] at hstep
    obtain ⟨hbytes, htree, -, -⟩ := makeHash_spec hstep
    rw [bytesAtStruct_iff, hbytes, getBlockTreeEntry, getBlockTreeEntryByHash,
      BlockTree.lookupBlockIndex_eq_some_iff, htree]
    constructor
    · intro h
      exact Option.some.inj (h.symm.trans hentry)
    · intro h
      rw [h]
      exact hentry

/-- A header for concrete runs, in which the merkle root stands for the block
hash. -/
def sampleHeader : BlockHeader where
  nVersion := 1
  hashPrevBlock := Uint256.null
  hashMerkleRoot := Uint256.filled 7
  nTime := 0
  nBits := 0x207fffff
  nNonce := 0

/-- A hash that is not in the tree is not found, as long as the bytes at its
struct are not in the tree either. -/
theorem lookupCorrect_unknown_hash : ∃ p, run (step BlockHeader.hashMerkleRoot) (init fun _ => 0)
        [.addToBlockIndex sampleHeader 4096, .new (List.replicate 32 5) 8192 12288] = some p ∧
      12288 ∈ p.hashes ∧ p.LookupCorrect 12288 := by
  have hrun : ((run (step BlockHeader.hashMerkleRoot) (init fun _ => 0)
      [.addToBlockIndex sampleHeader 4096, .new (List.replicate 32 5) 8192 12288]).map
        fun p => decide (12288 ∈ p.hashes ∧ p.toBytes 12288 ∉ p.tree.hashes ∧
          uint256At p.memory 12288 ∉ p.tree.hashes)) = some true := by decide +kernel
  obtain ⟨p, hp, hdec⟩ := Option.map_eq_some_iff.mp hrun
  obtain ⟨hmem, hbytes, hstruct⟩ := of_decide_eq_true hdec
  refine ⟨p, hp, hmem, ?_⟩
  exact ((getBlockTreeEntry_correct_iff hp).1 12288 hmem).mpr (Or.inr ⟨hbytes, hstruct⟩)

/-- A copy of the hash of the only entry of the tree is not found. -/
theorem not_lookupCorrect_entryToOwned :
    ∃ p, run (step BlockHeader.hashMerkleRoot) (init fun _ => 0)
        [.addToBlockIndex sampleHeader 4096, .entryToOwned 0 8192 12288] = some p ∧
      12288 ∈ p.hashes ∧ p.tree.HasHash 0 (p.toBytes 12288) ∧
      p.getBlockTreeEntry 12288 = none ∧ ¬ p.LookupCorrect 12288 := by
  have hrun : ((run (step BlockHeader.hashMerkleRoot) (init fun _ => 0)
      [.addToBlockIndex sampleHeader 4096, .entryToOwned 0 8192 12288]).map
        fun p => decide (12288 ∈ p.hashes ∧ p.tree.HasHash 0 (p.toBytes 12288) ∧
          p.getBlockTreeEntry 12288 = none)) = some true := by decide +kernel
  obtain ⟨p, hp, hdec⟩ := Option.map_eq_some_iff.mp hrun
  obtain ⟨hmem, hhash, hnone⟩ := of_decide_eq_true hdec
  refine ⟨p, hp, hmem, hhash, hnone, fun hcorrect => ?_⟩
  rw [(hcorrect 0).mpr hhash] at hnone
  cases hnone

end Process

end BitcoinKernel.State
