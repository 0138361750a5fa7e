import Mathlib.Data.List.Nodup
import BitcoinKernel.Primitives.Types

/-!
# The block index

`BlockManager::m_block_index` is a hash map from block hashes to
`CBlockIndex` nodes.  Nodes never move, and the rest of the kernel holds
pointers to them.  The model keeps the nodes in the order in which they were
inserted and names a node by its position, so a pointer is an `EntryPtr`.
`BlockTree` carries the proof that no hash has two nodes.

* `BlockTree.lookupBlockIndex` is `LookupBlockIndex`, and
  `BlockTree.lookupBlockIndex_eq_some_iff` is its specification.
* `BlockTree.getAncestor` is the skip-list search of `CBlockIndex`.
* `BlockTree.addToBlockIndex` is `AddToBlockIndex`, which links a new header
  to its parent, and `BlockTree.insertBlockIndex` is the bare insertion that
  the loader of the block database uses.

`none` is a failed `assert`.  The block hash is a function of the header that
the model takes as a parameter.
-/

namespace BitcoinKernel.State

open List

/-- A pointer to a `CBlockIndex` of the block index. -/
abbrev EntryPtr := Nat

/-- `BLOCK_VALID_TREE` and the masks of `nStatus` (`enum BlockStatus`). -/
def blockValidTree : Nat := 2

def blockValidMask : Nat := 1 ||| 2 ||| 3 ||| 4 ||| 5

def blockFailedValid : Nat := 32

/-- `BLOCK_VALID_TRANSACTIONS`. -/
def blockValidTransactions : Nat := 3

/-- `BLOCK_HAVE_DATA`. -/
def blockHaveData : Nat := 8

/-- `BLOCK_OPT_WITNESS`. -/
def blockOptWitness : Nat := 128

/-- `CBlockIndex`.  `hash` is `*phashBlock`. -/
structure BlockIndex where
  hash : Uint256
  pprev : Option EntryPtr := none
  pskip : Option EntryPtr := none
  nHeight : Nat := 0
  nChainWork : Nat := 0
  nStatus : Nat := 0
  nVersion : Int32 := 0
  hashMerkleRoot : Uint256 := Uint256.null
  nTime : UInt32 := 0
  nBits : UInt32 := 0
  nNonce : UInt32 := 0
  nSequenceId : Int := 1
  nTimeMax : UInt32 := 0
deriving DecidableEq, Repr

namespace BlockIndex

/-- The constructor `CBlockIndex(const CBlockHeader&)`. -/
def ofHeader (hash : Uint256) (block : BlockHeader) : BlockIndex where
  hash
  nVersion := block.nVersion
  hashMerkleRoot := block.hashMerkleRoot
  nTime := block.nTime
  nBits := block.nBits
  nNonce := block.nNonce

/-- `nStatus & BLOCK_FAILED_VALID`. -/
def failedValid (index : BlockIndex) : Bool := index.nStatus &&& blockFailedValid != 0

/-- `nStatus & BLOCK_HAVE_DATA`. -/
def haveData (index : BlockIndex) : Bool := index.nStatus &&& blockHaveData != 0

/-- `GetBlockHeader`, with the hash of the previous node. -/
def getBlockHeader (index : BlockIndex) (hashPrevBlock : Uint256) : BlockHeader where
  nVersion := index.nVersion
  hashPrevBlock
  hashMerkleRoot := index.hashMerkleRoot
  nTime := index.nTime
  nBits := index.nBits
  nNonce := index.nNonce

/-- `RaiseValidity`, for a level that passes its assertion. -/
def raiseValidity (index : BlockIndex) (upTo : Nat) : BlockIndex :=
  if index.nStatus &&& blockFailedValid ≠ 0 then index
  else if index.nStatus &&& blockValidMask < upTo then
    { index with nStatus := (index.nStatus - (index.nStatus &&& blockValidMask)) ||| upTo }
  else index

end BlockIndex

/-! ## Work -/

/-- `arith_uint256::SetCompact`: the target, and whether it is negative or
overflows. -/
def setCompact (nCompact : Nat) : Nat × Bool × Bool :=
  let nSize := nCompact >>> 24
  let nWord₀ := nCompact &&& 0x007fffff
  let nWord := if nSize ≤ 3 then nWord₀ >>> (8 * (3 - nSize)) else nWord₀
  let target := if nSize ≤ 3 then nWord else (nWord <<< (8 * (nSize - 3))) % 2 ^ 256
  (target, nWord != 0 && (nCompact &&& 0x00800000) != 0,
    nWord != 0 && (nSize > 34 || (nWord > 0xff && nSize > 33) || (nWord > 0xffff && nSize > 32)))

/-- `GetBitsProof`. -/
def getBitsProof (bits : UInt32) : Nat :=
  let (target, negative, overflow) := setCompact bits.toNat
  if negative || overflow || target == 0 then 0
  else (2 ^ 256 - 1 - target) / (target + 1) + 1

/-! ## The map -/

/-- `BlockMap`: one node for each hash. -/
structure BlockTree where
  entries : List BlockIndex
  nodup : (entries.map BlockIndex.hash).Nodup

namespace BlockTree

/-- The empty block index. -/
def empty : BlockTree := ⟨[], nodup_nil⟩

/-- The node behind a pointer. -/
def index? (t : BlockTree) (e : EntryPtr) : Option BlockIndex := t.entries[e]?

/-- The hashes of the nodes. -/
def hashes (t : BlockTree) : List Uint256 := t.entries.map BlockIndex.hash

/-- The node `e` is in the tree and has the hash `hash`. -/
def HasHash (t : BlockTree) (e : EntryPtr) (hash : Uint256) : Prop := t.hashes[e]? = some hash

instance (t : BlockTree) (e : EntryPtr) (hash : Uint256) : Decidable (t.HasHash e hash) :=
  inferInstanceAs (Decidable (_ = _))

/-- `LookupBlockIndex`. -/
def lookupBlockIndex (t : BlockTree) (hash : Uint256) : Option EntryPtr :=
  t.entries.findIdx? (·.hash == hash)

variable {t t' : BlockTree} {e : EntryPtr} {hash : Uint256} {f : BlockIndex → BlockIndex}
  {getHash : BlockHeader → Uint256} {block : BlockHeader} {best best' : Option EntryPtr}

/-- Two nodes with one hash are the same node. -/
theorem HasHash.unique {e' : EntryPtr} (h : t.HasHash e hash) (h' : t.HasHash e' hash) :
    e = e' := by
  obtain ⟨he, heq⟩ := List.getElem?_eq_some_iff.mp h
  obtain ⟨he', heq'⟩ := List.getElem?_eq_some_iff.mp h'
  exact t.nodup.getElem_inj_iff.mp (heq.trans heq'.symm)

theorem hasHash_of_lookupBlockIndex (h : t.lookupBlockIndex hash = some e) : t.HasHash e hash := by
  obtain ⟨hlt, heq, -⟩ := findIdx?_eq_some_iff_getElem.mp h
  rw [HasHash, hashes, getElem?_map, getElem?_eq_getElem hlt, Option.map_some]
  exact congrArg some (by simpa using heq)

theorem lookupBlockIndex_eq_none_iff : t.lookupBlockIndex hash = none ↔ hash ∉ t.hashes := by
  simp only [lookupBlockIndex, hashes, findIdx?_eq_none_iff, mem_map, beq_eq_false_iff_ne,
    not_exists, not_and, ne_eq]

/-- A lookup finds the node with the given hash, if there is one. -/
theorem lookupBlockIndex_eq_some_iff : t.lookupBlockIndex hash = some e ↔ t.HasHash e hash := by
  refine ⟨hasHash_of_lookupBlockIndex, fun h => ?_⟩
  cases hfind : t.lookupBlockIndex hash with
  | some e' => rw [(hasHash_of_lookupBlockIndex hfind).unique h]
  | none => exact absurd (mem_of_getElem? h) (lookupBlockIndex_eq_none_iff.mp hfind)

/-- Two lookups agree exactly when they look for the same hash or both find
nothing. -/
theorem lookupBlockIndex_eq_iff {hash' : Uint256} :
    t.lookupBlockIndex hash = t.lookupBlockIndex hash' ↔
      hash = hash' ∨ (hash ∉ t.hashes ∧ hash' ∉ t.hashes) := by
  rw [← lookupBlockIndex_eq_none_iff, ← lookupBlockIndex_eq_none_iff]
  constructor
  · intro h
    cases hfind : t.lookupBlockIndex hash with
    | none => exact Or.inr ⟨rfl, h ▸ hfind⟩
    | some e =>
      have he := hasHash_of_lookupBlockIndex hfind
      have he' := hasHash_of_lookupBlockIndex (h ▸ hfind)
      exact Or.inl (Option.some.inj (he.symm.trans he'))
  · rintro (rfl | ⟨h, h'⟩)
    · rfl
    · rw [h, h']

/-- Insertion of a node whose hash is new. -/
def push (t : BlockTree) (index : BlockIndex) (h : t.lookupBlockIndex index.hash = none) :
    BlockTree where
  entries := t.entries ++ [index]
  nodup := by
    have hnew : index.hash ∉ t.entries.map BlockIndex.hash := lookupBlockIndex_eq_none_iff.mp h
    rw [map_append, map_singleton, ← concat_eq_append]
    exact t.nodup.concat hnew

theorem hashes_push {index : BlockIndex} (h : t.lookupBlockIndex index.hash = none) :
    (t.push index h).hashes = t.hashes ++ [index.hash] := by
  simp [hashes, push]

/-- `try_emplace`: the node with this hash, and whether it was inserted. -/
def tryEmplace (t : BlockTree) (index : BlockIndex) : BlockTree × EntryPtr × Bool :=
  match h : t.lookupBlockIndex index.hash with
  | some e => (t, e, false)
  | none => (t.push index h, t.entries.length, true)

/-- The two outcomes of `try_emplace`. -/
theorem tryEmplace_cases (t : BlockTree) (index : BlockIndex) :
    (∃ e, t.HasHash e index.hash ∧ t.tryEmplace index = (t, e, false)) ∨
      ∃ h, t.tryEmplace index = (t.push index h, t.entries.length, true) := by
  unfold tryEmplace
  split
  · rename_i e he
    exact Or.inl ⟨e, hasHash_of_lookupBlockIndex he, rfl⟩
  · rename_i hnone
    exact Or.inr ⟨hnone, rfl⟩

private theorem map_hash_modify (entries : List BlockIndex) (e : EntryPtr)
    (hf : ∀ index, (f index).hash = index.hash) :
    (entries.modify e f).map BlockIndex.hash = entries.map BlockIndex.hash := by
  refine ext_getElem? fun i => ?_
  rw [getElem?_map, getElem?_map, getElem?_modify]
  cases entries[i]? with
  | none => rfl
  | some index =>
    by_cases hi : e = i
    · simp [hi, hf]
    · simp [hi]

/-- An update of the fields of one node. -/
def modify (t : BlockTree) (e : EntryPtr) (f : BlockIndex → BlockIndex)
    (hf : ∀ index, (f index).hash = index.hash) : BlockTree where
  entries := t.entries.modify e f
  nodup := by
    rw [map_hash_modify t.entries e hf]
    exact t.nodup

theorem hashes_modify (t : BlockTree) (e : EntryPtr) (hf : ∀ index, (f index).hash = index.hash) :
    (t.modify e f hf).hashes = t.hashes :=
  map_hash_modify t.entries e hf

/-! ## The skip list -/

/-- `InvertLowestOne`. -/
def invertLowestOne (n : Nat) : Nat := n &&& (n - 1)

/-- `GetSkipHeight`. -/
def getSkipHeight (height : Nat) : Nat :=
  if height < 2 then 0
  else if height &&& 1 ≠ 0 then invertLowestOne (invertLowestOne (height - 1)) + 1
  else invertLowestOne height

/-- One turn of the loop of `GetAncestor`: the next node and its height.
`none` is the failed assertion that there is a previous node. -/
def walkStep (index : BlockIndex) (height heightWalk : Nat) : Option (EntryPtr × Nat) :=
  let heightSkip := getSkipHeight heightWalk
  let heightSkipPrev := getSkipHeight (heightWalk - 1)
  match index.pskip with
  | some pskip =>
    -- Only follow pskip if pprev->pskip isn't better than pskip->pprev.
    if heightSkip = height ∨ (heightSkip > height ∧
        ¬ ((heightSkipPrev : Int) < (heightSkip : Int) - 2 ∧ heightSkipPrev ≥ height)) then
      some (pskip, heightSkip)
    else index.pprev.map (·, heightWalk - 1)
  | none => index.pprev.map (·, heightWalk - 1)

/-- The loop of `GetAncestor`.  Every turn lowers `heightWalk`, so the fuel
`heightWalk - height` is enough. -/
def getAncestorLoop (t : BlockTree) (height : Nat) : Nat → EntryPtr → Nat → Option EntryPtr
  | 0, walk, heightWalk => if heightWalk > height then none else some walk
  | fuel + 1, walk, heightWalk =>
    if heightWalk > height then do
      let index ← t.index? walk
      let (next, heightNext) ← walkStep index height heightWalk
      getAncestorLoop t height fuel next heightNext
    else some walk

/-- `CBlockIndex::GetAncestor`.  The inner `none` is the null pointer. -/
def getAncestor (t : BlockTree) (e : EntryPtr) (height : Int) : Option (Option EntryPtr) := do
  let index ← t.index? e
  if height > index.nHeight ∨ height < 0 then return none
  let found ← t.getAncestorLoop height.toNat (index.nHeight - height.toNat) e index.nHeight
  return some found

/-! ## Growing the tree -/

/-- The links of a new node: `pprev`, `nHeight`, `pskip`, `nTimeMax` and
`nChainWork`.  The map already holds the new node when the previous hash is
looked up. -/
def linkToPrev (t : BlockTree) (block : BlockHeader) (index : BlockIndex) : Option BlockIndex :=
  match t.lookupBlockIndex block.hashPrevBlock with
  | none =>
    some { index with
      nTimeMax := index.nTime
      nChainWork := getBitsProof index.nBits % 2 ^ 256 }
  | some prev => do
      let pprev ← t.index? prev
      let nHeight := pprev.nHeight + 1
      let pskip ← t.getAncestor prev (getSkipHeight nHeight)
      return { index with
        pprev := some prev
        nHeight
        pskip
        nTimeMax := max pprev.nTimeMax index.nTime
        nChainWork := (pprev.nChainWork + getBitsProof index.nBits) % 2 ^ 256 }

/-- The last lines of `AddToBlockIndex` on `best_header`. -/
def raiseBestHeader (t : BlockTree) (best : Option EntryPtr) (e : EntryPtr) : Option EntryPtr :=
  match best.bind t.index?, t.index? e with
  | some bestIndex, some index => if bestIndex.nChainWork < index.nChainWork then some e else best
  | _, _ => some e

/-- `AddToBlockIndex`: the tree, the best header and the node of the header. -/
def addToBlockIndex (getHash : BlockHeader → Uint256) (t : BlockTree) (block : BlockHeader)
    (best : Option EntryPtr) : Option (BlockTree × Option EntryPtr × EntryPtr) := do
  let (t, e, inserted) := t.tryEmplace (BlockIndex.ofHeader (getHash block) block)
  if !inserted then return (t, best, e)
  let index ← t.index? e
  let linked ← t.linkToPrev block index
  let t := t.modify e (fun old => { linked.raiseValidity blockValidTree with hash := old.hash })
    (fun _ => rfl)
  return (t, t.raiseBestHeader best e, e)

/-- `InsertBlockIndex`.  The null hash has no node. -/
def insertBlockIndex (t : BlockTree) (hash : Uint256) : BlockTree × Option EntryPtr :=
  if hash.isNull then (t, none)
  else
    let (t, e, _) := t.tryEmplace { hash }
    (t, some e)

/-- The hashes after an insertion. -/
def withHash (hashes : List Uint256) (hash : Uint256) : List Uint256 :=
  if hash ∈ hashes then hashes else hashes ++ [hash]

theorem hashes_tryEmplace (t : BlockTree) (index : BlockIndex) :
    (t.tryEmplace index).1.hashes = withHash t.hashes index.hash := by
  rcases t.tryEmplace_cases index with ⟨e, he, h⟩ | ⟨hnone, h⟩
  · rw [h, withHash, if_pos (mem_of_getElem? he)]
  · rw [h, withHash, if_neg (lookupBlockIndex_eq_none_iff.mp hnone), hashes_push]

/-- `AddToBlockIndex` adds the hash of the header, and no other. -/
theorem hashes_addToBlockIndex (h : t.addToBlockIndex getHash block best = some (t', best', e)) :
    t'.hashes = withHash t.hashes (getHash block) := by
  have hhash := t.hashes_tryEmplace (BlockIndex.ofHeader (getHash block) block)
  unfold addToBlockIndex at h
  generalize t.tryEmplace (BlockIndex.ofHeader (getHash block) block) = r at h hhash
  obtain ⟨t₁, e₁, inserted⟩ := r
  cases inserted with
  | false =>
    simp only [Bool.not_false, if_true, Option.pure_def, Option.some.injEq, Prod.mk.injEq] at h
    rw [← h.1]
    exact hhash
  | true =>
    simp only [Bool.not_true, Bool.false_eq_true, if_false, Option.pure_def, Option.bind_eq_bind,
      Option.bind_eq_some_iff, Option.some.injEq, Prod.mk.injEq] at h
    obtain ⟨_, -, _, -, ht, -⟩ := h
    rw [← ht, hashes_modify]
    exact hhash

theorem modify_last (entries : List BlockIndex) (index : BlockIndex) (f : BlockIndex → BlockIndex) :
    (entries ++ [index]).modify entries.length f = entries ++ [f index] := by
  induction entries with
  | nil => rfl
  | cons first entries ih =>
    rw [cons_append, length_cons, modify_succ_cons, ih, cons_append]

theorem raiseValidity_pprev (index : BlockIndex) (upTo : Nat) :
    (index.raiseValidity upTo).pprev = index.pprev ∧
      (index.raiseValidity upTo).nHeight = index.nHeight := by
  unfold BlockIndex.raiseValidity
  split
  · exact ⟨rfl, rfl⟩
  · split <;> exact ⟨rfl, rfl⟩

/-- The links of a new node: none when its previous hash is unknown, and else
to a node that is one lower. -/
theorem linkToPrev_spec {index index' : BlockIndex} (h : t.linkToPrev block index = some index') :
    (index'.pprev = index.pprev ∧ index'.nHeight = index.nHeight) ∨
      ∃ prev pprev, t.HasHash prev block.hashPrevBlock ∧ t.index? prev = some pprev ∧
        index'.pprev = some prev ∧ index'.nHeight = pprev.nHeight + 1 := by
  unfold linkToPrev at h
  split at h
  · rw [Option.some.injEq] at h
    exact Or.inl (h ▸ ⟨rfl, rfl⟩)
  · rename_i prev hprev
    obtain ⟨pprev, hpprev, h⟩ := Option.bind_eq_some_iff.mp h
    obtain ⟨pskip, -, h⟩ := Option.bind_eq_some_iff.mp h
    rw [Option.pure_def, Option.some.injEq] at h
    exact Or.inr ⟨prev, pprev, hasHash_of_lookupBlockIndex hprev, hpprev, h ▸ ⟨rfl, rfl⟩⟩

/-- The node that `AddToBlockIndex` appends. -/
theorem addToBlockIndex_cases (hself : getHash block ≠ block.hashPrevBlock)
    (h : t.addToBlockIndex getHash block best = some (t', best', e)) :
    t' = t ∨ ∃ index, t'.entries = t.entries ++ [index] ∧
      ((index.pprev = none ∧ index.nHeight = 0) ∨
        ∃ prev pprev, t.index? prev = some pprev ∧ index.pprev = some prev ∧
          index.nHeight = pprev.nHeight + 1) := by
  unfold addToBlockIndex at h
  rcases t.tryEmplace_cases (BlockIndex.ofHeader (getHash block) block) with
    ⟨e₁, -, hput⟩ | ⟨hnew, hput⟩
  · rw [hput] at h
    simp only [Bool.not_false, if_true, Option.pure_def, Option.some.injEq, Prod.mk.injEq] at h
    exact Or.inl h.1.symm
  · rw [hput] at h
    simp only [Bool.not_true, Bool.false_eq_true, if_false, Option.pure_def, Option.bind_eq_bind,
      Option.bind_eq_some_iff, Option.some.injEq, Prod.mk.injEq] at h
    obtain ⟨index, hindex, linked, hlinked, rfl, -, -⟩ := h
    obtain rfl : index = BlockIndex.ofHeader (getHash block) block := by
      simpa [index?, push] using hindex.symm
    obtain ⟨hpprev, hheight⟩ := raiseValidity_pprev linked blockValidTree
    refine Or.inr ⟨_, modify_last _ _ _, ?_⟩
    rcases linkToPrev_spec hlinked with ⟨hp, hh⟩ | ⟨prev, pprev, hprev, hp, hlink, hh⟩
    · exact Or.inl ⟨hpprev.trans hp, hheight.trans hh⟩
    · refine Or.inr ⟨prev, pprev, ?_, hpprev.trans hlink, hheight.trans hh⟩
      -- the parent is not the new node, whose hash is another one
      have hne : prev ≠ t.entries.length := by
        rintro rfl
        rw [HasHash, hashes_push, ← length_map BlockIndex.hash, ← hashes,
          getElem?_concat_length, Option.some.injEq] at hprev
        exact hself hprev
      have hlt := (List.getElem?_eq_some_iff.mp hp).1
      rw [push, length_append, length_singleton] at hlt
      have hlt' : prev < t.entries.length := Nat.lt_of_le_of_ne (Nat.le_of_lt_succ hlt) hne
      rw [index?, push, getElem?_append_left hlt'] at hp
      exact hp

/-- `InsertBlockIndex` adds the hash unless it is null. -/
theorem hashes_insertBlockIndex (t : BlockTree) (hash : Uint256) :
    (t.insertBlockIndex hash).1.hashes =
      if hash.isNull then t.hashes else withHash t.hashes hash := by
  unfold insertBlockIndex
  split
  · rfl
  · exact t.hashes_tryEmplace { hash }

end BlockTree

end BitcoinKernel.State
