import BitcoinKernel.State.BlockIndex

/-!
# The skip list never runs into a null pointer

`CBlockIndex::GetAncestor` asserts that a node above the height it looks for
has a previous node, and `AddToBlockIndex` calls it for each new node.  This
module proves that the assertion holds on every tree that `AddToBlockIndex`
has grown.

There are three groups.

* The search.  `SkipLinked` says that the pointers of a node lead to nodes of
  the heights that the search counts with.  `walkStep_spec` is one turn of the
  loop, `getAncestorLoop_spec` the whole loop, and `getAncestor_spec` the
  result.
* Larger trees.  A search that succeeds in a tree has the same result in every
  tree that extends it (`getAncestor_mono`).
* The growth.  `addToBlockIndex_spec` says that `AddToBlockIndex` returns, what
  it appends, and that the tree is `SkipLinked` again.

A header whose previous hash is its own hash would become its own parent.  The
source lets only the genesis hash get that far.  Such a node has height 1, and
the search counts it as height 0 when it comes from itself, which is the
second case of `AtHeight`.
-/

namespace BitcoinKernel.State.BlockTree

open List Option

/-! ## The search -/

/-- The search may stand at the node and count the height. -/
def AtHeight (t : BlockTree) (e : EntryPtr) (height : Nat) : Prop :=
  ∃ index, t.index? e = some index ∧ (index.nHeight = height ∨ (height = 0 ∧ index.pprev = some e))

variable {t t' : BlockTree} {e : EntryPtr} {height : Nat} {block : BlockHeader} {hash : Uint256}
  {node : BlockIndex}

/-- Above height 0 the search counts the height of the node. -/
theorem AtHeight.exists_index (h : t.AtHeight e height) (hpos : 0 < height) :
    ∃ index, t.index? e = some index ∧ index.nHeight = height := by
  obtain ⟨index, hindex, heq | ⟨hzero, -⟩⟩ := h
  · exact ⟨index, hindex, heq⟩
  · omega

/-- The pointers of a node lead to the heights that the search counts with. -/
structure LinkedAt (t : BlockTree) (index : BlockIndex) : Prop where
  pprev : index.nHeight = 0 ∨ ∃ prev, index.pprev = some prev ∧ t.AtHeight prev (index.nHeight - 1)
  pskip : ∀ skip, index.pskip = some skip → t.AtHeight skip (getSkipHeight index.nHeight)

/-- All nodes are linked. -/
def SkipLinked (t : BlockTree) : Prop := ∀ e index, t.index? e = some index → t.LinkedAt index

theorem invertLowestOne_le (n : Nat) : invertLowestOne n ≤ n - 1 := Nat.and_le_right

/-- A skip goes down. -/
theorem getSkipHeight_lt (h : 0 < height) : getSkipHeight height < height := by
  unfold getSkipHeight
  split_ifs with hsmall hodd
  · exact h
  · have houter := invertLowestOne_le (invertLowestOne (height - 1))
    have hinner := invertLowestOne_le (height - 1)
    omega
  · have hle := invertLowestOne_le height
    omega

/-- One turn of the search: it goes down, but not below the height it looks
for. -/
theorem walkStep_spec {index : BlockIndex} (hlink : t.LinkedAt index)
    (hheight : height < index.nHeight) :
    ∃ next heightNext, walkStep index height index.nHeight = some (next, heightNext) ∧
      height ≤ heightNext ∧ heightNext < index.nHeight ∧ t.AtHeight next heightNext := by
  have hpprev : ∃ next heightNext,
      index.pprev.map (·, index.nHeight - 1) = some (next, heightNext) ∧
        height ≤ heightNext ∧ heightNext < index.nHeight ∧ t.AtHeight next heightNext := by
    rcases hlink.pprev with hzero | ⟨prev, hprev, hat⟩
    · omega
    · exact ⟨prev, index.nHeight - 1, by rw [hprev, map_some], by omega, by omega, hat⟩
  unfold walkStep
  cases hskip : index.pskip with
  | none => exact hpprev
  | some skip =>
    dsimp only
    split_ifs with hfollow
    · refine ⟨skip, _, rfl, ?_, getSkipHeight_lt (by omega), hlink.pskip skip hskip⟩
      rcases hfollow with heq | hgt
      · omega
      · omega
    · exact hpprev

/-- The loop of the search ends at the height it looks for. -/
theorem getAncestorLoop_spec (h : t.SkipLinked) (fuel : Nat) {walk : EntryPtr} {heightWalk : Nat}
    (hat : t.AtHeight walk heightWalk) (hle : height ≤ heightWalk)
    (hfuel : heightWalk - height ≤ fuel) :
    ∃ e, t.getAncestorLoop height fuel walk heightWalk = some e ∧ t.AtHeight e height := by
  induction fuel generalizing walk heightWalk with
  | zero =>
    have heq : heightWalk = height := by omega
    refine ⟨walk, ?_, heq ▸ hat⟩
    rw [getAncestorLoop, if_neg (by omega)]
  | succ fuel ih =>
    by_cases hgt : heightWalk > height
    · obtain ⟨index, hindex, rfl⟩ := hat.exists_index (by omega)
      obtain ⟨next, heightNext, hstep, hge, hlt, hnext⟩ := walkStep_spec (h walk index hindex) hgt
      obtain ⟨e, he, hate⟩ := ih hnext hge (by omega)
      refine ⟨e, ?_, hate⟩
      rw [getAncestorLoop, if_pos hgt, hindex]
      show (walkStep index height index.nHeight).bind _ = _
      rw [hstep]
      exact he
    · have heq : heightWalk = height := by omega
      refine ⟨walk, ?_, heq ▸ hat⟩
      rw [getAncestorLoop, if_neg hgt]

/-- `GetAncestor` finds a node for every height up to that of the node. -/
theorem getAncestor_spec (h : t.SkipLinked) {index : BlockIndex} (he : t.index? e = some index)
    (hle : height ≤ index.nHeight) :
    ∃ found, t.getAncestor e height = some (some found) ∧ t.AtHeight found height := by
  have hat : t.AtHeight e index.nHeight := ⟨index, he, Or.inl rfl⟩
  obtain ⟨found, hfound, hatFound⟩ :=
    getAncestorLoop_spec h (index.nHeight - height) hat hle (by omega)
  refine ⟨found, ?_, hatFound⟩
  have hrange : ¬((height : Int) > index.nHeight ∨ (height : Int) < 0) := by omega
  unfold getAncestor
  rw [he]
  simp only [bind_eq_bind, bind_some, if_neg hrange, Int.toNat_natCast, hfound]
  rfl

/-! ## Larger trees -/

/-- Every node of the first tree is a node of the second. -/
def Extends (t t' : BlockTree) : Prop :=
  ∀ e index, t.index? e = some index → t'.index? e = some index

theorem getAncestorLoop_mono (hext : t.Extends t') (fuel : Nat) {walk : EntryPtr} {heightWalk : Nat}
    (h : t.getAncestorLoop height fuel walk heightWalk = some e) :
    t'.getAncestorLoop height fuel walk heightWalk = some e := by
  induction fuel generalizing walk heightWalk e with
  | zero => exact h
  | succ fuel ih =>
    rw [getAncestorLoop] at h ⊢
    split_ifs at h ⊢ with hgt
    · obtain ⟨index, hindex, h⟩ := bind_eq_some_iff.mp h
      obtain ⟨next, hnext, h⟩ := bind_eq_some_iff.mp h
      rw [hext walk index hindex]
      show (walkStep index height heightWalk).bind _ = _
      rw [hnext]
      exact ih h
    · exact h

/-- A larger tree has the same ancestors. -/
theorem getAncestor_mono (hext : t.Extends t') {height : Int} {found : Option EntryPtr}
    (h : t.getAncestor e height = some found) : t'.getAncestor e height = some found := by
  unfold getAncestor at h ⊢
  obtain ⟨index, hindex, h⟩ := bind_eq_some_iff.mp h
  rw [hext e index hindex]
  show (if _ then _ else _) = _
  split_ifs at h ⊢ with hrange
  · exact h
  · obtain ⟨walk, hwalk, h⟩ := bind_eq_some_iff.mp h
    rw [getAncestorLoop_mono hext _ hwalk]
    exact h

theorem AtHeight.mono (hext : t.Extends t') (h : t.AtHeight e height) : t'.AtHeight e height := by
  obtain ⟨index, hindex, hcount⟩ := h
  exact ⟨index, hext e index hindex, hcount⟩

theorem LinkedAt.mono (hext : t.Extends t') {index : BlockIndex} (h : t.LinkedAt index) :
    t'.LinkedAt index where
  pprev := by
    rcases h.pprev with hzero | ⟨prev, hprev, hat⟩
    · exact Or.inl hzero
    · exact Or.inr ⟨prev, hprev, hat.mono hext⟩
  pskip skip hskip := (h.pskip skip hskip).mono hext

/-! ## The growth -/

/-- The links of a new node `e`: none, or to a node of the old tree, or to
itself. -/
inductive NewLinks (t : BlockTree) (e : EntryPtr) (block : BlockHeader) (hash : Uint256)
    (index : BlockIndex) : Prop
  | root (hprev : block.hashPrevBlock ∉ t.hashes) (hpprev : index.pprev = none)
      (hpskip : index.pskip = none) (hheight : index.nHeight = 0)
  | child (prev skip : EntryPtr) (pindex : BlockIndex) (hprev : t.HasHash prev block.hashPrevBlock)
      (hpindex : t.index? prev = some pindex) (hpprev : index.pprev = some prev)
      (hpskip : index.pskip = some skip) (hheight : index.nHeight = pindex.nHeight + 1)
      (hskip : t.AtHeight skip (getSkipHeight (pindex.nHeight + 1)))
  | itself (hprev : block.hashPrevBlock ∉ t.hashes) (hself : block.hashPrevBlock = hash)
      (hpprev : index.pprev = some e) (hpskip : index.pskip = some e) (hheight : index.nHeight = 1)

theorem NewLinks.of_eq {index index' : BlockIndex} (h : NewLinks t e block hash index)
    (hpprev' : index'.pprev = index.pprev) (hpskip' : index'.pskip = index.pskip)
    (hheight' : index'.nHeight = index.nHeight) : NewLinks t e block hash index' := by
  cases h with
  | root hprev hpprev hpskip hheight =>
    exact .root hprev (hpprev'.trans hpprev) (hpskip'.trans hpskip) (hheight'.trans hheight)
  | child prev skip pindex hprev hpindex hpprev hpskip hheight hskip =>
    exact .child prev skip pindex hprev hpindex (hpprev'.trans hpprev) (hpskip'.trans hpskip)
      (hheight'.trans hheight) hskip
  | itself hprev hself hpprev hpskip hheight =>
    exact .itself hprev hself (hpprev'.trans hpprev) (hpskip'.trans hpskip)
      (hheight'.trans hheight)

/-- What `AddToBlockIndex` writes into a new node. -/
structure NewNode (t : BlockTree) (block : BlockHeader) (hash : Uint256) (index : BlockIndex) :
    Prop where
  hash_eq : index.hash = hash
  header : ∀ hashPrevBlock, index.getBlockHeader hashPrevBlock = { block with hashPrevBlock }
  nStatus : index.nStatus = blockValidTree
  nSequenceId : index.nSequenceId = 1
  links : NewLinks t t.entries.length block hash index

theorem index?_push (hnew : t.lookupBlockIndex node.hash = none) :
    t.Extends (t.push node hnew) ∧ (t.push node hnew).index? t.entries.length = some node := by
  constructor
  · intro e index he
    have hlt := (List.getElem?_eq_some_iff.mp he).1
    show (t.entries ++ [node])[e]? = some index
    rw [getElem?_append_left hlt]
    exact he
  · exact getElem?_concat_length

/-- An element of a list that has grown by one is old or the new one. -/
theorem getElem?_concat_cases {α : Type*} {l : List α} {a b : α} {i : Nat}
    (h : (l ++ [a])[i]? = some b) : l[i]? = some b ∨ (i = l.length ∧ b = a) := by
  rcases Nat.lt_trichotomy i l.length with hlt | heq | hgt
  · rw [getElem?_append_left hlt] at h
    exact Or.inl h
  · rw [heq, getElem?_concat_length, Option.some.injEq] at h
    exact Or.inr ⟨heq, h.symm⟩
  · rw [getElem?_eq_none (by rw [length_append, length_singleton]; omega)] at h
    cases h

/-- A hash of the larger tree is that of the new node or belongs to the old
tree. -/
theorem hasHash_push (hnew : t.lookupBlockIndex node.hash = none)
    (h : (t.push node hnew).HasHash e hash) :
    t.HasHash e hash ∨ (e = t.entries.length ∧ hash = node.hash) := by
  rw [HasHash, hashes_push] at h
  have hlength : t.hashes.length = t.entries.length := length_map _
  rw [← hlength]
  exact getElem?_concat_cases h

/-- The links of a new node can always be made. -/
theorem linkToPrev_total (h : t.SkipLinked) (hnew : t.lookupBlockIndex node.hash = none)
    (hpprev : node.pprev = none) (hpskip : node.pskip = none) (hheight : node.nHeight = 0)
    (block : BlockHeader) :
    ∃ index, (t.push node hnew).linkToPrev block node = some index ∧
      NewLinks t t.entries.length block node.hash index ∧ index.nStatus = node.nStatus ∧
      index.nSequenceId = node.nSequenceId ∧
      ∀ hashPrevBlock, index.getBlockHeader hashPrevBlock = node.getBlockHeader hashPrevBlock := by
  obtain ⟨hext, hnode⟩ := index?_push hnew
  unfold linkToPrev
  cases hprev : (t.push node hnew).lookupBlockIndex block.hashPrevBlock with
  | none =>
    have hnot := lookupBlockIndex_eq_none_iff.mp hprev
    rw [hashes_push] at hnot
    refine ⟨_, rfl, .root ?_ hpprev hpskip hheight, rfl, rfl, fun _ => rfl⟩
    exact fun hmem => hnot (mem_append_left _ hmem)
  | some prev =>
    rcases hasHash_push hnew (hasHash_of_lookupBlockIndex hprev) with hold | ⟨rfl, hself⟩
    · -- the previous node is in the old tree, and so are its ancestors
      obtain ⟨pindex, hpindex, -⟩ : ∃ pindex, t.index? prev = some pindex ∧
          pindex.hash = block.hashPrevBlock := by
        rw [HasHash, hashes, getElem?_map, map_eq_some_iff] at hold
        exact hold
      have hle : getSkipHeight (pindex.nHeight + 1) ≤ pindex.nHeight :=
        Nat.le_of_lt_succ (getSkipHeight_lt (Nat.succ_pos _))
      obtain ⟨skip, hskip, hat⟩ := getAncestor_spec h hpindex hle
      simp only [hext prev pindex hpindex, bind_eq_bind, bind_some, getAncestor_mono hext hskip]
      exact ⟨_, rfl, .child prev skip pindex hold hpindex rfl rfl rfl hat, rfl, rfl, fun _ => rfl⟩
    · -- the previous node is the new node
      have hskip : (t.push node hnew).getAncestor t.entries.length (getSkipHeight (0 + 1)) =
          some (some t.entries.length) := by
        unfold getAncestor
        rw [hnode]
        simp only [bind_eq_bind, bind_some, hheight]
        rfl
      simp only [hnode, bind_eq_bind, bind_some, hheight, hskip]
      refine ⟨_, rfl, .itself ?_ hself rfl rfl rfl, rfl, rfl, fun _ => rfl⟩
      rw [hself]
      exact lookupBlockIndex_eq_none_iff.mp hnew

/-- The tree with a new node at the end. -/
structure Appended (t t' : BlockTree) (index : BlockIndex) : Prop where
  entries : t'.entries = t.entries ++ [index]

theorem Appended.extends {index : BlockIndex} (h : Appended t t' index) : t.Extends t' := by
  intro e old he
  have hlt := (List.getElem?_eq_some_iff.mp he).1
  rw [index?, h.entries, List.getElem?_append_left hlt]
  exact he

theorem Appended.index?_length {index : BlockIndex} (h : Appended t t' index) :
    t'.index? t.entries.length = some index := by
  rw [index?, h.entries]
  exact getElem?_concat_length

/-- A node of the larger tree is the new node or belongs to the old tree. -/
theorem Appended.cases {index : BlockIndex} (h : Appended t t' index) {found : BlockIndex}
    (he : t'.index? e = some found) :
    t.index? e = some found ∨ (e = t.entries.length ∧ found = index) := by
  rw [index?, h.entries] at he
  exact getElem?_concat_cases he

/-- A new node keeps the tree linked. -/
theorem SkipLinked.append {index : BlockIndex} (h : t.SkipLinked) (happend : Appended t t' index)
    (hlinks : NewLinks t t.entries.length block hash index) : t'.SkipLinked := by
  intro e found he
  rcases happend.cases he with hold | ⟨-, rfl⟩
  · exact (h e found hold).mono happend.extends
  · cases hlinks with
    | root _ hpprev hpskip hheight =>
      refine ⟨Or.inl hheight, ?_⟩
      intro skip hskip
      rw [hpskip] at hskip
      cases hskip
    | child prev skip pindex _ hpindex hpprev hpskip hheight hskip =>
      refine ⟨Or.inr ⟨prev, hpprev, pindex, happend.extends prev pindex hpindex, Or.inl ?_⟩, ?_⟩
      · rw [hheight, Nat.add_sub_cancel]
      · intro skip' hskip'
        cases hpskip.symm.trans hskip'
        rw [hheight]
        exact hskip.mono happend.extends
    | itself _ _ hpprev hpskip hheight =>
      have hat : t'.AtHeight t.entries.length 0 :=
        ⟨found, happend.index?_length, Or.inr ⟨rfl, hpprev⟩⟩
      refine ⟨Or.inr ⟨t.entries.length, hpprev, ?_⟩, ?_⟩
      · rw [hheight]
        exact hat
      · intro skip' hskip'
        cases hpskip.symm.trans hskip'
        rw [hheight]
        exact hat

theorem raiseValidity_of_nStatus_eq_zero {index : BlockIndex} (h : index.nStatus = 0) :
    index.raiseValidity blockValidTree = { index with nStatus := blockValidTree } := by
  unfold BlockIndex.raiseValidity
  rw [h]
  rfl

/-- `AddToBlockIndex` returns.  It finds the node of the hash, or appends one and
raises the best header. -/
theorem addToBlockIndex_spec (getHash : BlockHeader → Uint256) (h : t.SkipLinked)
    (block : BlockHeader) (best : Option EntryPtr) :
    (∃ e, t.HasHash e (getHash block) ∧ t.addToBlockIndex getHash block best = some (t, best, e)) ∨
    (getHash block ∉ t.hashes ∧ ∃ t' index, Appended t t' index ∧
      NewNode t block (getHash block) index ∧
      t.addToBlockIndex getHash block best =
        some (t', t'.raiseBestHeader best t.entries.length, t.entries.length)) := by
  unfold addToBlockIndex
  rcases t.tryEmplace_cases (BlockIndex.ofHeader (getHash block) block) with
    ⟨e, he, hput⟩ | ⟨hnew, hput⟩
  · rw [hput]
    exact Or.inl ⟨e, he, rfl⟩
  · rw [hput]
    obtain ⟨-, hnode⟩ := index?_push hnew
    obtain ⟨linked, hlinked, hlinks, hstatus, hsequence, hheader⟩ :=
      linkToPrev_total h hnew rfl rfl rfl block
    have hraise := raiseValidity_of_nStatus_eq_zero hstatus
    refine Or.inr ⟨lookupBlockIndex_eq_none_iff.mp hnew, (t.push _ hnew).modify t.entries.length
        (fun old => { linked.raiseValidity blockValidTree with hash := old.hash }) (fun _ => rfl),
      { linked.raiseValidity blockValidTree with hash := getHash block },
      ⟨modify_last t.entries (BlockIndex.ofHeader (getHash block) block) _⟩, ?_, ?_⟩
    · rw [hraise]
      exact ⟨rfl, hheader, rfl, hsequence, hlinks.of_eq rfl rfl rfl⟩
    · simp only [Bool.not_true, Bool.false_eq_true, if_false, bind_eq_bind, hnode,
        bind_some, hlinked]
      rfl

end BitcoinKernel.State.BlockTree
