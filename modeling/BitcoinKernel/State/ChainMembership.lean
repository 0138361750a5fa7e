import BitcoinKernel.State.Ancestor
import BitcoinKernel.State.ChainAtHeight

/-!
# Four ways to ask whether an entry is in the chain

A client can ask a `Chain` for membership (`contains`), look up the height of
the entry (`at_height`), follow `prev` from the tip, or search the ancestor of
the tip at the height of the entry (`ancestor`).  The first two read the vector
of the chain, the other two the pointers of the entries.  This module proves
that between two changes of the tip all four agree, whatever changes of the tip
there have been before (`chain_membership_coherent`).

The vector is the root path of the tip (`isChain_setTips`).  Each way to ask is
therefore a lookup in this path: `atHeight_self`, `contains_iff`,
`reached_iff` and `ancestor_iff`.  The same path is what a new iterator yields
(`iterate_polls`).

The results are about trees in which the heights are in step with the previous
pointers and the skip pointers are exact (`WellFormed`).  Adding headers makes
such trees (`wellFormed_addHeaders`).
-/

namespace BitcoinKernel.State

open RootPath List

namespace BlockTree

/-- Heights, previous pointers and skip pointers fit together. -/
structure WellFormed (t : BlockTree) : Prop extends t.Grown where
  linked : t.Linked

/-- A header that does not name itself as the previous one keeps the tree well
formed. -/
theorem WellFormed.addHeader {t t' : BlockTree} (h : t.WellFormed) {getHash : BlockHeader → Uint256}
    {best best' : Option EntryPtr} {block : BlockHeader}
    (hself : getHash block ≠ block.hashPrevBlock)
    (hadd : BlockTree.addHeader getHash (t, best) block = some (t', best')) : t'.WellFormed := by
  obtain ⟨t'', best'', hadd', hgrown⟩ := h.toGrown.addHeader getHash best block
  cases hadd.symm.trans hadd'
  obtain ⟨r, hr, heq⟩ := Option.bind_eq_some_iff.mp hadd
  cases heq
  exact ⟨hgrown, linked_addToBlockIndex h.linked hself hr⟩

/-- Headers that do not name themselves as the previous one make a well-formed
tree. -/
theorem wellFormed_addHeaders {getHash : BlockHeader → Uint256} {headers : List BlockHeader}
    (hself : ∀ block ∈ headers, getHash block ≠ block.hashPrevBlock) {t : BlockTree}
    {best : Option EntryPtr} (h : addHeaders getHash headers = some (t, best)) :
    t.WellFormed := by
  have hempty : BlockTree.empty.WellFormed := ⟨grown_empty, fun e height he => by cases he⟩
  have hrun := Runs.run_invariant
    (I := fun pre (s : BlockTree × Option EntryPtr) =>
      (∀ block ∈ pre, getHash block ≠ block.hashPrevBlock) → s.1.WellFormed)
    (fun _ => hempty)
    (fun pre block s s' hs hadd hall => by
      have hpre : ∀ b ∈ pre, getHash b ≠ b.hashPrevBlock := fun b hb =>
        hall b (mem_append_left _ hb)
      have hblock := hall block (mem_append_right _ (mem_singleton_self block))
      exact (hs hpre).addHeader hblock hadd) h
  exact hrun hself

end BlockTree

namespace CChain

section Lookups

variable {t : BlockTree} {c : CChain} {l : List EntryPtr}

/-! ## Each way to ask is a lookup in the root path -/

section

variable (h : IsChain t c l)

include h

/-- `at_height` between two changes of the tip. -/
theorem IsChain.atHeight_self (hlen : l.length ≤ 2 ^ 31) {height : Nat} (hheight : height < 2 ^ 64)
    : atHeight c c height = l[height]? := by
  rw [atHeight_cases h h hlen hlen hheight]
  by_cases hbeyond : l.length ≤ height
  · rw [getElem?_eq_none hbeyond]
    split_ifs with hcase
    · rfl
    · -- only an empty chain refuses no height
      have hnil : l = [] := by
        by_contra hne
        exact hcase ⟨hne, hbeyond⟩
      rw [hnil, getElem?_nil]
  · have hmod : height % 2 ^ 32 = height := Nat.mod_eq_of_lt (by omega)
    rw [if_neg (fun hcase => hbeyond hcase.2), hmod]

/-- `contains` looks up the height of the entry. -/
theorem IsChain.contains_iff {e : EntryPtr} {index : BlockIndex} (he : t.index? e = some index)
    : c.contains t e = true ↔ l[index.nHeight]? = some e := by
  rw [contains, he]
  dsimp only
  rw [h.get_natCast, beq_iff_eq]

/-- `tip` between two changes of the tip. -/
theorem IsChain.tipCall_eq : tipCall t c [] [] = l.getLast? := by
  show c.get c.height = l.getLast?
  rw [h.height_eq, getLast?_eq_getElem?]
  by_cases hnil : l = []
  · subst hnil
    exact if_pos (Or.inl (by decide))
  · have hpos := length_pos_iff.mpr hnil
    have hcast : (l.length : Int) - 1 = ((l.length - 1 : Nat) : Int) := by omega
    rw [hcast, h.get_natCast]

/-- The tip is the last node of the path. -/
theorem IsChain.getElem?_of_tipCall {tip : EntryPtr} (htip : tipCall t c [] [] = some tip)
    : l[l.length - 1]? = some tip ∧ 0 < l.length := by
  rw [h.tipCall_eq] at htip
  refine ⟨getLast?_eq_getElem? ▸ htip, ?_⟩
  apply length_pos_iff.mpr
  intro hnil
  rw [hnil, getLast?_nil] at htip
  cases htip

/-- A path that has an entry has a tip. -/
theorem IsChain.exists_tipCall {n : Nat} (hn : n < l.length) :
    ∃ tip, tipCall t c [] [] = some tip := by
  have hlast : l.length - 1 < l.length := by omega
  refine ⟨l[l.length - 1], ?_⟩
  rw [h.tipCall_eq, getLast?_eq_getElem?, getElem?_eq_getElem hlast]

/-- Following `prev` from the tip reaches the nodes of the path. -/
theorem IsChain.reached_iff (hlinked : t.Linked) {e : EntryPtr} {index : BlockIndex}
    (he : t.index? e = some index) :
    (∃ tip n, tipCall t c [] [] = some tip ∧ climb t.parent n tip = some e) ↔
      l[index.nHeight]? = some e := by
  have hheight : t.height? e = some index.nHeight := by rw [BlockTree.height?, he, Option.map_some]
  constructor
  · rintro ⟨tip, n, htip, hclimb⟩
    obtain ⟨hlast, hpos⟩ := h.getElem?_of_tipCall htip
    rw [h.path.climb_eq hlast] at hclimb
    split_ifs at hclimb with hn
    have hpos := hlinked.height_of_path h.path h.mem hclimb
    rw [hheight, Option.some.injEq] at hpos
    rw [hpos]
    exact hclimb
  · intro hget
    have hlt := (List.getElem?_eq_some_iff.mp hget).1
    obtain ⟨tip, htip⟩ := h.exists_tipCall hlt
    obtain ⟨hlast, -⟩ := h.getElem?_of_tipCall htip
    refine ⟨tip, l.length - 1 - index.nHeight, htip, ?_⟩
    have hback : l.length - 1 - (l.length - 1 - index.nHeight) = index.nHeight := by omega
    rw [h.path.climb_eq hlast, if_pos (by omega), hback, hget]

/-- The ancestor of the tip at a height. -/
theorem IsChain.ancestor_iff (ht : t.WellFormed) (height : Nat) (e : EntryPtr) :
    ((height : Int) ≤ c.height ∧
      ∃ tip, tipCall t c [] [] = some tip ∧ t.ancestor tip height = some (some e)) ↔
      l[height]? = some e := by
  -- the search from the tip, for a height of the chain
  have hsearch : ∀ {tip : EntryPtr}, tipCall t c [] [] = some tip → height < l.length →
      t.ancestor tip height = some l[height]? := by
    intro tip htip hlt
    obtain ⟨hlast, hpos⟩ := h.getElem?_of_tipCall htip
    have hheight := ht.linked.height_of_path h.path h.mem hlast
    obtain ⟨tipIndex, htipIndex, hn⟩ := Option.map_eq_some_iff.mp hheight
    rcases ht.toGrown.ancestor htipIndex height with ⟨hrange, -⟩ | ⟨found, -, hfound, hup⟩
    · omega
    · have hback : l.length - 1 - (l.length - 1 - height) = height := by omega
      rw [Int.toNat_natCast, hn, h.path.climb_eq hlast, if_pos (by omega), hback] at hup
      rw [hfound, hup]
  rw [h.height_eq]
  constructor
  · intro ⟨hle, tip, htip, hancestor⟩
    rw [hsearch htip (by omega), Option.some.injEq] at hancestor
    exact hancestor
  · intro hget
    have hlt := (List.getElem?_eq_some_iff.mp hget).1
    obtain ⟨tip, htip⟩ := h.exists_tipCall hlt
    refine ⟨by omega, tip, htip, ?_⟩
    rw [hsearch htip hlt, hget]

/-- The polls of an iterator between two changes of the tip, from the position `k`
on: the rest of the path, and then nothing. -/
theorem IsChain.iterate_polls (hlen : l.length ≤ 2 ^ 31) (m k : Nat) (hk : k + m = l.length) :
    iterate t c k (List.replicate (m + 1) (.next [])) = (l.drop k).map some ++ [none] := by
  induction m generalizing k with
  | zero =>
    show atHeight c c k :: [] = _
    rw [h.atHeight_self hlen (by omega), getElem?_eq_none (by omega), drop_eq_nil_of_le (by omega)]
    rfl
  | succ m ih =>
    have hlt : k < l.length := by omega
    have hwrap : (k + 1) % 2 ^ 64 = k + 1 := Nat.mod_eq_of_lt (by omega)
    rw [replicate_succ]
    show atHeight c c k :: iterate t c ((k + 1) % 2 ^ 64) (List.replicate (m + 1) (.next [])) = _
    rw [hwrap, ih (k + 1) (by omega), h.atHeight_self hlen (by omega),
      getElem?_eq_getElem hlt, drop_eq_getElem_cons hlt, map_cons, cons_append]

end

end Lookups

/-! ## After any changes of the tip -/

/-- After any changes of the tip to entries of the tree, the four ways to ask for
an entry agree.  `at_height` answers an entry exactly for the heights of the
chain.  A new iterator yields the root path of the tip, from the genesis block
on, and then nothing. -/
theorem chain_membership_coherent {t : BlockTree} (ht : t.WellFormed) (hfit : t.HeightsFit)
    {history : List EntryPtr} (hmem : ∀ e ∈ history, (t.height? e).isSome) {c : CChain}
    (hc : c = setTips t {} history) :
    (∀ e index, t.index? e = some index →
      (c.contains t e = true ↔ atHeight c c index.nHeight = some e) ∧
      (c.contains t e = true ↔
        ∃ tip n, tipCall t c [] [] = some tip ∧ climb t.parent n tip = some e) ∧
      (c.contains t e = true ↔ (index.nHeight : Int) ≤ c.height ∧
        ∃ tip, tipCall t c [] [] = some tip ∧ t.ancestor tip index.nHeight = some (some e))) ∧
    (∀ height < 2 ^ 64, (atHeight c c height).isSome ↔ (height : Int) ≤ c.height) ∧
    ∃ path, IsRootPath t.parent path ∧ path.getLast? = tipCall t c [] [] ∧
      path.map t.height? = (List.range path.length).map some ∧
      iterate t c 0 (List.replicate (path.length + 1) (.next [])) = path.map some ++ [none] := by
  obtain ⟨l, h, -⟩ := isChain_setTips ht.linked (isChain_empty t) hmem
  rw [← hc] at h
  have hlen := h.length_le ht.linked hfit
  refine ⟨?_, ?_, l, h.path, h.tipCall_eq.symm, ?_, ?_⟩
  · intro e index he
    have hheight : index.nHeight < 2 ^ 31 :=
      hfit e index.nHeight (by rw [BlockTree.height?, he, Option.map_some])
    rw [h.contains_iff he, h.reached_iff ht.linked he, h.ancestor_iff ht,
      h.atHeight_self hlen (by omega)]
    exact ⟨Iff.rfl, Iff.rfl, Iff.rfl⟩
  · intro height hheight
    rw [h.atHeight_self hlen hheight, h.height_eq, isSome_getElem?]
    show height < l.length ↔ _
    omega
  · apply ext_getElem?
    intro n
    rw [getElem?_map, getElem?_map]
    cases hn : l[n]? with
    | none =>
      rw [getElem?_eq_none_iff] at hn
      rw [getElem?_eq_none (by rwa [length_range])]
      rfl
    | some e =>
      have hlt := (List.getElem?_eq_some_iff.mp hn).1
      rw [Option.map_some, ht.linked.height_of_path h.path h.mem hn, getElem?_range hlt,
        Option.map_some]
  · exact h.iterate_polls hlen l.length 0 (Nat.zero_add _)

/-! ## A reorganization to a shorter branch -/

namespace Membership.Sample

/-- A hash that tells headers apart by their nonce. -/
def nonceHash (block : BlockHeader) : Uint256 := Uint256.filled block.nNonce.toNat.toUInt8

/-- A header with a nonce and a previous hash. -/
def header (nNonce : UInt32) (hashPrevBlock : Uint256) : BlockHeader :=
  ⟨1, hashPrevBlock, Uint256.null, 0, 0x207fffff, nNonce⟩

/-- A genesis block with a branch of two blocks and a branch of one block. -/
def headers : List BlockHeader :=
  [header 1 Uint256.null, header 2 (Uint256.filled 1), header 3 (Uint256.filled 2),
    header 4 (Uint256.filled 1)]

/-- The tree of these headers. -/
def tree : BlockTree := ((BlockTree.addHeaders nonceHash headers).map Prod.fst).getD .empty

theorem wellFormed_tree : tree.WellFormed := by
  obtain ⟨t, best, hrun, -⟩ := BlockTree.grown_addHeaders nonceHash headers
  have htree : tree = t := by rw [tree, hrun, Option.map_some, Option.getD_some]
  rw [htree]
  exact BlockTree.wellFormed_addHeaders (by decide) hrun

theorem heightsFit_tree : tree.HeightsFit := by
  have hall : ∀ index ∈ tree.entries, index.nHeight < 2 ^ 31 := by decide +kernel
  intro e height he
  obtain ⟨index, hindex, rfl⟩ := Option.map_eq_some_iff.mp he
  exact hall index (mem_of_getElem? hindex)

end Membership.Sample

open Membership.Sample in
/-- After the longer branch and then the shorter one, the block of the shorter one
is in the chain. -/
theorem chain_membership_reorg : (setTips tree {} [2, 3]).contains tree 3 = true ∧
      ∃ tip n, tipCall tree (setTips tree {} [2, 3]) [] [] = some tip ∧
        climb tree.parent n tip = some 3 := by
  have hcontains : (setTips tree {} [2, 3]).contains tree 3 = true := by decide +kernel
  obtain ⟨index, hindex⟩ : ∃ index, tree.index? 3 = some index :=
    Option.isSome_iff_exists.mp (by decide +kernel)
  obtain ⟨hagree, -⟩ := chain_membership_coherent wellFormed_tree heightsFit_tree
    (by decide +kernel : ∀ e ∈ [2, 3], (tree.height? e).isSome) rfl
  exact ⟨hcontains, (hagree 3 index hindex).2.1.mp hcontains⟩

end CChain

end BitcoinKernel.State
