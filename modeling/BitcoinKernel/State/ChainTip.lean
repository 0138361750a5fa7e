import BitcoinKernel.State.Chain

/-!
# `Chain::tip` beside other threads

`Chain::tip` is made of two kernel calls.  `btck_chain_get_height` reads the
height of the active chain and `btck_chain_get_by_height` reads the entry at
that height.  Each takes the kernel lock, and between them any number of tip
updates can happen.  There is no check for a null pointer, so the answer can
be a null entry.

`tipCall` is one call, with the updates that other threads make before the
first read and between the two.  The call is right when its answer is the tip
of the active chain at some moment from its start to its end
(`TipLinearizable`).  `tip_linearizable_iff` says when that is so: some
active chain of the window has the height that was read first and is an
initial part of the chain of the second read.  A chain that only grows
between the reads is such a case (`tip_linearizable_of_prefix`), and a
reorganization is one in which it can fail.
-/

namespace BitcoinKernel.State

open List

namespace CChain

/-- The active chain at a moment of a call that starts with the chain `c` and
during which the updates `updates` happen. -/
def During (t : BlockTree) (c : CChain) (updates : List EntryPtr) (m : CChain) : Prop :=
  ∃ pre, pre <+: updates ∧ m = setTips t c pre

/-- `Chain::tip`, with the updates that happen before the height is read and
those that happen before the entry is read. -/
def tipCall (t : BlockTree) (c : CChain) (before between : List EntryPtr) : Option EntryPtr :=
  let height := (setTips t c before).height
  (setTips t c (before ++ between)).get height

/-- The call answers an entry that was the tip at a moment of the call. -/
def TipLinearizable (t : BlockTree) (c : CChain) (before between after : List EntryPtr) : Prop :=
  ∃ e, tipCall t c before between = some e ∧
    ∃ m, During t c (before ++ between ++ after) m ∧ m.tip = some e

/-- Two chains of one tree, the second read at the height of a third.  The
entry there is the tip of the first exactly when the first has that height
and is an initial part of the second. -/
theorem get_eq_tip_iff {t : BlockTree} {m c₂ : CChain} {l l₂ : List EntryPtr} (hm : IsChain t m l)
    (h₂ : IsChain t c₂ l₂) (hne : l ≠ []) (n : Nat) :
    (∃ e, c₂.get n = some e ∧ m.tip = some e) ↔ m.height = n ∧ m.vChain <+: c₂.vChain := by
  obtain ⟨x, l', rfl⟩ : ∃ x l', l = l' ++ [x] :=
    ⟨l.getLast hne, l.dropLast, (dropLast_append_getLast hne).symm⟩
  have hheight : m.height = n ↔ l'.length = n := by
    rw [hm.height_eq, length_append, length_singleton]
    omega
  rw [h₂.get_natCast, hm.tip_eq, getLast?_concat, hheight, hm.slots, h₂.slots]
  constructor
  · rintro ⟨e, he, hx⟩
    cases hx
    obtain ⟨hlen, hinitial⟩ := hm.path.prefix_of_getElem? h₂.path he
    exact ⟨hlen, hinitial.map some⟩
  · rintro ⟨rfl, hinitial⟩
    refine ⟨x, ?_, rfl⟩
    obtain ⟨rest, hrest⟩ := hinitial
    have hslot : (l₂.map some)[l'.length]? = some (some x) := by
      rw [← hrest]
      simp
    rw [getElem?_map, Option.map_eq_some_iff] at hslot
    obtain ⟨y, hy, hyx⟩ := hslot
    rw [hy, Option.some.inj hyx]

section Calls

variable {t : BlockTree} {history before between after : List EntryPtr}

/-- Every moment of a call sees a chain that is not empty. -/
theorem During.isChain (hlinked : t.Linked) (hne : history ≠ []) {updates : List EntryPtr}
    (hmem : ∀ e ∈ history ++ updates, (t.height? e).isSome) {m : CChain}
    (h : During t (setTips t {} history) updates m) : ∃ l, IsChain t m l ∧ l ≠ [] := by
  obtain ⟨pre, hpre, rfl⟩ := h
  have hmem' : ∀ e ∈ history ++ pre, (t.height? e).isSome := by
    intro e he
    refine hmem e ?_
    rcases mem_append.mp he with he | he
    · exact mem_append_left _ he
    · exact mem_append_right _ (hpre.subset he)
  rw [← setTips_append]
  obtain ⟨l, hl, hlne⟩ := isChain_setTips hlinked (isChain_empty t) hmem'
  exact ⟨l, hl, hlne (Or.inr (by simp [hne]))⟩

/-- The chains of the two reads, and the height that was read. -/
theorem isChain_reads (hlinked : t.Linked) (hne : history ≠ [])
    (hmem : ∀ e ∈ history ++ (before ++ between ++ after), (t.height? e).isSome) :
    ∃ l₁ l₂ n, IsChain t (setTips t (setTips t {} history) before) l₁ ∧ l₁ ≠ [] ∧
      IsChain t (setTips t (setTips t {} history) (before ++ between)) l₂ ∧
      (setTips t (setTips t {} history) before).height = (n : Nat) := by
  obtain ⟨l₁, h₁, hne₁⟩ := During.isChain (m := setTips t (setTips t {} history) before)
    hlinked hne hmem ⟨before, ⟨between ++ after, by simp⟩, rfl⟩
  obtain ⟨l₂, h₂, -⟩ := During.isChain (m := setTips t (setTips t {} history) (before ++ between))
    hlinked hne hmem ⟨before ++ between, ⟨after, rfl⟩, rfl⟩
  have hpos := length_pos_iff.mpr hne₁
  exact ⟨l₁, l₂, l₁.length - 1, h₁, hne₁, h₂, by rw [h₁.height_eq]; omega⟩

/-- A call is right exactly when some active chain of its window has the
height that was read first and is an initial part of the chain from which the
entry was read. -/
theorem tip_linearizable_iff (hlinked : t.Linked) (hne : history ≠ [])
    (hmem : ∀ e ∈ history ++ (before ++ between ++ after), (t.height? e).isSome) :
    TipLinearizable t (setTips t {} history) before between after ↔
      ∃ m, During t (setTips t {} history) (before ++ between ++ after) m ∧
        m.height = (setTips t (setTips t {} history) before).height ∧
        m.vChain <+: (setTips t (setTips t {} history) (before ++ between)).vChain := by
  obtain ⟨_, _, n, -, -, h₂, hn⟩ := isChain_reads hlinked hne hmem
  rw [TipLinearizable, tipCall, hn]
  constructor
  · rintro ⟨e, he, m, hduring, htip⟩
    obtain ⟨l, hm, hlne⟩ := hduring.isChain hlinked hne hmem
    exact ⟨m, hduring, (get_eq_tip_iff hm h₂ hlne n).mp ⟨e, he, htip⟩⟩
  · rintro ⟨m, hduring, hpart⟩
    obtain ⟨l, hm, hlne⟩ := hduring.isChain hlinked hne hmem
    obtain ⟨e, he, htip⟩ := (get_eq_tip_iff hm h₂ hlne n).mpr hpart
    exact ⟨e, he, m, hduring, htip⟩

/-- A call is right when the chain only grows between its two reads. -/
theorem tip_linearizable_of_prefix (hlinked : t.Linked) (hne : history ≠ [])
    (hmem : ∀ e ∈ history ++ (before ++ between ++ after), (t.height? e).isSome)
    (hgrows : (setTips t (setTips t {} history) before).vChain <+:
      (setTips t (setTips t {} history) (before ++ between)).vChain) :
    TipLinearizable t (setTips t {} history) before between after := by
  obtain ⟨_, _, n, h₁, hne₁, h₂, hn⟩ := isChain_reads hlinked hne hmem
  obtain ⟨e, he, htip⟩ := (get_eq_tip_iff h₁ h₂ hne₁ n).mpr ⟨hn, hgrows⟩
  refine ⟨e, ?_, _, ⟨before, ⟨between ++ after, by simp⟩, rfl⟩, htip⟩
  rw [tipCall, hn]
  exact he

end Calls

/-! ## A reorganization between the reads -/

/-- A genesis block with a branch of two blocks and a branch of one block
that has more work. -/
def forkTree : BlockTree where
  entries := [{ hash := Uint256.filled 0, nChainWork := 1 },
    { hash := Uint256.filled 1, pprev := some 0, nHeight := 1, nChainWork := 2 },
    { hash := Uint256.filled 2, pprev := some 1, nHeight := 2, nChainWork := 3 },
    { hash := Uint256.filled 3, pprev := some 0, nHeight := 1, nChainWork := 9 }]
  nodup := by decide

theorem linked_forkTree : forkTree.Linked := by
  intro e height he
  rcases e with _ | _ | _ | _ | e
  · exact (Option.some.inj he).symm
  · exact ⟨0, rfl, (Option.some.inj he).symm⟩
  · exact ⟨1, rfl, (Option.some.inj he).symm⟩
  · exact ⟨0, rfl, (Option.some.inj he).symm⟩
  · cases he

/-- A call during which the chain grows answers the old tip. -/
theorem tip_linearizable_grows : TipLinearizable forkTree (setTips forkTree {} [1]) [] [2] [] :=
  (tip_linearizable_iff linked_forkTree (by decide) (by decide)).mpr
    ⟨setTips forkTree {} [1], ⟨[], by decide, rfl⟩, rfl, by decide⟩

/-- A call that reads the height of the longer branch and then the entry of
the shorter one answers a null entry. -/
theorem not_tip_linearizable_reorg :
    ¬ TipLinearizable forkTree (setTips forkTree {} [2]) [] [3] [] := by
  rintro ⟨e, he, -⟩
  have hnull : tipCall forkTree (setTips forkTree {} [2]) [] [3] = none := by decide
  rw [hnull] at he
  cases he

end CChain

end BitcoinKernel.State
