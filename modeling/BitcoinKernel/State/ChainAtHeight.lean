import BitcoinKernel.State.ChainIterator
import BitcoinKernel.State.ChainTip

/-!
# `Chain::at_height` beside other threads

`Chain::at_height` reads the height of the active chain and then the entry,
under two locks.  Between the reads any number of tip updates can happen.
The call is right when its answer is what one lookup under the lock would
have given at some moment from its start to its end
(`AtHeightLinearizable`).

There are three groups.

* The casts.  `getAsI32` looks up a height that was cast to `i32`: only the
  low 32 bits of the height are left.
* The call.  `atHeight_cases` gives the answer in terms of the root paths of
  the two reads.  A chain that is not empty at the first read refuses every
  height beyond it.  The height `-1` of an empty chain is the largest `usize`
  after the cast, and refuses none.
* The assembly.  `at_height_linearizable_iff` says that a call is right unless
  the chain is empty at the first read, the height needs more than 32 bits,
  and its low 32 bits are a height of the chain of the second read.
-/

namespace BitcoinKernel.State

open List

/-- The heights of a tree are values of `int`. -/
def BlockTree.HeightsFit (t : BlockTree) : Prop :=
  ∀ e height, t.height? e = some height → height < 2 ^ 31

namespace CChain

/-- The entry of the chain at a height, looked up at once. -/
def entryAt (c : CChain) (height : Nat) : Option EntryPtr := c.vChain[height]?.join

variable {t : BlockTree} {c : CChain} {l : List EntryPtr} {n : Nat}

theorem IsChain.entryAt_eq (h : IsChain t c l) (height : Nat) : c.entryAt height = l[height]? := by
  rw [entryAt, h.slots, getElem?_map]
  cases l[height]? <;> rfl

/-- A chain is not longer than its heights allow. -/
theorem IsChain.length_le (hlinked : t.Linked) (hfit : t.HeightsFit) (h : IsChain t c l) :
    l.length ≤ 2 ^ 31 := by
  by_cases hnil : l = []
  · rw [hnil, length_nil]
    omega
  · have hpos := length_pos_iff.mpr hnil
    have hlast : l[l.length - 1]? = some (l.getLast hnil) := by
      rw [← getLast?_eq_getElem?, getLast?_eq_some_getLast]
    have hheight := hfit _ _ (hlinked.height_of_path h.path h.mem hlast)
    omega

/-! ## The casts -/

/-- The cast `usize as i32` keeps the low 32 bits. -/
theorem asI32_eq_mod (h : n % 2 ^ 32 < 2 ^ 31) : asI32 n = ((n % 2 ^ 32 : Nat) : Int) := by
  unfold asI32
  simp only [Int.bmod_def]
  push_cast
  apply if_pos
  omega

/-- The highest of these bits is the sign. -/
theorem asI32_neg (h : ¬n % 2 ^ 32 < 2 ^ 31) : asI32 n < 0 := by
  unfold asI32
  simp only [Int.bmod_def]
  push_cast
  split_ifs <;> omega

/-- A lookup of a height that was cast to `i32`. -/
theorem getAsI32 (h : IsChain t c l) (hlen : l.length ≤ 2 ^ 31) (height : Nat) :
    c.get (asI32 height) = l[height % 2 ^ 32]? := by
  by_cases hlow : height % 2 ^ 32 < 2 ^ 31
  · rw [asI32_eq_mod hlow]
    exact h.get_natCast _
  · rw [getElem?_eq_none (by omega), get]
    exact if_pos (Or.inl (asI32_neg hlow))

/-! ## The call -/

/-- The answer of `at_height` in terms of the root paths of its two reads. -/
theorem atHeight_cases {c₁ c₂ : CChain} {l₁ l₂ : List EntryPtr} (h₁ : IsChain t c₁ l₁)
    (h₂ : IsChain t c₂ l₂) (hlen₁ : l₁.length ≤ 2 ^ 31) (hlen₂ : l₂.length ≤ 2 ^ 31) {height : Nat}
    (hheight : height < 2 ^ 64) :
    atHeight c₁ c₂ height =
      if l₁ ≠ [] ∧ l₁.length ≤ height then none else l₂[height % 2 ^ 32]? := by
  rw [atHeight, h₁.height_eq, getAsI32 h₂ hlen₂]
  by_cases hnil : l₁ = []
  · subst hnil
    have hmax : asUsize ((([] : List EntryPtr).length : Int) - 1) = 2 ^ 64 - 1 := by decide
    rw [hmax, if_neg (by omega), if_neg (fun h => h.1 rfl)]
  · have hpos := length_pos_iff.mpr hnil
    have hcast : asUsize ((l₁.length : Int) - 1) = l₁.length - 1 := by
      rw [show (l₁.length : Int) - 1 = ((l₁.length - 1 : Nat) : Int) by omega]
      exact asUsize_natCast (by omega)
    rw [hcast]
    by_cases hlt : height < l₁.length
    · rw [if_neg (by omega), if_neg (fun h => Nat.not_le_of_lt hlt h.2)]
    · rw [if_pos (by omega), if_pos ⟨hnil, by omega⟩]

/-- `Chain::at_height`, with the updates that happen before the height is read
and those that happen before the entry is read. -/
def atHeightCall (t : BlockTree) (c : CChain) (before between : List EntryPtr) (height : Nat) :
    Option EntryPtr :=
  atHeight (setTips t c before) (setTips t c (before ++ between)) height

/-- The call answers what one lookup would have answered at a moment of the
call. -/
def AtHeightLinearizable (t : BlockTree) (c : CChain) (before between after : List EntryPtr)
    (height : Nat) : Prop :=
  ∃ m, During t c (before ++ between ++ after) m ∧
    atHeightCall t c before between height = m.entryAt height

section Calls

variable {t : BlockTree} {history before between after : List EntryPtr}

/-- Every moment of a call sees a chain. -/
theorem During.isChain_of_mem (hlinked : t.Linked) {updates : List EntryPtr}
    (hmem : ∀ e ∈ history ++ updates, (t.height? e).isSome) {m : CChain}
    (h : During t (setTips t {} history) updates m) : ∃ l, IsChain t m l := by
  obtain ⟨pre, hpre, rfl⟩ := h
  rw [← setTips_append]
  have hmem' : ∀ e ∈ history ++ pre, (t.height? e).isSome := by
    intro e he
    apply hmem e
    rcases mem_append.mp he with he | he
    · exact mem_append_left _ he
    · exact mem_append_right _ (hpre.subset he)
  obtain ⟨l, hl, -⟩ := isChain_setTips hlinked (isChain_empty t) hmem'
  exact ⟨l, hl⟩

/-- A call is wrong in one case only.  The chain is empty when the height is
read, so that no height is refused.  The height needs more than 32 bits, and
what is left of it is a height of the chain when the entry is read. -/
theorem at_height_linearizable_iff (hlinked : t.Linked) (hfit : t.HeightsFit)
    (hmem : ∀ e ∈ history ++ (before ++ between ++ after), (t.height? e).isSome) {height : Nat}
    (hheight : height < 2 ^ 64) :
    AtHeightLinearizable t (setTips t {} history) before between after height ↔
      ¬((setTips t (setTips t {} history) before).vChain = [] ∧ 2 ^ 32 ≤ height ∧ height % 2 ^ 32 <
          (setTips t (setTips t {} history) (before ++ between)).vChain.length) := by
  have hduring₁ : During t (setTips t {} history) (before ++ between ++ after)
      (setTips t (setTips t {} history) before) := ⟨before, ⟨between ++ after, by simp⟩, rfl⟩
  have hduring₂ : During t (setTips t {} history) (before ++ between ++ after)
      (setTips t (setTips t {} history) (before ++ between)) :=
    ⟨before ++ between, ⟨after, rfl⟩, rfl⟩
  obtain ⟨l₁, h₁⟩ := hduring₁.isChain_of_mem hlinked hmem
  obtain ⟨l₂, h₂⟩ := hduring₂.isChain_of_mem hlinked hmem
  have hlen₁ := h₁.length_le hlinked hfit
  have hlen₂ := h₂.length_le hlinked hfit
  have hempty : (setTips t (setTips t {} history) before).vChain = [] ↔ l₁ = [] := by
    rw [h₁.slots, map_eq_nil_iff]
  rw [AtHeightLinearizable, atHeightCall, atHeight_cases h₁ h₂ hlen₁ hlen₂ hheight, hempty,
    h₂.length_eq]
  constructor
  · intro ⟨m, hduring, hanswer⟩ ⟨hnil, hlarge, hlow⟩
    -- An entry is answered, and no chain has one so high up.
    obtain ⟨l, hm⟩ := hduring.isChain_of_mem hlinked hmem
    have hlen := hm.length_le hlinked hfit
    rw [if_neg (fun h => h.1 hnil), hm.entryAt_eq, getElem?_eq_getElem hlow,
      getElem?_eq_none (by omega)] at hanswer
    cases hanswer
  · intro hcase
    by_cases hbeyond : l₁ ≠ [] ∧ l₁.length ≤ height
    · -- The height is refused by the first read.
      refine ⟨_, hduring₁, ?_⟩
      rw [if_pos hbeyond, h₁.entryAt_eq, getElem?_eq_none hbeyond.2]
    · -- The second read decides.
      refine ⟨_, hduring₂, ?_⟩
      rw [if_neg hbeyond, h₂.entryAt_eq]
      by_cases hsmall : height < 2 ^ 32
      · rw [Nat.mod_eq_of_lt hsmall]
      · have hnil : l₁ = [] := by
          by_contra hne
          exact hbeyond ⟨hne, by omega⟩
        have hlow : ¬height % 2 ^ 32 < l₂.length := fun hlow => hcase ⟨hnil, by omega, hlow⟩
        rw [getElem?_eq_none (by omega), getElem?_eq_none (by omega)]

end Calls

/-! ## A chain that is empty at first -/

theorem heightsFit_forkTree : forkTree.HeightsFit := by
  intro e height he
  rcases e with _ | _ | _ | _ | e
  · cases he
    decide
  · cases he
    decide
  · cases he
    decide
  · cases he
    decide
  · cases he

/-- A reorganization to a shorter branch, and a height of the longer one. -/
theorem at_height_linearizable_reorg :
    AtHeightLinearizable forkTree (setTips forkTree {} [2]) [] [3] [] 2 :=
  (at_height_linearizable_iff linked_forkTree heightsFit_forkTree (by decide) (by decide)).mpr
    (by decide)

/-- The genesis block is connected between the reads.  The call for the height
`2 ^ 32` answers it. -/
theorem not_at_height_linearizable_empty :
    atHeightCall forkTree (setTips forkTree {} []) [] [0] (2 ^ 32) = some 0 ∧
      ¬AtHeightLinearizable forkTree (setTips forkTree {} []) [] [0] [] (2 ^ 32) := by
  have hanswer : atHeightCall forkTree (setTips forkTree {} []) [] [0] (2 ^ 32) = some 0 := by
    decide
  refine ⟨hanswer, ?_⟩
  intro ⟨m, hduring, heq⟩
  obtain ⟨pre, hpre, rfl⟩ := hduring
  rw [hanswer] at heq
  have hcases : pre = [] ∨ pre = [0] := by
    obtain ⟨rest, hrest⟩ := hpre
    cases pre with
    | nil => exact Or.inl rfl
    | cons e pre =>
      right
      simp only [nil_append, append_nil, cons_append, List.cons.injEq, append_eq_nil_iff] at hrest
      rw [hrest.1, hrest.2.1]
  rcases hcases with rfl | rfl <;> exact absurd heq (by decide)

end CChain

end BitcoinKernel.State
