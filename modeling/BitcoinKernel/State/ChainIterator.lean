import Mathlib.Tactic.NormNum
import BitcoinKernel.State.Chain

/-!
# `Chain::at_height` and the iterator over a chain that grows

`Chain::at_height` reads the height of the chain and then the entry, under
two locks, and casts between `i32` and `usize` on the way.  An empty chain
has height `-1`, which is the largest `usize`, so the first test lets every
height through and the second read decides.

`ChainIterator::next` looks up the height in `current_height` and adds one to
it in any case.  A call that finds no entry therefore moves on as well, and
the block that is appended later at that height is never returned.

`IterEvent` is what can happen: a block is appended, or the iterator is
polled.  Blocks can also arrive between the two reads of a poll.
`available` reads off the events alone which polls find the chain long
enough.  `chainIterator_gapless_iff` says that the iterator returns the
chain without a gap exactly when no poll that finds an entry comes after a
poll that finds none.
-/

namespace BitcoinKernel.State

open RootPath List

/-- The cast `i32 as usize`. -/
def asUsize (i : Int) : Nat := (i % 2 ^ 64).toNat

/-- The cast `usize as i32`. -/
def asI32 (n : Nat) : Int := Int.bmod n (2 ^ 32)

theorem asI32_of_lt {n : Nat} (h : n < 2 ^ 31) : asI32 n = n := by
  unfold asI32
  exact Int.bmod_eq_of_le (by norm_num) (by norm_num; omega)

theorem asUsize_natCast {n : Nat} (h : n < 2 ^ 64) : asUsize n = n := by
  rw [asUsize]
  omega

namespace CChain

/-- `Chain::at_height`, where the height is read from the chain `c₁` and the
entry from the chain `c₂`. -/
def atHeight (c₁ c₂ : CChain) (height : Nat) : Option EntryPtr :=
  let tipHeight := c₁.height
  if height > asUsize tipHeight then none else c₂.get (asI32 height)

/-- The number of entries that a poll can see, when the chain has `len`
entries at the first read and `more` arrive before the second. -/
def visible (len more : Nat) : Nat := if len = 0 then more else len

/-- `at_height` on a chain that grows between the reads. -/
theorem atHeight_eq {t : BlockTree} {c₁ c₂ : CChain} {l more : List EntryPtr} (h₁ : IsChain t c₁ l)
    (h₂ : IsChain t c₂ (l ++ more)) (hlen : (l ++ more).length < 2 ^ 31) {height : Nat}
    (hheight : height < 2 ^ 31 ∨ (l ≠ [] ∧ height < 2 ^ 64)) :
    atHeight c₁ c₂ height =
      if height < visible l.length more.length then (l ++ more)[height]? else none := by
  rw [length_append] at hlen
  rw [atHeight, visible, h₁.height_eq]
  by_cases hnil : l = []
  · -- the height `-1` of the empty chain passes the test
    subst hnil
    have hlt : height < 2 ^ 31 := hheight.resolve_right fun h => h.1 rfl
    have hmax : asUsize ((([] : List EntryPtr).length : Int) - 1) = 2 ^ 64 - 1 := by decide
    rw [hmax, if_neg (by omega), asI32_of_lt hlt, h₂.get_natCast, nil_append,
      length_nil, if_pos rfl]
    split
    · rfl
    · rename_i hout
      exact getElem?_eq_none (Nat.le_of_not_lt hout)
  · have hpos := length_pos_iff.mpr hnil
    have hcast : asUsize ((l.length : Int) - 1) = l.length - 1 := by
      rw [show (l.length : Int) - 1 = ((l.length - 1 : Nat) : Int) by omega]
      exact asUsize_natCast (by omega)
    rw [hcast, if_neg (Nat.pos_iff_ne_zero.mp hpos)]
    by_cases hlt : height < l.length
    · rw [if_neg (by omega), if_pos hlt, asI32_of_lt (by omega), h₂.get_natCast]
    · rw [if_pos (by omega), if_neg hlt]

/-! ## The iterator -/

/-- What can happen to a chain and an iterator over it.  `next` carries the
blocks that arrive between its two reads. -/
inductive IterEvent where
  | append (block : EntryPtr)
  | next (between : List EntryPtr)
deriving DecidableEq, Repr

namespace IterEvent

/-- The blocks that an event appends. -/
def blocks : IterEvent → List EntryPtr
  | .append block => [block]
  | .next between => between

/-- Whether the event is a call of the iterator. -/
def isNext : IterEvent → Bool
  | .append _ => false
  | .next _ => true

end IterEvent

/-- The blocks that the events append. -/
def appended (events : List IterEvent) : List EntryPtr := events.flatMap IterEvent.blocks

/-- The answers of `ChainIterator::next`, from the chain `c` and the position
`currentHeight` on. -/
def iterate (t : BlockTree) : CChain → Nat → List IterEvent → List (Option EntryPtr)
  | _, _, [] => []
  | c, currentHeight, .append block :: events =>
    iterate t (setTip t c block) currentHeight events
  | c, currentHeight, .next between :: events =>
    let height := currentHeight
    let currentHeight := (currentHeight + 1) % 2 ^ 64
    let c' := setTips t c between
    atHeight c c' height :: iterate t c' currentHeight events

/-- The entries that the iterator yields. -/
def yields (t : BlockTree) (c : CChain) (events : List IterEvent) : List EntryPtr :=
  (iterate t c 0 events).filterMap id

/-- The yielded entries are those at the heights 0, 1, 2 and so on. -/
def Gapless (t : BlockTree) (c : CChain) (events : List IterEvent) : Prop :=
  (yields t c events).map some <+: (setTips t c (appended events)).vChain

instance (t : BlockTree) (c : CChain) (events : List IterEvent) : Decidable (Gapless t c events) :=
  inferInstanceAs (Decidable (_ <+: _))

/-- Which polls find the chain long enough, from a chain of `len` entries and
the poll `poll` on. -/
def available : Nat → Nat → List IterEvent → List Bool
  | _, _, [] => []
  | len, poll, .append _ :: events => available (len + 1) poll events
  | len, poll, .next between :: events =>
    decide (poll < visible len between.length) ::
      available (len + between.length) (poll + 1) events

/-- The answers of the iterator, in terms of the final chain. -/
theorem iterate_eq {t : BlockTree} (hlinked : t.Linked) :
    ∀ (events : List IterEvent) {c : CChain} {l : List EntryPtr} {poll : Nat}, IsChain t c l →
      IsRootPath t.parent (l ++ appended events) →
      (∀ e ∈ appended events, (t.height? e).isSome) → (l ++ appended events).length < 2 ^ 31 →
      (poll + events.countP IterEvent.isNext ≤ 2 ^ 31 ∨
        (l ≠ [] ∧ poll + events.countP IterEvent.isNext < 2 ^ 64)) →
      iterate t c poll events = ((available l.length poll events).zipIdx poll).map
        fun p => if p.1 then (l ++ appended events)[p.2]? else none := by
  intro events
  induction events with
  | nil => intros; rfl
  | cons event events ih =>
    intro c l poll hc hpath hmem hlen hpolls
    -- the blocks of the event extend the chain, whichever event it is
    have hsplit : l ++ appended (event :: events) = (l ++ event.blocks) ++ appended events := by
      rw [appended, flatMap_cons, ← append_assoc, appended]
    rw [hsplit] at hpath hlen ⊢
    have hmem' : ∀ e ∈ event.blocks, (t.height? e).isSome := fun e he =>
      hmem e (mem_flatMap.mpr ⟨event, mem_cons_self, he⟩)
    have hrest : ∀ e ∈ appended events, (t.height? e).isSome := fun e he => by
      obtain ⟨event', hin, he⟩ := mem_flatMap.mp he
      exact hmem e (mem_flatMap.mpr ⟨event', mem_cons_of_mem _ hin, he⟩)
    have hc' := isChain_setTips_of_path hlinked hc hpath.of_append hmem'
    cases event with
    | append block =>
      rw [countP_cons_of_neg (by simp [IterEvent.isNext])] at hpolls
      have hpolls' := hpolls.imp_right fun h =>
        And.intro (append_ne_nil_of_left_ne_nil h.1 [block]) h.2
      rw [iterate, available, ← length_singleton (a := block), ← length_append]
      exact ih hc' hpath hrest hlen hpolls'
    | next between =>
      simp only [IterEvent.blocks] at hpath hlen hc' ⊢
      rw [countP_cons_of_pos (by simp [IterEvent.isNext])] at hpolls
      have hwrap : (poll + 1) % 2 ^ 64 = poll + 1 := Nat.mod_eq_of_lt (by omega)
      have hlen' : (l ++ between).length < 2 ^ 31 := by
        rw [length_append] at hlen
        exact Nat.lt_of_le_of_lt (Nat.le_add_right _ _) hlen
      have hheight : poll < 2 ^ 31 ∨ (l ≠ [] ∧ poll < 2 ^ 64) :=
        hpolls.imp (fun h => by omega) fun h => ⟨h.1, by omega⟩
      have hpolls' : poll + 1 + events.countP IterEvent.isNext ≤ 2 ^ 31 ∨
          (l ++ between ≠ [] ∧ poll + 1 + events.countP IterEvent.isNext < 2 ^ 64) :=
        hpolls.imp (fun h => by omega)
          fun h => ⟨append_ne_nil_of_left_ne_nil h.1 between, by omega⟩
      have hvisible : poll < visible l.length between.length → poll < (l ++ between).length := by
        rw [visible, length_append]
        split <;> omega
      rw [iterate, available, zipIdx_cons, map_cons, hwrap, ← length_append,
        ← ih hc' hpath hrest hlen hpolls', atHeight_eq hc hc' hlen' hheight]
      simp only [decide_eq_true_eq]
      refine congrArg (· :: _) ?_
      split
      · rename_i hlt
        rw [getElem?_append_left (hvisible hlt)]
      · rfl

/-- A poll that finds the chain long enough finds an entry of the final chain. -/
theorem lt_of_available (events : List IterEvent) {len poll i : Nat}
    (h : (available len poll events)[i]? = some true) :
    poll + i < len + (appended events).length := by
  induction events generalizing len poll i with
  | nil => cases h
  | cons event events ih =>
    have hlen : (appended (event :: events)).length =
        event.blocks.length + (appended events).length := by
      rw [appended, flatMap_cons, length_append, appended]
    rw [hlen]
    cases event with
    | append block =>
      have := ih h
      rw [IterEvent.blocks, length_singleton]
      omega
    | next between =>
      rw [IterEvent.blocks]
      cases i with
      | zero =>
        have hvisible : poll < visible len between.length :=
          of_decide_eq_true (Option.some.inj h)
        rw [visible] at hvisible
        split at hvisible <;> omega
      | succ i =>
        have := ih h
        omega

/-- The entries of `l` from the position `k` on that are picked by `picked`. -/
def pick (l : List EntryPtr) (k : Nat) (picked : List Bool) : List EntryPtr :=
  (picked.zipIdx k).filterMap fun p => if p.1 then l[p.2]? else none

theorem pick_cons_true {l : List EntryPtr} {k : Nat} (hk : k < l.length) (picked : List Bool) :
    pick l k (true :: picked) = l[k] :: pick l (k + 1) picked := by
  simp [pick, zipIdx_cons, hk]

theorem pick_cons_false (l : List EntryPtr) (k : Nat) (picked : List Bool) :
    pick l k (false :: picked) = pick l (k + 1) picked := by
  simp [pick, zipIdx_cons]

/-- What is picked from the position `k` on comes from there. -/
theorem pick_subset (l : List EntryPtr) (picked : List Bool) : ∀ k, pick l k picked ⊆ l.drop k := by
  induction picked with
  | nil => intro k; simp [pick]
  | cons b picked ih =>
    intro k
    have hdrop : l.drop (k + 1) ⊆ l.drop k := by
      rw [← drop_drop]
      exact drop_subset _ _
    cases b with
    | false =>
      rw [pick_cons_false]
      exact List.Subset.trans (ih (k + 1)) hdrop
    | true =>
      by_cases hk : k < l.length
      · rw [pick_cons_true hk, cons_subset]
        refine ⟨?_, List.Subset.trans (ih (k + 1)) hdrop⟩
        rw [drop_eq_getElem_cons hk]
        exact mem_cons_self
      · have hnone : l[k]? = none := getElem?_eq_none (Nat.le_of_not_lt hk)
        have heq : pick l k (true :: picked) = pick l (k + 1) picked := by
          simp [pick, zipIdx_cons, hnone]
        rw [heq]
        exact List.Subset.trans (ih (k + 1)) hdrop

theorem pick_eq_nil_iff {l : List EntryPtr} (picked : List Bool) (k : Nat)
    (hlt : ∀ i, picked[i]? = some true → k + i < l.length) :
    pick l k picked = [] ↔ ∀ b ∈ picked, b = false := by
  induction picked generalizing k with
  | nil => simp [pick]
  | cons b picked ih =>
    have hlt' : ∀ i, picked[i]? = some true → k + 1 + i < l.length := fun i hi => by
      have := hlt (i + 1) hi
      omega
    cases b with
    | true =>
      have hk : k < l.length := hlt 0 rfl
      simp [pick_cons_true hk]
    | false => rw [pick_cons_false, ih (k + 1) hlt', forall_mem_cons, and_iff_right rfl]

/-- The picked entries of a list without repetitions form an initial part of
it exactly when nothing is picked after a gap. -/
theorem pick_prefix_iff {l : List EntryPtr} (hnodup : l.Nodup) (picked : List Bool) (k : Nat)
    (hlt : ∀ i, picked[i]? = some true → k + i < l.length) :
    pick l k picked <+: l.drop k ↔ picked.Pairwise fun a b => b = true → a = true := by
  induction picked generalizing k with
  | nil => simp [pick]
  | cons b picked ih =>
    have hlt' : ∀ i, picked[i]? = some true → k + 1 + i < l.length := fun i hi => by
      have := hlt (i + 1) hi
      omega
    have ih' := ih (k + 1) hlt'
    cases b with
    | true =>
      have hk : k < l.length := hlt 0 rfl
      rw [pick_cons_true hk, drop_eq_getElem_cons hk, prefix_cons_inj, ih', pairwise_cons]
      simp
    | false =>
      rw [pick_cons_false, pairwise_cons]
      constructor
      · intro hinitial
        -- the first picked entry would have to be the one that was left out
        have hnil : pick l (k + 1) picked = [] := by
          cases hpick : pick l (k + 1) picked with
          | nil => rfl
          | cons x rest =>
            rw [hpick] at hinitial
            have hk : k < l.length := by
              by_contra hge
              rw [drop_eq_nil_of_le (Nat.le_of_not_lt hge)] at hinitial
              exact absurd (prefix_nil.mp hinitial) (by simp)
            rw [drop_eq_getElem_cons hk, cons_prefix_cons] at hinitial
            have hx : x ∈ l.drop (k + 1) := pick_subset l picked (k + 1) (hpick ▸ mem_cons_self)
            have hdrop := (drop_eq_getElem_cons hk) ▸ hnodup.sublist (drop_sublist k l)
            exact absurd (hinitial.1 ▸ hx) (nodup_cons.mp hdrop).1
        refine ⟨fun b hb hbt => ?_, ih'.mp (hnil ▸ nil_prefix)⟩
        exact absurd hbt (by rw [(pick_eq_nil_iff picked (k + 1) hlt').mp hnil b hb]; simp)
      · rintro ⟨hall, -⟩
        have hnil := (pick_eq_nil_iff picked (k + 1) hlt').mpr
          fun b hb => Bool.eq_false_iff.mpr fun hbt => absurd (hall b hb hbt) (by simp)
        rw [hnil]
        exact nil_prefix

theorem map_some_prefix_iff {l l' : List EntryPtr} : l.map some <+: l'.map some ↔ l <+: l' := by
  refine ⟨fun h => ?_, fun h => h.map some⟩
  have hinitial := h.filterMap id
  rwa [filterMap_map, filterMap_map, Function.id_comp, filterMap_some, filterMap_some] at hinitial

/-- The iterator yields the chain without a gap exactly when no poll that
finds an entry comes after a poll that finds none. -/
theorem chainIterator_gapless_iff {t : BlockTree} (hlinked : t.Linked) {c : CChain}
    {l : List EntryPtr} (hc : IsChain t c l) {events : List IterEvent}
    (hpath : IsRootPath t.parent (l ++ appended events))
    (hmem : ∀ e ∈ appended events, (t.height? e).isSome)
    (hlen : (l ++ appended events).length < 2 ^ 31)
    (hpolls : events.countP IterEvent.isNext ≤ 2 ^ 31 ∨
      (l ≠ [] ∧ events.countP IterEvent.isNext < 2 ^ 64)) :
    Gapless t c events ↔
      (available l.length 0 events).Pairwise fun found found' => found' = true → found = true := by
  have hmem' : ∀ x ∈ l ++ appended events, (t.height? x).isSome := fun x hx =>
    (mem_append.mp hx).elim (hc.mem x) (hmem x)
  have hyields :
      yields t c events = pick (l ++ appended events) 0 (available l.length 0 events) := by
    rw [yields, iterate_eq hlinked events hc hpath hmem hlen (by simpa using hpolls), pick,
      filterMap_map]
    rfl
  have hbound : ∀ i, (available l.length 0 events)[i]? = some true →
      0 + i < (l ++ appended events).length := fun i hi => by
    rw [length_append]
    exact lt_of_available events hi
  rw [Gapless, (isChain_setTips_of_path hlinked hc hpath hmem).slots, hyields,
    map_some_prefix_iff, ← pick_prefix_iff (nodup_of_path hlinked hpath hmem') _ 0 hbound,
    drop_zero]

/-! ## A poll at the tip -/

/-- A tree without branches. -/
def lineTree : BlockTree where
  entries := [{ hash := Uint256.filled 0 },
    { hash := Uint256.filled 1, pprev := some 0, nHeight := 1 },
    { hash := Uint256.filled 2, pprev := some 1, nHeight := 2 }]
  nodup := by decide

theorem linked_lineTree : lineTree.Linked := by
  intro e height he
  rcases e with _ | _ | _ | e
  · exact (Option.some.inj he).symm
  · exact ⟨0, rfl, (Option.some.inj he).symm⟩
  · exact ⟨1, rfl, (Option.some.inj he).symm⟩
  · cases he

theorem isRootPath_lineTree : IsRootPath lineTree.parent [0, 1, 2] := by
  have h₀ : IsRootPath lineTree.parent ([] ++ [0]) := .snoc .nil rfl
  have h₁ : IsRootPath lineTree.parent ([0] ++ [1]) := .snoc h₀ rfl
  have h₂ : IsRootPath lineTree.parent ([0, 1] ++ [2]) := .snoc h₁ rfl
  exact h₂

/-- An iterator that is never polled at the tip before a block arrives. -/
theorem chainIterator_gapless_sample :
    Gapless lineTree ⟨[some 0]⟩ [.next [], .append 1, .next [], .append 2, .next [], .next []] := by
  have hc : IsChain lineTree ⟨[some 0]⟩ [0] :=
    ⟨rfl, IsRootPath.of_append (m := [1, 2]) isRootPath_lineTree, by decide⟩
  refine (chainIterator_gapless_iff linked_lineTree hc ?_ (by decide) (by decide)
    (by decide)).mpr (by decide)
  exact isRootPath_lineTree

/-- An iterator that is polled at the tip once before two blocks arrive
misses the first of them. -/
theorem not_chainIterator_gapless_sample :
    ¬ Gapless lineTree ⟨[some 0]⟩ [.next [], .next [], .append 1, .append 2, .next []] := by
  decide

end CChain

end BitcoinKernel.State
