import BitcoinKernel.State.AncestorCost
import BitcoinKernel.State.ChainMembership

/-!
# The last common ancestor

`LastCommonAncestor` (`chain.cpp`) walks back from two nodes of one height.  While their
skip pointers differ it follows them, and then it goes to the previous nodes once.

* `Searchable` is what the walk needs of the tree: every node above height 0 has a skip
  pointer, and those at height 0 have none.  Every tree that was grown by adding headers is
  searchable (`searchable_addHeaders`).
* `common_iff_of_apart`: two nodes of one height, and the nodes that are reached from them
  in as many steps, have the same common ancestors, if the ways have not met before.
* `lastCommonAncestor_spec`: the walk returns, its assumptions hold, and the common
  ancestors of the two nodes are the ancestors of the node that it returns.

A null pointer is `none`.  The walk returns it for nodes without a common ancestor.  The
outer `none` is a failed assumption or an access through a null pointer.
-/

namespace BitcoinKernel.State.BlockTree

open RootPath Option

/-! ## The model -/

/-- The inner loop of `LastCommonAncestor`.  Every turn goes down, so the height of the
nodes is enough fuel. -/
def jumpBack (t : BlockTree) : Nat → EntryPtr → EntryPtr → Option (EntryPtr × EntryPtr)
  | fuel, pa, pb => do
      let a ← t.index? pa
      let b ← t.index? pb
      if a.pskip = b.pskip then return (pa, pb)
      else
        match fuel with
        | 0 => none
        | fuel + 1 => do
            let skipA ← a.pskip
            let skipB ← b.pskip
            if a.nHeight ≠ b.nHeight ∨ t.height? skipA ≠ t.height? skipB then none
            else jumpBack t fuel skipA skipB

/-- The outer loop of `LastCommonAncestor`. -/
def lastCommonAncestorLoop (t : BlockTree) :
    Nat → Option EntryPtr → Option EntryPtr → Option (Option EntryPtr)
  | fuel, pa, pb =>
    if pa = pb then some pa
    else
      match fuel with
      | 0 => none
      | fuel + 1 => do
          let a ← pa
          let b ← pb
          let (a, b) ← t.jumpBack fuel a b
          lastCommonAncestorLoop t fuel (t.parent a) (t.parent b)

/-- `LastCommonAncestor`. -/
def lastCommonAncestor (t : BlockTree) (pa pb : EntryPtr) : Option (Option EntryPtr) := do
  let a ← t.index? pa
  let b ← t.index? pb
  if a.nHeight > b.nHeight then
    let pa ← t.getAncestor pa b.nHeight
    t.lastCommonAncestorLoop (b.nHeight + 1) pa (some pb)
  else if b.nHeight > a.nHeight then
    let pb ← t.getAncestor pb a.nHeight
    t.lastCommonAncestorLoop (a.nHeight + 1) (some pa) pb
  else t.lastCommonAncestorLoop (a.nHeight + 1) (some pa) (some pb)

/-! ## Trees with skip pointers -/

/-- The nodes at height 0 have no skip pointer. -/
def RootsPlain (t : BlockTree) : Prop :=
  ∀ e index, t.index? e = some index → index.nHeight = 0 → index.pskip = none

/-- What the walk needs of the tree. -/
structure Searchable (t : BlockTree) : Prop extends t.WellFormed where
  hasSkips : t.HasSkips
  rootsPlain : t.RootsPlain

theorem RootsPlain.append {t t' : BlockTree} {index : BlockIndex} {block : BlockHeader}
    {hash : Uint256} (h : t.RootsPlain) (happend : Appended t t' index)
    (hlinks : NewLinks t t.entries.length block hash index) : t'.RootsPlain := by
  intro e found he hzero
  rcases happend.cases he with hold | ⟨-, rfl⟩
  · exact h e found hold hzero
  · cases hlinks with
    | root _ _ hpskip _ => exact hpskip
    | child _ _ _ _ _ _ _ hheight _ => omega
    | itself _ _ _ _ hheight => omega

/-- Headers that do not name themselves as the previous one make a searchable tree. -/
theorem searchable_addHeaders {getHash : BlockHeader → Uint256} {headers : List BlockHeader}
    (hself : ∀ block ∈ headers, getHash block ≠ block.hashPrevBlock) {t : BlockTree}
    {best : Option EntryPtr} (h : addHeaders getHash headers = some (t, best)) :
    t.Searchable := by
  refine ⟨wellFormed_addHeaders hself h, (hasSkips_addHeaders h).2, ?_⟩
  exact (addHeaders_invariant (fun e index he => by cases he) RootsPlain.append h).2

/-! ## Common ancestors -/

variable {t : BlockTree} {a b a' b' x : EntryPtr} {n k height : Nat}

/-- The node is reached by going to previous nodes. -/
def IsAncestor (t : BlockTree) (e x : EntryPtr) : Prop := ∃ n, climb t.parent n e = some x

/-- The node is an ancestor of two nodes. -/
def Common (t : BlockTree) (a b x : EntryPtr) : Prop := t.IsAncestor a x ∧ t.IsAncestor b x

theorem Common.swap (h : t.Common a b x) : t.Common b a x := ⟨h.2, h.1⟩

/-- The way up counts the heights. -/
theorem Linked.height?_climb (h : t.Linked) {e : EntryPtr} (he : t.height? e = some height)
    (hclimb : climb t.parent n e = some x) :
    ∃ heightX, t.height? x = some heightX ∧ height = heightX + n := by
  induction n generalizing height e with
  | zero =>
    cases hclimb
    exact ⟨height, he, rfl⟩
  | succ n ih =>
    obtain ⟨prev, hprev, hclimb⟩ := bind_eq_some_iff.mp hclimb
    have hlinked := h e height he
    rw [hprev] at hlinked
    obtain ⟨heightPrev, hheightPrev, hsucc⟩ := hlinked
    obtain ⟨heightX, hx, hsum⟩ := ih hheightPrev hclimb
    exact ⟨heightX, hx, by omega⟩

/-- From nodes of one height a common ancestor is reached in as many steps. -/
theorem Common.exists_climb (h : t.Linked) (ha : t.height? a = some height)
    (hb : t.height? b = some height) (hx : t.Common a b x) :
    ∃ n, climb t.parent n a = some x ∧ climb t.parent n b = some x := by
  obtain ⟨⟨n, hn⟩, ⟨m, hm⟩⟩ := hx
  obtain ⟨heightX, hx, hsum⟩ := h.height?_climb ha hn
  obtain ⟨heightX', hx', hsum'⟩ := h.height?_climb hb hm
  cases hx.symm.trans hx'
  obtain rfl : n = m := by omega
  exact ⟨n, hn, hm⟩

/-- The ways from two nodes of one height that have not met in `k` steps lead to nodes with
the same common ancestors. -/
theorem common_iff_of_apart (h : t.Linked) (ha : t.height? a = some height)
    (hb : t.height? b = some height) (hapart : ∀ j < k, climb t.parent j a ≠ climb t.parent j b)
    (hka : climb t.parent k a = some a') (hkb : climb t.parent k b = some b') (x : EntryPtr) :
    t.Common a b x ↔ t.Common a' b' x := by
  constructor
  · intro hx
    obtain ⟨n, hna, hnb⟩ := hx.exists_climb h ha hb
    have hle : k ≤ n := by
      by_contra hlt
      exact hapart n (Nat.lt_of_not_le hlt) (hna.trans hnb.symm)
    obtain ⟨r, rfl⟩ := Nat.exists_eq_add_of_le hle
    rw [climb_add, hka, bind_some] at hna
    rw [climb_add, hkb, bind_some] at hnb
    exact ⟨⟨r, hna⟩, ⟨r, hnb⟩⟩
  · rintro ⟨⟨n, hn⟩, ⟨m, hm⟩⟩
    refine ⟨⟨k + n, ?_⟩, ⟨k + m, ?_⟩⟩
    · rw [climb_add, hka, bind_some, hn]
    · rw [climb_add, hkb, bind_some, hm]

/-- Two nodes at height 0 have no common ancestor unless they are one. -/
theorem not_common_of_roots (h : t.Linked) (ha : t.height? a = some 0)
    (hb : t.height? b = some 0) (hne : a ≠ b) : ¬ t.Common a b x := by
  intro hx
  obtain ⟨n, hna, hnb⟩ := hx.exists_climb h ha hb
  obtain ⟨_, -, hzero⟩ := h.height?_climb ha hna
  obtain rfl : n = 0 := by omega
  exact hne (Option.some.inj (hna.trans hnb.symm))

/-- Rewinding the higher node. -/
theorem common_iff_of_climb (h : t.Linked) {heightA heightB : Nat} (ha : t.height? a = some heightA)
    (hb : t.height? b = some heightB) (hle : heightB ≤ heightA)
    (hclimb : climb t.parent (heightA - heightB) a = some a') (x : EntryPtr) :
    t.Common a b x ↔ t.Common a' b x := by
  constructor
  · rintro ⟨⟨n, hn⟩, ⟨m, hm⟩⟩
    obtain ⟨heightX, hx, hsum⟩ := h.height?_climb ha hn
    obtain ⟨heightX', hx', hsum'⟩ := h.height?_climb hb hm
    cases hx.symm.trans hx'
    obtain rfl : n = heightA - heightB + m := by omega
    rw [climb_add, hclimb, bind_some] at hn
    exact ⟨⟨m, hn⟩, ⟨m, hm⟩⟩
  · rintro ⟨⟨n, hn⟩, hb'⟩
    refine ⟨⟨heightA - heightB + n, ?_⟩, hb'⟩
    rw [climb_add, hclimb, bind_some, hn]

/-! ## The walk -/

theorem exists_index?_of_height? {e : EntryPtr} (h : t.height? e = some height) :
    ∃ index, t.index? e = some index ∧ index.nHeight = height :=
  map_eq_some_iff.mp h

/-- What a skip pointer leads to. -/
theorem Searchable.skip (h : t.Searchable) {e : EntryPtr} (he : t.height? e = some height)
    (hpos : 0 < height) : ∃ index skip, t.index? e = some index ∧ index.pskip = some skip ∧
      climb t.parent (height - getSkipHeight height) e = some skip ∧
      t.height? skip = some (getSkipHeight height) := by
  obtain ⟨index, hindex, rfl⟩ := exists_index?_of_height? he
  obtain ⟨skip, hskip⟩ := h.hasSkips e index hindex hpos
  have hclimb := h.skipExact e index skip hindex hskip
  obtain ⟨heightX, hx, hsum⟩ := h.linked.height?_climb he hclimb
  have hlt := getSkipHeight_lt hpos
  obtain rfl : heightX = getSkipHeight index.nHeight := by omega
  exact ⟨index, skip, hindex, hskip, hclimb, hx⟩

/-- The inner loop ends at two nodes of one height whose common ancestors are those of the
nodes where it began. -/
theorem jumpBack_spec (h : t.Searchable) {fuel : Nat} (ha : t.height? a = some height)
    (hb : t.height? b = some height) (hne : a ≠ b) (hfuel : height ≤ fuel) :
    ∃ a' b' height', t.jumpBack fuel a b = some (a', b') ∧ t.height? a' = some height' ∧
      t.height? b' = some height' ∧ height' ≤ height ∧ a' ≠ b' ∧
      ∀ x, t.Common a b x ↔ t.Common a' b' x := by
  induction fuel generalizing height a b with
  | zero =>
    obtain ⟨indexA, hA, hheightA⟩ := exists_index?_of_height? ha
    obtain ⟨indexB, hB, hheightB⟩ := exists_index?_of_height? hb
    have hskips : indexA.pskip = indexB.pskip := by
      rw [h.rootsPlain a indexA hA (by omega), h.rootsPlain b indexB hB (by omega)]
    refine ⟨a, b, height, ?_, ha, hb, Nat.le_refl _, hne, fun x => Iff.rfl⟩
    rw [jumpBack, hA, hB, bind_eq_bind, bind_some, bind_some, if_pos hskips]
    rfl
  | succ fuel ih =>
    obtain ⟨indexA, hA, hheightA⟩ := exists_index?_of_height? ha
    obtain ⟨indexB, hB, hheightB⟩ := exists_index?_of_height? hb
    by_cases hskips : indexA.pskip = indexB.pskip
    · refine ⟨a, b, height, ?_, ha, hb, Nat.le_refl _, hne, fun x => Iff.rfl⟩
      rw [jumpBack, hA, hB, bind_eq_bind, bind_some, bind_some, if_pos hskips]
      rfl
    · have hpos : 0 < height := by
        by_contra hzero
        exact hskips (by
          rw [h.rootsPlain a indexA hA (by omega), h.rootsPlain b indexB hB (by omega)])
      obtain ⟨_, skipA, hA', hskipA, hclimbA, hatA⟩ := h.skip ha hpos
      obtain ⟨_, skipB, hB', hskipB, hclimbB, hatB⟩ := h.skip hb hpos
      cases hA.symm.trans hA'
      cases hB.symm.trans hB'
      have hskipNe : skipA ≠ skipB := fun heq => hskips (by rw [hskipA, hskipB, heq])
      have hlt := getSkipHeight_lt hpos
      -- ways that meet before the skip height are one from there on
      have hapart : ∀ j < height - getSkipHeight height,
          climb t.parent j a ≠ climb t.parent j b := by
        intro j hj heq
        obtain ⟨r, hr⟩ := Nat.exists_eq_add_of_le (Nat.le_of_lt hj)
        rw [hr, climb_add, heq, ← climb_add, ← hr, hclimbB] at hclimbA
        exact hskipNe (Option.some.inj hclimbA).symm
      obtain ⟨a', b', height', hloop, ha', hb', hle, hne', hcommon⟩ :=
        ih hatA hatB hskipNe (by omega)
      refine ⟨a', b', height', ?_, ha', hb', by omega, hne', fun x => ?_⟩
      · have hassume : ¬ (indexA.nHeight ≠ indexB.nHeight ∨ t.height? skipA ≠ t.height? skipB) := by
          rw [hatA, hatB, hheightA, hheightB]
          simp
        rw [jumpBack, hA, hB, bind_eq_bind, bind_some, bind_some, if_neg hskips]
        dsimp only
        rw [hskipA, hskipB, bind_eq_bind, bind_some, bind_some, if_neg hassume, hloop]
      · rw [common_iff_of_apart h.linked ha hb hapart hclimbA hclimbB x]
        exact hcommon x

theorem lastCommonAncestorLoop_self (t : BlockTree) (fuel : Nat) (p : Option EntryPtr) :
    t.lastCommonAncestorLoop fuel p p = some p := by
  unfold lastCommonAncestorLoop
  rw [if_pos rfl]

/-- The outer loop returns the last common ancestor of two nodes of one height. -/
theorem lastCommonAncestorLoop_spec (h : t.Searchable) {fuel : Nat} (ha : t.height? a = some height)
    (hb : t.height? b = some height) (hfuel : height < fuel) :
    ∃ r, t.lastCommonAncestorLoop fuel (some a) (some b) = some r ∧
      ∀ x, t.Common a b x ↔ ∃ fork, r = some fork ∧ t.IsAncestor fork x := by
  induction fuel generalizing height a b with
  | zero => omega
  | succ fuel ih =>
    by_cases heq : a = b
    · subst heq
      refine ⟨some a, lastCommonAncestorLoop_self t _ _, fun x => ?_⟩
      constructor
      · exact fun hx => ⟨a, rfl, hx.1⟩
      · rintro ⟨fork, hfork, hx⟩
        cases hfork
        exact ⟨hx, hx⟩
    · obtain ⟨a₁, b₁, height₁, hjump, ha₁, hb₁, hle, hne₁, hcommon⟩ :=
        jumpBack_spec h ha hb heq (Nat.le_of_lt_succ hfuel)
      have hptr : ¬ (some a : Option EntryPtr) = some b := fun hsome =>
        heq (Option.some.inj hsome)
      have hstep : t.lastCommonAncestorLoop (fuel + 1) (some a) (some b) =
          t.lastCommonAncestorLoop fuel (t.parent a₁) (t.parent b₁) := by
        rw [lastCommonAncestorLoop, if_neg hptr]
        dsimp only
        rw [bind_eq_bind, bind_some, bind_some, hjump, bind_eq_bind, bind_some]
      rw [hstep]
      have hlinkedA := h.linked a₁ height₁ ha₁
      have hlinkedB := h.linked b₁ height₁ hb₁
      cases hprevA : t.parent a₁ with
      | none =>
        rw [hprevA] at hlinkedA
        have hzero : height₁ = 0 := hlinkedA
        subst hzero
        have hprevB : t.parent b₁ = none := by
          cases hprevB : t.parent b₁ with
          | none => rfl
          | some prev =>
            rw [hprevB] at hlinkedB
            obtain ⟨_, -, hsucc⟩ := hlinkedB
            omega
        rw [hprevB]
        refine ⟨none, lastCommonAncestorLoop_self t _ _, fun x => ?_⟩
        rw [hcommon x]
        refine iff_of_false (not_common_of_roots h.linked ha₁ hb₁ hne₁) ?_
        rintro ⟨fork, hfork, -⟩
        cases hfork
      | some prevA =>
        rw [hprevA] at hlinkedA
        obtain ⟨heightA, hatA, hsuccA⟩ := hlinkedA
        cases hprevB : t.parent b₁ with
        | none =>
          rw [hprevB] at hlinkedB
          have hzero : height₁ = 0 := hlinkedB
          omega
        | some prevB =>
          rw [hprevB] at hlinkedB
          obtain ⟨heightB, hatB, hsuccB⟩ := hlinkedB
          obtain rfl : heightA = heightB := by omega
          obtain ⟨r, hloop, hr⟩ := ih hatA hatB (by omega)
          refine ⟨r, hloop, fun x => ?_⟩
          have hapart : ∀ j < 1, climb t.parent j a₁ ≠ climb t.parent j b₁ := by
            intro j hj hsame
            obtain rfl : j = 0 := by omega
            exact hne₁ (Option.some.inj hsame)
          rw [hcommon x, common_iff_of_apart h.linked ha₁ hb₁ hapart
            (by rw [climb_one, hprevA]) (by rw [climb_one, hprevB]) x]
          exact hr x

/-- `LastCommonAncestor` returns the node whose ancestors are the common ancestors of two
nodes, and null if they have none. -/
theorem lastCommonAncestor_spec (h : t.Searchable) {indexA indexB : BlockIndex}
    (ha : t.index? a = some indexA) (hb : t.index? b = some indexB) :
    ∃ r, t.lastCommonAncestor a b = some r ∧
      ∀ x, t.Common a b x ↔ ∃ fork, r = some fork ∧ t.IsAncestor fork x := by
  have hheightA : t.height? a = some indexA.nHeight := by rw [height?, ha, map_some]
  have hheightB : t.height? b = some indexB.nHeight := by rw [height?, hb, map_some]
  unfold lastCommonAncestor
  rw [ha, hb, bind_eq_bind, bind_some, bind_some]
  by_cases hgt : indexA.nHeight > indexB.nHeight
  · obtain ⟨found, hfound, hclimb⟩ :=
      getAncestor_climb h.skipLinked h.skipExact ha (Nat.le_of_lt hgt)
    obtain ⟨heightX, hx, hsum⟩ := h.linked.height?_climb hheightA hclimb
    obtain rfl : heightX = indexB.nHeight := by omega
    obtain ⟨r, hloop, hr⟩ := lastCommonAncestorLoop_spec h hx hheightB (Nat.lt_succ_self _)
    refine ⟨r, ?_, fun x => ?_⟩
    · rw [if_pos hgt, hfound, bind_eq_bind, bind_some, hloop]
    · rw [common_iff_of_climb h.linked hheightA hheightB (Nat.le_of_lt hgt) hclimb x]
      exact hr x
  · rw [if_neg hgt]
    by_cases hlt : indexB.nHeight > indexA.nHeight
    · obtain ⟨found, hfound, hclimb⟩ :=
        getAncestor_climb h.skipLinked h.skipExact hb (Nat.le_of_lt hlt)
      obtain ⟨heightX, hx, hsum⟩ := h.linked.height?_climb hheightB hclimb
      obtain rfl : heightX = indexA.nHeight := by omega
      obtain ⟨r, hloop, hr⟩ := lastCommonAncestorLoop_spec h hheightA hx (Nat.lt_succ_self _)
      refine ⟨r, ?_, fun x => ?_⟩
      · rw [if_pos hlt, hfound, bind_eq_bind, bind_some, hloop]
      · have hswap := common_iff_of_climb h.linked hheightB hheightA (Nat.le_of_lt hlt) hclimb x
        rw [← hr x]
        exact ⟨fun hc => (hswap.mp hc.swap).swap, fun hc => (hswap.mpr hc.swap).swap⟩
    · have heq : indexB.nHeight = indexA.nHeight := by omega
      rw [heq] at hheightB
      obtain ⟨r, hloop, hr⟩ := lastCommonAncestorLoop_spec h hheightA hheightB
        (Nat.lt_succ_self _)
      exact ⟨r, by rw [if_neg hlt, hloop], hr⟩

/-- On every tree that was grown by adding headers, `LastCommonAncestor` returns for any two
nodes, and the common ancestors of the nodes are the node that it returns and the ancestors
of that node. -/
theorem last_common_ancestor_exact {getHash : BlockHeader → Uint256} {headers : List BlockHeader}
    (hself : ∀ block ∈ headers, getHash block ≠ block.hashPrevBlock) :
    ∃ t best, addHeaders getHash headers = some (t, best) ∧
      ∀ a b indexA indexB, t.index? a = some indexA → t.index? b = some indexB →
        ∃ r, t.lastCommonAncestor a b = some r ∧
          ∀ x, t.Common a b x ↔ ∃ fork, r = some fork ∧ t.IsAncestor fork x := by
  obtain ⟨t, best, hrun, -⟩ := grown_addHeaders getHash headers
  exact ⟨t, best, hrun, fun a b indexA indexB ha hb =>
    lastCommonAncestor_spec (searchable_addHeaders hself hrun) ha hb⟩

open CChain.Membership.Sample in
/-- The branches of the sample meet in the genesis block only. -/
theorem last_common_ancestor_fork : ∃ t best, addHeaders nonceHash headers = some (t, best) ∧
    t.lastCommonAncestor 2 3 = some (some 0) ∧
    ∀ x, t.Common 2 3 x ↔ t.IsAncestor 0 x := by
  obtain ⟨t, best, hrun, hspec⟩ := last_common_ancestor_exact
    (by decide : ∀ block ∈ headers, nonceHash block ≠ block.hashPrevBlock)
  have htree : tree = t := by rw [tree, hrun, map_some, getD_some]
  subst htree
  obtain ⟨indexA, hA⟩ : ∃ index, tree.index? 2 = some index :=
    isSome_iff_exists.mp (by decide +kernel)
  obtain ⟨indexB, hB⟩ : ∃ index, tree.index? 3 = some index :=
    isSome_iff_exists.mp (by decide +kernel)
  obtain ⟨r, hr, hcommon⟩ := hspec 2 3 indexA indexB hA hB
  have hfork : tree.lastCommonAncestor 2 3 = some (some 0) := by decide +kernel
  cases hfork.symm.trans hr
  refine ⟨tree, best, hrun, hfork, fun x => (hcommon x).trans ?_⟩
  simp

end BitcoinKernel.State.BlockTree
