import Mathlib.Data.Nat.Log
import BitcoinKernel.Consensus.Merkle

/-!
# When a merkle root determines its list

Two lists can have the same merkle root, because a level of odd length repeats
its last hash.  `ComputeMerkleRoot` therefore also notes whether two partners
of a level are equal.  This module proves that two lists with the same root and
no such partners are equal, over any type of hashes.

Nothing is assumed of a hash function but what the two trees need
(`NoCollision`): the pairs that are hashed in them do not collide, and none of
their hashes is a leaf.

There are three groups.

* One level.  `eq_of_levelPairs_eq`: the pairs of a level and the note that no
  partners are equal give back the list.
* The depth.  `Spine` is the way from a root to the first leaf.  Two roots that
  are equal have ways of the same length (`Spine.unique`), so the trees have the
  same depth.
* The whole tree, by induction on the depth (`eq_of_computeMerkleRoot_eq`).
-/

namespace BitcoinKernel.Consensus

open List

variable {α : Type}

/-! ## The pairs that are hashed -/

/-- The pairs that a pass hashes. -/
def levelPairs : List α → List (α × α)
  | [] => []
  | [last] => [(last, last)]
  | left :: right :: rest => (left, right) :: levelPairs rest

/-- The pairs that at most `fuel` passes hash. -/
def pairsLoop (hashPair : α → α → α) : (fuel : Nat) → List α → List (α × α)
  | 0, _ => []
  | fuel + 1, hashes =>
    if hashes.length > 1 then
      levelPairs hashes ++ pairsLoop hashPair fuel (merkleLevel hashPair hashes)
    else []

/-- The pairs that `ComputeMerkleRoot` hashes. -/
def hashedPairs (hashPair : α → α → α) (hashes : List α) : List (α × α) :=
  pairsLoop hashPair hashes.length hashes

variable (hashPair : α → α → α)

/-- The next level is made of the hashes of the pairs. -/
theorem merkleLevel_eq (hashes : List α) :
    merkleLevel hashPair hashes = (levelPairs hashes).map fun p => hashPair p.1 p.2 := by
  induction hashes using merkleLevel.induct with
  | case1 => rfl
  | case2 last => rfl
  | case3 left right rest ih => rw [merkleLevel, levelPairs, map_cons, ih]

variable {hashes l l' : List α} {P : α × α → Prop} {depth : Nat} {leaf root : α}

/-- Fuel beyond the number of hashes does not matter. -/
theorem pairsLoop_of_length_le {fuel fuel' : Nat} (h : hashes.length ≤ fuel)
    (h' : hashes.length ≤ fuel') :
    pairsLoop hashPair fuel hashes = pairsLoop hashPair fuel' hashes := by
  -- a list that is short enough hashes nothing, whatever the fuel
  have hstop : ∀ {n : Nat} {l : List α}, l.length ≤ 1 → pairsLoop hashPair n l = [] := by
    intro n l hl
    cases n with
    | zero => rfl
    | succ n => rw [pairsLoop, if_neg (by omega)]
  induction fuel generalizing fuel' hashes with
  | zero => rw [hstop (by omega), hstop (by omega)]
  | succ fuel ih =>
    by_cases hlen : hashes.length > 1
    · obtain ⟨fuel', rfl⟩ : ∃ k, fuel' = k + 1 := ⟨fuel' - 1, by omega⟩
      have hhalf := length_merkleLevel hashPair hashes
      rw [pairsLoop, pairsLoop, if_pos hlen, if_pos hlen]
      exact congrArg (levelPairs hashes ++ ·) (ih (by omega) (by omega))
    · rw [hstop (by omega), hstop (by omega)]

/-- The pairs of a list with more than one hash: those of its level, and those
of the levels behind it. -/
theorem hashedPairs_eq (h : hashes.length > 1) : hashedPairs hashPair hashes =
      levelPairs hashes ++ hashedPairs hashPair (merkleLevel hashPair hashes) := by
  have hhalf := length_merkleLevel hashPair hashes
  obtain ⟨fuel, hfuel⟩ : ∃ k, hashes.length = k + 1 := ⟨hashes.length - 1, by omega⟩
  rw [hashedPairs, hfuel, pairsLoop, if_pos h]
  exact congrArg (levelPairs hashes ++ ·)
    (pairsLoop_of_length_le hashPair (by omega) (Nat.le_refl _))

/-- The pairs hashed for two lists do not collide, and no hash of them is a
leaf. -/
structure NoCollision (l l' : List α) : Prop where
  injective : ∀ p ∈ hashedPairs hashPair l ++ hashedPairs hashPair l',
    ∀ q ∈ hashedPairs hashPair l ++ hashedPairs hashPair l',
      hashPair p.1 p.2 = hashPair q.1 q.2 → p = q
  leaves : ∀ p ∈ hashedPairs hashPair l ++ hashedPairs hashPair l', ∀ x ∈ l ++ l',
    hashPair p.1 p.2 ≠ x

/-! ## One level -/

/-- The pairs of a level give back the list, unless two partners are equal. -/
theorem eq_of_levelPairs_eq [DecidableEq α] (h : levelMutated l = false)
    (h' : levelMutated l' = false) (heq : levelPairs l = levelPairs l') : l = l' := by
  induction l using merkleLevel.induct generalizing l' with
  | case1 =>
    rcases l' with _ | ⟨left, _ | ⟨right, rest⟩⟩
    · rfl
    · cases heq
    · cases heq
  | case2 last =>
    rcases l' with _ | ⟨left, _ | ⟨right, rest⟩⟩
    · cases heq
    · rw [levelPairs, levelPairs, List.cons.injEq, Prod.mk.injEq] at heq
      rw [heq.1.1]
    · -- the last hash was paired with itself, so these partners are equal
      rw [levelPairs, levelPairs, List.cons.injEq, Prod.mk.injEq] at heq
      rw [levelMutated, ← heq.1.1, ← heq.1.2, beq_self_eq_true, Bool.true_or] at h'
      cases h'
  | case3 left right rest ih =>
    rcases l' with _ | ⟨left', _ | ⟨right', rest'⟩⟩
    · cases heq
    · rw [levelPairs, levelPairs, List.cons.injEq, Prod.mk.injEq] at heq
      rw [levelMutated, heq.1.1, heq.1.2, beq_self_eq_true, Bool.true_or] at h
      cases h
    · rw [levelPairs, levelPairs, List.cons.injEq, Prod.mk.injEq] at heq
      rw [levelMutated, Bool.or_eq_false_iff] at h h'
      rw [heq.1.1, heq.1.2, ih h.2 h'.2 heq.2]

/-! ## The depth -/

/-- The way from a root down to the first leaf, along pairs with `P`. -/
inductive Spine (P : α × α → Prop) : (depth : Nat) → (leaf root : α) → Prop
  | leaf (x : α) : Spine P 0 x x
  | node {depth : Nat} {leaf left : α} (right : α) (hleft : Spine P depth leaf left)
      (hpair : P (left, right)) : Spine P (depth + 1) leaf (hashPair left right)

variable {hashPair}

/-- A way that starts one level lower. -/
theorem Spine.extend {right : α} (h : Spine hashPair P depth (hashPair leaf right) root)
    (hpair : P (leaf, right)) : Spine hashPair P (depth + 1) leaf root := by
  generalize hstart : hashPair leaf right = start at h
  induction h with
  | leaf x =>
    subst hstart
    exact .node right (.leaf leaf) hpair
  | node right' _ hpair' ih => exact .node right' (ih hstart) hpair'

/-- Two ways from one root have the same length. -/
theorem Spine.unique (hinj : ∀ p q, P p → P q → hashPair p.1 p.2 = hashPair q.1 q.2 → p = q)
    {depth' : Nat} {leaf' : α} (hleaf : ∀ p, P p → hashPair p.1 p.2 ≠ leaf)
    (hleaf' : ∀ p, P p → hashPair p.1 p.2 ≠ leaf') (h : Spine hashPair P depth leaf root)
    (h' : Spine hashPair P depth' leaf' root) : depth = depth' := by
  induction h generalizing depth' with
  | leaf x =>
    cases h' with
    | leaf => rfl
    | node right _ hpair => exact absurd rfl (hleaf _ hpair)
  | @node depth leaf left right hleft hpair ih =>
    generalize hroot : hashPair left right = root at h'
    cases h' with
    | leaf => exact absurd hroot (hleaf' _ hpair)
    | @node depth' leaf' left' right' hleft' hpair' =>
      obtain ⟨rfl, rfl⟩ := Prod.mk.inj (hinj _ _ hpair hpair' hroot)
      rw [ih hleaf hleft']

/-- The first pair of a level starts with its first hash. -/
theorem levelPairs_cons (x : α) (rest : List α) :
    ∃ y pairs, levelPairs (x :: rest) = (x, y) :: pairs := by
  cases rest with
  | nil => exact ⟨x, [], rfl⟩
  | cons y rest => exact ⟨y, levelPairs rest, rfl⟩

variable (hashPair)

/-- A pass lowers the depth by one. -/
theorem clog_length_merkleLevel (h : hashes.length > 1) :
    Nat.clog 2 hashes.length = Nat.clog 2 (merkleLevel hashPair hashes).length + 1 := by
  rw [length_merkleLevel, Nat.clog_of_one_lt (by omega) h]
  rfl

/-- A list of depth 0 has at most one hash. -/
theorem length_gt_one_iff : hashes.length > 1 ↔ 0 < Nat.clog 2 hashes.length := by
  constructor
  · exact Nat.clog_pos (by omega)
  · intro hpos
    by_contra hle
    rw [Nat.clog_of_right_le_one (Nat.le_of_not_lt hle)] at hpos
    omega

/-- A level of more than one hash has a level behind it. -/
theorem merkleLevel_ne_nil (h : hashes.length > 1) : merkleLevel hashPair hashes ≠ [] := by
  have hhalf := length_merkleLevel hashPair hashes
  apply ne_nil_of_length_pos
  omega

variable [DecidableEq α]

/-- The root of a list with more than one hash is the root of the next level, and
a repeated part is found on this level or behind it. -/
theorem computeMerkleRoot_of_gt (h : hashes.length > 1) : (computeMerkleRoot hashPair hashes).1 =
        (computeMerkleRoot hashPair (merkleLevel hashPair hashes)).1 ∧
      (computeMerkleRoot hashPair hashes).2 =
        (levelMutated hashes || (computeMerkleRoot hashPair (merkleLevel hashPair hashes)).2) := by
  rw [computeMerkleRoot_eq hashPair hashes, if_pos h]
  exact ⟨rfl, rfl⟩

variable {hashPair}

/-- The root of a list lies above its first hash. -/
theorem exists_spine (n : Nat) {x : α} {rest : List α} (hdepth : Nat.clog 2 (x :: rest).length = n)
    (hpairs : ∀ p ∈ hashedPairs hashPair (x :: rest), P p) :
    ∃ root, (computeMerkleRoot hashPair (x :: rest)).1 = some root ∧ Spine hashPair P n x root := by
  induction n generalizing x rest with
  | zero =>
    have hlen : ¬(x :: rest).length > 1 := by
      rw [length_gt_one_iff]
      omega
    refine ⟨x, ?_, .leaf x⟩
    rw [computeMerkleRoot_eq, if_neg hlen]
    rfl
  | succ n ih =>
    have hgt : (x :: rest).length > 1 := by
      rw [length_gt_one_iff]
      omega
    rw [hashedPairs_eq hashPair hgt, forall_mem_append] at hpairs
    rw [clog_length_merkleLevel hashPair hgt] at hdepth
    obtain ⟨y, pairs, hfirst⟩ := levelPairs_cons x rest
    -- the next level starts with the hash of the first pair
    have hlevel : merkleLevel hashPair (x :: rest) =
        hashPair x y :: pairs.map fun p => hashPair p.1 p.2 := by
      rw [merkleLevel_eq, hfirst, map_cons]
    have hroot := (computeMerkleRoot_of_gt hashPair hgt).1
    rw [hlevel] at hdepth hpairs hroot
    obtain ⟨root, hnext, hspine⟩ := ih (Nat.succ.inj hdepth) hpairs.2
    have hpair : P (x, y) := hpairs.1 (x, y) (by rw [hfirst]; exact mem_cons_self)
    exact ⟨root, hroot.trans hnext, hspine.extend hpair⟩

/-! ## The whole tree -/

/-- A function that is injective on the elements of two lists. -/
theorem eq_of_map_eq {β γ : Type} {f : β → γ} {l l' : List β}
    (hinj : ∀ a ∈ l, ∀ b ∈ l', f a = f b → a = b) (heq : l.map f = l'.map f) : l = l' := by
  induction l generalizing l' with
  | nil => exact (map_eq_nil_iff.mp heq.symm).symm
  | cons a l ih =>
    obtain ⟨b, l'', rfl, hb, hrest⟩ := map_eq_cons_iff.mp heq.symm
    have hhead := hinj a mem_cons_self b mem_cons_self hb.symm
    have htail := ih (fun x hx y hy => hinj x (mem_cons_of_mem _ hx) y
      (mem_cons_of_mem _ hy)) hrest.symm
    rw [hhead, htail]

/-- Two lists of one depth with the same root and no equal partners. -/
theorem eq_of_clog_eq (hinj : ∀ p q, P p → P q → hashPair p.1 p.2 = hashPair q.1 q.2 → p = q)
    (n : Nat) :
    ∀ {l l' : List α}, l ≠ [] → l' ≠ [] → Nat.clog 2 l.length = n → Nat.clog 2 l'.length = n →
      (∀ p ∈ hashedPairs hashPair l, P p) → (∀ p ∈ hashedPairs hashPair l', P p) →
      (computeMerkleRoot hashPair l).2 = false → (computeMerkleRoot hashPair l').2 = false →
      (computeMerkleRoot hashPair l).1 = (computeMerkleRoot hashPair l').1 → l = l' := by
  -- a list of depth 0 is its root
  have hsingle : ∀ {l : List α}, l ≠ [] → Nat.clog 2 l.length = 0 →
      ∃ x, l = [x] ∧ (computeMerkleRoot hashPair l).1 = some x := by
    intro l hne hdepth
    have hpos := length_pos_iff.mpr hne
    have hle : ¬l.length > 1 := by
      rw [length_gt_one_iff]
      omega
    have hlen : l.length = 1 := by omega
    obtain ⟨x, rfl⟩ := length_eq_one_iff.mp hlen
    refine ⟨x, rfl, ?_⟩
    rw [computeMerkleRoot_eq]
    rfl
  induction n with
  | zero =>
    intro l l' hne hne' hdepth hdepth' _ _ _ _ hroot
    obtain ⟨x, rfl, hx⟩ := hsingle hne hdepth
    obtain ⟨x', rfl, hx'⟩ := hsingle hne' hdepth'
    rw [hx, hx', Option.some.injEq] at hroot
    rw [hroot]
  | succ n ih =>
    intro l l' hne hne' hdepth hdepth' hpairs hpairs' hmutated hmutated' hroot
    have hgt : l.length > 1 := length_gt_one_iff.mpr (by omega)
    have hgt' : l'.length > 1 := length_gt_one_iff.mpr (by omega)
    rw [hashedPairs_eq hashPair hgt, forall_mem_append] at hpairs
    rw [hashedPairs_eq hashPair hgt', forall_mem_append] at hpairs'
    rw [clog_length_merkleLevel hashPair hgt] at hdepth
    rw [clog_length_merkleLevel hashPair hgt'] at hdepth'
    obtain ⟨hup, hnote⟩ := computeMerkleRoot_of_gt hashPair hgt
    obtain ⟨hup', hnote'⟩ := computeMerkleRoot_of_gt hashPair hgt'
    rw [hnote, Bool.or_eq_false_iff] at hmutated
    rw [hnote', Bool.or_eq_false_iff] at hmutated'
    rw [hup, hup'] at hroot
    have hlevel := ih (merkleLevel_ne_nil hashPair hgt) (merkleLevel_ne_nil hashPair hgt')
      (Nat.succ.inj hdepth) (Nat.succ.inj hdepth') hpairs.2 hpairs'.2 hmutated.2 hmutated'.2 hroot
    rw [merkleLevel_eq, merkleLevel_eq] at hlevel
    have hsame : levelPairs l = levelPairs l' :=
      eq_of_map_eq (fun p hp q hq => hinj p q (hpairs.1 p hp) (hpairs'.1 q hq)) hlevel
    exact eq_of_levelPairs_eq hmutated.1 hmutated'.1 hsame

/-- Two lists with the same root and no equal partners are equal, unless the hash
of a pair collides in them. -/
theorem eq_of_computeMerkleRoot_eq (h : NoCollision hashPair l l') (hne : l ≠ []) (hne' : l' ≠ [])
    (hmutated : (computeMerkleRoot hashPair l).2 = false)
    (hmutated' : (computeMerkleRoot hashPair l').2 = false)
    (hroot : (computeMerkleRoot hashPair l).1 = (computeMerkleRoot hashPair l').1) : l = l' := by
  let P : α × α → Prop := fun p => p ∈ hashedPairs hashPair l ++ hashedPairs hashPair l'
  have hpairs : ∀ p ∈ hashedPairs hashPair l, P p := fun p hp => mem_append_left _ hp
  have hpairs' : ∀ p ∈ hashedPairs hashPair l', P p := fun p hp => mem_append_right _ hp
  have hinj : ∀ p q, P p → P q → hashPair p.1 p.2 = hashPair q.1 q.2 → p = q :=
    fun p q hp hq => h.injective p hp q hq
  have hdepth : Nat.clog 2 l.length = Nat.clog 2 l'.length := by
    obtain ⟨x, rest, rfl⟩ := exists_cons_of_ne_nil hne
    obtain ⟨x', rest', rfl⟩ := exists_cons_of_ne_nil hne'
    obtain ⟨root, hfirst, hspine⟩ := exists_spine _ rfl hpairs
    obtain ⟨root', hfirst', hspine'⟩ := exists_spine _ rfl hpairs'
    rw [hfirst, hfirst'] at hroot
    cases hroot
    refine hspine.unique hinj (fun p hp => ?_) (fun p hp => ?_) hspine'
    · exact h.leaves p hp x (mem_append_left _ mem_cons_self)
    · exact h.leaves p hp x' (mem_append_right _ mem_cons_self)
  exact eq_of_clog_eq hinj _ hne hne' hdepth rfl hpairs hpairs' hmutated hmutated' hroot

end BitcoinKernel.Consensus
