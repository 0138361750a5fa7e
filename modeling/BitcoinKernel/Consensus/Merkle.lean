import Mathlib.Data.List.Basic

/-!
# The merkle root of a list of hashes

`ComputeMerkleRoot` of `consensus/merkle.cpp`, over any type of hashes and any
hash of a pair.  One pass of its loop hashes the level in pairs
(`merkleLevel`), the last hash with itself if it has no partner, and notes
whether two partners are equal (`levelMutated`).  A pass halves the number of
hashes, so the loop ends within as many passes as there are hashes
(`computeMerkleRoot_eq`).
-/

namespace BitcoinKernel.Consensus

variable {α : Type} (hashPair : α → α → α)

/-- The hashes of the next level. -/
def merkleLevel : List α → List α
  | [] => []
  | [last] => [hashPair last last]
  | left :: right :: rest => hashPair left right :: merkleLevel rest

/-- A pass halves the number of hashes, rounding up. -/
theorem length_merkleLevel (hashes : List α) :
    (merkleLevel hashPair hashes).length = (hashes.length + 1) / 2 := by
  induction hashes using merkleLevel.induct with
  | case1 => simp [merkleLevel]
  | case2 last => simp [merkleLevel]
  | case3 left right rest ih =>
    simp only [merkleLevel, List.length_cons, ih]
    omega

variable [DecidableEq α]

/-- Whether two partners of a level are equal. -/
def levelMutated : List α → Bool
  | left :: right :: rest => left == right || levelMutated rest
  | _ => false

/-- The loop of `ComputeMerkleRoot`, at most `fuel` passes of it. -/
def merkleLoop : (fuel : Nat) → (mutation : Bool) → List α → Option α × Bool
  | 0, mutation, hashes => (hashes.head?, mutation)
  | fuel + 1, mutation, hashes =>
    if hashes.length > 1 then
      merkleLoop fuel (mutation || levelMutated hashes) (merkleLevel hashPair hashes)
    else (hashes.head?, mutation)

/-- `ComputeMerkleRoot`: the root, or `none` for no hashes, and whether the list
repeats a part of itself. -/
def computeMerkleRoot (hashes : List α) : Option α × Bool :=
  merkleLoop hashPair hashes.length false hashes

/-- The loop stops at one hash. -/
theorem merkleLoop_of_length_le_one (fuel : Nat) (mutation : Bool) {hashes : List α}
    (h : hashes.length ≤ 1) :
    merkleLoop hashPair fuel mutation hashes = (hashes.head?, mutation) := by
  cases fuel with
  | zero => rfl
  | succ fuel => rw [merkleLoop, if_neg (by omega)]

/-- Fuel beyond the number of hashes does not matter. -/
theorem merkleLoop_of_length_le {fuel fuel' : Nat} {hashes : List α} (mutation : Bool)
    (h : hashes.length ≤ fuel) (h' : hashes.length ≤ fuel') :
    merkleLoop hashPair fuel mutation hashes = merkleLoop hashPair fuel' mutation hashes := by
  induction fuel generalizing fuel' hashes mutation with
  | zero => simp only [merkleLoop_of_length_le_one hashPair _ _ (show hashes.length ≤ 1 by omega)]
  | succ fuel ih =>
    by_cases hlen : hashes.length > 1
    · obtain ⟨fuel', rfl⟩ : ∃ k, fuel' = k + 1 := ⟨fuel' - 1, by omega⟩
      have hhalf := length_merkleLevel hashPair hashes
      rw [merkleLoop, merkleLoop, if_pos hlen, if_pos hlen]
      exact ih _ (by omega) (by omega)
    · simp only [merkleLoop_of_length_le_one hashPair _ _ (Nat.le_of_not_gt hlen)]

/-- A mutation that was found is not forgotten. -/
theorem merkleLoop_mutation (fuel : Nat) (mutation : Bool) (hashes : List α) :
    merkleLoop hashPair fuel mutation hashes = ((merkleLoop hashPair fuel false hashes).1,
        mutation || (merkleLoop hashPair fuel false hashes).2) := by
  induction fuel generalizing mutation hashes with
  | zero => simp [merkleLoop]
  | succ fuel ih =>
    simp only [merkleLoop]
    split
    · rw [ih, ih (false || levelMutated hashes)]
      simp [Bool.or_assoc]
    · simp

/-- The loop, unrolled once: its passes do not run out. -/
theorem computeMerkleRoot_eq (hashes : List α) : computeMerkleRoot hashPair hashes =
      if hashes.length > 1 then
        ((computeMerkleRoot hashPair (merkleLevel hashPair hashes)).1,
          levelMutated hashes || (computeMerkleRoot hashPair (merkleLevel hashPair hashes)).2)
      else (hashes.head?, false) := by
  split
  · next hlen =>
      have hhalf := length_merkleLevel hashPair hashes
      obtain ⟨fuel, hfuel⟩ : ∃ k, hashes.length = k + 1 := ⟨hashes.length - 1, by omega⟩
      rw [computeMerkleRoot, hfuel, merkleLoop, if_pos hlen, Bool.false_or,
        merkleLoop_mutation, merkleLoop_of_length_le hashPair false
          (by omega : (merkleLevel hashPair hashes).length ≤ fuel) (Nat.le_refl _)]
      rfl
  · next hlen => exact merkleLoop_of_length_le_one hashPair _ _ (Nat.le_of_not_gt hlen)

end BitcoinKernel.Consensus
