import BitcoinKernel.Primitives.Types

/-!
# The five counted iterators of the crate

`BlockTransactionIter`, `BlockSpentOutputsIter`,
`TransactionSpentOutputsIter`, `TxInIter` and `TxOutIter` walk over a vector
of the kernel by index.  Each implements `Iterator` and `ExactSizeIterator`,
so `size_hint` and `len` must report the number of elements still to come.

Four of them have the same shape.  `next` answers `None` without moving when
the index has reached the count, and `size_hint` and `len` subtract the index
from that count.  `guardedIter` is this shape.  The two that differ keep
their own body:

* `BlockTransactionIter::next` moves the index in any case and leaves the
  test to `Block::transaction`;
* `TxOutIter::size_hint` counts the inputs of the transaction, while its
  `next` and `len` count the outputs.

`ExactSize` is the law of a counted iterator after any number of calls.
`countedIters_exactSize` proves it for four of the iterators and says exactly
when it holds for `TxOutIter`.

`none` in place of an answer is the failed assertion of a kernel getter that
is asked beyond the end of its vector.
-/

namespace BitcoinKernel.Core

/-- An iterator by index over a container.  `elems` is the vector that it
walks over; the methods take the container and the current index. -/
structure CountedIter (γ α : Type) where
  elems : γ → List α
  next : γ → Nat → Option (Option α × Nat)
  sizeHint : γ → Nat → Nat × Option Nat
  len : γ → Nat → Nat

namespace CountedIter

variable {γ α : Type}

/-- The answers of `k` calls of `next` on a new iterator, and the index after
them. -/
def calls (it : CountedIter γ α) (c : γ) : Nat → Option (List (Option α) × Nat)
  | 0 => some ([], 0)
  | k + 1 => do
      let (answers, index) ← it.calls c k
      let (answer, index) ← it.next c index
      return (answers ++ [answer], index)

/-- The law of an exact-size iterator after `k` calls: call `i` answered the
element `i`, or nothing beyond the end, and both counts are the number of
elements still to come. -/
def ExactSize (it : CountedIter γ α) (c : γ) (k : Nat) : Prop :=
  let n := (it.elems c).length
  let remaining := n - min n k
  ∃ answers index, it.calls c k = some (answers, index) ∧
    answers = (List.range k).map (fun i => (it.elems c)[i]?) ∧
    it.sizeHint c index = (remaining, some remaining) ∧ it.len c index = remaining

/-- The answers of an iterator whose index follows `position`. -/
theorem calls_eq {it : CountedIter γ α} {c : γ} {position : Nat → Nat} {bound : Nat}
    (h0 : position 0 = 0)
    (hnext : ∀ i, i < bound → it.next c (position i) = some ((it.elems c)[i]?, position (i + 1))) :
    ∀ k, k ≤ bound →
      it.calls c k = some ((List.range k).map (fun i => (it.elems c)[i]?), position k) := by
  intro k
  induction k with
  | zero => intro _; rw [calls, h0]; rfl
  | succ k ih =>
    intro hk
    rw [calls, ih (by omega), Option.bind_eq_bind, Option.bind_some]
    simp only [hnext k (by omega), Option.bind_eq_bind, Option.bind_some, Option.pure_def,
      List.range_succ, List.map_append, List.map_singleton]

/-- The law, for an iterator whose index is known after every call. -/
theorem exactSize_iff (it : CountedIter γ α) (c : γ) (bound : Nat) (position : Nat → Nat) {k : Nat}
    (h0 : position 0 = 0)
    (hnext : ∀ i, i < bound → it.next c (position i) = some ((it.elems c)[i]?, position (i + 1)))
    (hk : k ≤ bound) :
    it.ExactSize c k ↔ it.sizeHint c (position k) =
          ((it.elems c).length - min (it.elems c).length k,
            some ((it.elems c).length - min (it.elems c).length k)) ∧
        it.len c (position k) = (it.elems c).length - min (it.elems c).length k := by
  have hcalls := calls_eq h0 hnext k hk
  constructor
  · rintro ⟨answers, index, hrun, -, hlaw⟩
    rw [hcalls, Option.some.injEq, Prod.mk.injEq] at hrun
    rw [hrun.2]
    exact hlaw
  · intro hlaw
    exact ⟨_, _, hcalls, rfl, hlaw⟩

end CountedIter

/-! ## The common shape -/

/-- A kernel getter: it asserts that the index is in the vector. -/
def getAt {α : Type} (v : List α) (index : Nat) : Option α := v[index]?

/-- `next` of an iterator that stops at the count. -/
def guardedNext {α : Type} (v : List α) (currentIndex : Nat) : Option (Option α × Nat) :=
  if currentIndex ≥ v.length then some (none, currentIndex)
  else (getAt v currentIndex).map fun item => (some item, (currentIndex + 1) % 2 ^ 64)

/-- `count.saturating_sub(current_index)`, twice. -/
def remainingHint (count currentIndex : Nat) : Nat × Option Nat :=
  let remaining := count - currentIndex
  (remaining, some remaining)

/-- The shape of four of the iterators. -/
def guardedIter {γ α : Type} (vector : γ → List α) : CountedIter γ α where
  elems := vector
  next := fun c currentIndex => guardedNext (vector c) currentIndex
  sizeHint := fun c currentIndex => remainingHint (vector c).length currentIndex
  len := fun c currentIndex => (vector c).length - currentIndex

/-- `BlockSpentOutputsIter`. -/
def blockSpentOutputsIter : CountedIter BlockUndo TxUndo := guardedIter BlockUndo.vtxundo

/-- `TransactionSpentOutputsIter`. -/
def transactionSpentOutputsIter : CountedIter TxUndo Coin := guardedIter TxUndo.vprevout

/-- `TxInIter`. -/
def txInIter : CountedIter Transaction TxIn := guardedIter Transaction.vin

/-- `TxOutIter`.  Its `size_hint` reads `input_count`. -/
def txOutIter : CountedIter Transaction TxOut :=
  { guardedIter Transaction.vout with
    sizeHint := fun tx currentIndex => remainingHint tx.vin.length currentIndex }

/-- `Block::transaction`.  `none` in the answer is the error `OutOfBounds`. -/
def blockTransaction (block : Block) (index : Nat) : Option (Option Transaction) :=
  if index ≥ block.vtx.length then some none else (getAt block.vtx index).map some

/-- `BlockTransactionIter`. -/
def blockTransactionIter : CountedIter Block Transaction where
  elems := Block.vtx
  next := fun block currentIndex =>
    let index := currentIndex
    let currentIndex := (currentIndex + 1) % 2 ^ 64
    (blockTransaction block index).map (·, currentIndex)
  sizeHint := fun block currentIndex => remainingHint block.vtx.length currentIndex
  len := fun block currentIndex => block.vtx.length - currentIndex

/-! ## The law -/

/-- The index of a guarded iterator stops at the count. -/
theorem guardedNext_min {α : Type} {v : List α} (hlen : v.length < 2 ^ 64) (i : Nat) :
    guardedNext v (min v.length i) = some (v[i]?, min v.length (i + 1)) := by
  by_cases hi : i < v.length
  · have hwrap : (i + 1) % 2 ^ 64 = i + 1 := Nat.mod_eq_of_lt (by omega)
    rw [guardedNext, Nat.min_eq_right (Nat.le_of_lt hi), if_neg (by omega), getAt,
      List.getElem?_eq_getElem hi, Option.map_some, hwrap, Nat.min_eq_right hi]
  · rw [guardedNext, Nat.min_eq_left (by omega), if_pos (Nat.le_refl _),
      List.getElem?_eq_none (by omega), Nat.min_eq_left (by omega)]

theorem guardedIter_exactSize {γ α : Type} (vector : γ → List α) {c : γ}
    (hlen : (vector c).length < 2 ^ 64) (k : Nat) : (guardedIter vector).ExactSize c k := by
  have hlaw := CountedIter.exactSize_iff (guardedIter vector) c k
    (fun i => min (vector c).length i) (Nat.min_zero _) (fun i _ => guardedNext_min hlen i)
    (Nat.le_refl k)
  exact hlaw.mpr ⟨rfl, rfl⟩

/-- The index of `BlockTransactionIter` counts the calls. -/
theorem blockTransactionIter_next {block : Block} {i : Nat} (hi : i + 1 < 2 ^ 64) :
    blockTransactionIter.next block i = some (block.vtx[i]?, i + 1) := by
  have hwrap : (i + 1) % 2 ^ 64 = i + 1 := Nat.mod_eq_of_lt hi
  simp only [blockTransactionIter, blockTransaction, hwrap]
  by_cases hin : i < block.vtx.length
  · rw [if_neg (by omega), getAt, List.getElem?_eq_getElem hin]
    rfl
  · rw [if_pos (by omega), List.getElem?_eq_none (by omega)]
    rfl

theorem blockTransactionIter_exactSize (block : Block) {k : Nat} (hk : k < 2 ^ 64) :
    blockTransactionIter.ExactSize block k := by
  have hlaw := CountedIter.exactSize_iff blockTransactionIter block (2 ^ 64 - 1)
    (fun i => i) rfl (fun i hi => blockTransactionIter_next (by omega)) (Nat.le_sub_one_of_lt hk)
  rw [hlaw]
  have hremaining : block.vtx.length - min block.vtx.length k = block.vtx.length - k := by omega
  simp only [blockTransactionIter, remainingHint, hremaining, and_self]

/-- `TxOutIter` obeys the law where its two counts agree.  After the last
output the index has stopped at the output count, so fewer inputs than outputs
do no harm there. -/
theorem txOutIter_exactSize_iff {tx : Transaction} (hlen : tx.vout.length < 2 ^ 64) (k : Nat) :
    txOutIter.ExactSize tx k ↔ tx.vin.length = tx.vout.length ∨
        (tx.vout.length ≤ k ∧ tx.vin.length ≤ tx.vout.length) := by
  have hlaw := CountedIter.exactSize_iff txOutIter tx k
    (fun i => min tx.vout.length i) (Nat.min_zero _) (fun i _ => guardedNext_min hlen i)
    (Nat.le_refl k)
  rw [hlaw]
  simp only [txOutIter, guardedIter, remainingHint, Prod.mk.injEq, Option.some.injEq, and_self,
    and_true]
  omega

/-- The five iterators after `k` calls of `next`.  The bounds on the lengths are
those of `std::vector::size` and `usize`. -/
theorem countedIters_exactSize {k : Nat} (hk : k < 2 ^ 64) :
    (∀ block : Block, block.vtx.length < 2 ^ 64 → blockTransactionIter.ExactSize block k) ∧
    (∀ undo : BlockUndo, undo.vtxundo.length < 2 ^ 64 → blockSpentOutputsIter.ExactSize undo k) ∧
    (∀ undo : TxUndo, undo.vprevout.length < 2 ^ 64 →
      transactionSpentOutputsIter.ExactSize undo k) ∧
    (∀ tx : Transaction, tx.vin.length < 2 ^ 64 → txInIter.ExactSize tx k) ∧
    (∀ tx : Transaction, tx.vin.length < 2 ^ 64 → tx.vout.length < 2 ^ 64 →
      (txOutIter.ExactSize tx k ↔ tx.vin.length = tx.vout.length ∨
          (tx.vout.length ≤ k ∧ tx.vin.length ≤ tx.vout.length))) := by
  refine ⟨?_, ?_, ?_, ?_, ?_⟩
  · intro block _
    exact blockTransactionIter_exactSize block hk
  · intro undo hlen
    exact guardedIter_exactSize BlockUndo.vtxundo hlen k
  · intro undo hlen
    exact guardedIter_exactSize TxUndo.vprevout hlen k
  · intro tx hlen
    exact guardedIter_exactSize Transaction.vin hlen k
  · intro tx _ hlen
    exact txOutIter_exactSize_iff hlen k

/-- A transaction with `inputs` equal inputs and `outputs` equal outputs. -/
def sampleTransaction (inputs outputs : Nat) : Transaction where
  version := 2
  vin := List.replicate inputs
    { prevout := ⟨Uint256.null, 0⟩, scriptSig := [], nSequence := 0, scriptWitness := [] }
  vout := List.replicate outputs { nValue := 1000, scriptPubKey := [] }
  nLockTime := 0

/-- A block with `count` transactions. -/
def sampleBlock (count : Nat) : Block where
  nVersion := 1
  hashPrevBlock := Uint256.null
  hashMerkleRoot := Uint256.null
  nTime := 0
  nBits := 0
  nNonce := 0
  vtx := List.replicate count (sampleTransaction 1 1)

def sampleCoin : Coin := ⟨⟨1000, []⟩, false, 1⟩

/-- One call on small containers whose counts agree. -/
theorem countedIters_exactSize_one : blockTransactionIter.ExactSize (sampleBlock 2) 1 ∧
    blockSpentOutputsIter.ExactSize ⟨[⟨[sampleCoin]⟩, ⟨[]⟩]⟩ 1 ∧
    transactionSpentOutputsIter.ExactSize ⟨[sampleCoin, sampleCoin]⟩ 1 ∧
    txInIter.ExactSize (sampleTransaction 2 2) 1 ∧
    txOutIter.ExactSize (sampleTransaction 2 2) 1 := by
  have hlaws := countedIters_exactSize (k := 1) (by decide)
  exact ⟨hlaws.1 _ (by decide), hlaws.2.1 _ (by decide), hlaws.2.2.1 _ (by decide),
    hlaws.2.2.2.1 _ (by decide),
    (hlaws.2.2.2.2 _ (by decide) (by decide)).mpr (Or.inl (by decide))⟩

/-- A new iterator over the two outputs of a transaction with one input
announces one element. -/
theorem not_txOutIter_exactSize_one_two : ¬ txOutIter.ExactSize (sampleTransaction 1 2) 0 := by
  rw [txOutIter_exactSize_iff (by decide)]
  decide

end BitcoinKernel.Core
