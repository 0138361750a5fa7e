import Mathlib.Algebra.BigOperators.Group.Finset.Basic
import Mathlib.Algebra.Order.BigOperators.Group.Finset
import Mathlib.Data.Finset.Range
import BitcoinKernel.Lib.Runs
import BitcoinKernel.Validation.CheckQueue

/-!
# What `Complete` returns

The comment of `CCheckQueue` says that the overall result is `std::nullopt` if all
checks return it, and one of the other results otherwise.  `complete_verdict`
proves this of every order of the steps, every number of workers and any number of
rounds on one queue.

The invariant `Inv` says where the checks of the current round are.  Two of its
fields carry the argument.

* `covered`: a check that was added and may fail is in the queue, in a batch, or its
  error is on its way to `m_result`.
* `brought_mem`: a thread keeps `local_result` over the rounds, and skips batches
  once there is an error.  A result that is left over from an earlier round is
  reported only into a `m_result` that is set already.

`Inv.move` is the rule for one step of one thread, and the step lemma `Inv.step`
uses it for all steps but `Add` and the return of `Complete`.
-/

namespace BitcoinKernel.Validation.CheckQueue

open Finset Function

variable {T R : Type}

/-! ## Where the checks are -/

/-- The checks that the thread still has to subtract from `nTodo`. -/
def Pc.held : Pc T R → Nat
  | .atLock l | .atWork _ _ l => l.nNow
  | _ => 0

/-- The batch that the thread executes. -/
def Pc.batch : Pc T R → List T
  | .atWork vChecks _ _ => vChecks
  | _ => []

/-- The result that the thread brings to the next clean-up. -/
def Pc.brought : Pc T R → Option R
  | .atLock l => if l.nNow ≠ 0 then l.localResult else none
  | _ => none

/-- The thread has no part of the work. -/
def Pc.Empty : Pc T R → Prop
  | .atLock l => l.nNow = 0
  | .atWork _ _ _ => False
  | _ => True

section

variable (l : Local R) (vChecks : List T) (doWork : Bool)

@[simp] theorem held_atLock : (Pc.atLock l : Pc T R).held = l.nNow := rfl
@[simp] theorem held_atWork : (Pc.atWork vChecks doWork l).held = l.nNow := rfl
@[simp] theorem held_locked : (Pc.locked l : Pc T R).held = 0 := rfl
@[simp] theorem held_waiting : (Pc.waiting l : Pc T R).held = 0 := rfl
@[simp] theorem held_woken : (Pc.woken l : Pc T R).held = 0 := rfl
@[simp] theorem held_outside : (Pc.outside : Pc T R).held = 0 := rfl

end

variable {pc : Pc T R} {workers nBatchSize : Nat} {check : T → Option R} {vChecks : List T}
  {r : Option R} {w : World T R} {labels : List (Label T)}

theorem Pc.Empty.held (h : pc.Empty) : pc.held = 0 := by
  cases pc with
  | atLock l => exact h
  | atWork vChecks doWork l => exact h.elim
  | _ => rfl

theorem Pc.Empty.batch (h : pc.Empty) : pc.batch = [] := by
  cases pc with
  | atWork vChecks doWork l => exact h.elim
  | _ => rfl

theorem Pc.Empty.brought (h : pc.Empty) : pc.brought = none := by
  cases pc with
  | atLock l => exact if_neg (not_not_intro h)
  | _ => rfl

/-- What `Complete` has to return for the checks of a round. -/
def Verdict (check : T → Option R) (checks : List T) (r : Option R) : Prop :=
  (r = none ↔ ∀ c ∈ checks, check c = none) ∧ ∀ e, r = some e → ∃ c ∈ checks, check c = some e

/-- The state of a round. -/
structure Inv (check : T → Option R) (workers : Nat) (w : World T R) : Prop where
  /-- There are no further threads. -/
  outside : ∀ i, workers < i → w.threads i = .outside
  /-- The queue and the batches are what is left to do. -/
  todo : w.nTodo = w.queue.length + ∑ i ∈ range (workers + 1), (w.threads i).held
  /-- What is left to do was added in this round. -/
  todo_le : w.nTodo ≤ w.added.length
  /-- A batch has the size that is subtracted for it, and is not empty. -/
  size : ∀ i vChecks doWork l, w.threads i = .atWork vChecks doWork l →
    l.nNow = vChecks.length ∧ vChecks ≠ []
  /-- A batch is skipped only when there is a result. -/
  skipped : ∀ i vChecks l, w.threads i = .atWork vChecks false l → w.result.isSome
  /-- Queued checks are of this round. -/
  queue_subset : w.queue ⊆ w.added
  /-- Checks in a batch are of this round. -/
  batch_subset : ∀ i, (w.threads i).batch ⊆ w.added
  /-- The result is one of this round. -/
  result_mem : ∀ e, w.result = some e → ∃ c ∈ w.added, check c = some e
  /-- A result that a thread may still report is one of this round. -/
  brought_mem : ∀ i e, (w.threads i).brought = some e →
    w.result.isSome ∨ ∃ c ∈ w.added, check c = some e
  /-- An added check is passed, or still to be done, or there is an error. -/
  covered : ∀ c ∈ w.added, check c = none ∨ c ∈ w.queue ∨ (∃ i, c ∈ (w.threads i).batch) ∨
    w.result.isSome ∨ ∃ i, (w.threads i).brought.isSome
  /-- What `Complete` has returned was right. -/
  answers : ∀ a ∈ w.answers, Verdict check a.1 a.2

/-- A sum over all threads when one of them moves. -/
theorem sum_update_add {i : Nat} (hi : i ≤ workers) (f : Pc T R → Nat) (threads : Nat → Pc T R)
    (pc : Pc T R) :
    ∑ j ∈ range (workers + 1), f (update threads i pc j) + f (threads i) =
      ∑ j ∈ range (workers + 1), f (threads j) + f pc := by
  have hmem : i ∈ range (workers + 1) := mem_range.mpr (by omega)
  have hrest : ∑ j ∈ (range (workers + 1)).erase i, f (update threads i pc j) =
      ∑ j ∈ (range (workers + 1)).erase i, f (threads j) :=
    sum_congr rfl fun j hj => by rw [update_of_ne (ne_of_mem_erase hj)]
  have hnew := add_sum_erase (range (workers + 1)) (fun j => f (update threads i pc j)) hmem
  have hold := add_sum_erase (range (workers + 1)) (fun j => f (threads j)) hmem
  simp only [update_self, hrest] at hnew
  omega

/-- The swap keeps the first error. -/
theorem merged_result (w : World T R) (l : Local R) :
    (if swaps w l then l.localResult else w.result) = w.result.or l.localResult := by
  unfold swaps
  cases hr : w.result <;> cases hl : l.localResult <;> rfl

/-- A batch that passes leaves no result, whatever was there before. -/
theorem runChecks_eq_none (hne : vChecks ≠ []) (h : runChecks check vChecks r = none) :
    ∀ c ∈ vChecks, check c = none := by
  induction vChecks generalizing r with
  | nil => exact absurd rfl hne
  | cons c vChecks ih =>
    rw [runChecks] at h
    cases hc : check c with
    | some e => simp [hc] at h
    | none =>
      simp only [hc] at h
      rw [List.forall_mem_cons]
      refine ⟨hc, ?_⟩
      cases vChecks with
      | nil => simp
      | cons => exact ih (by simp) h

/-- The result of a batch is one of its errors. -/
theorem runChecks_eq_some {e : R} (hne : vChecks ≠ []) (h : runChecks check vChecks r = some e) :
    ∃ c ∈ vChecks, check c = some e := by
  induction vChecks generalizing r with
  | nil => exact absurd rfl hne
  | cons c vChecks ih =>
    rw [runChecks] at h
    cases hc : check c with
    | some e' =>
      simp only [hc, Option.some.injEq] at h
      exact ⟨c, List.mem_cons_self, by rw [hc, h]⟩
    | none =>
      simp only [hc] at h
      cases vChecks with
      | nil => cases h
      | cons =>
        obtain ⟨c', hmem, hc'⟩ := ih (by simp) h
        exact ⟨c', List.mem_cons_of_mem _ hmem, hc'⟩

namespace Inv

variable {check : T → Option R} {workers : Nat} {w : World T R} {i : Nat} {l : Local R}

theorem le_workers (h : Inv check workers w) (hpc : w.threads i ≠ .outside) : i ≤ workers := by
  by_contra hlt
  exact hpc (h.outside i (by omega))

theorem held_le (h : Inv check workers w) (i : Nat) : (w.threads i).held ≤ w.nTodo := by
  by_cases hi : i ≤ workers
  · have hsum := single_le_sum (f := fun j => (w.threads j).held) (s := range (workers + 1))
      (fun _ _ => Nat.zero_le _) (mem_range.mpr (show i < workers + 1 by omega))
    have htodo := h.todo
    omega
  · rw [h.outside i (by omega)]
    exact Nat.zero_le _

/-- Nothing is left to do: no thread has a batch or brings a result. -/
theorem idle_of_todo (h : Inv check workers w) (htodo : w.nTodo = 0) (i : Nat) :
    (w.threads i).batch = [] ∧ (w.threads i).brought = none := by
  have hheld := h.held_le i
  rw [htodo, Nat.le_zero] at hheld
  cases hpc : w.threads i with
  | atWork vChecks doWork l =>
    obtain ⟨hsize, hne⟩ := h.size i vChecks doWork l hpc
    rw [hpc, Pc.held, hsize, List.length_eq_zero_iff] at hheld
    exact absurd hheld hne
  | atLock l =>
    rw [hpc, Pc.held] at hheld
    simp [Pc.batch, Pc.brought, hheld]
  | _ => exact ⟨rfl, rfl⟩

theorem init : Inv check workers (World.init workers) where
  outside i hi := if_neg (by omega)
  todo := by
    simp only [World.init, List.length_nil, Nat.zero_add]
    refine (sum_eq_zero fun i _ => ?_).symm
    split_ifs <;> rfl
  todo_le := Nat.le_refl _
  size i vChecks doWork l h := by
    simp only [World.init] at h
    split_ifs at h
  skipped i vChecks l h := by
    simp only [World.init] at h
    split_ifs at h
  queue_subset := List.Subset.refl _
  batch_subset i := by
    simp only [World.init]
    split_ifs <;> exact List.Subset.refl _
  result_mem e h := by cases h
  brought_mem i e h := by
    simp only [World.init] at h
    split_ifs at h <;> cases h
  covered c h := by cases h
  answers a h := by cases h

section

variable (h : Inv check workers w)

include h

/-- The rule for a step of one thread within a round.  The batch of the thread, and
the result it brings, may be put somewhere else, but not be dropped. -/
theorem move {w' : World T R} {pc : Pc T R} (hi : i ≤ workers)
    (hthreads : w'.threads = update w.threads i pc) (hadded : w'.added = w.added)
    (hanswers : w'.answers = w.answers)
    (htodo : w'.nTodo + (w.threads i).held + w.queue.length = w.nTodo + pc.held + w'.queue.length)
    (htodo_le : w'.nTodo ≤ w.nTodo) (hsize : ∀ vChecks doWork l, pc = .atWork vChecks doWork l →
      l.nNow = vChecks.length ∧ vChecks ≠ [])
    (hskipped : ∀ vChecks l, pc = .atWork vChecks false l → w'.result.isSome)
    (hqueue : w'.queue ⊆ w.added) (hbatch : pc.batch ⊆ w.added)
    (hresult : ∀ e, w'.result = some e → ∃ c ∈ w.added, check c = some e)
    (hkeep : w.result.isSome → w'.result.isSome)
    (hbrought : ∀ e, pc.brought = some e → w'.result.isSome ∨ ∃ c ∈ w.added, check c = some e)
    (hcovered : ∀ c ∈ w.added,
      (c ∈ w.queue ∨ c ∈ (w.threads i).batch ∨ (w.threads i).brought.isSome) →
      check c = none ∨ c ∈ w'.queue ∨ c ∈ pc.batch ∨ w'.result.isSome ∨ pc.brought.isSome) :
    Inv check workers w' where
  outside j hj := by
    rw [hthreads, update_of_ne (by omega)]
    exact h.outside j hj
  todo := by
    have hsum := sum_update_add hi Pc.held w.threads pc
    have hold := h.todo
    rw [hthreads]
    omega
  todo_le := by
    rw [hadded]
    exact htodo_le.trans h.todo_le
  size j := by
    rw [hthreads, update_apply]
    split_ifs with hji
    · exact hsize
    · exact h.size j
  skipped j := by
    rw [hthreads, update_apply]
    split_ifs with hji
    · exact hskipped
    · exact fun vChecks l hpc => hkeep (h.skipped j vChecks l hpc)
  queue_subset := by rwa [hadded]
  batch_subset j := by
    rw [hthreads, hadded, update_apply]
    split_ifs with hji
    · exact hbatch
    · exact h.batch_subset j
  result_mem := by rwa [hadded]
  brought_mem j := by
    rw [hthreads, hadded, update_apply]
    split_ifs with hji
    · exact hbrought
    · exact fun e he => (h.brought_mem j e he).imp_left hkeep
  covered c hc := by
    rw [hadded] at hc
    -- What another thread has stays there.
    have hother : ∀ j, j ≠ i → w'.threads j = w.threads j := fun j hj => by
      rw [hthreads, update_of_ne hj]
    have hself : w'.threads i = pc := by rw [hthreads, update_self]
    have hmoved : (c ∈ w.queue ∨ c ∈ (w.threads i).batch ∨ (w.threads i).brought.isSome) →
        check c = none ∨ c ∈ w'.queue ∨ (∃ j, c ∈ (w'.threads j).batch) ∨
          w'.result.isSome ∨ ∃ j, (w'.threads j).brought.isSome := fun hfrom => by
      rcases hcovered c hc hfrom with hok | hq | hb | hr | hbr
      · exact .inl hok
      · exact .inr (.inl hq)
      · exact .inr (.inr (.inl ⟨i, by rwa [hself]⟩))
      · exact .inr (.inr (.inr (.inl hr)))
      · exact .inr (.inr (.inr (.inr ⟨i, by rwa [hself]⟩)))
    rcases h.covered c hc with hok | hq | ⟨j, hj⟩ | hr | ⟨j, hj⟩
    · exact .inl hok
    · exact hmoved (.inl hq)
    · by_cases hji : j = i
      · exact hmoved (.inr (.inl (hji ▸ hj)))
      · exact .inr (.inr (.inl ⟨j, by rwa [hother j hji]⟩))
    · exact .inr (.inr (.inr (.inl (hkeep hr))))
    · by_cases hji : j = i
      · exact hmoved (.inr (.inr (hji ▸ hj)))
      · exact .inr (.inr (.inr (.inr ⟨j, by rwa [hother j hji]⟩)))
  answers := by
    rw [hanswers]
    exact h.answers

/-- A step that touches none of the work. -/
theorem move_empty {w' : World T R} {pc : Pc T R} (hi : i ≤ workers)
    (hthreads : w'.threads = update w.threads i pc) (hold : (w.threads i).Empty) (hnew : pc.Empty)
    (hqueue : w'.queue = w.queue) (htodo : w'.nTodo = w.nTodo) (hresult : w'.result = w.result)
    (hadded : w'.added = w.added) (hanswers : w'.answers = w.answers) : Inv check workers w' := by
  refine h.move hi hthreads hadded hanswers ?_ (Nat.le_of_eq htodo) ?_ ?_ (hqueue ▸ h.queue_subset)
    ?_ (hresult ▸ h.result_mem) (fun hr => hresult ▸ hr) ?_ ?_
  · rw [hold.held, hnew.held, hqueue, htodo]
  · exact fun vChecks doWork l hpc => by
      rw [hpc] at hnew
      exact hnew.elim
  · exact fun vChecks l hpc => by
      rw [hpc] at hnew
      exact hnew.elim
  · rw [hnew.batch]
    exact List.nil_subset _
  · exact fun e he => by
      rw [hnew.brought] at he
      cases he
  · intro c _ hfrom
    simp only [hold.batch, hold.brought, List.not_mem_nil, Option.isSome_none, Bool.false_eq_true,
      or_false] at hfrom
    exact .inr (.inl (hqueue ▸ hfrom))

/-- The clean-up takes the batch off `nTodo`, and keeps the first error. -/
theorem cleanUp (hpc : w.threads i = .atLock l) (hfit : w.added.length < 2 ^ 32)
    : Inv check workers (cleanUp w i l) := by
  have hi : i ≤ workers := h.le_workers (by rw [hpc]; simp)
  by_cases hnow : l.nNow ≠ 0
  · rw [CheckQueue.cleanUp, if_pos hnow]
    have hheld := h.held_le i
    rw [hpc, held_atLock] at hheld
    have hle := h.todo_le
    have hsub : (w.nTodo + 2 ^ 32 - l.nNow) % 2 ^ 32 = w.nTodo - l.nNow := by omega
    have hbrought : (w.threads i).brought = l.localResult := by
      rw [hpc, Pc.brought, if_pos hnow]
    refine h.move hi rfl rfl rfl ?_ ?_ (by simp) (by simp) h.queue_subset (by simp [Pc.batch])
      ?_ ?_ (by simp [Pc.brought]) ?_
    · simp only [hpc, hsub, held_atLock, held_locked]
      omega
    · simp only [hsub]
      omega
    · intro e he
      simp only [merged_result, Option.or_eq_some_iff] at he
      rcases he with he | ⟨hnone, he⟩
      · exact h.result_mem e he
      · -- The error is the one that this thread brings, and there was none before.
        rcases h.brought_mem i e (hbrought.trans he) with hr | hc
        · simp [hnone] at hr
        · exact hc
    · intro hr
      simp [merged_result, hr]
    · intro c _ hfrom
      rcases hfrom with hq | hb | hbr
      · exact .inr (.inl hq)
      · simp [hpc, Pc.batch] at hb
      · rw [hbrought] at hbr
        simp [merged_result, hbr]
  · rw [CheckQueue.cleanUp, if_neg hnow]
    exact h.move_empty hi rfl (hpc ▸ not_not.mp hnow) trivial rfl rfl rfl rfl rfl

/-- Behind `cond.wait` nothing has changed but the number of idle threads. -/
theorem resume (hpc : w.threads i = .woken l) : Inv check workers (resume w i l) :=
  h.move_empty (h.le_workers (by rw [hpc]; simp)) rfl (hpc ▸ trivial) trivial
    rfl rfl rfl rfl rfl

/-- `Complete` returns in a state where all checks of the round are done. -/
theorem returns (hpc : w.threads i = .locked l) (hqueue : w.queue = []) (htodo : w.nTodo = 0) :
    Inv check workers (returns w i) := by
  have hi : i ≤ workers := h.le_workers (by rw [hpc]; simp)
  have hidle := h.idle_of_todo htodo
  have hpos : ∀ j, (CheckQueue.returns w i).threads j = .outside ∨
      (CheckQueue.returns w i).threads j = w.threads j := fun j => by
    by_cases hji : j = i
    · exact .inl (hji ▸ update_self ..)
    · exact .inr (update_of_ne hji _ _)
  have hbatch : ∀ j, ((CheckQueue.returns w i).threads j).batch = [] := fun j => by
    rcases hpos j with hj | hj <;> rw [hj]
    · rfl
    · exact (hidle j).1
  have hbrought : ∀ j, ((CheckQueue.returns w i).threads j).brought = none := fun j => by
    rcases hpos j with hj | hj <;> rw [hj]
    · rfl
    · exact (hidle j).2
  have hsize : ∀ j vChecks doWork l,
      (CheckQueue.returns w i).threads j ≠ .atWork vChecks doWork l := by
    intro j vChecks doWork l hj
    rcases hpos j with hj' | hj' <;> rw [hj'] at hj
    · cases hj
    · have hempty := (hidle j).1
      rw [hj, Pc.batch] at hempty
      exact (h.size j vChecks doWork l hj).2 hempty
  constructor
  case outside =>
    intro j hj
    rcases hpos j with hj' | hj'
    · exact hj'
    · exact hj'.trans (h.outside j hj)
  case todo =>
    have hsum := sum_update_add hi Pc.held w.threads .outside
    have hold := h.todo
    simp only [hpc, held_locked, held_outside] at hsum
    simp only [CheckQueue.returns]
    omega
  case todo_le => exact Nat.le_of_eq htodo
  case size => exact fun j vChecks doWork l hj => absurd hj (hsize j vChecks doWork l)
  case skipped => exact fun j vChecks l hj => absurd hj (hsize j vChecks false l)
  case queue_subset => exact hqueue ▸ List.Subset.refl _
  case batch_subset => exact fun j => hbatch j ▸ List.Subset.refl _
  case result_mem => exact fun e he => by cases he
  case brought_mem => exact fun j e he => by rw [hbrought j] at he; cases he
  case covered => exact fun c hc => by cases hc
  case answers =>
    intro a ha
    rcases List.mem_append.mp ha with ha | ha
    · exact h.answers a ha
    · rw [List.mem_singleton.mp ha]
      refine ⟨⟨fun hnone c hc => ?_, fun hall => ?_⟩, h.result_mem⟩
      · -- Every place where a check could still be is empty.
        have hnone : w.result = none := hnone
        have hcov := h.covered c hc
        simpa [hqueue, (hidle _).1, (hidle _).2, hnone] using hcov
      · rw [Option.eq_none_iff_forall_ne_some]
        intro e he
        obtain ⟨c, hc, hce⟩ := h.result_mem e he
        rw [hall c hc] at hce
        cases hce

/-- What a thread does between the clean-up and the release of the mutex. -/
theorem loopTop (hpc : w.threads i = .locked l) (nBatchSize : Nat) :
    Inv check workers (loopTop nBatchSize w i l) := by
  have hi : i ≤ workers := h.le_workers (by rw [hpc]; simp)
  rcases loopTop_cases nBatchSize w i l with
    ⟨hqueue, -, -, htodo, heq⟩ | ⟨-, -, -, heq⟩ | ⟨-, heq⟩ | ⟨hqueue, -, heq⟩ <;> rw [heq]
  · exact h.returns hpc hqueue htodo
  · exact h.move_empty hi rfl (hpc ▸ trivial) trivial rfl rfl rfl rfl rfl
  · exact h.move_empty hi rfl (hpc ▸ trivial) trivial rfl rfl rfl rfl rfl
  · have hpos := batchSize_pos nBatchSize w
    have hle := batchSize_le nBatchSize hqueue
    refine h.move hi rfl rfl rfl ?_ (Nat.le_refl _) ?_ ?_
      (List.Subset.trans (List.take_subset _ _) h.queue_subset)
      (List.Subset.trans (List.drop_subset _ _) h.queue_subset) h.result_mem id
      (by simp [Pc.brought]) ?_
    · simp only [takes, hpc, held_locked, held_atWork, List.length_take]
      omega
    · rintro vChecks doWork l' heq
      simp only [Pc.atWork.injEq] at heq
      obtain ⟨rfl, -, rfl⟩ := heq
      have hlength : (w.queue.drop (w.queue.length - batchSize nBatchSize w)).length =
          batchSize nBatchSize w := by
        rw [List.length_drop]
        omega
      refine ⟨hlength.symm, List.ne_nil_of_length_pos ?_⟩
      rw [hlength]
      exact hpos
    · rintro vChecks l' heq
      simp only [Pc.atWork.injEq] at heq
      simpa [takes, Option.isSome_iff_ne_none] using heq.2.1
    · intro c _ hfrom
      rw [hpc] at hfrom
      rcases hfrom with hq | hb | hbr
      · rw [← List.take_append_drop (w.queue.length - batchSize nBatchSize w) w.queue,
          List.mem_append] at hq
        exact hq.elim (fun hq => .inr (.inl hq)) (fun hb => .inr (.inr (.inl hb)))
      · cases hb
      · cases hbr

/-- The execution of a batch. -/
theorem works {vChecks : List T} {doWork : Bool} (hpc : w.threads i = .atWork vChecks doWork l) :
    Inv check workers (works check w i vChecks doWork l) := by
  have hi : i ≤ workers := h.le_workers (by rw [hpc]; simp)
  obtain ⟨hsize, hne⟩ := h.size i vChecks doWork l hpc
  have hnow : l.nNow ≠ 0 := by
    rw [hsize]
    exact Nat.pos_iff_ne_zero.mp (List.length_pos_iff.mpr hne)
  have hsubset := h.batch_subset i
  rw [hpc, Pc.batch] at hsubset
  refine h.move hi rfl rfl rfl (by simp [hpc, CheckQueue.works]) (Nat.le_refl _) (by simp) (by simp)
    h.queue_subset (by simp [Pc.batch]) h.result_mem id ?_ ?_
  · intro e he
    rw [Pc.brought, if_pos hnow] at he
    cases hdo : doWork with
    | false => exact .inl (h.skipped i vChecks l (hdo ▸ hpc))
    | true =>
      rw [hdo, if_pos rfl] at he
      obtain ⟨c, hc, hce⟩ := runChecks_eq_some hne he
      exact .inr ⟨c, hsubset hc, hce⟩
  · intro c _ hfrom
    rw [hpc] at hfrom
    rcases hfrom with hq | hb | hbr
    · exact .inr (.inl hq)
    · rw [Pc.brought, if_pos hnow]
      cases hdo : doWork with
      | false => exact .inr (.inr (.inr (.inl (h.skipped i vChecks l (hdo ▸ hpc)))))
      | true =>
        simp only [if_pos]
        cases hrun : runChecks check vChecks l.localResult with
        | none => exact .inl (runChecks_eq_none hne hrun c hb)
        | some e => exact .inr (.inr (.inr (.inr rfl)))
    · cases hbr

/-- `Add` puts the new checks into the queue. -/
theorem add (vChecks : List T) (hfit : (CheckQueue.add vChecks w).added.length < 2 ^ 32) :
    Inv check workers (CheckQueue.add vChecks w) := by
  unfold CheckQueue.add at hfit ⊢
  split_ifs at hfit ⊢ with hempty
  · exact h
  have hle := h.todo_le
  have hmod : (w.nTodo + vChecks.length) % 2 ^ 32 = w.nTodo + vChecks.length := by
    rw [List.length_append] at hfit
    omega
  have hsubset : ∀ {checks : List T}, checks ⊆ w.added → checks ⊆ w.added ++ vChecks :=
    fun hsub => List.subset_append_of_subset_left _ hsub
  constructor
  case outside => exact h.outside
  case todo =>
    have htodo := h.todo
    simp only [hmod, List.length_append]
    omega
  case todo_le =>
    simp only [hmod, List.length_append]
    omega
  case size => exact h.size
  case skipped => exact h.skipped
  case queue_subset =>
    exact List.append_subset.mpr ⟨hsubset h.queue_subset, List.subset_append_right _ _⟩
  case batch_subset => exact fun i => hsubset (h.batch_subset i)
  case result_mem =>
    exact fun e he => (h.result_mem e he).imp fun c hc => ⟨List.mem_append_left _ hc.1, hc.2⟩
  case brought_mem =>
    exact fun i e he => (h.brought_mem i e he).imp_right fun hmem =>
      hmem.imp fun c hc => ⟨List.mem_append_left _ hc.1, hc.2⟩
  case covered =>
    intro c hc
    rcases List.mem_append.mp hc with hc | hc
    · exact (h.covered c hc).imp_right fun hrest => hrest.imp_left (List.mem_append_left _)
    · exact .inr (.inl (List.mem_append_right _ hc))
  case answers => exact h.answers

/-- The step lemma. -/
theorem step {nBatchSize : Nat} {label : Label T} {w' : World T R}
    (hstep : step check nBatchSize w label = some w') (hfit : w.added.length < 2 ^ 32)
    (hfit' : w'.added.length < 2 ^ 32) : Inv check workers w' := by
  cases step_stepped hstep with
  | add vChecks hpc hstop => exact h.add vChecks hfit'
  | complete hpc hstop =>
    exact h.move_empty (Nat.zero_le _) rfl (hpc ▸ trivial) rfl rfl rfl rfl rfl rfl
  | stop hpc => exact { h with }
  | lock i l hpc => exact (h.cleanUp hpc hfit).loopTop (cleanUp_locked w i l) nBatchSize
  | relock i l hpc => exact (h.resume hpc).loopTop (update_self ..) nBatchSize
  | work i vChecks doWork l hpc => exact h.works hpc
  | wake i l hpc =>
    exact h.move_empty (h.le_workers (by rw [hpc]; simp)) rfl (hpc ▸ trivial) trivial
      rfl rfl rfl rfl rfl

end

end Inv

/-! ## Runs -/

/-- In no round more checks are added than `nTodo` can count. -/
def Fits (check : T → Option R) (workers nBatchSize : Nat) (labels : List (Label T)) : Prop :=
  ∀ pre w, pre <+: labels →
    Runs.run (step check nBatchSize) (World.init workers) pre = some w → w.added.length < 2 ^ 32

/-- The number of checks a step adds. -/
def Label.size : Label T → Nat
  | .add vChecks => vChecks.length
  | _ => 0

theorem added_loopTop_le (nBatchSize : Nat) (w : World T R) (i : Nat) (l : Local R) :
    (loopTop nBatchSize w i l).added.length ≤ w.added.length := by
  rcases loopTop_cases nBatchSize w i l with
    ⟨-, -, -, -, heq⟩ | ⟨-, -, -, heq⟩ | ⟨-, heq⟩ | ⟨-, -, heq⟩ <;> rw [heq]
  · exact Nat.zero_le _
  · exact Nat.le_refl _
  · exact Nat.le_refl _
  · exact Nat.le_refl _

theorem added_step_le {w' : World T R} {label : Label T}
    (hstep : step check nBatchSize w label = some w') :
    w'.added.length ≤ w.added.length + label.size := by
  cases step_stepped hstep with
  | add vChecks =>
    unfold add
    split_ifs
    · exact Nat.le_add_right _ _
    · simp [Label.size]
  | lock i l =>
    refine (added_loopTop_le nBatchSize _ i _).trans (Nat.le_of_eq ?_)
    unfold cleanUp
    split_ifs <;> rfl
  | relock i l => exact added_loopTop_le nBatchSize _ i _
  | _ => exact Nat.le_refl _

/-- The checks fit in particular if there are not too many in all rounds together. -/
theorem fits_of_sum_lt (h : (labels.map Label.size).sum < 2 ^ 32) :
    Fits check workers nBatchSize labels := by
  intro pre w hpre hrun
  have hle : w.added.length ≤ (pre.map Label.size).sum := by
    refine Runs.run_invariant
      (I := fun pre (w : World T R) => w.added.length ≤ (pre.map Label.size).sum)
      (Nat.zero_le _) ?_ hrun
    intro pre label w w' hle hstep
    have hadded := added_step_le hstep
    simp only [List.map_append, List.map_cons, List.map_nil, List.sum_append, List.sum_cons,
      List.sum_nil]
    omega
  obtain ⟨rest, rfl⟩ := hpre
  rw [List.map_append, List.sum_append] at h
  omega

/-- The invariant holds after every run. -/
theorem inv_of_run (hfit : Fits check workers nBatchSize labels)
    (hrun : Runs.run (step check nBatchSize) (World.init workers) labels = some w) :
    Inv check workers w := by
  refine Runs.run_invariant_of_run (I := fun pre w => pre <+: labels → Inv check workers w)
    (fun _ => .init) ?_ hrun (List.prefix_refl _)
  intro pre label w w' hw hw' ih hstep hpre
  have hpre' : pre <+: labels := (List.prefix_append pre [label]).trans hpre
  exact (ih hpre').step hstep (hfit pre w hpre' hw) (hfit _ w' hpre hw')

/-- The comment of the class: in every run of the master and the workers, with any
number of rounds and in any order of the steps, `Complete` returns `std::nullopt`
exactly if all checks of its round do, and otherwise the error of one of them. -/
theorem complete_verdict (check : T → Option R) (workers nBatchSize : Nat) (labels : List (Label T))
    (w : World T R) (hfit : Fits check workers nBatchSize labels)
    (hrun : Runs.run (step check nBatchSize) (World.init workers) labels = some w) :
    ∀ checks r, (checks, r) ∈ w.answers → (r = none ↔ ∀ c ∈ checks, check c = none) ∧
        ∀ e, r = some e → ∃ c ∈ checks, check c = some e :=
  fun _ _ hmem => (inv_of_run hfit hrun).answers _ hmem

/-- One worker, and a round of three checks of which one fails. -/
def exampleCheck (c : Nat) : Option Nat := if c = 3 then some 7 else none

/-- The master adds the checks, and the two threads share them. -/
def exampleRound : List (Label Nat) :=
  [.add [1, 3, 2], .complete, .lock 1, .lock 0, .work 0, .work 1, .lock 1, .lock 0, .work 1,
    .lock 1, .wake 0, .lock 0]

theorem complete_verdict_exampleRound :
    ∃ w, Runs.run (step exampleCheck 128) (World.init 1) exampleRound = some w ∧
      w.answers = [([1, 3, 2], some 7)] ∧ ∃ c ∈ [1, 3, 2], exampleCheck c = some 7 :=
  ⟨_, rfl, rfl, (complete_verdict exampleCheck 1 128 exampleRound _
    (fits_of_sum_lt (by decide)) rfl [1, 3, 2] (some 7) List.mem_cons_self).2 7 rfl⟩

end BitcoinKernel.Validation.CheckQueue
