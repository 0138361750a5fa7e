import Mathlib.Algebra.Ring.Nat
import Mathlib.Logic.Function.Basic

/-!
# `CCheckQueue`: script checks on several threads

`ConnectBlock` hands the script checks of a block to a queue that `workers`
threads share.  The thread that connects the block, the master, adds checks and
then joins the workers in `Complete` until all of them are done.  A check is a
value of a type `T`, and `check c` is the error it returns, if any.

The members guarded by `m_mutex` and the variables of the threads form a `World`.
Thread `0` is the master, the threads `1` to `workers` run `Loop(false)` from the
start.  What a thread does under the mutex is one step, and so is the execution of
a batch, which touches no shared member.  The steps of the threads come in any
order.  A thread in `cond.wait` may wake at any time: this covers the
notifications of `Add` as well as spurious wakeups.  The notification of the
master is recorded, since `Complete` hangs without it.

`added` and `answers` are not members of the class.  They record the checks added
since `Complete` returned last, and what it returned for which checks.

The lemmas at the end say what the inner loop and a step can do.  The other
modules on the queue use these, and do not unfold the functions.
-/

namespace BitcoinKernel.Validation.CheckQueue

open Function

variable {T R : Type}

/-! ## The class -/

/-- The variables of `Loop`, apart from `vChecks`. -/
structure Local (R : Type) where
  nNow : Nat := 0
  localResult : Option R := none

/-- Where a thread is in `Loop`. -/
inductive Pc (T R : Type)
  /-- Not in `Loop`. -/
  | outside
  /-- At `WAIT_LOCK`. -/
  | atLock (l : Local R)
  /-- Holds the mutex, and is before the inner loop. -/
  | locked (l : Local R)
  /-- In `cond.wait`. -/
  | waiting (l : Local R)
  /-- Woken, and about to take the mutex again. -/
  | woken (l : Local R)
  /-- Executes a batch. -/
  | atWork (vChecks : List T) (doWork : Bool) (l : Local R)

/-- The members of the queue, the threads, and the record of the rounds.
`masterNotified` says that `m_master_cv` was notified since the master waits. -/
structure World (T R : Type) where
  queue : List T := []
  nIdle : Nat := 0
  nTotal : Nat := 0
  result : Option R := none
  nTodo : Nat := 0
  requestStop : Bool := false
  masterNotified : Bool := false
  threads : Nat → Pc T R
  added : List T := []
  answers : List (List T × Option R) := []

/-- A queue with its worker threads. -/
def World.init (workers : Nat) : World T R where
  threads i := if 1 ≤ i ∧ i ≤ workers then .atLock {} else .outside

section

variable (nBatchSize : Nat) (w : World T R) (i : Nat) (l : Local R)

/-- `std::swap(local_result, m_result)` is done for a first error. -/
def swaps : Bool := l.localResult.isSome && w.result.isNone

/-- The variables behind the clean-up of the previous loop run. -/
def cleanUpLocal : Local R :=
  if l.nNow ≠ 0 ∧ swaps w l then { l with localResult := w.result } else l

/-- The clean-up of the previous loop run, under the mutex. -/
def cleanUp : World T R :=
  if l.nNow ≠ 0 then
    let nTodo := (w.nTodo + 2 ^ 32 - l.nNow) % 2 ^ 32
    { w with
      result := if swaps w l then l.localResult else w.result
      nTodo
      -- a notification reaches the master only if it waits; `loopTop` clears the record
      masterNotified := w.masterNotified || decide (nTodo = 0 ∧ i ≠ 0)
      threads := update w.threads i (.locked (cleanUpLocal w l)) }
  else { w with nTotal := w.nTotal + 1, threads := update w.threads i (.locked l) }

/-- The mutex is taken again behind `cond.wait`. -/
def resume : World T R :=
  { w with nIdle := w.nIdle - 1, threads := update w.threads i (.locked l) }

/-- How many checks a thread takes. -/
def batchSize : Nat :=
  max 1 (min nBatchSize (w.queue.length % 2 ^ 32 / (w.nTotal + w.nIdle + 1)))

/-- `Complete` returns, and the status is reset for new work. -/
def returns : World T R :=
  { w with
    nTotal := w.nTotal - 1, result := none
    threads := update w.threads i .outside
    added := [], answers := w.answers ++ [(w.added, w.result)] }

/-- The thread enters `cond.wait`. -/
def waits : World T R :=
  { w with
    nIdle := w.nIdle + 1
    masterNotified := if i = 0 then false else w.masterNotified
    threads := update w.threads i (.waiting l) }

/-- The thread takes a batch from the end of the queue. -/
def takes : World T R :=
  let nNow := batchSize nBatchSize w
  let start := w.queue.length - nNow
  { w with
    queue := w.queue.take start
    threads := update w.threads i
      (.atWork (w.queue.drop start) w.result.isNone { l with nNow }) }

/-- The thread leaves `Loop` in the destructor. -/
def leaves : World T R :=
  { w with threads := update w.threads i .outside }

/-- From the start of the inner loop to the release of the mutex. -/
def loopTop : World T R :=
  if w.queue.isEmpty && !w.requestStop then
    if i = 0 ∧ w.nTodo = 0 then returns w i else waits w i l
  else if w.requestStop then leaves w i
  else takes nBatchSize w i l

/-- The thread wakes in `cond.wait`. -/
def wakes : World T R :=
  { w with threads := update w.threads i (.woken l) }

end

/-- The loop over a batch. -/
def runChecks (check : T → Option R) : List T → Option R → Option R
  | [], localResult => localResult
  | c :: vChecks, _ =>
    match check c with
    | some e => some e
    | none => runChecks check vChecks none

/-- The thread executes its batch, and comes back to the mutex. -/
def works (check : T → Option R) (w : World T R) (i : Nat) (vChecks : List T) (doWork : Bool)
    (l : Local R) : World T R :=
  let localResult := if doWork then runChecks check vChecks l.localResult else l.localResult
  { w with threads := update w.threads i (.atLock { l with localResult }) }

/-- `Complete` is called. -/
def enters (w : World T R) : World T R :=
  { w with threads := update w.threads 0 (.atLock {}) }

/-- `Add`. -/
def add (vChecks : List T) (w : World T R) : World T R :=
  if vChecks.isEmpty then w
  else
    { w with
      queue := w.queue ++ vChecks
      nTodo := (w.nTodo + vChecks.length) % 2 ^ 32
      added := w.added ++ vChecks }

/-- A step of the system. -/
inductive Label (T : Type)
  /-- The master calls `Add`. -/
  | add (vChecks : List T)
  /-- The master calls `Complete`. -/
  | complete
  /-- The queue is destroyed. -/
  | stop
  /-- A thread takes the mutex and runs until it releases it. -/
  | lock (i : Nat)
  /-- A thread executes its batch. -/
  | work (i : Nat)
  /-- A thread wakes in `cond.wait`. -/
  | wake (i : Nat)

/-- One step, `none` if it cannot be made.  The queue is used by one
`CCheckQueueControl` at a time, so that there is one master, and it is not used
once it is being destroyed. -/
def step (check : T → Option R) (nBatchSize : Nat) (w : World T R) : Label T → Option (World T R)
  | .add vChecks =>
    match w.threads 0, w.requestStop with
    | .outside, false => some (add vChecks w)
    | _, _ => none
  | .complete =>
    match w.threads 0, w.requestStop with
    | .outside, false => some (enters w)
    | _, _ => none
  | .stop =>
    match w.threads 0 with
    | .outside => some { w with requestStop := true }
    | _ => none
  | .lock i =>
    match w.threads i with
    | .atLock l => some (loopTop nBatchSize (cleanUp w i l) i (cleanUpLocal w l))
    | .woken l => some (loopTop nBatchSize (resume w i l) i l)
    | _ => none
  | .work i =>
    match w.threads i with
    | .atWork vChecks doWork l => some (works check w i vChecks doWork l)
    | _ => none
  | .wake i =>
    match w.threads i with
    | .waiting l => some (wakes w i l)
    | _ => none

/-! ## What a step can do -/

theorem batchSize_pos (nBatchSize : Nat) (w : World T R) : 0 < batchSize nBatchSize w :=
  Nat.lt_of_lt_of_le Nat.one_pos (Nat.le_max_left _ _)

theorem batchSize_le (nBatchSize : Nat) {w : World T R} (hqueue : w.queue ≠ []) :
    batchSize nBatchSize w ≤ w.queue.length := by
  have hpos := List.length_pos_iff.mpr hqueue
  have hdiv := Nat.div_le_self (w.queue.length % 2 ^ 32) (w.nTotal + w.nIdle + 1)
  have hmod := Nat.mod_le w.queue.length (2 ^ 32)
  unfold batchSize
  omega

/-- What a thread can do in the inner loop. -/
theorem loopTop_cases (nBatchSize : Nat) (w : World T R) (i : Nat) (l : Local R) :
    (w.queue = [] ∧ w.requestStop = false ∧ i = 0 ∧ w.nTodo = 0 ∧
      loopTop nBatchSize w i l = returns w i) ∨
    (w.queue = [] ∧ w.requestStop = false ∧ ¬(i = 0 ∧ w.nTodo = 0) ∧
      loopTop nBatchSize w i l = waits w i l) ∨
    (w.requestStop = true ∧ loopTop nBatchSize w i l = leaves w i) ∨
    (w.queue ≠ [] ∧ w.requestStop = false ∧ loopTop nBatchSize w i l = takes nBatchSize w i l) := by
  unfold loopTop
  cases hqueue : w.queue with
  | nil =>
    cases hstop : w.requestStop with
    | false =>
      by_cases hreturn : i = 0 ∧ w.nTodo = 0
      · exact .inl ⟨rfl, rfl, hreturn.1, hreturn.2, if_pos hreturn⟩
      · exact .inr (.inl ⟨rfl, rfl, hreturn, if_neg hreturn⟩)
    | true => exact .inr (.inr (.inl ⟨rfl, rfl⟩))
  | cons c queue =>
    cases hstop : w.requestStop with
    | false => exact .inr (.inr (.inr ⟨by simp, rfl, rfl⟩))
    | true => exact .inr (.inr (.inl ⟨rfl, rfl⟩))

theorem cleanUp_threads (w : World T R) (i : Nat) (l : Local R) :
    (cleanUp w i l).threads = update w.threads i (.locked (cleanUpLocal w l)) := by
  by_cases hnow : l.nNow ≠ 0
  · rw [cleanUp, if_pos hnow]
  · rw [cleanUp, if_neg hnow, cleanUpLocal, if_neg fun h => hnow h.1]

theorem cleanUp_queue (w : World T R) (i : Nat) (l : Local R) :
    (cleanUp w i l).queue = w.queue := by
  unfold cleanUp
  split_ifs <;> rfl

theorem cleanUp_locked (w : World T R) (i : Nat) (l : Local R) :
    (cleanUp w i l).threads i = .locked (cleanUpLocal w l) := by
  rw [cleanUp_threads, update_self]

/-- The positions of the threads before a step, and the state behind it. -/
inductive Stepped (check : T → Option R) (nBatchSize : Nat) (w : World T R) :
    Label T → World T R → Prop
  | add (vChecks : List T) (hpc : w.threads 0 = .outside) (hstop : w.requestStop = false) :
      Stepped check nBatchSize w (.add vChecks) (add vChecks w)
  | complete (hpc : w.threads 0 = .outside) (hstop : w.requestStop = false) :
      Stepped check nBatchSize w .complete (enters w)
  | stop (hpc : w.threads 0 = .outside) :
      Stepped check nBatchSize w .stop { w with requestStop := true }
  | lock (i : Nat) (l : Local R) (hpc : w.threads i = .atLock l) :
      Stepped check nBatchSize w (.lock i)
        (loopTop nBatchSize (cleanUp w i l) i (cleanUpLocal w l))
  | relock (i : Nat) (l : Local R) (hpc : w.threads i = .woken l) :
      Stepped check nBatchSize w (.lock i) (loopTop nBatchSize (resume w i l) i l)
  | work (i : Nat) (vChecks : List T) (doWork : Bool) (l : Local R)
      (hpc : w.threads i = .atWork vChecks doWork l) :
      Stepped check nBatchSize w (.work i) (works check w i vChecks doWork l)
  | wake (i : Nat) (l : Local R) (hpc : w.threads i = .waiting l) :
      Stepped check nBatchSize w (.wake i) (wakes w i l)

/-- What a step can do. -/
theorem step_stepped {check : T → Option R} {nBatchSize : Nat} {w w' : World T R} {label : Label T}
    (h : step check nBatchSize w label = some w') :
    Stepped check nBatchSize w label w' := by
  cases label with
  | add vChecks =>
    simp only [step] at h
    split at h <;> cases h
    exact .add vChecks ‹_› ‹_›
  | complete =>
    simp only [step] at h
    split at h <;> cases h
    exact .complete ‹_› ‹_›
  | stop =>
    simp only [step] at h
    split at h <;> cases h
    exact .stop ‹_›
  | lock i =>
    simp only [step] at h
    split at h <;> cases h
    · exact .lock i _ ‹_›
    · exact .relock i _ ‹_›
  | work i =>
    simp only [step] at h
    split at h <;> cases h
    exact .work i _ _ _ ‹_›
  | wake i =>
    simp only [step] at h
    split at h <;> cases h
    exact .wake i _ ‹_›

end BitcoinKernel.Validation.CheckQueue
