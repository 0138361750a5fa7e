import BitcoinKernel.Validation.CheckQueueVerdict

/-!
# `Complete` returns

`counters_exact` says what the counters of the queue count at every point of a run.
The size of the batches and the end of `Complete` depend on them.

`complete_returns` says that the master is not left waiting.  Every move of a
thread uses up one of the `stepsLeft`, and only a wakeup adds one.  A master that
waits was notified, or another thread still has a batch and can move.  The workers
are not needed for this: the result holds for a queue without any, and for workers
that are never woken.
-/

namespace BitcoinKernel.Validation.CheckQueue

open Finset Function

variable {T R : Type}

/-! ## The counters, and the master that waits -/

/-- The thread is between `nIdle++` and `nIdle--`. -/
def Pc.idle : Pc T R → Nat
  | .waiting _ | .woken _ => 1
  | _ => 0

/-- The thread is behind `nTotal++`. -/
def Pc.active : Pc T R → Nat
  | .outside => 0
  | .atLock l => if l.nNow = 0 then 0 else 1
  | _ => 1

/-- The steps a thread can make without a wakeup and without taking a new batch. -/
def Pc.steps : Pc T R → Nat
  | .outside | .waiting _ => 0
  | .atLock _ | .locked _ | .woken _ => 1
  | .atWork _ _ _ => 2

/-- A bound on the steps that are left, wakeups apart. -/
def stepsLeft (workers : Nat) (w : World T R) : Nat :=
  2 * w.queue.length + ∑ i ∈ range (workers + 1), (w.threads i).steps

/-- The counters, and what holds while the master is in `Complete`. -/
structure Counts (workers : Nat) (w : World T R) : Prop where
  idle : w.nIdle = ∑ i ∈ range (workers + 1), (w.threads i).idle
  /-- A thread that leaves in the destructor does not count itself out. -/
  total : w.requestStop = false → w.nTotal = ∑ i ∈ range (workers + 1), (w.threads i).active
  /-- The queue is not destroyed under the master. -/
  master : w.threads 0 ≠ .outside → w.requestStop = false
  /-- The master waits for the batches of others, or it was notified. -/
  waiting : ∀ l, w.threads 0 = .waiting l → w.queue = [] ∧ (w.masterNotified = true ∨ w.nTodo ≠ 0)

namespace Counts

variable {check : T → Option R} {workers : Nat} {w : World T R} {i : Nat} {l : Local R}

theorem init : Counts (T := T) (R := R) workers (World.init workers) where
  idle := by
    refine (sum_eq_zero fun i _ => ?_).symm
    simp only [World.init]
    split_ifs <;> rfl
  total _ := by
    refine (sum_eq_zero fun i _ => ?_).symm
    simp only [World.init]
    split_ifs <;> rfl
  master _ := rfl
  waiting l h := by simp [World.init] at h

section

variable (h : Counts workers w)

include h

/-- The rule for a step of one thread. -/
theorem move {w' : World T R} {pc : Pc T R} (hi : i ≤ workers)
    (hthreads : w'.threads = update w.threads i pc) (hstop : w'.requestStop = w.requestStop)
    (hidle : w'.nIdle + (w.threads i).idle = w.nIdle + pc.idle)
    (htotal : w.requestStop = false → w'.nTotal + (w.threads i).active = w.nTotal + pc.active)
    (hmaster : i = 0 → pc ≠ .outside → w.requestStop = false)
    (hself : ∀ l, i = 0 → pc = .waiting l →
      w'.queue = [] ∧ (w'.masterNotified = true ∨ w'.nTodo ≠ 0))
    (hother : i ≠ 0 → w.queue = [] → (w.masterNotified = true ∨ w.nTodo ≠ 0) →
      w'.queue = [] ∧ (w'.masterNotified = true ∨ w'.nTodo ≠ 0)) : Counts workers w' where
  idle := by
    have hsum := sum_update_add hi Pc.idle w.threads pc
    have hold := h.idle
    rw [hthreads]
    omega
  total hrun := by
    rw [hstop] at hrun
    have hsum := sum_update_add hi Pc.active w.threads pc
    have hold := h.total hrun
    have hmoved := htotal hrun
    rw [hthreads]
    omega
  master := by
    rw [hthreads, hstop, update_apply]
    split_ifs with h0
    · exact hmaster h0.symm
    · exact h.master
  waiting l := by
    rw [hthreads, update_apply]
    split_ifs with h0
    · exact hself l h0.symm
    · intro hl
      obtain ⟨hqueue, hnotified⟩ := h.waiting l hl
      exact hother (fun h' => h0 h'.symm) hqueue hnotified

theorem master_of_eq (hpc : w.threads i ≠ .outside) (h0 : i = 0) : w.requestStop = false :=
  h.master (h0 ▸ hpc)

theorem cleanUp (hi : i ≤ workers) (hpc : w.threads i = .atLock l) :
    Counts workers (cleanUp w i l) := by
  have hrun := h.master_of_eq (i := i) (by rw [hpc]; simp)
  by_cases hnow : l.nNow ≠ 0
  · rw [CheckQueue.cleanUp, if_pos hnow]
    refine h.move hi rfl rfl (by simp [hpc, Pc.idle]) (fun _ => by simp [hpc, Pc.active, hnow])
      (fun h0 _ => hrun h0) (by simp) ?_
    intro hne hqueue _
    refine ⟨hqueue, ?_⟩
    by_cases hlast : (w.nTodo + 2 ^ 32 - l.nNow) % 2 ^ 32 = 0
    · exact .inl (Bool.or_eq_true_iff.mpr (.inr (decide_eq_true ⟨hlast, hne⟩)))
    · exact .inr hlast
  · rw [CheckQueue.cleanUp, if_neg hnow]
    exact h.move hi rfl rfl (by simp [hpc, Pc.idle])
      (fun _ => by simp [hpc, Pc.active, not_not.mp hnow]) (fun h0 _ => hrun h0) (by simp)
      (fun _ hqueue hnotified => ⟨hqueue, hnotified⟩)

theorem resume (hi : i ≤ workers) (hpc : w.threads i = .woken l) :
    Counts workers (resume w i l) := by
  have hrun := h.master_of_eq (i := i) (by rw [hpc]; simp)
  have hpos : 1 ≤ w.nIdle := by
    rw [h.idle]
    have hsum := single_le_sum (f := fun j => (w.threads j).idle) (s := range (workers + 1))
      (fun _ _ => Nat.zero_le _) (mem_range.mpr (show i < workers + 1 by omega))
    simpa [hpc, Pc.idle] using hsum
  refine h.move hi rfl rfl ?_ (fun _ => by simp [hpc, Pc.active, CheckQueue.resume])
    (fun h0 _ => hrun h0) (by simp) (fun _ hqueue hnotified => ⟨hqueue, hnotified⟩)
  simp only [CheckQueue.resume, hpc, Pc.idle]
  omega

theorem loopTop (hi : i ≤ workers) (hpc : w.threads i = .locked l) (nBatchSize : Nat)
    : Counts workers (loopTop nBatchSize w i l) := by
  have hrun := h.master_of_eq (i := i) (by rw [hpc]; simp)
  rcases loopTop_cases nBatchSize w i l with
    ⟨-, -, h0, -, heq⟩ | ⟨hqueue, -, hwait, heq⟩ | ⟨hstop, heq⟩ | ⟨hqueue, -, heq⟩ <;> rw [heq]
  · have hpos : w.requestStop = false → 1 ≤ w.nTotal := fun hrun => by
      rw [h.total hrun]
      have hsum := single_le_sum (f := fun j => (w.threads j).active) (s := range (workers + 1))
        (fun _ _ => Nat.zero_le _) (mem_range.mpr (show i < workers + 1 by omega))
      simpa [hpc, Pc.active] using hsum
    refine h.move hi rfl rfl (by simp [hpc, Pc.idle, returns]) ?_ (fun _ hout => absurd rfl hout)
      (by simp) (fun hne => absurd h0 hne)
    intro hrun
    have := hpos hrun
    simp only [returns, hpc, Pc.active]
    omega
  · refine h.move hi rfl rfl (by simp [hpc, Pc.idle, waits])
      (fun _ => by simp [hpc, Pc.active, waits]) (fun h0 _ => hrun h0) ?_ ?_
    · exact fun l' h0 _ => ⟨hqueue, .inr fun htodo => hwait ⟨h0, htodo⟩⟩
    · exact fun hne _ hnotified => ⟨hqueue, by simpa [waits, hne] using hnotified⟩
  · exact h.move hi rfl rfl (by simp [hpc, Pc.idle, leaves])
      (fun hrun' => by rw [hstop] at hrun'; cases hrun') (fun h0 _ => hrun h0) (by simp)
      (fun _ hqueue hnotified => ⟨hqueue, hnotified⟩)
  · exact h.move hi rfl rfl (by simp [hpc, Pc.idle, takes])
      (fun _ => by simp [hpc, Pc.active, takes]) (fun h0 _ => hrun h0) (by simp)
      (fun _ hempty => absurd hempty hqueue)

/-- The step lemma. -/
theorem step (hinv : Inv check workers w) {nBatchSize : Nat} {label : Label T} {w' : World T R}
    (hstep : step check nBatchSize w label = some w') :
    Counts workers w' := by
  have hi : ∀ {i}, w.threads i ≠ .outside → i ≤ workers := hinv.le_workers
  cases step_stepped hstep with
  | add vChecks hpc hstop =>
    unfold add
    split_ifs
    · exact h
    · exact ⟨h.idle, h.total, h.master, fun l hl => by simp [hpc] at hl⟩
  | complete hpc hstop =>
    exact h.move (Nat.zero_le _) rfl rfl (by simp [hpc, Pc.idle, enters])
      (fun _ => by simp [hpc, Pc.active, enters]) (fun _ _ => hstop) (by simp)
      (fun hne => absurd rfl hne)
  | stop hpc => exact ⟨h.idle, fun hrun => (by cases hrun), fun hne => absurd hpc hne, h.waiting⟩
  | lock i l hpc =>
    have hi := hi (i := i) (by rw [hpc]; simp)
    exact (h.cleanUp hi hpc).loopTop hi (cleanUp_locked w i l) nBatchSize
  | relock i l hpc =>
    have hi := hi (i := i) (by rw [hpc]; simp)
    exact (h.resume hi hpc).loopTop hi (update_self ..) nBatchSize
  | work i vChecks doWork l hpc =>
    have hi := hi (i := i) (by rw [hpc]; simp)
    have hrun := h.master_of_eq (i := i) (by rw [hpc]; simp)
    obtain ⟨hsize, hne⟩ := hinv.size i vChecks doWork l hpc
    have hnow : l.nNow ≠ 0 := by
      rw [hsize]
      exact Nat.pos_iff_ne_zero.mp (List.length_pos_iff.mpr hne)
    exact h.move hi rfl rfl (by simp [hpc, Pc.idle, works])
      (fun _ => by simp [hpc, Pc.active, works, hnow])
      (fun h0 _ => hrun h0) (by simp) (fun _ hqueue hnotified => ⟨hqueue, hnotified⟩)
  | wake i l hpc =>
    have hi := hi (i := i) (by rw [hpc]; simp)
    have hrun := h.master_of_eq (i := i) (by rw [hpc]; simp)
    exact h.move hi rfl rfl (by simp [hpc, Pc.idle, wakes])
      (fun _ => by simp [hpc, Pc.active, wakes])
      (fun h0 _ => hrun h0) (by simp) (fun _ hqueue hnotified => ⟨hqueue, hnotified⟩)

end

end Counts

/-! ## The steps until `Complete` returns -/

/-- A step of a thread, and not a wakeup. -/
def Label.isMove : Label T → Bool
  | .lock _ | .work _ => true
  | _ => false

/-- A wakeup. -/
def Label.isWake : Label T → Bool
  | .wake _ => true
  | _ => false

variable {workers i nBatchSize : Nat} {w w' : World T R} {pc : Pc T R} {check : T → Option R}
  {label : Label T} {labels : List (Label T)}

theorem stepsLeft_update (w' : World T R) (hi : i ≤ workers)
    (hthreads : w'.threads = update w.threads i pc) (hqueue : w'.queue = w.queue) :
    stepsLeft workers w' + (w.threads i).steps = stepsLeft workers w + pc.steps := by
  have hsum := sum_update_add hi Pc.steps w.threads pc
  rw [stepsLeft, stepsLeft, hthreads, hqueue]
  omega

/-- Each turn of the loop either gives the thread up or takes work off the queue. -/
theorem stepsLeft_loopTop {l : Local R} (hi : i ≤ workers) (hpc : w.threads i = .locked l)
    (nBatchSize : Nat) :
    stepsLeft workers (loopTop nBatchSize w i l) + 1 ≤ stepsLeft workers w := by
  rcases loopTop_cases nBatchSize w i l with
    ⟨-, -, -, -, heq⟩ | ⟨-, -, -, heq⟩ | ⟨-, heq⟩ | ⟨hqueue, -, heq⟩ <;> rw [heq]
  · have hmoved := stepsLeft_update (w := w) (returns w i) hi rfl rfl
    simp only [hpc, Pc.steps] at hmoved
    omega
  · have hmoved := stepsLeft_update (w := w) (waits w i l) hi rfl rfl
    simp only [hpc, Pc.steps] at hmoved
    omega
  · have hmoved := stepsLeft_update (w := w) (leaves w i) hi rfl rfl
    simp only [hpc, Pc.steps] at hmoved
    omega
  · have hmoved := sum_update_add hi Pc.steps w.threads
      (.atWork (w.queue.drop (w.queue.length - batchSize nBatchSize w)) w.result.isNone
        { l with nNow := batchSize nBatchSize w })
    rw [hpc, show (Pc.locked l : Pc T R).steps = 1 from rfl,
      show (Pc.atWork _ _ _ : Pc T R).steps = 2 from rfl] at hmoved
    have hpos := batchSize_pos nBatchSize w
    have hle := batchSize_le nBatchSize hqueue
    simp only [stepsLeft, takes, List.length_take]
    omega

/-- A move uses up a step that is left, and a wakeup adds one. -/
theorem stepsLeft_step (hinv : Inv check workers w)
    (hstep : step check nBatchSize w label = some w') (hthread : label.isMove || label.isWake) :
    stepsLeft workers w' + label.isMove.toNat ≤ stepsLeft workers w + label.isWake.toNat := by
  have hi : ∀ {i}, w.threads i ≠ .outside → i ≤ workers := hinv.le_workers
  cases step_stepped hstep with
  | add | complete | stop => cases hthread
  | lock i l hpc =>
    have hi := hi (i := i) (by rw [hpc]; simp)
    have hloop := stepsLeft_loopTop hi (cleanUp_locked w i l) nBatchSize
    have hmoved := stepsLeft_update _ hi (cleanUp_threads w i l) (cleanUp_queue w i l)
    simp only [hpc, Pc.steps, Label.isMove, Label.isWake, Bool.toNat, cond] at hmoved ⊢
    omega
  | relock i l hpc =>
    have hi := hi (i := i) (by rw [hpc]; simp)
    have hloop := stepsLeft_loopTop (w := resume w i l) hi (update_self ..) nBatchSize
    have hmoved := stepsLeft_update (w := w) (resume w i l) hi rfl rfl
    simp only [hpc, Pc.steps, Label.isMove, Label.isWake, Bool.toNat, cond] at hmoved ⊢
    omega
  | work i vChecks doWork l hpc =>
    have hi := hi (i := i) (by rw [hpc]; simp)
    have hmoved := stepsLeft_update (w := w) (works check w i vChecks doWork l) hi rfl rfl
    simp only [hpc, Pc.steps, Label.isMove, Label.isWake, Bool.toNat, cond] at hmoved ⊢
    omega
  | wake i l hpc =>
    have hi := hi (i := i) (by rw [hpc]; simp)
    have hmoved := stepsLeft_update (w := w) (wakes w i l) hi rfl rfl
    simp only [hpc, Pc.steps, Label.isMove, Label.isWake, Bool.toNat, cond] at hmoved ⊢
    omega

/-- Between the steps the mutex is free. -/
def Unlocked (w : World T R) : Prop := ∀ i l, w.threads i ≠ .locked l

theorem unlocked_init (workers : Nat) : Unlocked (World.init workers : World T R) := by
  intro i l
  simp only [World.init]
  split_ifs <;> simp

theorem Unlocked.update (h : Unlocked w) (hpc : ∀ l, pc ≠ .locked l) (j : Nat) (l : Local R) :
    update w.threads i pc j ≠ .locked l := by
  rw [update_apply]
  split_ifs
  · exact hpc l
  · exact h j l

/-- A thread that has taken the mutex releases it. -/
theorem Unlocked.loopTop (h : Unlocked w) (hthreads : w'.threads = Function.update w.threads i pc)
    (nBatchSize : Nat) (l : Local R) : Unlocked (loopTop nBatchSize w' i l) := by
  intro j k
  rcases loopTop_cases nBatchSize w' i l with
    ⟨-, -, -, -, heq⟩ | ⟨-, -, -, heq⟩ | ⟨-, heq⟩ | ⟨-, -, heq⟩ <;> rw [heq]
  · rw [returns, hthreads, update_idem]
    exact h.update (by simp) j k
  · rw [waits, hthreads, update_idem]
    exact h.update (by simp) j k
  · rw [leaves, hthreads, update_idem]
    exact h.update (by simp) j k
  · simp only [takes, hthreads, update_idem]
    exact h.update (by simp) j k

theorem Unlocked.step (h : Unlocked w) (hstep : step check nBatchSize w label = some w') :
    Unlocked w' := by
  cases step_stepped hstep with
  | add vChecks =>
    unfold add
    split_ifs <;> exact h
  | complete => exact h.update (by simp)
  | stop => exact h
  | lock i l hpc => exact h.loopTop (cleanUp_threads w i l) nBatchSize _
  | relock i l hpc =>
    have hthreads : (resume w i l).threads = Function.update w.threads i (.locked l) := rfl
    exact h.loopTop hthreads nBatchSize _
  | work => exact h.update (by simp)
  | wake => exact h.update (by simp)

/-- While the master is in `Complete`, it was notified or some thread can move. -/
theorem exists_move (hinv : Inv check workers w) (hcounts : Counts workers w)
    (hunlocked : Unlocked w) (hmaster : w.threads 0 ≠ .outside) (nBatchSize : Nat) :
    (w.masterNotified = true ∧ ∃ l, w.threads 0 = .waiting l) ∨
      ∃ label : Label T, label.isMove ∧ (step check nBatchSize w label).isSome := by
  -- A thread with a part of the work is at the mutex or at its batch.
  have hheld : ∀ i, (w.threads i).held ≠ 0 →
      ∃ label : Label T, label.isMove ∧ (step check nBatchSize w label).isSome := by
    intro i hne
    cases hpc : w.threads i with
    | atLock l => exact ⟨.lock i, rfl, by simp [step, hpc]⟩
    | atWork vChecks doWork l => exact ⟨.work i, rfl, by simp [step, hpc]⟩
    | _ => simp [hpc] at hne
  cases hpc : w.threads 0 with
  | outside => exact absurd hpc hmaster
  | locked l => exact absurd hpc (hunlocked 0 l)
  | atLock l => exact .inr ⟨.lock 0, rfl, by simp [step, hpc]⟩
  | woken l => exact .inr ⟨.lock 0, rfl, by simp [step, hpc]⟩
  | atWork vChecks doWork l => exact .inr ⟨.work 0, rfl, by simp [step, hpc]⟩
  | waiting l =>
    obtain ⟨hqueue, hnotified | htodo⟩ := hcounts.waiting l hpc
    · exact .inl ⟨hnotified, l, rfl⟩
    · have hsum := hinv.todo
      rw [hqueue, List.length_nil, Nat.zero_add] at hsum
      obtain ⟨i, -, hi⟩ := exists_ne_zero_of_sum_ne_zero (hsum ▸ htodo)
      exact .inr (hheld i hi)

/-! ## Runs -/

theorem Fits.of_prefix {pre : List (Label T)} (h : Fits check workers nBatchSize labels)
    (hpre : pre <+: labels) : Fits check workers nBatchSize pre :=
  fun pre' w hpre' hrun => h pre' w (hpre'.trans hpre) hrun

/-- The counters are right, and the mutex is free, after every run. -/
theorem counts_of_run (hfit : Fits check workers nBatchSize labels)
    (hrun : Runs.run (step check nBatchSize) (World.init workers) labels = some w) :
    Counts workers w ∧ Unlocked w := by
  refine Runs.run_invariant_of_run
    (I := fun pre w => pre <+: labels → Counts workers w ∧ Unlocked w)
    (fun _ => ⟨.init, unlocked_init workers⟩) ?_ hrun (List.prefix_refl _)
  intro pre label w w' hw _ ih hstep hpre
  have hpre' : pre <+: labels := (List.prefix_append pre [label]).trans hpre
  obtain ⟨hcounts, hunlocked⟩ := ih hpre'
  exact ⟨hcounts.step (inv_of_run (hfit.of_prefix hpre') hw) hstep, hunlocked.step hstep⟩

/-- The bound on the moves of a schedule. -/
theorem stepsLeft_run {history schedule : List (Label T)}
    (hfit : Fits check workers nBatchSize (history ++ schedule))
    (hhistory : Runs.run (step check nBatchSize) (World.init workers) history = some w)
    (hthreads : ∀ label ∈ schedule, label.isMove || label.isWake)
    (hschedule : Runs.run (step check nBatchSize) w schedule = some w') :
    stepsLeft workers w' + schedule.countP Label.isMove ≤
      stepsLeft workers w + schedule.countP Label.isWake := by
  refine Runs.run_invariant_of_run (I := fun pre v => pre <+: schedule →
    stepsLeft workers v + pre.countP Label.isMove ≤ stepsLeft workers w + pre.countP Label.isWake)
    (fun _ => Nat.le_refl _) ?_ hschedule (List.prefix_refl _)
  intro pre label v v' hv _ ih hstep hpre
  have hpre' : pre <+: schedule := (List.prefix_append pre [label]).trans hpre
  have hv' : Runs.run (step check nBatchSize) (World.init workers) (history ++ pre) = some v := by
    rw [Runs.run_append, hhistory, Option.bind_some, hv]
  have hinv := inv_of_run (hfit.of_prefix ((List.prefix_append_right_inj history).mpr hpre')) hv'
  have hlabel : label ∈ schedule := hpre.subset (List.mem_append_right _ List.mem_cons_self)
  have hmoved := stepsLeft_step hinv hstep (hthreads label hlabel)
  have hsum := ih hpre'
  simp only [List.countP_append, List.countP_singleton]
  cases hm : label.isMove <;> cases hk : label.isWake <;> simp [hm, hk] at hmoved ⊢ <;> omega

/-! ## Results -/

/-- The counters count what their comments say, at every point of every run. -/
theorem counters_exact (check : T → Option R) (workers nBatchSize : Nat) (labels : List (Label T))
    (w : World T R) (hfit : Fits check workers nBatchSize labels)
    (hrun : Runs.run (step check nBatchSize) (World.init workers) labels = some w) :
    w.nTodo = w.queue.length + ∑ i ∈ range (workers + 1), (w.threads i).held ∧
      w.nIdle = ∑ i ∈ range (workers + 1), (w.threads i).idle ∧
      (w.requestStop = false → w.nTotal = ∑ i ∈ range (workers + 1), (w.threads i).active) := by
  obtain ⟨hcounts, -⟩ := counts_of_run hfit hrun
  exact ⟨(inv_of_run hfit hrun).todo, hcounts.idle, hcounts.total⟩

theorem counters_exact_exampleRound :
    ∃ w, Runs.run (step exampleCheck 128) (World.init 1) (exampleRound.take 8) = some w ∧
      w.nIdle = 1 ∧ w.nIdle = ∑ i ∈ range 2, (w.threads i).idle :=
  ⟨_, rfl, rfl, (counters_exact exampleCheck 1 128 (exampleRound.take 8) _
    (fits_of_sum_lt (by decide)) rfl).2.1⟩

/-- `Complete` returns.  In a schedule of the threads, the number of their moves is
bounded but for the wakeups, and as long as the master is in `Complete` a thread can
move or the master has a notification to wake from. -/
theorem complete_returns (check : T → Option R) (workers nBatchSize : Nat)
    (history schedule : List (Label T)) (w w' : World T R)
    (hfit : Fits check workers nBatchSize (history ++ schedule))
    (hhistory : Runs.run (step check nBatchSize) (World.init workers) history = some w)
    (hschedule : Runs.run (step check nBatchSize) w schedule = some w')
    (hthreads : ∀ label ∈ schedule, label.isMove || label.isWake) :
    schedule.countP Label.isMove ≤ stepsLeft workers w + schedule.countP Label.isWake ∧
      (w'.threads 0 ≠ .outside → (w'.masterNotified = true ∧ ∃ l, w'.threads 0 = .waiting l) ∨
          ∃ label : Label T, label.isMove ∧ (step check nBatchSize w' label).isSome) := by
  have hrun : Runs.run (step check nBatchSize) (World.init workers) (history ++ schedule) =
      some w' := by
    rw [Runs.run_append, hhistory, Option.bind_some, hschedule]
  refine ⟨?_, fun hmaster => ?_⟩
  · exact Nat.le_trans (Nat.le_add_left _ _) (stepsLeft_run hfit hhistory hthreads hschedule)
  · obtain ⟨hcounts, hunlocked⟩ := counts_of_run hfit hrun
    exact exists_move (inv_of_run hfit hrun) hcounts hunlocked hmaster nBatchSize

theorem complete_returns_exampleRound :
    ∃ w w', Runs.run (step exampleCheck 128) (World.init 1) (exampleRound.take 2) = some w ∧
      Runs.run (step exampleCheck 128) w (exampleRound.drop 2) = some w' ∧
      (exampleRound.drop 2).countP Label.isMove ≤
        stepsLeft 1 w + (exampleRound.drop 2).countP Label.isWake :=
  ⟨_, _, rfl, rfl, (complete_returns exampleCheck 1 128 (exampleRound.take 2)
    (exampleRound.drop 2) _ _ (fits_of_sum_lt (by decide)) rfl rfl (by decide)).1⟩

end BitcoinKernel.Validation.CheckQueue
