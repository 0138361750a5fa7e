import Mathlib.Logic.Function.Basic
import Mathlib.Tactic.IntervalCases
import BitcoinKernel.Lib.Runs

/-!
# `ChainstateManager::import_blocks` beside other threads

`node::ImportBlocks` opens with a scope object `ImportingNow`.  Its
constructor asserts that `m_importing` is `false` and then stores `true`, its
destructor asserts that it is `true` and then stores `false`.  The flag is
atomic, but each of these is a load and a separate store, and no lock is held
over the two.  `import_blocks` takes `&self` of a type that is `Sync`, so any
number of threads can be inside.

A thread is described by its position `Pc` and by the answers of the calls it
has made.  `step` runs one thread up to its next access of the flag, and
`none` says that the assertion of that access failed.

There are three groups.

* One thread.  `Thread.next` is the straight line of one call after the other,
  as it runs when no assertion is there to stop it.  `Thread.moves_calls` says
  that each call returns after its body has left, with the answer of that exit.
* The lock that the flag is not.  `Owned` says that the flag is `true` exactly
  while a thread is between its store of `true` and its store of `false`, and
  that at most one thread is past its check.  `step_owned` is the step lemma.
* The assembly.  `import_blocks_of_exclusive` is about the runs in which no
  thread makes its check while another is past its own.
-/

namespace BitcoinKernel.State.ImportBlocks

open List Function

/-! ## One thread -/

/-- The ways out of the body of `node::ImportBlocks`. -/
inductive Exit
  | success
  | interrupt
  | exception
deriving Repr, DecidableEq

/-- The part of `KernelError` that `import_blocks` returns. -/
inductive KernelError
  | internal (message : String)
deriving Repr, DecidableEq

/-- `btck_chainstate_manager_import_blocks`: an interrupt is a plain `return`
of `ImportBlocks`, and an exception is caught. -/
def btckChainstateManagerImportBlocks : Exit → Int
  | .success => 0
  | .interrupt => 0
  | .exception => -1

/-- The answer of `ChainstateManager::import_blocks` by the exit of the body. -/
def importBlocks (exit : Exit) : Except KernelError Unit :=
  if btckChainstateManagerImportBlocks exit = 0 then .ok ()
  else .error (.internal "Failed to import blocks.")

/-- Where a thread is.  Each position stands before one access of the flag, or
before the next piece of the body. -/
inductive Pc
  /-- Outside of `import_blocks`. -/
  | idle
  /-- Before `assert(m_importing == false)`. -/
  | entered
  /-- Before `m_importing = true`. -/
  | checked
  /-- In the body. -/
  | importing
  /-- Before `assert(m_importing == true)`, after a `return` or an exception. -/
  | leaving (exit : Exit)
  /-- Before `m_importing = false`. -/
  | asserted (exit : Exit)
  /-- Before `UpdateIBDStatus` or in the `catch` block. -/
  | cleared (exit : Exit)
deriving Repr, DecidableEq

/-- A thread with the answers of its calls, the oldest first. -/
structure Thread where
  pc : Pc
  answers : List (Except KernelError Unit)
deriving Repr

/-- The next move of a thread.  `body` is read in the body only: `none` when it
goes on, and the exit when it is left. -/
def Thread.next (th : Thread) (body : Option Exit) : Thread :=
  match th.pc with
  | .idle => { th with pc := .entered }
  | .entered => { th with pc := .checked }
  | .checked => { th with pc := .importing }
  | .importing =>
    match body with
    | none => th
    | some exit => { th with pc := .leaving exit }
  | .leaving exit => { th with pc := .asserted exit }
  | .asserted exit => { th with pc := .cleared exit }
  | .cleared exit => { pc := .idle, answers := th.answers ++ [importBlocks exit] }

/-- A thread by itself, over the moves it is given. -/
def Thread.moves (th : Thread) (bodies : List (Option Exit)) : Thread :=
  bodies.foldl Thread.next th

/-- A thread that has not made a call yet. -/
def Thread.fresh : Thread := { pc := .idle, answers := [] }

/-- The body does not end a call by going on. -/
theorem Thread.moves_body (answers : List (Except KernelError Unit)) (n : Nat) :
    Thread.moves ⟨.importing, answers⟩ (List.replicate n none) = ⟨.importing, answers⟩ := by
  induction n with
  | zero => rfl
  | succ n ih => exact ih

/-- The moves of one call: three into the body, any number there, the one out
of it, and three to the answer. -/
def callMoves (call : Nat × Exit) : List (Option Exit) :=
  [none, none, none] ++ List.replicate call.1 none ++ [some call.2, none, none, none]

theorem Thread.moves_call (answers : List (Except KernelError Unit)) (call : Nat × Exit) :
    Thread.moves ⟨.idle, answers⟩ (callMoves call) = ⟨.idle, answers ++ [importBlocks call.2]⟩ := by
  have hbody := Thread.moves_body answers call.1
  unfold Thread.moves at hbody ⊢
  unfold callMoves
  rw [foldl_append, foldl_append]
  show List.foldl Thread.next (List.foldl Thread.next ⟨.importing, answers⟩ _) _ = _
  rw [hbody]
  rfl

/-- A thread by itself returns from one call after the other. -/
theorem Thread.moves_calls (answers : List (Except KernelError Unit)) (calls : List (Nat × Exit)) :
    Thread.moves ⟨.idle, answers⟩ (calls.flatMap callMoves) =
      ⟨.idle, answers ++ calls.map fun call => importBlocks call.2⟩ := by
  induction calls generalizing answers with
  | nil =>
    rw [map_nil, append_nil]
    rfl
  | cons call calls ih =>
    have hcall := Thread.moves_call answers call
    unfold Thread.moves at hcall ih ⊢
    rw [flatMap_cons, foldl_append, hcall, ih, map_cons, append_assoc, singleton_append]

/-! ## All threads -/

/-- `m_importing` and the threads that hold a reference to the manager. -/
structure World where
  importing : Bool
  threads : Nat → Thread

/-- A new manager, with no call made. -/
def World.init : World := { importing := false, threads := fun _ => Thread.fresh }

/-- The assertion that a thread evaluates at a position. -/
def assertion (importing : Bool) : Pc → Bool
  | .entered => importing == false
  | .leaving _ => importing == true
  | _ => true

/-- The flag after the move from a position. -/
def store (importing : Bool) : Pc → Bool
  | .checked => true
  | .asserted _ => false
  | _ => importing

/-- One move of the thread `i`.  `none` is a failed assertion. -/
def step (w : World) (move : Nat × Option Exit) : Option World :=
  let th := w.threads move.1
  if assertion w.importing th.pc then
    some
      { importing := store w.importing th.pc
        threads := Function.update w.threads move.1 (th.next move.2) }
  else none

/-- The thread is past its check and has not stored `false` yet. -/
def Pc.holds : Pc → Bool
  | .checked | .importing | .leaving _ | .asserted _ => true
  | _ => false

/-- The thread is between its two stores. -/
def Pc.hasSet : Pc → Bool
  | .importing | .leaving _ | .asserted _ => true
  | _ => false

/-- The flag is used as a lock would be. -/
structure Owned (w : World) : Prop where
  /-- At most one thread is past its check. -/
  unique : ∀ i j, (w.threads i).pc.holds → (w.threads j).pc.holds → i = j
  /-- The flag is `true` while a thread is between its stores. -/
  isSet : ∀ i, (w.threads i).pc.hasSet → w.importing = true
  /-- The flag is `true` at no other time. -/
  setBy : w.importing = true → ∃ i, (w.threads i).pc.hasSet

/-- The thread that moves next is not at its check while another thread is past
its own. -/
def Exclusive (w : World) (i : Nat) : Prop :=
  (w.threads i).pc = .entered → ∀ j, j ≠ i → (w.threads j).pc.holds = false

variable {pc : Pc} {w : World} {i : Nat} {th : Thread} {body : Option Exit} {importing : Bool}

theorem Pc.holds_of_hasSet (h : pc.hasSet = true) : pc.holds = true := by
  cases pc <;> first | rfl | cases h

theorem owned_init : Owned World.init where
  unique i j hi _ := by cases hi
  isSet i hi := by cases hi
  setBy h := by cases h

/-- No assertion fails in a move that is exclusive. -/
theorem assertion_of_exclusive (h : Owned w) (hexclusive : Exclusive w i) :
    assertion w.importing (w.threads i).pc = true := by
  cases hpc : (w.threads i).pc with
  | entered =>
    -- The flag could only be `true` for a thread past its check.
    show (w.importing == false) = true
    cases hflag : w.importing with
    | false => rfl
    | true =>
      obtain ⟨j, hj⟩ := h.setBy hflag
      have hne : j ≠ i := by
        intro heq
        rw [heq, hpc] at hj
        cases hj
      have hholds := hexclusive hpc j hne
      rw [Pc.holds_of_hasSet hj] at hholds
      cases hholds
  | leaving exit =>
    have hset : w.importing = true := h.isSet i (by rw [hpc]; rfl)
    show (w.importing == true) = true
    rw [hset]
    rfl
  | _ => rfl

/-- A thread gets past its check from its check only. -/
theorem Thread.holds_next (h : (th.next body).pc.holds = true) :
    th.pc = .entered ∨ th.pc.holds = true := by
  obtain ⟨pc, answers⟩ := th
  cases pc with
  | entered => exact Or.inl rfl
  | checked | importing | leaving _ => exact Or.inr rfl
  | idle | asserted _ | cleared _ => cases h

/-- The flag is `true` after a move that ends between the two stores. -/
theorem Thread.store_of_hasSet_next (hset : th.pc.hasSet = true → importing = true)
    (h : (th.next body).pc.hasSet = true) : store importing th.pc = true := by
  obtain ⟨pc, answers⟩ := th
  cases pc with
  | checked => rfl
  | importing | leaving _ => exact hset rfl
  | idle | entered | asserted _ | cleared _ => cases h

/-- A thread stays between its stores until it stores `false`. -/
theorem Thread.hasSet_next (body : Option Exit) (hset : th.pc.hasSet = true)
    (hstore : store importing th.pc = true) : (th.next body).pc.hasSet = true := by
  obtain ⟨pc, answers⟩ := th
  cases pc with
  | importing => cases body <;> rfl
  | leaving _ => rfl
  | asserted _ => cases hstore
  | idle | entered | checked | cleared _ => cases hset

/-- A flag that is `true` after a move was stored by it or was `true` before. -/
theorem eq_checked_or_of_store (h : store importing pc = true) :
    pc = .checked ∨ importing = true := by
  cases pc with
  | checked => exact Or.inl rfl
  | asserted _ => cases h
  | _ => exact Or.inr h

/-- Only the thread before its second store can take the flag from `true`. -/
theorem store_eq_true (hflag : importing = true) (hpc : pc.hasSet = false) :
    store importing pc = true := by
  cases pc with
  | checked => rfl
  | asserted _ => cases hpc
  | _ => exact hflag

/-- The step lemma: an exclusive move does not fail, and leaves the flag owned. -/
theorem step_owned (h : Owned w) (hexclusive : Exclusive w i) (body : Option Exit) :
    ∃ w', step w (i, body) = some w' ∧ Owned w' ∧
      w'.threads = Function.update w.threads i ((w.threads i).next body) := by
  refine ⟨_, if_pos (assertion_of_exclusive h hexclusive), ?_, rfl⟩
  -- Another thread past its check excludes that `i` gets there.
  have hother : ∀ j, j ≠ i → (w.threads j).pc.holds = true →
      ¬((w.threads i).next body).pc.holds = true := by
    intro j hne hj hi
    rcases Thread.holds_next hi with hpc | hpc
    · rw [hexclusive hpc j hne] at hj
      cases hj
    · exact hne (h.unique j i hj hpc)
  constructor
  · intro j k hj hk
    simp only [update_apply] at hj hk
    split_ifs at hj hk with hji hki hki
    · rw [hji, hki]
    · exact absurd hj (hother k hki hk)
    · exact absurd hk (hother j hji hj)
    · exact h.unique j k hj hk
  · intro j hj
    simp only [update_apply] at hj
    split_ifs at hj with hji
    · exact Thread.store_of_hasSet_next (h.isSet i) hj
    · apply store_eq_true (h.isSet j hj)
      by_contra hset
      rw [Bool.not_eq_false] at hset
      exact hji (h.unique j i (Pc.holds_of_hasSet hj) (Pc.holds_of_hasSet hset))
  · intro hflag
    rcases eq_checked_or_of_store hflag with hpc | hold
    · refine ⟨i, ?_⟩
      simp only [update_self, Thread.next, hpc]
      rfl
    · obtain ⟨j, hj⟩ := h.setBy hold
      refine ⟨j, ?_⟩
      simp only [update_apply]
      split_ifs with hji
      · exact Thread.hasSet_next body (hji ▸ hj) hflag
      · exact hj

/-! ## Runs -/

/-- The moves of one thread in a schedule. -/
def movesOf (i : Nat) (schedule : List (Nat × Option Exit)) : List (Option Exit) :=
  (schedule.filter fun move => move.1 = i).map Prod.snd

/-- Each move of the schedule is exclusive in the state it is made in. -/
def ExclusiveRun (schedule : List (Nat × Option Exit)) : Prop :=
  ∀ pre i body w, pre ++ [(i, body)] <+: schedule → Runs.run step World.init pre = some w →
    Exclusive w i

/-- Each thread is where it would be by itself. -/
def Undisturbed (schedule : List (Nat × Option Exit)) (w : World) : Prop :=
  ∀ i, w.threads i = Thread.fresh.moves (movesOf i schedule)

theorem Undisturbed.update {pre : List (Nat × Option Exit)} {w' : World} (h : Undisturbed pre w)
    (hw' : w'.threads = Function.update w.threads i ((w.threads i).next body)) :
    Undisturbed (pre ++ [(i, body)]) w' := by
  intro j
  rw [hw']
  by_cases hij : j = i
  · subst hij
    rw [update_self, h j]
    simp [movesOf, Thread.moves]
  · rw [update_of_ne hij, h j]
    simp [movesOf, Thread.moves, Ne.symm hij]

/-- A thread whose moves are those of whole calls is back outside, and each call
has the answer of its exit. -/
def Returned (schedule : List (Nat × Option Exit)) (w : World) : Prop :=
  ∀ i (calls : List (Nat × Exit)), movesOf i schedule = calls.flatMap callMoves →
    w.threads i = ⟨.idle, calls.map fun call => importBlocks call.2⟩

theorem Undisturbed.returned {schedule : List (Nat × Option Exit)} (h : Undisturbed schedule w) :
    Returned schedule w := by
  intro i calls hcalls
  rw [h i, hcalls]
  exact Thread.moves_calls [] calls

/-- In every schedule of any number of threads whose moves are all exclusive,
no assertion about the importing flag fails, at most one thread is between its
check and its store of `false`, every thread does what it does by itself, and
so every call returns with the answer of its exit. -/
theorem import_blocks_of_exclusive {schedule : List (Nat × Option Exit)}
    (h : ExclusiveRun schedule) :
    ∀ pre, pre <+: schedule →
      ∃ w, Runs.run step World.init pre = some w ∧ Owned w ∧ Undisturbed pre w ∧
        Returned pre w := by
  intro pre hpre
  have hrun : ∃ w, Runs.run step World.init pre = some w ∧ Owned w ∧ Undisturbed pre w := by
    revert pre
    apply Runs.run_history
    · exact ⟨owned_init, fun _ => rfl⟩
    · intro pre move w hpre hrun hw
      obtain ⟨howned, hundisturbed⟩ := hw
      obtain ⟨w', hstep, howned', hthreads⟩ :=
        step_owned howned (h pre move.1 move.2 w hpre hrun) move.2
      exact ⟨w', hstep, howned', hundisturbed.update hthreads⟩
  obtain ⟨w, hw, howned, hundisturbed⟩ := hrun
  exact ⟨w, hw, howned, hundisturbed, hundisturbed.returned⟩

/-- Thread 1 enters while thread 0 is in the body, and makes its check after
thread 0 has left with an exception. -/
def sampleSchedule : List (Nat × Option Exit) :=
  [(0, none), (0, none), (0, none), (1, none), (0, some .exception), (0, none), (0, none),
    (1, none), (0, none)]

theorem exclusiveRun_sampleSchedule : ExclusiveRun sampleSchedule := by
  intro pre i body w hpre hrun hpc
  obtain ⟨rest, hrest⟩ := hpre
  have hlength : pre.length < 9 := by
    have hsum := congrArg List.length hrest
    simp only [length_append, sampleSchedule, length_cons, length_nil] at hsum
    omega
  have hpre : pre = sampleSchedule.take pre.length := by
    rw [← hrest, append_assoc, take_left]
  have hmove : sampleSchedule[pre.length]? = some (i, body) := by
    rw [← hrest, append_assoc, getElem?_append_right le_rfl, Nat.sub_self]
    rfl
  generalize pre.length = n at hlength hpre hmove
  subst hpre
  intro j _
  -- The two moves from a check are left after `hpc`.
  interval_cases n <;> cases hmove <;> cases hrun <;> cases hpc
  all_goals
    match j with
    | 0 => rfl
    | 1 => rfl
    | _ + 2 => rfl

theorem import_blocks_of_exclusive_sample : ExclusiveRun sampleSchedule ∧
      ∃ w, Runs.run step World.init sampleSchedule = some w ∧ Owned w ∧
        Undisturbed sampleSchedule w ∧ Returned sampleSchedule w :=
  ⟨exclusiveRun_sampleSchedule,
    import_blocks_of_exclusive exclusiveRun_sampleSchedule _ prefix_rfl⟩

/-- A thread that enters while another is in the body fails the assertion of
the constructor. -/
theorem not_import_blocks_shared :
    ∃ schedule : List (Nat × Option Exit), Runs.run step World.init schedule = none :=
  ⟨[(0, none), (0, none), (0, none), (1, none), (1, none)], rfl⟩

end BitcoinKernel.State.ImportBlocks
