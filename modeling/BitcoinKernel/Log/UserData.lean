import BitcoinKernel.Log.LoggerSpec

/-!
# The boxed `Log` values

`Logger::new` boxes the `Log` value that it is given and hands the box to the
kernel, with a function that destroys it.  `DroppedOnce filePath calls` is
the contract of that box over a whole program: after each call, a box whose
`Logger` is alive was not dropped, every other box that was ever made was
dropped exactly once, and no box is called after it was dropped.

The failure path breaks the contract.  When `StartLogging` fails, the
constructor of `LoggingConnection` destroys the box before it throws, the
create function turns the exception into a null pointer, and `Logger::new`
answers the null pointer by taking the same box back and dropping it again.
`droppedOnce_iff` says that this is the only defect: the contract holds
exactly for the programs in which every start succeeds.
-/

namespace BitcoinKernel.Log

open Runs List

/-- No box is called after it was dropped. -/
def NoUseAfterDrop (trace : List UserEvent) : Prop :=
  trace.Pairwise fun e e' => ∀ log message, e = .dropped log → e' ≠ .called log message

/-- The contract of the boxes at one moment.  The boxes that were ever made
are those below `nextLog`. -/
structure BoxesOwned (w : World) : Prop where
  count : ∀ log < w.nextLog, w.logger.trace.count (.dropped log) = if log ∈ w.loggers then 0 else 1
  noUse : NoUseAfterDrop w.logger.trace

/-- Every call returns and keeps the contract of the boxes. -/
def DroppedOnce (filePath : String) (calls : List LoggerCall) : Prop :=
  ∀ pre, pre <+: calls → ∃ w, run World.step (World.init filePath) pre = some w ∧ BoxesOwned w

/-- Every start of the logger succeeds: each `Logger::new` finds another
`Logger` alive, or no log file configured, or a log file that opens. -/
def StartsSucceed (filePath : String) (calls : List LoggerCall) : Prop :=
  ∀ pre openOk post, calls = pre ++ .new openOk :: post →
    (Live.after (filePath != "") pre).loggers ≠ [] ∨ filePath = "" ∨ openOk = true

variable {filePath : String} {calls : List LoggerCall} {logs : List UserData} {toFile : Bool}
  {s : Live} {call : LoggerCall} {log : UserData} {w : World}

theorem startsSucceed_iff :
    StartsSucceed filePath calls ↔ ∀ pre openOk post, calls = pre ++ .new openOk :: post →
      (Live.after (filePath != "") pre).startFails (filePath != "") openOk = false := by
  refine forall₄_congr fun pre openOk post _ => ?_
  rw [← Bool.not_eq_true (Live.startFails _ _ _), Live.startFails_eq_true, bne_iff_ne,
    ← Bool.not_eq_true openOk]
  tauto

/-! ## One call -/

theorem AreCalls.count_dropped {events : List UserEvent} (h : AreCalls logs events)
    (log : UserData) : events.count (.dropped log) = 0 := by
  refine count_eq_zero.mpr fun hmem => ?_
  obtain ⟨_, -, _, he⟩ := h _ hmem
  cases he

/-- Calls of boxes that were not dropped, followed by drops, keep the order. -/
theorem NoUseAfterDrop.append {trace calls drops : List UserEvent} (h : NoUseAfterDrop trace)
    (hcalls : AreCalls logs calls) (hlive : ∀ log ∈ logs, trace.count (.dropped log) = 0)
    (hdrops : ∀ e ∈ drops, ∃ log, e = .dropped log) : NoUseAfterDrop (trace ++ calls ++ drops) := by
  refine pairwise_append.mpr ⟨pairwise_append.mpr ⟨h, ?_, ?_⟩, ?_, ?_⟩
  · refine pairwise_of_forall_mem_list fun e he e' _ log message hdrop => ?_
    obtain ⟨_, -, _, rfl⟩ := hcalls e he
    cases hdrop
  · rintro e he e' he' log message rfl rfl
    obtain ⟨log', hmem, message', heq⟩ := hcalls _ he'
    cases heq
    exact count_eq_zero.mp (hlive log hmem) he
  · refine pairwise_of_forall_mem_list fun e _ e' he' log message _ hcall => ?_
    obtain ⟨_, rfl⟩ := hdrops e' he'
    cases hcall
  · rintro e _ e' he' log message _ hcall
    obtain ⟨_, rfl⟩ := hdrops e' he'
    cases hcall

theorem Live.eq_dropped_of_mem_drops {e : UserEvent} (he : e ∈ s.drops toFile call) :
    ∃ log, e = .dropped log := by
  cases call with
  | new openOk =>
    rw [Live.drops] at he
    split at he
    · exact ⟨s.nextLog, by simpa using he⟩
    · cases he
  | drop log =>
    rw [Live.drops] at he
    split at he
    · exact ⟨log, by simpa using he⟩
    · cases he
  | print _ | filter _ => cases he

/-- How often a box should have been dropped: once when it was made and its
`Logger` is not alive, and never otherwise. -/
def Live.dead (s : Live) (log : UserData) : Nat :=
  if log < s.nextLog ∧ log ∉ s.loggers then 1 else 0

theorem Live.dead_of_mem (h : log ∈ s.loggers) : s.dead log = 0 := by
  simp [dead, h]

/-- A box that is alive after a call was not dropped before it. -/
theorem Live.dead_of_mem_step (h : log ∈ (s.step toFile call).loggers) : s.dead log = 0 := by
  cases call with
  | new openOk =>
    rw [Live.step] at h
    split at h
    · exact dead_of_mem h
    · rcases mem_append.mp h with hmem | hmem
      · exact dead_of_mem hmem
      · rw [mem_singleton.mp hmem]
        simp [dead]
  | drop log' => exact dead_of_mem (mem_of_mem_erase h)
  | print _ | filter _ => exact dead_of_mem h

/-- A call that does not fail to start the logger drops each box as often as
the schedule asks for. -/
theorem Live.dead_step (hfresh : ∀ log ∈ s.loggers, log < s.nextLog) (hnodup : s.loggers.Nodup)
    (hok : ∀ openOk, call = .new openOk → s.startFails toFile openOk = false) (log : UserData) :
    (s.step toFile call).dead log = s.dead log + (s.drops toFile call).count (.dropped log) := by
  cases call with
  | new openOk =>
    have hs := hok openOk rfl
    by_cases hlog : log = s.nextLog
    · simp [dead, Live.step, Live.drops, hs, hlog]
    · have hlt : log < s.nextLog + 1 ↔ log < s.nextLog := by
        rw [Nat.lt_succ_iff_lt_or_eq, or_iff_left hlog]
      simp [dead, Live.step, Live.drops, hs, hlog, hlt]
  | drop log' =>
    by_cases hmem : log' ∈ s.loggers
    · by_cases hlog : log = log'
      · subst hlog
        simp [dead, Live.step, Live.drops, hmem, hfresh log hmem, hnodup.not_mem_erase]
      · have hne : log' ≠ log := fun heq => hlog heq.symm
        simp [dead, Live.step, Live.drops, hmem, mem_erase_of_ne hlog, hne]
    · simp [dead, Live.step, Live.drops, hmem, erase_of_not_mem hmem]
  | print _ | filter _ => simp [Live.step, Live.drops]

/-- The contract of the boxes, in step with the schedule. -/
structure Keeps (toFile : Bool) (s : Live) (w : World) : Prop extends Tracks toFile s w where
  count : ∀ log, w.logger.trace.count (.dropped log) = s.dead log
  noUse : NoUseAfterDrop w.logger.trace

namespace Keeps

variable {toFile : Bool} {s : Live} {w : World}

theorem init (filePath : String) : Keeps (filePath != "") {} (World.init filePath) where
  toTracks := Tracks.init filePath
  count := fun log => by simp [World.init, Live.dead]
  noUse := List.Pairwise.nil

theorem boxesOwned (h : Keeps toFile s w) : BoxesOwned w := by
  refine ⟨fun log hlt => ?_, h.noUse⟩
  rw [h.nextLog] at hlt
  rw [h.count, h.loggers, Live.dead]
  by_cases hmem : log ∈ s.loggers <;> simp [hmem, hlt]

/-- A call that does not fail to start the logger keeps the contract. -/
theorem step (h : Keeps toFile s w) {call : LoggerCall}
    (hok : ∀ openOk, call = .new openOk → s.startFails toFile openOk = false) :
    ∃ w', w.step call = some w' ∧ Keeps toFile (s.step toFile call) w' := by
  obtain ⟨w', calls, hw', htracks, htrace, hcalls⟩ := h.toTracks.step call
  have hfresh : ∀ log ∈ s.loggers, log < s.nextLog := h.loggers ▸ h.nextLog ▸ h.inv.fresh
  have hnodup : s.loggers.Nodup := h.loggers ▸ h.inv.nodup
  refine ⟨w', hw', htracks, fun log => ?_, ?_⟩
  · rw [htrace, count_append, count_append, hcalls.count_dropped, Nat.add_zero, h.count,
      Live.dead_step hfresh hnodup hok]
  · rw [htrace]
    refine h.noUse.append hcalls (fun log hmem => ?_) (fun e he => Live.eq_dropped_of_mem_drops he)
    rw [h.count]
    rcases mem_append.mp hmem with hmem | hmem
    · exact Live.dead_of_mem hmem
    · exact Live.dead_of_mem_step hmem

end Keeps

/-! ## Whole programs -/

/-- Every run that returns ends in a world that is in step with its calls. -/
theorem tracks_of_run (h : run World.step (World.init filePath) calls = some w) :
    Tracks (filePath != "") (Live.after (filePath != "") calls) w := by
  refine run_invariant
    (I := fun pre w => Tracks (filePath != "") (Live.after (filePath != "") pre) w)
    (Tracks.init filePath) (fun pre call w t htracks hstep => ?_) h
  obtain ⟨t', _, ht', htracks', -, -⟩ := htracks.step call
  rw [hstep, Option.some.injEq] at ht'
  rw [Live.after_snoc, ht']
  exact htracks'

/-- A start that fails leaves a box that was dropped twice. -/
theorem Tracks.not_boxesOwned {w' : World} (h : Tracks toFile s w) {openOk : Bool}
    (hs : s.startFails toFile openOk = true) (hw' : w.step (.new openOk) = some w') :
    ¬ BoxesOwned w' := by
  intro hboxes
  obtain ⟨t, calls, ht, htracks, htrace, -⟩ := h.step (.new openOk)
  cases hw'.symm.trans ht
  have hlt : s.nextLog < w'.nextLog := by
    rw [htracks.nextLog]
    simp [Live.step, hs]
  have htwo : 2 ≤ w'.logger.trace.count (.dropped s.nextLog) := by
    rw [htrace, count_append]
    simp [Live.drops, hs]
  have hone := hboxes.count s.nextLog hlt
  split at hone <;> omega

/-- Every box is dropped exactly once, at its place, exactly in the programs
in which every start of the logger succeeds. -/
theorem droppedOnce_iff {filePath : String} {calls : List LoggerCall} :
    DroppedOnce filePath calls ↔ StartsSucceed filePath calls := by
  rw [startsSucceed_iff]
  constructor
  · rintro h pre openOk post rfl
    obtain ⟨w, hw, -⟩ := h pre (prefix_append _ _)
    obtain ⟨w', hw', hboxes⟩ := h (pre ++ [.new openOk]) ⟨post, by simp⟩
    rw [run_snoc_of_eq _ hw] at hw'
    refine Bool.eq_false_iff.mpr fun hs => ?_
    exact (tracks_of_run hw).not_boxesOwned hs hw' hboxes
  · intro h pre hpre
    obtain ⟨w, hw, hkeeps⟩ := run_history
      (I := fun pre w => Keeps (filePath != "") (Live.after (filePath != "") pre) w)
      (Keeps.init filePath) (fun pre call w hpre _ hkeeps => by
        obtain ⟨post, rfl⟩ := hpre
        rw [Live.after_snoc]
        refine hkeeps.step ?_
        rintro openOk rfl
        exact h pre openOk post (by simp)) pre hpre
    exact ⟨w, hw, hkeeps.boxesOwned⟩

/-- A `Logger::new` whose log file does not open drops its box twice. -/
theorem not_droppedOnce_new_fails : ¬ DroppedOnce "debug.log" [.new false] := by
  intro h
  obtain ⟨w, hw, hboxes⟩ := h _ (prefix_refl _)
  have hrun : (run World.step (World.init "debug.log") [.new false]).map
      (fun w => (w.nextLog, w.loggers, w.logger.trace)) =
        some (1, [], [.dropped 0, .dropped 0]) := by decide
  rw [hw, Option.map_some, Option.some.injEq, Prod.mk.injEq, Prod.mk.injEq] at hrun
  obtain ⟨hnext, hlog, htrace⟩ := hrun
  have hone := hboxes.count 0 (hnext ▸ Nat.one_pos)
  rw [hlog, htrace] at hone
  exact absurd hone (by decide)

end BitcoinKernel.Log
