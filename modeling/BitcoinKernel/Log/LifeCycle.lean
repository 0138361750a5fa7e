import BitcoinKernel.Log.LoggerSpec

/-!
# The life cycle of the global logger

The crate's safe functions drive one hidden state machine: the buffering flag
and the callbacks of the global logger.  `LifeCycle filePath calls` says that
a program which makes the calls `calls` never runs into an assertion of that
machine, and that after each call the logger buffers exactly when logging was
never disabled and no `Logger` is alive.

The crate documents that `disable_logging` should be called once.  That is
not enough.  `DisableLogging` asserts that the logger is still buffering, so
it aborts while a `Logger` is alive, and it stops the buffering, so the next
`Logger::new` runs into the same assertion in `StartLogging`.
`lifeCycle_iff` says that these are the only two ways to break the life
cycle: with at most one `disable_logging`, the life cycle holds exactly when
no `Logger` is alive at that call and none is created after it.

The proof carries `Follows` along a run, a relation between the calls made so
far and the world.  Before `disable_logging` it is `Tracks`, and after it the
world is stuck in `Disabled`.  `Follows.returns` says which calls return, and
`Follows.step` that every call which returns keeps the relation.
-/

namespace BitcoinKernel.Log

open Runs World List

/-- The part of a call that concerns `Logger`s. -/
def Call.loggerCall? : Call → Option LoggerCall
  | .logger call => some call
  | .disableLogging => none

/-- The `Logger`s that a program holds after its calls. -/
def live (filePath : String) (calls : List Call) : List UserData :=
  (Live.after (filePath != "") (calls.filterMap Call.loggerCall?)).loggers

/-- Every call returns, and the logger buffers exactly when logging was never
disabled and no `Logger` is alive. -/
def LifeCycle (filePath : String) (calls : List Call) : Prop :=
  ∀ pre, pre <+: calls → ∃ w, run stepAll (init filePath) pre = some w ∧
    (w.logger.buffering = true ↔ .disableLogging ∉ pre ∧ w.loggers = [])

/-- `disable_logging` is called while no `Logger` is alive, and no `Logger`
is created after it. -/
def DisablePlaced (filePath : String) (calls : List Call) : Prop :=
  ∀ pre post, calls = pre ++ .disableLogging :: post →
    live filePath pre = [] ∧ ∀ openOk, Call.logger (.new openOk) ∉ post

/-! ## The relation between calls and world -/

/-- The world after `disable_logging`. -/
structure Disabled (w : World) : Prop where
  inv : w.Inv
  loggers : w.loggers = []
  buffering : w.logger.buffering = false

/-- The world `w` after the calls `pre`. -/
structure Follows (filePath : String) (pre : List Call) (w : World) : Prop where
  before : .disableLogging ∉ pre →
    Tracks (filePath != "") (Live.after (filePath != "") (pre.filterMap Call.loggerCall?)) w
  disabled : .disableLogging ∈ pre → Disabled w

variable {filePath : String} {pre : List Call} {w w' : World}

theorem follows_init (filePath : String) : Follows filePath [] (init filePath) :=
  ⟨fun _ => Tracks.init filePath, by simp⟩

theorem Follows.buffering_iff (h : Follows filePath pre w) :
    w.logger.buffering = true ↔ .disableLogging ∉ pre ∧ w.loggers = [] := by
  by_cases hdis : Call.disableLogging ∈ pre
  · simp [hdis, (h.disabled hdis).buffering]
  · simp [hdis, (h.before hdis).buffering_iff]

/-- Calls about `Logger`s before `disable_logging`. -/
theorem Follows.logger_before (h : Follows filePath pre w) (hdis : Call.disableLogging ∉ pre)
    (call : LoggerCall) :
    ∃ w', w.stepAll (.logger call) = some w' ∧ Follows filePath (pre ++ [.logger call]) w' := by
  obtain ⟨w', _, hw', htracks, -, -⟩ := (h.before hdis).step call
  refine ⟨w', hw', fun _ => ?_, fun hmem => absurd hmem (by simpa using hdis)⟩
  rw [filterMap_append, filterMap_cons_some (by rfl), filterMap_nil, Live.after_snoc]
  exact htracks

theorem Disabled.quiet (h : Disabled w) {call : LoggerCall} (hquiet : call.Quiet) :
    ∃ w', w.step call = some w' ∧ Disabled w' := by
  obtain ⟨w', _, hw', hinv, hlog, -, -, hbuf, -, -⟩ := quiet_spec h.inv hquiet
  exact ⟨w', hw', hinv, hlog.trans h.loggers, hbuf.trans h.buffering⟩

/-- A drop or a message after `disable_logging`.  There is no `Logger` left
to drop. -/
theorem Disabled.step (h : Disabled w) {call : LoggerCall} (hnew : ∀ openOk, call ≠ .new openOk) :
    ∃ w', w.step call = some w' ∧ Disabled w' := by
  cases call with
  | new openOk => exact absurd rfl (hnew openOk)
  | drop log => exact ⟨w, by simp [World.step, World.drop, h.loggers], h⟩
  | print _ | filter _ => exact h.quiet trivial

section

variable (h : Follows filePath pre w)

include h

/-- Which calls return: all but a `Logger::new` after `disable_logging`, and
a `disable_logging` that is the second one or that meets a live `Logger`. -/
theorem Follows.returns (c : Call)
    (hnew : ∀ openOk, c = .logger (.new openOk) → Call.disableLogging ∉ pre)
    (hidle : c = .disableLogging → Call.disableLogging ∉ pre ∧ w.loggers = []) :
    ∃ w', w.stepAll c = some w' ∧ Follows filePath (pre ++ [c]) w' := by
  cases c with
  | logger call =>
    by_cases hdis : Call.disableLogging ∈ pre
    · obtain ⟨w', hw', hdis'⟩ := (h.disabled hdis).step
        (fun openOk hcall => hnew openOk (hcall ▸ rfl) hdis)
      exact ⟨w', hw', fun hmem => absurd (mem_append_left _ hdis) hmem, fun _ => hdis'⟩
    · exact h.logger_before hdis call
  | disableLogging =>
    obtain ⟨hdis, hnil⟩ := hidle rfl
    have htracks := h.before hdis
    obtain ⟨w', hw', hinv, hlog, -, -, hbuf⟩ :=
      disableLogging_spec htracks.inv hnil (htracks.idle hnil)
    exact ⟨w', hw', fun hmem => absurd (by simp) hmem, fun _ => ⟨hinv, hlog, hbuf⟩⟩

/-- A `Logger::new` that returns was made before `disable_logging`. -/
theorem Follows.not_disabled_of_new {openOk : Bool}
    (hw' : w.stepAll (.logger (.new openOk)) = some w') : Call.disableLogging ∉ pre := by
  intro hmem
  have hdis := h.disabled hmem
  rw [stepAll, World.step, new_aborts hdis.inv hdis.loggers hdis.buffering] at hw'
  cases hw'

/-- A `disable_logging` that returns is the first one and meets no live
`Logger`. -/
theorem Follows.idle_of_disable (hw' : w.stepAll .disableLogging = some w') :
    Call.disableLogging ∉ pre ∧ w.loggers = [] := by
  cases hb : w.logger.buffering with
  | true => exact h.buffering_iff.mp hb
  | false =>
    rw [disableLogging_aborts hb] at hw'
    cases hw'

/-- Every call that returns keeps the relation. -/
theorem Follows.step {c : Call} (hw' : w.stepAll c = some w') :
    Follows filePath (pre ++ [c]) w' := by
  obtain ⟨w₁, hw₁, hfol⟩ := h.returns c
    (fun openOk hc => h.not_disabled_of_new (hc ▸ hw')) (fun hc => h.idle_of_disable (hc ▸ hw'))
  rw [hw', Option.some.injEq] at hw₁
  exact hw₁ ▸ hfol

end

/-- Every run that returns ends in a world that follows its calls. -/
theorem follows_of_run (h : run stepAll (init filePath) pre = some w) : Follows filePath pre w :=
  run_invariant (follows_init filePath) (fun _ _ _ _ hfol hstep => hfol.step hstep) h

/-! ## Whole programs -/

/-- A program that keeps the life cycle places `disable_logging` well. -/
theorem DisablePlaced.of_lifeCycle {calls : List Call} (h : LifeCycle filePath calls) :
    DisablePlaced filePath calls := by
  rintro pre post rfl
  obtain ⟨w, hw, -⟩ := h pre (prefix_append _ _)
  have hfol := follows_of_run hw
  constructor
  · obtain ⟨w', hw', -⟩ := h (pre ++ [.disableLogging]) ⟨post, by simp⟩
    rw [run_snoc_of_eq _ hw] at hw'
    obtain ⟨hdis, hnil⟩ := hfol.idle_of_disable hw'
    exact (hfol.before hdis).loggers.symm.trans hnil
  · intro openOk hmem
    obtain ⟨mid, rest, rfl⟩ := append_of_mem hmem
    obtain ⟨w₁, hw₁, -⟩ := h (pre ++ .disableLogging :: mid)
      ⟨.logger (.new openOk) :: rest, by simp⟩
    obtain ⟨w₂, hw₂, -⟩ := h ((pre ++ .disableLogging :: mid) ++ [.logger (.new openOk)])
      ⟨rest, by simp⟩
    rw [run_snoc_of_eq _ hw₁] at hw₂
    exact (follows_of_run hw₁).not_disabled_of_new hw₂ (by simp)

/-- The calls of a program that places `disable_logging` well meet the side
conditions of `Follows.returns`. -/
theorem DisablePlaced.returns {calls : List Call} (h : DisablePlaced filePath calls)
    (honce : calls.count .disableLogging ≤ 1) {c : Call} (hpre : pre ++ [c] <+: calls)
    (hfol : Follows filePath pre w) :
    ∃ w', w.stepAll c = some w' ∧ Follows filePath (pre ++ [c]) w' := by
  obtain ⟨post, rfl⟩ := hpre
  refine hfol.returns c ?_ ?_
  · rintro openOk rfl hdis
    obtain ⟨before, mid, rfl⟩ := append_of_mem hdis
    exact (h before (mid ++ [.logger (.new openOk)] ++ post) (by simp)).2 openOk (by simp)
  · rintro rfl
    have hdis : Call.disableLogging ∉ pre := by
      intro hmem
      have hpos := one_le_count_iff.mpr hmem
      simp only [count_append, count_singleton_self] at honce
      omega
    exact ⟨hdis, (hfol.before hdis).loggers.trans (h pre post (by simp)).1⟩

/-- The life cycle holds exactly for the programs that disable logging while
no `Logger` is alive and create none afterwards. -/
theorem lifeCycle_iff {filePath : String} {calls : List Call}
    (honce : calls.count .disableLogging ≤ 1) :
    LifeCycle filePath calls ↔ DisablePlaced filePath calls := by
  refine ⟨DisablePlaced.of_lifeCycle, fun h pre hpre => ?_⟩
  obtain ⟨w, hw, hfol⟩ := run_history (I := Follows filePath) (follows_init filePath)
    (fun _ _ _ hpre' _ hfol => h.returns honce hpre' hfol) pre hpre
  exact ⟨w, hw, hfol.buffering_iff⟩

/-- A program that creates, drops and then disables keeps the life cycle. -/
theorem lifeCycle_new_drop_disable :
    [Call.logger (.new true), .logger (.drop 0), .disableLogging].count .disableLogging ≤ 1 ∧
      LifeCycle "" [.logger (.new true), .logger (.drop 0), .disableLogging] := by
  refine ⟨by decide, (lifeCycle_iff (by decide)).mpr ?_⟩
  intro pre post h
  match pre, h with
  | [_, _], h =>
    simp only [cons_append, nil_append, List.cons.injEq] at h
    obtain ⟨rfl, rfl, -, rfl⟩ := h
    exact ⟨by decide, by simp⟩
  | [], h => simp at h
  | [_], h => simp at h
  | _ :: _ :: _ :: _, h => simp at h

/-- `disable_logging` while a `Logger` is alive aborts, although it is the
only `disable_logging` of the program. -/
theorem not_lifeCycle_new_disable :
    [Call.logger (.new true), .disableLogging].count .disableLogging ≤ 1 ∧
      ¬ LifeCycle "" [.logger (.new true), .disableLogging] := by
  refine ⟨by decide, fun h => ?_⟩
  obtain ⟨w, hw, -⟩ := h _ (prefix_refl _)
  have hnone : run stepAll (init "") [.logger (.new true), .disableLogging] = none := by decide
  rw [hnone] at hw
  cases hw

end BitcoinKernel.Log
