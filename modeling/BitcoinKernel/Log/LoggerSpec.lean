import BitcoinKernel.Log.Logger

/-!
# What each call does to the global logger

One specification per function of `BitcoinKernel.Log.Logger`, so that the two
modules about whole runs never unfold the model.

`Printed l l'` says that `l'` differs from `l` by printing only: the trace
grows by calls of callbacks that are connected in `l`, and nothing else that
a later call reads has changed.  `BCLogger.Ok` is the part of the invariant
that is about the log file, and `World.Inv` adds that the connected callbacks
are the boxes of the live `Logger`s.

`Live` is the abstract machine behind the crate's calls: which `Logger`s a
program holds, read off its calls alone.  `Tracks.step` says in one place
what a call does, and the modules about whole runs use nothing else.
-/

namespace BitcoinKernel.Log

open List

/-- The events are calls of the boxes `logs`. -/
def AreCalls (logs : List UserData) (events : List UserEvent) : Prop :=
  ∀ e ∈ events, ∃ log ∈ logs, ∃ message, e = .called log message

theorem AreCalls.nil (logs : List UserData) : AreCalls logs [] := by
  simp [AreCalls]

theorem AreCalls.append {logs : List UserData} {events events' : List UserEvent}
    (h : AreCalls logs events) (h' : AreCalls logs events') :
    AreCalls logs (events ++ events') := by
  intro e he
  rcases mem_append.mp he with he | he
  · exact h e he
  · exact h' e he

/-- `l'` is `l` after some printing. -/
structure Printed (l l' : BCLogger) : Prop where
  fileout : l'.fileout = l.fileout
  buffering : l'.buffering = l.buffering
  printCallbacks : l'.printCallbacks = l.printCallbacks
  printToFile : l'.printToFile = l.printToFile
  filePath : l'.filePath = l.filePath
  trace : ∃ calls, l'.trace = l.trace ++ calls ∧ AreCalls l.printCallbacks calls

theorem Printed.refl (l : BCLogger) : Printed l l :=
  ⟨rfl, rfl, rfl, rfl, rfl, [], by simp, AreCalls.nil _⟩

variable {l : BCLogger}

theorem Printed.trans {l' l'' : BCLogger} (h : Printed l l') (h' : Printed l' l'') :
    Printed l l'' := by
  obtain ⟨calls, htrace, hcalls⟩ := h.trace
  obtain ⟨calls', htrace', hcalls'⟩ := h'.trace
  refine ⟨h'.fileout.trans h.fileout, h'.buffering.trans h.buffering,
    h'.printCallbacks.trans h.printCallbacks, h'.printToFile.trans h.printToFile,
    h'.filePath.trans h.filePath, calls ++ calls', ?_, ?_⟩
  · rw [htrace', htrace, append_assoc]
  · exact hcalls.append (h.printCallbacks ▸ hcalls')

namespace BCLogger

/-- The log file is open exactly while messages go to it. -/
structure Ok (l : BCLogger) : Prop where
  closed : l.buffering = true → l.fileout = false
  opened : l.buffering = false → l.printToFile = true → l.fileout = true
  path : l.printToFile = true → l.filePath ≠ ""

variable {l : BCLogger}

theorem Ok.of_printed {l' : BCLogger} (h : l.Ok) (hp : Printed l l') : l'.Ok := by
  refine ⟨?_, ?_, ?_⟩
  · rw [hp.buffering, hp.fileout]; exact h.closed
  · rw [hp.buffering, hp.printToFile, hp.fileout]; exact h.opened
  · rw [hp.printToFile, hp.filePath]; exact h.path

/-! ## Printing -/

theorem printed_buffer (l : BCLogger) (message : String) : Printed l (l.buffer message) :=
  ⟨rfl, rfl, rfl, rfl, rfl, [], by simp [buffer], AreCalls.nil _⟩

theorem printed_callCallbacks (l : BCLogger) (message : String) :
    Printed l (l.callCallbacks message) := by
  refine ⟨rfl, rfl, rfl, rfl, rfl, _, rfl, ?_⟩
  intro e he
  obtain ⟨log, hlog, rfl⟩ := mem_map.mp he
  exact ⟨log, hlog, message, rfl⟩

theorem printed_foldl_callCallbacks (messages : List String) (l : BCLogger) :
    Printed l (messages.foldl callCallbacks l) := by
  induction messages generalizing l with
  | nil => exact Printed.refl l
  | cons message messages ih =>
    exact (printed_callCallbacks l message).trans (ih (l.callCallbacks message))

/-- Printing returns as long as the log file is open when it is written. -/
theorem logPrint_spec (hopen : l.buffering = false → l.printToFile = true → l.fileout = true)
    (message : String) : ∃ l', l.logPrint message = some l' ∧ Printed l l' := by
  unfold logPrint
  cases hb : l.buffering with
  | true => exact ⟨_, rfl, printed_buffer l message⟩
  | false =>
    have hassert : (l.printToFile && !l.fileout) = false := by
      cases hf : l.printToFile with
      | false => rfl
      | true => rw [hopen hb hf]; rfl
    simp only [hassert, Bool.false_eq_true, if_false]
    exact ⟨_, rfl, printed_callCallbacks l message⟩

theorem logDebugKernel_spec (h : l.Ok) (message : String) :
    ∃ l', l.logDebugKernel message = some l' ∧ Printed l l' := by
  unfold logDebugKernel
  split
  · exact logPrint_spec h.opened message
  · exact ⟨l, rfl, Printed.refl l⟩

/-! ## Starting -/

theorem opened_ok (h : l.Ok) : l.opened.Ok :=
  ⟨fun hb => by simp [opened] at hb, fun _ hf => hf, h.path⟩

theorem reportDiscarded_spec (h : l.Ok) : ∃ l', l.reportDiscarded = some l' ∧ Printed l l' := by
  unfold reportDiscarded
  split
  · exact logPrint_spec h.opened _
  · exact ⟨l, rfl, Printed.refl l⟩

theorem printed_flushBuffered (l : BCLogger) : Printed l l.flushBuffered := by
  have hp := printed_foldl_callCallbacks l.msgsBeforeOpen l
  exact ⟨hp.fileout, hp.buffering, hp.printCallbacks, hp.printToFile, hp.filePath, hp.trace⟩

theorem dumpBuffered_spec (h : l.Ok) : ∃ l', l.dumpBuffered = some l' ∧ Printed l.opened l' := by
  obtain ⟨l₁, h₁, hp₁⟩ := reportDiscarded_spec (opened_ok h)
  refine ⟨l₁.flushBuffered, ?_, hp₁.trans (printed_flushBuffered l₁)⟩
  rw [dumpBuffered, h₁, Option.map_some]

/-- The assertion of `StartLogging` that it is still buffering. -/
theorem startLogging_of_not_buffering (hb : l.buffering = false) (openOk : Bool) :
    l.startLogging openOk = none := by
  simp [startLogging, hb]

/-- `StartLogging` fails when the log file does not open. -/
theorem startLogging_fails (h : l.Ok) (hb : l.buffering = true) (hf : l.printToFile = true) :
    l.startLogging false = some (l, false) := by
  simp [startLogging, hb, h.closed hb, hf, h.path hf]

/-- `StartLogging` succeeds when there is no log file or when it opens. -/
theorem startLogging_succeeds (h : l.Ok) (hb : l.buffering = true) {openOk : Bool}
    (hf : l.printToFile = true → openOk = true) :
    ∃ l', l.startLogging openOk = some (l', true) ∧ Printed l.opened l' := by
  obtain ⟨l', hl', hp⟩ := dumpBuffered_spec h
  refine ⟨l', ?_, hp⟩
  have hpath : (l.printToFile && l.filePath == "") = false := by
    cases hf' : l.printToFile with
    | false => rfl
    | true => simp [h.path hf']
  have hopen : (l.printToFile && !openOk) = false := by
    cases hf' : l.printToFile with
    | false => rfl
    | true => simp [hf hf']
  simp [startLogging, hb, h.closed hb, hpath, hopen, hl']

end BCLogger

/-! ## Connections -/

open BCLogger

/-- A connection beside others only registers its callback. -/
theorem loggingConnection_beside (h : l.Ok) (hne : l.printCallbacks ≠ []) (log : UserData)
    (openOk : Bool) :
    ∃ l', loggingConnection l log openOk = some (l', true) ∧
      Printed (l.pushBackCallback log) l' := by
  have hnum : (l.pushBackCallback log).numConnections ≠ 1 := by
    have := length_pos_iff.mpr hne
    simp only [pushBackCallback, numConnections, length_append, length_singleton]
    omega
  have hok : (l.pushBackCallback log).Ok := ⟨h.closed, h.opened, h.path⟩
  obtain ⟨l', hl', hp⟩ := logDebugKernel_spec hok "Logger connected."
  exact ⟨l', by simp [loggingConnection, hnum, hl'], hp⟩

theorem numConnections_push_of_nil (hnil : l.printCallbacks = []) (log : UserData) :
    (l.pushBackCallback log).numConnections = 1 := by
  simp [pushBackCallback, numConnections, hnil]

/-- The first connection starts the logger, if the log file opens. -/
theorem loggingConnection_first (h : l.Ok) (hnil : l.printCallbacks = []) (hb : l.buffering = true)
    (log : UserData) {openOk : Bool} (hf : l.printToFile = true → openOk = true) :
    ∃ l', loggingConnection l log openOk = some (l', true) ∧
      Printed (l.pushBackCallback log).opened l' := by
  have hok : (l.pushBackCallback log).Ok := ⟨h.closed, h.opened, h.path⟩
  obtain ⟨l₁, h₁, hp₁⟩ := startLogging_succeeds hok hb hf
  obtain ⟨l₂, h₂, hp₂⟩ := logDebugKernel_spec ((opened_ok hok).of_printed hp₁) "Logger connected."
  refine ⟨l₂, ?_, hp₁.trans hp₂⟩
  simp [loggingConnection, numConnections_push_of_nil hnil, h₁, h₂]

/-- The first connection cleans up after itself when the log file does not
open: the callback is gone and the box was dropped once. -/
theorem loggingConnection_first_fails (h : l.Ok) (hnil : l.printCallbacks = [])
    (hb : l.buffering = true) (hf : l.printToFile = true) (log : UserData) :
    ∃ l', loggingConnection l log false = some (l', false) ∧ l'.printCallbacks = [] ∧
      l'.buffering = true ∧ l'.fileout = false ∧ l'.printToFile = true ∧
      l'.filePath = l.filePath ∧ l'.trace = l.trace ++ [.dropped log] := by
  have hok : (l.pushBackCallback log).Ok := ⟨h.closed, h.opened, h.path⟩
  have hstart := startLogging_fails hok hb hf
  have hprint : (l.pushBackCallback log).logPrint "Logger start failed." =
      some ((l.pushBackCallback log).buffer "Logger start failed.") :=
    if_pos hb
  refine ⟨(((l.pushBackCallback log).buffer "Logger start failed.").deleteCallback
    log).destroyUserData log, ?_, ?_, hb, h.closed hb, hf, rfl, rfl⟩
  · simp [loggingConnection, numConnections_push_of_nil hnil, hstart, hprint]
  · simp [destroyUserData, deleteCallback, buffer, pushBackCallback, hnil]

/-- A first connection after logging was disabled runs into the assertion of
`StartLogging`. -/
theorem loggingConnection_aborts (hnil : l.printCallbacks = []) (hb : l.buffering = false)
    (log : UserData) (openOk : Bool) : loggingConnection l log openOk = none := by
  have hstart := startLogging_of_not_buffering (l := l.pushBackCallback log) hb openOk
  simp [loggingConnection, numConnections_push_of_nil hnil, hstart]

/-- The destructor of a connection.  It prints while the callback is still
connected, and the drop of the box is the last thing it does. -/
theorem loggingConnectionDestroy_spec (h : l.Ok) {log : UserData} (hmem : log ∈ l.printCallbacks) :
    ∃ l' l₁, loggingConnectionDestroy l log = some l' ∧ Printed l l₁ ∧ l'.Ok ∧
      l'.printCallbacks = l.printCallbacks.erase log ∧
      l'.printToFile = l.printToFile ∧
      (l'.buffering = true ↔ l.buffering = true ∨ l'.printCallbacks = []) ∧
      l'.trace = l₁.trace ++ [.dropped log] := by
  obtain ⟨l₁, h₁, hp⟩ := logDebugKernel_spec h "Logger disconnecting."
  have hok₁ := h.of_printed hp
  by_cases hone : l₁.numConnections = 1
  · have hsingle : l.printCallbacks = [log] := by
      rw [numConnections, hp.printCallbacks] at hone
      obtain ⟨x, hx⟩ := length_eq_one_iff.mp hone
      rw [hx, mem_singleton] at hmem
      rw [hx, hmem]
    refine ⟨l₁.disconnectTestLogger.destroyUserData log, l₁, ?_, hp, ?_, ?_, hp.printToFile, ?_,
      rfl⟩
    · simp [loggingConnectionDestroy, h₁, hone]
    · exact ⟨fun _ => rfl, fun hb => by simp [destroyUserData, disconnectTestLogger] at hb,
        hok₁.path⟩
    · simp [destroyUserData, disconnectTestLogger, hsingle]
    · simp [destroyUserData, disconnectTestLogger]
  · refine ⟨(l₁.deleteCallback log).destroyUserData log, l₁, ?_, hp, ?_, ?_, hp.printToFile, ?_,
      rfl⟩
    · simp [loggingConnectionDestroy, h₁, hone]
    · exact ⟨hok₁.closed, hok₁.opened, hok₁.path⟩
    · simp [destroyUserData, deleteCallback, hp.printCallbacks]
    · have hne : (l.printCallbacks.erase log) ≠ [] := by
        intro hnil
        have hlen := length_erase_of_mem hmem
        have hpos := length_pos_of_mem hmem
        rw [hnil, length_nil] at hlen
        rw [numConnections, hp.printCallbacks] at hone
        omega
      simp [destroyUserData, deleteCallback, hp.printCallbacks, hp.buffering, hne]

/-! ## The calls of the crate -/

/-- A call that is not about a `Logger` value. -/
def LoggerCall.Quiet : LoggerCall → Prop
  | .print _ | .filter _ => True
  | _ => False

namespace World

/-- The connected callbacks are the boxes of the live `Logger`s.  While one
of them is alive, messages are not buffered. -/
structure Inv (w : World) : Prop where
  ok : w.logger.Ok
  callbacks : w.logger.printCallbacks = w.loggers
  busy : w.loggers ≠ [] → w.logger.buffering = false
  fresh : ∀ log ∈ w.loggers, log < w.nextLog
  nodup : w.loggers.Nodup

theorem inv_init (filePath : String) : (init filePath).Inv where
  ok := ⟨fun _ => rfl, fun hb => by simp [init] at hb, fun hf => by simpa [init] using hf⟩
  callbacks := rfl
  busy := fun h => absurd rfl h
  fresh := by simp [init]
  nodup := nodup_nil

variable {w : World}

/-- The state that every successful `Logger::new` reaches. -/
private theorem inv_connected (h : w.Inv) {l : BCLogger} (hok : l.Ok)
    (hcb : l.printCallbacks = w.loggers ++ [w.nextLog]) (hb : l.buffering = false) :
    World.Inv ⟨l, w.loggers ++ [w.nextLog], w.nextLog + 1⟩ where
  ok := hok
  callbacks := hcb
  busy := fun _ => hb
  fresh := by
    intro log hlog
    rcases mem_append.mp hlog with hlog | hlog
    · exact Nat.lt_succ_of_lt (h.fresh log hlog)
    · rw [mem_singleton.mp hlog]; exact Nat.lt_succ_self _
  nodup := by
    refine nodup_append.mpr ⟨h.nodup, by simp, ?_⟩
    intro a ha b hb' hab
    rw [mem_singleton.mp hb'] at hab
    exact Nat.lt_irrefl _ (hab ▸ h.fresh a ha)

/-- `Logger::new` when it does not have to start the logger, or when the
start succeeds: it answers `Ok` and no box is dropped. -/
theorem new_ok (h : w.Inv) {openOk : Bool} (hb : w.loggers = [] → w.logger.buffering = true)
    (hf : w.loggers = [] → w.logger.printToFile = true → openOk = true) :
    ∃ w' calls, w.new openOk = some w' ∧ w'.Inv ∧ w'.loggers = w.loggers ++ [w.nextLog] ∧
      w'.nextLog = w.nextLog + 1 ∧ w'.logger.printToFile = w.logger.printToFile ∧
      w'.logger.trace = w.logger.trace ++ calls ∧ AreCalls (w.loggers ++ [w.nextLog]) calls := by
  have hpush : (w.logger.pushBackCallback w.nextLog).printCallbacks = w.loggers ++ [w.nextLog] := by
    simp [pushBackCallback, h.callbacks]
  by_cases hnil : w.loggers = []
  · have hcb : w.logger.printCallbacks = [] := h.callbacks.trans hnil
    obtain ⟨l, hl, hp⟩ := loggingConnection_first h.ok hcb (hb hnil) w.nextLog (hf hnil)
    obtain ⟨calls, htrace, hcalls⟩ := hp.trace
    have hok : (w.logger.pushBackCallback w.nextLog).opened.Ok :=
      opened_ok ⟨h.ok.closed, h.ok.opened, h.ok.path⟩
    refine ⟨⟨l, w.loggers ++ [w.nextLog], w.nextLog + 1⟩, calls, by simp [new, hl],
      inv_connected h (hok.of_printed hp) (hp.printCallbacks.trans hpush) hp.buffering,
      rfl, rfl, hp.printToFile, htrace, ?_⟩
    exact hpush ▸ hcalls
  · have hcb : w.logger.printCallbacks ≠ [] := h.callbacks ▸ hnil
    obtain ⟨l, hl, hp⟩ := loggingConnection_beside h.ok hcb w.nextLog openOk
    obtain ⟨calls, htrace, hcalls⟩ := hp.trace
    have hok : (w.logger.pushBackCallback w.nextLog).Ok :=
      ⟨h.ok.closed, h.ok.opened, h.ok.path⟩
    refine ⟨⟨l, w.loggers ++ [w.nextLog], w.nextLog + 1⟩, calls, by simp [new, hl],
      inv_connected h (hok.of_printed hp) (hp.printCallbacks.trans hpush)
        (hp.buffering.trans (h.busy hnil)),
      rfl, rfl, hp.printToFile, htrace, ?_⟩
    exact hpush ▸ hcalls

/-- `Logger::new` when the log file does not open.  Both sides of the
boundary clean up, so the box is dropped twice. -/
theorem new_fails (h : w.Inv) (hnil : w.loggers = []) (hb : w.logger.buffering = true)
    (hf : w.logger.printToFile = true) :
    ∃ w', w.new false = some w' ∧ w'.Inv ∧ w'.loggers = [] ∧ w'.nextLog = w.nextLog + 1 ∧
      w'.logger.buffering = true ∧ w'.logger.printToFile = true ∧
      w'.logger.trace = w.logger.trace ++ [.dropped w.nextLog, .dropped w.nextLog] := by
  obtain ⟨l, hl, hcb, hlb, hfo, hlf, hpath, htrace⟩ :=
    loggingConnection_first_fails h.ok (h.callbacks.trans hnil) hb hf w.nextLog
  refine ⟨⟨l.destroyUserData w.nextLog, w.loggers, w.nextLog + 1⟩, by simp [new, hl], ?_, hnil, rfl,
    hlb, hlf, ?_⟩
  · refine ⟨⟨fun _ => hfo, fun hb' => ?_, fun _ => ?_⟩, hcb.trans hnil.symm,
      fun hne => absurd hnil hne, by simp [hnil], by simp [hnil]⟩
    · exact absurd (hlb.symm.trans hb') (by simp)
    · exact hpath ▸ h.ok.path hf
  · simp [destroyUserData, htrace]

/-- `Logger::new` after logging was disabled aborts. -/
theorem new_aborts (h : w.Inv) (hnil : w.loggers = []) (hb : w.logger.buffering = false)
    (openOk : Bool) : w.new openOk = none := by
  simp [new, loggingConnection_aborts (h.callbacks.trans hnil) hb]

/-- The drop of a live `Logger`.  Its box is dropped once, after the last
call of it. -/
theorem drop_spec (h : w.Inv) {log : UserData} (hmem : log ∈ w.loggers) :
    ∃ w' calls, w.drop log = some w' ∧ w'.Inv ∧ w'.loggers = w.loggers.erase log ∧
      w'.nextLog = w.nextLog ∧ w'.logger.printToFile = w.logger.printToFile ∧
      (w'.logger.buffering = true ↔ w'.loggers = []) ∧
      w'.logger.trace = w.logger.trace ++ calls ++ [.dropped log] ∧ AreCalls w.loggers calls := by
  obtain ⟨l, l₁, hl, hp, hok, hcb, hf, hbuf, htrace⟩ :=
    loggingConnectionDestroy_spec h.ok (h.callbacks ▸ hmem : log ∈ w.logger.printCallbacks)
  obtain ⟨calls, hcalls, hare⟩ := hp.trace
  have hbusy : w.logger.buffering = false := h.busy (ne_nil_of_mem hmem)
  rw [h.callbacks] at hcb hare
  have hbuf' : l.buffering = true ↔ w.loggers.erase log = [] := by
    rw [hbuf, hbusy, hcb]
    simp
  refine ⟨⟨l, w.loggers.erase log, w.nextLog⟩, calls, by simp [drop, hmem, hl],
    ⟨hok, hcb, fun hne => ?_, fun x hx => h.fresh x (mem_of_mem_erase hx),
      h.nodup.erase log⟩, rfl, rfl, hf, hbuf', by rw [htrace, hcalls], hare⟩
  exact Bool.eq_false_iff.mpr fun hb => hne (hbuf'.mp hb)

/-- A call that is not about a `Logger` value calls the live ones only. -/
theorem quiet_spec (h : w.Inv) {call : LoggerCall} (hquiet : call.Quiet) :
    ∃ w' calls, w.step call = some w' ∧ w'.Inv ∧ w'.loggers = w.loggers ∧
      w'.nextLog = w.nextLog ∧ w'.logger.printToFile = w.logger.printToFile ∧
      w'.logger.buffering = w.logger.buffering ∧
      w'.logger.trace = w.logger.trace ++ calls ∧ AreCalls w.loggers calls := by
  cases call with
  | new _ | drop _ => exact hquiet.elim
  | print message =>
    obtain ⟨l, hl, hp⟩ := logPrint_spec h.ok.opened message
    obtain ⟨calls, htrace, hcalls⟩ := hp.trace
    refine ⟨{ w with logger := l }, calls, by simp [step, hl],
      ⟨h.ok.of_printed hp, hp.printCallbacks.trans h.callbacks,
        fun hne => hp.buffering.trans (h.busy hne), h.fresh, h.nodup⟩,
      rfl, rfl, hp.printToFile, hp.buffering, htrace, h.callbacks ▸ hcalls⟩
  | filter debugKernel =>
    exact ⟨_, [], rfl,
      ⟨⟨h.ok.closed, h.ok.opened, h.ok.path⟩, h.callbacks, h.busy, h.fresh, h.nodup⟩,
      rfl, rfl, rfl, rfl, (append_nil _).symm, .nil _⟩

/-- `disable_logging` on an idle logger stops the buffering. -/
theorem disableLogging_spec (h : w.Inv) (hnil : w.loggers = []) (hb : w.logger.buffering = true) :
    ∃ w', w.stepAll .disableLogging = some w' ∧ w'.Inv ∧ w'.loggers = [] ∧
      w'.nextLog = w.nextLog ∧ w'.logger.printToFile = false ∧ w'.logger.buffering = false := by
  have hok : w.logger.withoutOutputs.Ok :=
    ⟨h.ok.closed, fun _ hf => by simp [withoutOutputs] at hf,
      fun hf => by simp [withoutOutputs] at hf⟩
  have hopen : w.logger.withoutOutputs.printToFile = true → true = true := fun _ => rfl
  obtain ⟨l, hl, hp⟩ := startLogging_succeeds hok hb hopen
  have hcb : w.logger.printCallbacks = [] := h.callbacks.trans hnil
  refine ⟨{ w with logger := l }, ?_, ⟨(opened_ok hok).of_printed hp, ?_,
    fun hne => absurd hnil hne, h.fresh, h.nodup⟩, hnil, rfl, hp.printToFile, hp.buffering⟩
  · simp [stepAll, BCLogger.disableLogging, hb, hcb, hl]
  · exact hp.printCallbacks.trans h.callbacks

/-- `disable_logging` aborts while messages are not buffered. -/
theorem disableLogging_aborts (hb : w.logger.buffering = false) :
    w.stepAll .disableLogging = none := by
  simp [stepAll, BCLogger.disableLogging, hb]

end World

/-! ## The calls as a schedule -/

/-- The `Logger`s that a program holds, and the name of the next box. -/
structure Live where
  loggers : List UserData := []
  nextLog : UserData := 0
deriving DecidableEq, Repr

namespace Live

/-- A `Logger::new` fails when it has to start the logger and the log file
does not open. -/
def startFails (toFile : Bool) (s : Live) (openOk : Bool) : Bool :=
  s.loggers.isEmpty && toFile && !openOk

/-- What a call does to the `Logger`s that the program holds. -/
def step (toFile : Bool) (s : Live) : LoggerCall → Live
  | .new openOk =>
    if s.startFails toFile openOk then { s with nextLog := s.nextLog + 1 }
    else ⟨s.loggers ++ [s.nextLog], s.nextLog + 1⟩
  | .drop log => { s with loggers := s.loggers.erase log }
  | .print _ | .filter _ => s

/-- The boxes that a call drops. -/
def drops (toFile : Bool) (s : Live) : LoggerCall → List UserEvent
  | .new openOk =>
    if s.startFails toFile openOk then [.dropped s.nextLog, .dropped s.nextLog] else []
  | .drop log => if log ∈ s.loggers then [.dropped log] else []
  | .print _ | .filter _ => []

/-- The `Logger`s that a program holds after its calls. -/
def after (toFile : Bool) (calls : List LoggerCall) : Live := calls.foldl (step toFile) {}

theorem after_snoc (toFile : Bool) (calls : List LoggerCall) (call : LoggerCall) :
    after toFile (calls ++ [call]) = (after toFile calls).step toFile call := by
  simp [after]

theorem startFails_eq_true {toFile : Bool} {s : Live} {openOk : Bool} :
    s.startFails toFile openOk = true ↔ s.loggers = [] ∧ toFile = true ∧ openOk = false := by
  simp [startFails, and_assoc]

end Live

/-- The world `w` is in step with the schedule, and logging was not disabled. -/
structure Tracks (toFile : Bool) (s : Live) (w : World) : Prop where
  inv : w.Inv
  file : w.logger.printToFile = toFile
  loggers : w.loggers = s.loggers
  nextLog : w.nextLog = s.nextLog
  idle : w.loggers = [] → w.logger.buffering = true

namespace Tracks

variable {toFile : Bool} {s : Live} {w : World}

/-- The call returns, it follows the schedule, and it calls only boxes that are alive
before or after it, all before it drops any. -/
def StepsWith (toFile : Bool) (s : Live) (w : World) (call : LoggerCall) : Prop :=
  ∃ w' calls, w.step call = some w' ∧ Tracks toFile (s.step toFile call) w' ∧
    w'.logger.trace = w.logger.trace ++ calls ++ s.drops toFile call ∧
    AreCalls (s.loggers ++ (s.step toFile call).loggers) calls

theorem init (filePath : String) : Tracks (filePath != "") {} (World.init filePath) :=
  ⟨World.inv_init filePath, rfl, rfl, rfl, fun _ => rfl⟩

section

variable (h : Tracks toFile s w)

include h

theorem buffering_iff : w.logger.buffering = true ↔ w.loggers = [] := by
  refine ⟨fun hb => ?_, h.idle⟩
  by_contra hne
  exact absurd (hb.symm.trans (h.inv.busy hne)) (by simp)

/-- `Logger::new` that answers `Ok`. -/
private theorem step_new_ok {openOk : Bool} (hs : s.startFails toFile openOk = false) :
    StepsWith toFile s w (.new openOk) := by
  have hf : w.loggers = [] → w.logger.printToFile = true → openOk = true := by
    intro hnil hfile
    by_contra hopen
    have : s.startFails toFile openOk = true := Live.startFails_eq_true.mpr
      ⟨h.loggers ▸ hnil, h.file ▸ hfile, Bool.eq_false_iff.mpr hopen⟩
    exact absurd (hs.symm.trans this) (by simp)
  obtain ⟨w', calls, hw', hinv, hlog, hnext, hfile, htrace, hcalls⟩ := World.new_ok h.inv h.idle hf
  have hstep : s.step toFile (.new openOk) = ⟨s.loggers ++ [s.nextLog], s.nextLog + 1⟩ := by
    simp [Live.step, hs]
  rw [StepsWith, hstep]
  refine ⟨w', calls, hw', ⟨hinv, hfile.trans h.file, ?_, ?_, ?_⟩, ?_, ?_⟩
  · rw [hlog, h.loggers, h.nextLog]
  · rw [hnext, h.nextLog]
  · exact fun hnil => absurd (hlog.symm.trans hnil) (by simp)
  · simp [Live.drops, hs, htrace]
  · intro e he
    obtain ⟨log, hmem, hlog'⟩ := hcalls e he
    exact ⟨log, mem_append_right _ (h.loggers ▸ h.nextLog ▸ hmem), hlog'⟩

/-- `Logger::new` that answers `Err`. -/
private theorem step_new_err {openOk : Bool} (hs : s.startFails toFile openOk = true) :
    StepsWith toFile s w (.new openOk) := by
  obtain ⟨hnil, hfile, rfl⟩ := Live.startFails_eq_true.mp hs
  have hwnil : w.loggers = [] := h.loggers.trans hnil
  obtain ⟨w', hw', hinv, hlog, hnext, hb, hf, htrace⟩ :=
    World.new_fails h.inv hwnil (h.idle hwnil) (h.file.trans hfile)
  refine ⟨w', [], hw', ⟨hinv, hf.trans hfile.symm, ?_, ?_, fun _ => hb⟩, ?_, AreCalls.nil _⟩
  · simp [Live.step, hs, hlog, hnil]
  · simp [Live.step, hs, hnext, h.nextLog]
  · simp [Live.drops, hs, htrace, h.nextLog]

theorem step_quiet {call : LoggerCall} (hquiet : call.Quiet) : StepsWith toFile s w call := by
  obtain ⟨w', calls, hw', hinv, hlog, hnext, hfile, hbuf, htrace, hcalls⟩ :=
    World.quiet_spec h.inv hquiet
  have hsame : s.step toFile call = s ∧ s.drops toFile call = [] := by
    cases call with
    | new _ | drop _ => exact hquiet.elim
    | print _ | filter _ => exact ⟨rfl, rfl⟩
  rw [StepsWith, hsame.1, hsame.2, ← h.loggers]
  refine ⟨w', calls, hw', ⟨hinv, hfile.trans h.file, hlog.trans h.loggers, hnext.trans h.nextLog,
    by rw [hlog, hbuf]; exact h.idle⟩, by rw [htrace, append_nil], fun e he => ?_⟩
  obtain ⟨log, hmem, hcall⟩ := hcalls e he
  exact ⟨log, mem_append_left _ hmem, hcall⟩

/-- Every call does so. -/
theorem step (call : LoggerCall) : StepsWith toFile s w call := by
  have hleft : ∀ {calls}, AreCalls w.loggers calls →
      AreCalls (s.loggers ++ (s.step toFile call).loggers) calls := by
    intro calls hcalls e he
    obtain ⟨log, hmem, hlog⟩ := hcalls e he
    exact ⟨log, mem_append_left _ (h.loggers ▸ hmem), hlog⟩
  cases call with
  | new openOk =>
    cases hs : s.startFails toFile openOk with
    | true => exact h.step_new_err hs
    | false => exact h.step_new_ok hs
  | drop log =>
    by_cases hmem : log ∈ w.loggers
    · obtain ⟨w', calls, hw', hinv, hlog, hnext, hfile, hbuf, htrace, hcalls⟩ :=
        World.drop_spec h.inv hmem
      refine ⟨w', calls, hw', ⟨hinv, hfile.trans h.file, ?_, hnext.trans h.nextLog, hbuf.mpr⟩, ?_,
        hleft hcalls⟩
      · rw [hlog, h.loggers]; rfl
      · rw [htrace, Live.drops, if_pos (h.loggers ▸ hmem)]
    · have hmem' : log ∉ s.loggers := h.loggers ▸ hmem
      refine ⟨w, [], by simp [World.step, World.drop, hmem], ⟨h.inv, h.file, ?_, h.nextLog, h.idle⟩,
        by simp [Live.drops, hmem'], AreCalls.nil _⟩
      rw [h.loggers]
      exact (erase_of_not_mem hmem').symm
  | print _ | filter _ => exact h.step_quiet trivial

end

end Tracks

end BitcoinKernel.Log
