import BitcoinKernel.Lib.Runs

/-!
# The global logger of the kernel and the `Logger` of the crate

`BCLog::Logger` (`logging.cpp`) is one global object.  It buffers messages
until `StartLogging`, then hands every message to the callbacks in
`m_print_callbacks`.  The crate drives it through three entry points:
`Logger::new` and the drop of a `Logger` (`src/log/logging.rs`), which go
through `LoggingConnection` in `bitcoinkernel.cpp`, and `disable_logging`.

The model follows the code statement by statement.  A function of the global
logger returns an `Option`: `none` is a failed `assert`, which aborts the
process.  `StartLogging` may open a file, so it takes the answer of `fopen`
as an argument.

A `Log` value is boxed by `Logger::new` and travels through the kernel as
`user_data`.  The model names the box by a number that is never used again,
and `trace` records what happens to the boxes: `called` is one call of
`log_callback` and `dropped` is one `Box::from_raw` whose result goes out of
scope.  A box that is dropped twice is a double free, and a `called` after a
`dropped` is a use after free.

`std::list` iterators stay valid while other nodes come and go, so the node
of a connection is named by its box too, and `DeleteCallback` erases it.
-/

namespace BitcoinKernel.Log

/-- The box of one `Log` value, the `user_data` of its connection. -/
abbrev UserData := Nat

/-- What can happen to a boxed `Log` value. -/
inductive UserEvent where
  /-- `log_callback` ran on the box. -/
  | called (log : UserData) (message : String)
  /-- The box was turned back into a value and dropped. -/
  | dropped (log : UserData)
deriving DecidableEq, Repr

/-- `BCLog::Logger`, with the trace of the boxes it was handed. -/
structure BCLogger where
  /-- `m_fileout != nullptr`. -/
  fileout : Bool := false
  msgsBeforeOpen : List String := []
  buffering : Bool := true
  maxBufferMemusage : Nat := 1000000
  curBufferMemusage : Nat := 0
  bufferLinesDiscarded : Nat := 0
  printCallbacks : List UserData := []
  printToConsole : Bool := false
  printToFile : Bool := false
  filePath : String := ""
  /-- Whether `LogDebug(BCLog::KERNEL, ..)` passes the category filter. -/
  debugKernel : Bool := false
  trace : List UserEvent := []
deriving DecidableEq, Repr

namespace BCLogger

/-! ## Printing -/

/-- `MemUsage` of a buffered entry, without the bookkeeping bytes of the
allocator.  It only decides which of the oldest messages are discarded. -/
def memUsage (message : String) : Nat := message.utf8ByteSize

/-- The loop of `LogPrint_` that drops the oldest messages while the buffer
is over its limit. -/
def trimBuffer (maxUsage : Nat) : List String → Nat → Nat → List String × Nat × Nat
  | [], cur, discarded => ([], if cur > maxUsage then 0 else cur, discarded)
  | front :: rest, cur, discarded =>
    if cur > maxUsage then
      trimBuffer maxUsage rest (cur - memUsage front) (discarded + 1)
    else (front :: rest, cur, discarded)

/-- The buffering branch of `LogPrint_`. -/
def buffer (l : BCLogger) (message : String) : BCLogger :=
  let trimmed := trimBuffer l.maxBufferMemusage (l.msgsBeforeOpen ++ [message])
    (l.curBufferMemusage + memUsage message) l.bufferLinesDiscarded
  { l with
    msgsBeforeOpen := trimmed.1
    curBufferMemusage := trimmed.2.1
    bufferLinesDiscarded := trimmed.2.2 }

/-- The loop over `m_print_callbacks` that hands out one message. -/
def callCallbacks (l : BCLogger) (message : String) : BCLogger :=
  { l with trace := l.trace ++ l.printCallbacks.map (UserEvent.called · message) }

/-- `LogPrint_`.  The file branch asserts that the file is open. -/
def logPrint (l : BCLogger) (message : String) : Option BCLogger :=
  if l.buffering then some (l.buffer message)
  else if l.printToFile && !l.fileout then none
  else some (l.callCallbacks message)

/-- `LogDebug(BCLog::KERNEL, message)`. -/
def logDebugKernel (l : BCLogger) (message : String) : Option BCLogger :=
  if l.debugKernel then l.logPrint message else some l

/-! ## Starting and stopping -/

/-- The text that `StartLogging` prints when the early buffer overflowed. -/
def overflowMessage (discarded : Nat) : String :=
  s!"Early logging buffer overflowed, {discarded} log lines discarded."

/-- `StartLogging` has the log file, if there is one, and stops buffering. -/
def opened (l : BCLogger) : BCLogger := { l with fileout := l.printToFile, buffering := false }

/-- The message of `StartLogging` about lines that the buffer lost. -/
def reportDiscarded (l : BCLogger) : Option BCLogger :=
  if l.bufferLinesDiscarded > 0 then l.logPrint (overflowMessage l.bufferLinesDiscarded)
  else some l

/-- The loop of `StartLogging` over the buffered messages. -/
def flushBuffered (l : BCLogger) : BCLogger :=
  { l.msgsBeforeOpen.foldl callCallbacks l with msgsBeforeOpen := [], curBufferMemusage := 0 }

/-- The part of `StartLogging` after the file was opened. -/
def dumpBuffered (l : BCLogger) : Option BCLogger :=
  l.opened.reportDiscarded.map flushBuffered

/-- `StartLogging`.  `openOk` is whether `fopen` answers a file.  The Boolean
is the return value. -/
def startLogging (l : BCLogger) (openOk : Bool) : Option (BCLogger × Bool) :=
  if !l.buffering then none
  else if l.fileout then none
  else if l.printToFile && l.filePath == "" then none
  else if l.printToFile && !openOk then some (l, false)
  else l.dumpBuffered.map (·, true)

/-- `DisconnectTestLogger`. -/
def disconnectTestLogger (l : BCLogger) : BCLogger :=
  { l with
    buffering := true
    fileout := false
    printCallbacks := []
    maxBufferMemusage := 1000000
    curBufferMemusage := 0
    bufferLinesDiscarded := 0
    msgsBeforeOpen := [] }

/-- The two assignments of `DisableLogging`. -/
def withoutOutputs (l : BCLogger) : BCLogger :=
  { l with printToFile := false, printToConsole := false }

/-- `DisableLogging`.  The answer of its `StartLogging` is ignored. -/
def disableLogging (l : BCLogger) (openOk : Bool) : Option BCLogger :=
  if !l.buffering then none
  else if !l.printCallbacks.isEmpty then none
  else (l.withoutOutputs.startLogging openOk).map Prod.fst

/-! ## Connections -/

/-- `PushBackCallback`. -/
def pushBackCallback (l : BCLogger) (log : UserData) : BCLogger :=
  { l with printCallbacks := l.printCallbacks ++ [log] }

/-- `DeleteCallback`. -/
def deleteCallback (l : BCLogger) (log : UserData) : BCLogger :=
  { l with printCallbacks := l.printCallbacks.erase log }

/-- `NumConnections`. -/
def numConnections (l : BCLogger) : Nat := l.printCallbacks.length

/-- `destroy_log_callback`, and any other `Box::from_raw` of the crate: the
value in the box is dropped. -/
def destroyUserData (l : BCLogger) (log : UserData) : BCLogger :=
  { l with trace := l.trace ++ [.dropped log] }

end BCLogger

/-- The constructor of `LoggingConnection`.  `false` in the answer is the
exception, which leaves the constructor after its own clean-up. -/
def loggingConnection (l : BCLogger) (log : UserData) (openOk : Bool) :
    Option (BCLogger × Bool) := do
  let l := l.pushBackCallback log
  -- Only start logging if we just added the connection.
  let (l, started) ← if l.numConnections = 1 then l.startLogging openOk else some (l, true)
  if started then
    let l ← l.logDebugKernel "Logger connected."
    return (l, true)
  else
    let l ← l.logPrint "Logger start failed."
    return ((l.deleteCallback log).destroyUserData log, false)

/-- The destructor of `LoggingConnection`. -/
def loggingConnectionDestroy (l : BCLogger) (log : UserData) : Option BCLogger := do
  let l ← l.logDebugKernel "Logger disconnecting."
  let l := if l.numConnections = 1 then l.disconnectTestLogger else l.deleteCallback log
  return l.destroyUserData log

/-! ## The crate -/

/-- The `Logger` values of the crate that are alive, beside the global
logger.  `nextLog` names the box of the next `Logger::new`. -/
structure World where
  logger : BCLogger
  loggers : List UserData := []
  nextLog : UserData := 0
deriving DecidableEq, Repr

/-- `Logger::new`.  It answers `Ok` when the new box is in `loggers`
afterwards.  On a null connection the crate takes the box back and drops it. -/
def World.new (w : World) (openOk : Bool) : Option World := do
  let log := w.nextLog
  let (logger, connected) ← loggingConnection w.logger log openOk
  if connected then
    return { logger, loggers := w.loggers ++ [log], nextLog := log + 1 }
  else
    return { logger := logger.destroyUserData log, loggers := w.loggers, nextLog := log + 1 }

/-- `Logger::drop`.  A `Logger` is dropped once, by its owner, so a call for
a box that is not alive changes nothing. -/
def World.drop (w : World) (log : UserData) : Option World :=
  if log ∈ w.loggers then do
    let logger ← loggingConnectionDestroy w.logger log
    return { w with logger, loggers := w.loggers.erase log }
  else some w

/-- What a program can do with `Logger`s: create one, drop one, make the kernel
print a message at any place of its code, or change the filter of the category
`KERNEL` (`enable_category`, `disable_category` and `set_level_category`). -/
inductive LoggerCall where
  | new (openOk : Bool)
  | drop (log : UserData)
  | print (message : String)
  | filter (debugKernel : Bool)
deriving DecidableEq, Repr

/-- One call.  `none` is an abort. -/
def World.step (w : World) : LoggerCall → Option World
  | .new openOk => w.new openOk
  | .drop log => w.drop log
  | .print message => (w.logger.logPrint message).map ({ w with logger := · })
  | .filter debugKernel => some { w with logger := { w.logger with debugKernel } }

/-- The calls of a program that may also disable logging. -/
inductive Call where
  | logger (call : LoggerCall)
  | disableLogging
deriving DecidableEq, Repr

/-- One call of a program that may also disable logging. -/
def World.stepAll (w : World) : Call → Option World
  | .logger call => w.step call
  | .disableLogging => (w.logger.disableLogging true).map ({ w with logger := · })

/-- The world before the first call.  A log file is configured when
`filePath` is not empty, and the kernel library leaves it empty. -/
def World.init (filePath : String) : World where
  logger := { filePath, printToFile := filePath != "" }

end BitcoinKernel.Log
