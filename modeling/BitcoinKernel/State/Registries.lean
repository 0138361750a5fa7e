import BitcoinKernel.Lib.SharedPtr

/-!
# Who keeps the callback registries

A `ContextBuilder` collects the handlers of the user in two registries.
`build` boxes them and gives the boxes to the kernel as the user data of a
`KernelNotifications` and of a `KernelValidationInterface`, whose destructors
free them.  Both objects are shared: `ContextOptions` and `Context` hold a
shared pointer to each, and the list of validation signals of the context
holds one more to the interface.  The `Context` itself is shared by its
handle, by the options of chainstate managers and by the managers.

This module models the shared pointers one by one.  A `release` runs the
destructor of an object when the last pointer to it ends, and the destructor
releases the members in the reverse order of their declaration.

A manager is created and destroyed in two steps each, with room for other
calls in between, because the kernel raises events while it loads a
chainstate and while it flushes before the manager is deleted, and the
handlers of these events may drop other values.  An event names the registry
that the callback wrapper dereferences, whether or not that registry still
exists.

A call on a value that is not there, or that has another type or phase, cannot
be written in Rust.  Here it changes nothing.
-/

namespace BitcoinKernel.State.Registries

open SharedPtr

/-- What happens to a registry. -/
inductive Event
  | callback (registry : Nat)
  | destroyed (registry : Nat)
deriving DecidableEq, Repr

/-- The shared pointers of `ContextOptions`. -/
structure ContextOptions where
  notifications : Option Nat := none
  validationInterface : Option Nat := none
deriving DecidableEq, Repr

/-- The shared pointers of `Context`.  An interface is held twice: as a member
and in the list of `m_signals`. -/
structure Context where
  notifications : Nat
  validationInterface : Option Nat
deriving DecidableEq, Repr

/-- `ContextBuilder`: the options and the registries that are still Rust
values. -/
structure ContextBuilder where
  options : ContextOptions := {}
  notificationRegistry : Option Nat := none
  validationRegistry : Option Nat := none
deriving DecidableEq, Repr

/-- The values of the crate that keep registries alive.  `loading` is a builder
inside `build`, `closing` a manager inside `drop`. -/
inductive Value
  | contextBuilder (builder : ContextBuilder)
  | context (context : Nat)
  | chainstateManagerBuilder (context : Nat) (loading : Bool)
  | chainstateManager (context : Nat) (closing : Bool)
deriving DecidableEq, Repr

/-- The shared objects, the Rust values, the number of registries made so far
and what has happened to them. -/
structure World where
  /-- `KernelNotifications`; the default object has no user data. -/
  kernelNotifications : Heap (Option Nat) := {}
  /-- `KernelValidationInterface`. -/
  validationInterfaces : Heap Nat := {}
  contexts : Heap Context := {}
  values : List Value := []
  nextRegistry : Nat := 0
  log : List Event := []
deriving DecidableEq, Repr

namespace World

/-- An event is recorded. -/
def emit (s : World) (event : Event) : World := { s with log := s.log ++ [event] }

/-! ## Destructors -/

/-- The end of a pointer to a `KernelNotifications`.  Its destructor calls
`user_data_destroy` on user data that is not null. -/
def releaseNotifications (s : World) (i : Nat) : World :=
  let (object, heap) := s.kernelNotifications.release i
  let s := { s with kernelNotifications := heap }
  match object with
  | some (some registry) => s.emit (.destroyed registry)
  | some none => s
  | none => s

/-- The end of a pointer to a `KernelValidationInterface`. -/
def releaseInterface (s : World) (i : Nat) : World :=
  let (object, heap) := s.validationInterfaces.release i
  let s := { s with validationInterfaces := heap }
  match object with
  | some registry => s.emit (.destroyed registry)
  | none => s

/-- The end of a pointer to a `Context`.  Its destructor unregisters the
interface; then the members `m_validation_interface` and `m_notifications`
end, in this order. -/
def releaseContext (s : World) (i : Nat) : World :=
  let (object, heap) := s.contexts.release i
  let s := { s with contexts := heap }
  match object with
  | some context =>
    let s :=
      match context.validationInterface with
      | some j => (s.releaseInterface j).releaseInterface j
      | none => s
    s.releaseNotifications context.notifications
  | none => s

/-- `btck_context_options_destroy`. -/
def destroyOptions (s : World) (options : ContextOptions) : World :=
  let s :=
    match options.validationInterface with
    | some j => s.releaseInterface j
    | none => s
  match options.notifications with
  | some i => s.releaseNotifications i
  | none => s

/-- `Drop` of a registry that is still a Rust value. -/
def dropRegistry (s : World) : Option Nat → World
  | some registry => s.emit (.destroyed registry)
  | none => s

/-! ## Building a context -/

/-- `setup_notification_interface`: box the registry and set
`m_notifications`. -/
def setupNotificationInterface (s : World) (options : ContextOptions) (registry : Nat) :
    ContextOptions × World :=
  let (i, heap) := s.kernelNotifications.make (some registry)
  let s := { s with kernelNotifications := heap }
  ({ options with notifications := some i }, match options.notifications with
    | some old => s.releaseNotifications old
    | none => s)

/-- `setup_validation_interface`: box the registry and set
`m_validation_interface`. -/
def setupValidationInterface (s : World) (options : ContextOptions) (registry : Nat) :
    ContextOptions × World :=
  let (j, heap) := s.validationInterfaces.make registry
  let s := { s with validationInterfaces := heap }
  ({ options with validationInterface := some j }, match options.validationInterface with
    | some old => s.releaseInterface old
    | none => s)

/-- The pointer that the new context takes to the notifications: a copy of
that of the options, or a default object without callbacks. -/
def contextNotifications (s : World) (options : ContextOptions) : Nat × World :=
  match options.notifications with
  | some i => (i, { s with kernelNotifications := s.kernelNotifications.retain i })
  | none =>
    let (i, heap) := s.kernelNotifications.make none
    (i, { s with kernelNotifications := heap })

/-- The two pointers that the new context takes to the interface. -/
def contextInterface (s : World) (options : ContextOptions) : World :=
  match options.validationInterface with
  | some j =>
    { s with validationInterfaces := (s.validationInterfaces.retain j).retain j }
  | none => s

/-- `std::make_shared<const Context>(opts, sane)`. -/
def makeContext (s : World) (options : ContextOptions) : Nat × World :=
  let (i, s) := s.contextNotifications options
  let s := s.contextInterface options
  let (c, heap) := s.contexts.make ⟨i, options.validationInterface⟩
  (c, { s with contexts := heap })

/-- The first half of `ContextBuilder::build`: hand both registries over. -/
def setupInterfaces (s : World) (builder : ContextBuilder) : ContextOptions × World :=
  let (options, s) :=
    match builder.notificationRegistry with
    | some registry => s.setupNotificationInterface builder.options registry
    | none => (builder.options, s)
  match builder.validationRegistry with
  | some registry => s.setupValidationInterface options registry
  | none => (options, s)

/-- `ContextBuilder::build`.  A context that fails the sanity check is
destroyed before `btck_context_create` returns; the builder is dropped at the
end in any case. -/
def build (s : World) (builder : ContextBuilder) (sane : Bool) : World :=
  let (options, s) := s.setupInterfaces builder
  let (c, s) := s.makeContext options
  let s := if sane then { s with values := .context c :: s.values } else s.releaseContext c
  s.destroyOptions options

/-! ## Events -/

/-- The kernel calls a function of `kernel::Notifications`. -/
def notify (s : World) (c : Nat) : World :=
  match s.contexts.get? c with
  | some context =>
    match s.kernelNotifications.get? context.notifications with
    | some (some registry) => s.emit (.callback registry)
    | _ => s
  | none => s

/-- The kernel calls a function of `CValidationInterface` through the signals
of the context. -/
def signal (s : World) (c : Nat) : World :=
  match s.contexts.get? c with
  | some context =>
    match context.validationInterface with
    | some j =>
      match s.validationInterfaces.get? j with
      | some registry => s.emit (.callback registry)
      | none => s
    | none => s
  | none => s

end World

/-! ## Calls -/

/-- The calls of the crate.  Values are named by their position. -/
inductive Op
  | contextBuilderNew
  /-- Any of `with_*_notification`, or `notifications`. -/
  | withNotification (builder : Nat)
  /-- Any of `with_*_validation`, or `validation`. -/
  | withValidation (builder : Nat)
  | contextBuilderBuild (builder : Nat) (sane : Bool)
  | chainstateManagerBuilderNew (context : Nat) (succeeds : Bool)
  | chainstateManagerBuilderBuild (builder : Nat)
  | chainstateManagerCreated (builder : Nat) (succeeds : Bool)
  /-- An event in a call of a manager, in its creation or in its flush. -/
  | notify (manager : Nat)
  | signal (manager : Nat)
  | drop (value : Nat)
  | chainstateManagerDelete (manager : Nat)
deriving DecidableEq, Repr

/-- The context whose events a value raises: a manager, or the manager that a
builder is loading. -/
def Value.raises : Value → Option Nat
  | .chainstateManager c _ => some c
  | .chainstateManagerBuilder c true => some c
  | _ => none

namespace World

/-- `get_or_create_notification_registry`. -/
def withNotification (s : World) (position : Nat) (builder : ContextBuilder) : World :=
  match builder.notificationRegistry with
  | some _ => s
  | none =>
    { s with
      nextRegistry := s.nextRegistry + 1
      values := s.values.set position
        (.contextBuilder { builder with notificationRegistry := some s.nextRegistry }) }

/-- `get_or_create_validation_registry`. -/
def withValidation (s : World) (position : Nat) (builder : ContextBuilder) : World :=
  match builder.validationRegistry with
  | some _ => s
  | none =>
    { s with
      nextRegistry := s.nextRegistry + 1
      values := s.values.set position
        (.contextBuilder { builder with validationRegistry := some s.nextRegistry }) }

/-- A value leaves the world. -/
def remove (s : World) (position : Nat) : World :=
  { s with values := s.values.eraseIdx position }

/-- A further pointer to a context, in a new value. -/
def shareContext (s : World) (c : Nat) (value : Value) : World :=
  { s with contexts := s.contexts.retain c, values := value :: s.values }

/-- `Drop`.  A manager flushes first; `chainstateManagerDelete` ends it. -/
def drop (s : World) (position : Nat) : Value → World
  | .contextBuilder builder =>
    (((s.remove position).destroyOptions builder.options).dropRegistry
      builder.notificationRegistry).dropRegistry builder.validationRegistry
  | .context c => (s.remove position).releaseContext c
  | .chainstateManagerBuilder c false => (s.remove position).releaseContext c
  | .chainstateManagerBuilder _ true => s
  | .chainstateManager c false =>
    { s with values := s.values.set position (.chainstateManager c true) }
  | .chainstateManager _ true => s

/-- A call on the value at its position. -/
def stepOn (s : World) : Op → Value → World
  | .withNotification i, .contextBuilder builder => s.withNotification i builder
  | .withValidation i, .contextBuilder builder => s.withValidation i builder
  | .contextBuilderBuild i sane, .contextBuilder builder => (s.remove i).build builder sane
  | .chainstateManagerBuilderNew _ succeeds, .context c =>
    if succeeds then s.shareContext c (.chainstateManagerBuilder c false) else s
  | .chainstateManagerBuilderBuild i, .chainstateManagerBuilder c false =>
    { s with values := s.values.set i (.chainstateManagerBuilder c true) }
  -- the manager takes its own pointer to the context; then the options end
  | .chainstateManagerCreated i succeeds, .chainstateManagerBuilder c true =>
    let s' := s.remove i
    (if succeeds then s'.shareContext c (.chainstateManager c false) else s').releaseContext c
  | .notify _, value =>
    match value.raises with
    | some c => s.notify c
    | none => s
  | .signal _, value =>
    match value.raises with
    | some c => s.signal c
    | none => s
  | .drop i, value => s.drop i value
  -- `delete chainman` ends `m_context`; the manager itself raises no event any more
  | .chainstateManagerDelete i, .chainstateManager c true => (s.remove i).releaseContext c
  | _, _ => s

end World

/-- The position of the value that a call is made on. -/
def Op.position : Op → Nat
  | .contextBuilderNew => 0
  | .withNotification i | .withValidation i | .contextBuilderBuild i _
  | .chainstateManagerBuilderNew i _ | .chainstateManagerBuilderBuild i
  | .chainstateManagerCreated i _ | .notify i | .signal i | .drop i
  | .chainstateManagerDelete i => i

/-- A call. -/
def World.step (s : World) (op : Op) : World :=
  match op with
  | .contextBuilderNew => { s with values := .contextBuilder {} :: s.values }
  | op =>
    match s.values[op.position]? with
    | some value => s.stepOn op value
    | none => s

/-- The state after a sequence of calls. -/
def runs (ops : List Op) : World := ops.foldl World.step {}

end BitcoinKernel.State.Registries
