import BitcoinKernel.Lib.Runs
import BitcoinKernel.Notifications.Callbacks

/-!
# Each event calls the handler registered last for it

The purpose of the stations of `Notifications.Callbacks` is short to say.  The
calls on a builder are a sequence of registrations, each for one kind of event
(`BuilderCall.registrations`), and an event calls the last handler registered
for its kind, once, with the arguments that the documentation lists
(`Event.args`).  This module proves that the stations compose to that.

There are four groups.

* The purpose.  `latest` is the last registration of a kind, and `latest_append`
  says what later registrations change.
* The slots.  `handler` reads the slot of a kind out of the registries, and
  `handler_register` says that a registration changes its own slot only.
* The dispatch.  `raise_ofOptions` says that an event ends in the handler of its
  slot, by one case for each event.
* The builder.  `step_spec` is the step lemma of a call on a builder, and
  `callback_dispatch` is the assembly.
-/

namespace BitcoinKernel.Notifications

open List Option

/-! ## The purpose -/

/-- The eleven kinds of events. -/
inductive EventKind
  | blockTip
  | headerTip
  | progress
  | warningSet
  | warningUnset
  | flushError
  | fatalError
  | blockChecked
  | newPowValidBlock
  | blockConnected
  | blockDisconnected
deriving DecidableEq, Repr

/-- The kind of an event. -/
def Event.kind : Event → EventKind
  | .blockTip .. => .blockTip
  | .headerTip .. => .headerTip
  | .progress .. => .progress
  | .warningSet .. => .warningSet
  | .warningUnset .. => .warningUnset
  | .flushError .. => .flushError
  | .fatalError .. => .fatalError
  | .blockChecked .. => .blockChecked
  | .newPowValidBlock .. => .newPowValidBlock
  | .blockConnected .. => .blockConnected
  | .blockDisconnected .. => .blockDisconnected

/-- The name that this crate has for a state of the kernel. -/
def SynchronizationState.ofKernel : Kernel.SynchronizationState → SynchronizationState
  | .initReindex => .initReindex
  | .initDownload => .initDownload
  | .postInit => .postInit

/-- The name that this crate has for a warning of the kernel. -/
def Warning.ofKernel : Kernel.Warning → Warning
  | .unknownNewRulesActivated => .unknownNewRulesActivated
  | .largeWorkInvalidChain => .largeWorkInvalidChain

/-- The arguments that the documentation lists for the handler of an event.
`text` reads a message.  The documentation of
`with_new_pow_valid_block_validation` puts the entry first, for closures, and
the trait puts the block first. -/
def Event.args (text : List UInt8 → String) (handler : Handler) : Event → List Arg
  | .blockTip state index verificationProgress =>
    [.synchronizationState (.ofKernel state), .blockHash index.index.hash,
      .float verificationProgress]
  | .headerTip state height timestamp presync =>
    [.synchronizationState (.ofKernel state), .int height, .int timestamp, .bool presync]
  | .progress title progressPercent resumePossible =>
    [.string (text title.original), .int progressPercent, .bool resumePossible]
  | .warningSet id message => [.warning (.ofKernel id), .string (text message.original)]
  | .warningUnset id => [.warning (.ofKernel id)]
  | .flushError message => [.string (text message.original)]
  | .fatalError message => [.string (text message.original)]
  | .blockChecked block state => [.block block, .validationState state]
  | .newPowValidBlock pindex block =>
    match handler with
    | .closure _ => [.entry pindex, .block block]
    | .object _ => [.block block, .entry pindex]
  | .blockConnected block pindex => [.block block, .entry pindex]
  | .blockDisconnected block pindex => [.block block, .entry pindex]

/-- What a method of the notification registry registers. -/
def NotificationCall.registration : NotificationCall → EventKind × Handler
  | .registerBlockTip handler => (.blockTip, handler)
  | .registerHeaderTip handler => (.headerTip, handler)
  | .registerProgress handler => (.progress, handler)
  | .registerWarningSet handler => (.warningSet, handler)
  | .registerWarningUnset handler => (.warningUnset, handler)
  | .registerFlushError handler => (.flushError, handler)
  | .registerFatalError handler => (.fatalError, handler)

/-- What a method of the validation registry registers. -/
def ValidationCall.registration : ValidationCall → EventKind × Handler
  | .registerBlockChecked handler => (.blockChecked, handler)
  | .registerNewPowValidBlock handler => (.newPowValidBlock, handler)
  | .registerBlockConnected handler => (.blockConnected, handler)
  | .registerBlockDisconnected handler => (.blockDisconnected, handler)

/-- What a call on a builder registers, in order. -/
def BuilderCall.registrations : BuilderCall → List (EventKind × Handler)
  | .chainType _ => []
  | .signet _ => []
  | .withBlockTipNotification handler => [(.blockTip, handler)]
  | .withProgressNotification handler => [(.progress, handler)]
  | .withHeaderTipNotification handler => [(.headerTip, handler)]
  | .withWarningSetNotification handler => [(.warningSet, handler)]
  | .withWarningUnsetNotification handler => [(.warningUnset, handler)]
  | .withFlushErrorNotification handler => [(.flushError, handler)]
  | .withFatalErrorNotification handler => [(.fatalError, handler)]
  | .notifications configure => configure.map NotificationCall.registration
  | .withBlockCheckedValidation handler => [(.blockChecked, handler)]
  | .withNewPowValidBlockValidation handler => [(.newPowValidBlock, handler)]
  | .withBlockConnectedValidation handler => [(.blockConnected, handler)]
  | .withBlockDisconnectedValidation handler => [(.blockDisconnected, handler)]
  | .validation configure => configure.map ValidationCall.registration

/-- The chain parameters that a call on a builder chooses. -/
def BuilderCall.chainParams : BuilderCall → Option CChainParams
  | .chainType .mainnet => some .main
  | .chainType .testnet => some .testNet
  | .chainType .testnet4 => some .testNet4
  | .chainType .signet => some (.sigNet none)
  | .chainType .regtest => some .regTest
  | .signet challenge => some (.sigNet (some challenge))
  | _ => none

/-- The handler registered last for a kind of event. -/
def latest (kind : EventKind) (registrations : List (EventKind × Handler)) : Option Handler :=
  (registrations.filter (·.1 = kind)).getLast?.map Prod.snd

theorem latest_append (kind : EventKind) (before after : List (EventKind × Handler)) :
    latest kind (before ++ after) = (latest kind after).or (latest kind before) := by
  unfold latest
  rw [filter_append, getLast?_append]
  cases (after.filter (·.1 = kind)).getLast? <;> rfl

theorem latest_singleton (kind : EventKind) (registration : EventKind × Handler) :
    latest kind [registration] = if registration.1 = kind then some registration.2 else none := by
  unfold latest
  rw [filter_singleton]
  by_cases h : registration.1 = kind
  · simp [h]
  · simp [h]

theorem latest_eq_none {kind : EventKind} {registrations : List (EventKind × Handler)}
    (h : ∀ registration ∈ registrations, registration.1 ≠ kind) :
    latest kind registrations = none := by
  unfold latest
  rw [filter_eq_nil_iff.mpr]
  · rfl
  · intro registration hmem
    simpa using h registration hmem

/-! ## The slots -/

/-- The slot of a kind of event. -/
def NotificationCallbackRegistry.handler (r : NotificationCallbackRegistry) :
    EventKind → Option Handler
  | .blockTip => r.blockTipHandler
  | .headerTip => r.headerTipHandler
  | .progress => r.progressHandler
  | .warningSet => r.warningSetHandler
  | .warningUnset => r.warningUnsetHandler
  | .flushError => r.flushErrorHandler
  | .fatalError => r.fatalErrorHandler
  | _ => none

/-- The slot of a kind of event. -/
def ValidationCallbackRegistry.handler (r : ValidationCallbackRegistry) : EventKind → Option Handler
  | .blockChecked => r.blockCheckedHandler
  | .newPowValidBlock => r.newPowValidBlockHandler
  | .blockConnected => r.blockConnectedHandler
  | .blockDisconnected => r.blockDisconnectedHandler
  | _ => none

/-- A registration changes the slot of its kind and no other. -/
theorem NotificationCallbackRegistry.handler_register (r : NotificationCallbackRegistry)
    (call : NotificationCall) (kind : EventKind) :
    (r.register call).handler kind = (latest kind [call.registration]).or (r.handler kind) := by
  rw [latest_singleton]
  cases call <;> cases kind <;> rfl

/-- A registration changes the slot of its kind and no other. -/
theorem ValidationCallbackRegistry.handler_register (r : ValidationCallbackRegistry)
    (call : ValidationCall) (kind : EventKind) :
    (r.register call).handler kind = (latest kind [call.registration]).or (r.handler kind) := by
  rw [latest_singleton]
  cases call <;> cases kind <;> rfl

/-- A fold of registrations.  `handler` reads the slot of a kind, and each call
changes the slot of its registration. -/
theorem handler_foldl {ρ κ : Type} {handler : ρ → EventKind → Option Handler} {register : ρ → κ → ρ}
    {registration : κ → EventKind × Handler}
    (hregister : ∀ r call kind,
      handler (register r call) kind = (latest kind [registration call]).or (handler r kind))
    (r : ρ) (calls : List κ) (kind : EventKind) :
    handler (calls.foldl register r) kind =
      (latest kind (calls.map registration)).or (handler r kind) := by
  induction calls generalizing r with
  | nil => rfl
  | cons call calls ih =>
    have hsplit := latest_append kind [registration call] (calls.map registration)
    rw [singleton_append] at hsplit
    rw [foldl_cons, ih, hregister, map_cons, hsplit, Option.or_assoc]

/-! ## The dispatch -/

/-- The calls of an event whose kind has the given handler. -/
def Event.invocations (text : List UInt8 → String) (event : Event) (handler : Option Handler) :
    List Invocation :=
  handler.toList.map fun h => ⟨h, event.args text h⟩

variable {fromUtf8Lossy : List UInt8 → String}

theorem SynchronizationState.ofBtck_castState (state : Kernel.SynchronizationState) :
    SynchronizationState.ofBtck (castState state) = some (.ofKernel state) := by
  cases state <;> rfl

theorem Warning.ofBtck_castBtckWarning (warning : Kernel.Warning) :
    Warning.ofBtck (castBtckWarning warning) = some (.ofKernel warning) := by
  cases warning <;> rfl

theorem enabled_btckBool (b : Bool) : enabled (btckBool b) = b := by cases b <;> rfl

theorem toString_cStr (text : List UInt8) :
    toString fromUtf8Lossy (cStr text) text.length = fromUtf8Lossy text := by
  show fromUtf8Lossy ((text ++ [0]).take text.length) = fromUtf8Lossy text
  rw [take_left]

/-- A wrapper calls the handler of its slot, if the conversions succeed. -/
theorem withHandler_some {ρ : Type} (registry : ρ) (slot : ρ → Option Handler)
    {call : Handler → Option Invocation} {text : List UInt8 → String} {event : Event}
    (hcall : ∀ h, call h = some ⟨h, event.args text h⟩) :
    withHandler (some registry) slot call = some (event.invocations text (slot registry)) := by
  rw [withHandler, bind_eq_bind, bind_some]
  cases slot registry with
  | none => rfl
  | some h =>
    show (call h).bind _ = _
    rw [hcall]
    rfl

/-- The notification table that `build` sets calls the handler in the slot of
the event. -/
theorem raise_notificationHolder (registry : NotificationCallbackRegistry) (event : Event) :
    (ContextBuilder.notificationHolder fromUtf8Lossy registry).raise event =
      some (event.invocations fromUtf8Lossy (registry.handler event.kind)) := by
  cases event with
  | blockTip state index verificationProgress =>
    apply withHandler_some registry (·.blockTipHandler)
    intro h
    rw [SynchronizationState.ofBtck_castState]
    rfl
  | headerTip state height timestamp presync =>
    apply withHandler_some registry (·.headerTipHandler)
    intro h
    rw [SynchronizationState.ofBtck_castState, enabled_btckBool]
    rfl
  | progress title progressPercent resumePossible =>
    apply withHandler_some registry (·.progressHandler)
    intro h
    rw [toString_cStr, enabled_btckBool]
    rfl
  | warningSet id message =>
    apply withHandler_some registry (·.warningSetHandler)
    intro h
    rw [Warning.ofBtck_castBtckWarning, toString_cStr]
    rfl
  | warningUnset id =>
    apply withHandler_some registry (·.warningUnsetHandler)
    intro h
    rw [Warning.ofBtck_castBtckWarning]
    rfl
  | flushError message =>
    apply withHandler_some registry (·.flushErrorHandler)
    intro h
    rw [toString_cStr]
    rfl
  | fatalError message =>
    apply withHandler_some registry (·.fatalErrorHandler)
    intro h
    rw [toString_cStr]
    rfl
  | blockChecked | newPowValidBlock | blockConnected | blockDisconnected => rfl

/-- The validation table that `build` sets calls the handler in the slot of the
event. -/
theorem raise_validationHolder (registry : ValidationCallbackRegistry) (event : Event) :
    (ContextBuilder.validationHolder registry).raise event =
      some (event.invocations fromUtf8Lossy (registry.handler event.kind)) := by
  cases event with
  | blockChecked block state => exact withHandler_some registry (·.blockCheckedHandler) fun _ => rfl
  | newPowValidBlock pindex block =>
    apply withHandler_some registry (·.newPowValidBlockHandler)
    intro h
    cases h <;> rfl
  | blockConnected block pindex =>
    exact withHandler_some registry (·.blockConnectedHandler) fun _ => rfl
  | blockDisconnected block pindex =>
    exact withHandler_some registry (·.blockDisconnectedHandler) fun _ => rfl
  | _ => rfl

/-- The slot of a kind of event in the registries of a builder. -/
def ContextBuilder.handler (b : ContextBuilder) (kind : EventKind) : Option Handler :=
  (b.notificationRegistry.bind (·.handler kind)).or (b.validationRegistry.bind (·.handler kind))

/-- The options of a builder have no tables before `build`. -/
def ContextBuilder.Unset (b : ContextBuilder) : Prop :=
  b.inner.notifications = none ∧ b.inner.validationInterface = none

theorem notifications_options {b : ContextBuilder} (h : b.Unset) :
    (b.options fromUtf8Lossy).notifications =
      b.notificationRegistry.map (ContextBuilder.notificationHolder fromUtf8Lossy) := by
  unfold ContextBuilder.options
  cases b.notificationRegistry <;> cases b.validationRegistry <;> first | exact h.1 | rfl

theorem validationInterface_options {b : ContextBuilder} (h : b.Unset) :
    (b.options fromUtf8Lossy).validationInterface =
      b.validationRegistry.map ContextBuilder.validationHolder := by
  unfold ContextBuilder.options
  cases b.notificationRegistry <;> cases b.validationRegistry <;> first | exact h.2 | rfl

/-- An event in the context of a builder calls the handler of its slot. -/
theorem raise_ofOptions {b : ContextBuilder} (h : b.Unset) (event : Event) :
    (Context.ofOptions (b.options fromUtf8Lossy)).raise event =
      some (event.invocations fromUtf8Lossy (b.handler event.kind)) := by
  have hnotifications : (Context.ofOptions (b.options fromUtf8Lossy)).notifications.raise event =
      some (event.invocations fromUtf8Lossy
        (b.notificationRegistry.bind (·.handler event.kind))) := by
    show ((b.options fromUtf8Lossy).notifications.getD .null).raise event = _
    rw [notifications_options h]
    cases b.notificationRegistry with
    | none => cases event <;> rfl
    | some registry => exact raise_notificationHolder registry event
  have hiterate : ∀ registry, iterate [ContextBuilder.validationHolder registry] event =
      some (event.invocations fromUtf8Lossy (registry.handler event.kind)) := by
    intro registry
    have hraise : (ContextBuilder.validationHolder registry).raise event =
        some (event.invocations fromUtf8Lossy (registry.handler event.kind)) :=
      raise_validationHolder registry event
    simp [iterate, hraise]
  have hsignals : (Context.ofOptions (b.options fromUtf8Lossy)).signals =
      b.validationRegistry.map fun registry => [ContextBuilder.validationHolder registry] := by
    show (b.options fromUtf8Lossy).validationInterface.map _ = _
    rw [validationInterface_options h, Option.map_map]
    rfl
  unfold ContextBuilder.handler
  cases event with
  | blockChecked | newPowValidBlock | blockConnected | blockDisconnected =>
    rw [Context.raise, hsignals]
    cases b.validationRegistry with
    | none => cases b.notificationRegistry <;> rfl
    | some registry =>
      refine (hiterate registry).trans ?_
      cases b.notificationRegistry <;> rfl
  | _ =>
    refine hnotifications.trans ?_
    cases b.validationRegistry <;> simp [ValidationCallbackRegistry.handler, Event.kind]

/-! ## The builder -/

/-- No method of the validation registry registers for a kind that has a slot in
the notification registry. -/
theorem handler_eq_none_or (r : NotificationCallbackRegistry) (configure : List ValidationCall)
    (kind : EventKind) :
    r.handler kind = none ∨ latest kind (configure.map ValidationCall.registration) = none := by
  cases kind with
  | blockChecked | newPowValidBlock | blockConnected | blockDisconnected => exact Or.inl rfl
  | _ =>
    refine Or.inr (latest_eq_none ?_)
    intro registration hmem
    obtain ⟨call, -, rfl⟩ := mem_map.mp hmem
    cases call <;> exact nofun

namespace ContextBuilder

/-- `notifications` registers what its closure registers. -/
theorem handler_notifications (b : ContextBuilder) (configure : List NotificationCall)
    (kind : EventKind) :
    (b.notifications configure).handler kind =
      (latest kind (configure.map NotificationCall.registration)).or (b.handler kind) := by
  have hfold := handler_foldl NotificationCallbackRegistry.handler_register
    (b.notificationRegistry.getD {}) configure kind
  have hold : (b.notificationRegistry.getD {}).handler kind =
      b.notificationRegistry.bind (·.handler kind) := by
    cases b.notificationRegistry with
    | none => cases kind <;> rfl
    | some registry => rfl
  unfold handler
  rw [← Option.or_assoc, ← hold, ← hfold]
  rfl

/-- `validation` registers what its closure registers. -/
theorem handler_validation (b : ContextBuilder) (configure : List ValidationCall)
    (kind : EventKind) :
    (b.validation configure).handler kind =
      (latest kind (configure.map ValidationCall.registration)).or (b.handler kind) := by
  have hfold := handler_foldl ValidationCallbackRegistry.handler_register
    (b.validationRegistry.getD {}) configure kind
  have hold : (b.validationRegistry.getD {}).handler kind =
      b.validationRegistry.bind (·.handler kind) := by
    cases b.validationRegistry with
    | none => cases kind <;> rfl
    | some registry => rfl
  have hnew : (b.validation configure).handler kind =
      (b.notificationRegistry.bind (·.handler kind)).or
        ((latest kind (configure.map ValidationCall.registration)).or
          (b.validationRegistry.bind (·.handler kind))) := by
    rw [← hold, ← hfold]
    rfl
  rw [hnew]
  unfold handler
  -- The slots of the two registries do not meet.
  cases b.notificationRegistry with
  | none => rfl
  | some registry =>
    show (registry.handler kind).or _ = _
    rcases handler_eq_none_or registry configure kind with hnone | hnone
    · rw [bind_some, hnone, none_or, none_or]
    · rw [bind_some, hnone, none_or, none_or]

/-- What a call on a builder does. -/
structure StepSpec (b b' : ContextBuilder) (call : BuilderCall) : Prop where
  unset : b.Unset → b'.Unset
  handler : ∀ kind, b'.handler kind = (latest kind call.registrations).or (b.handler kind)
  chainparams : b'.inner.chainparams = call.chainParams.or b.inner.chainparams

theorem stepSpec_notifications (b : ContextBuilder) (configure : List NotificationCall)
    {call : BuilderCall}
    (hregistrations : call.registrations = configure.map NotificationCall.registration)
    (hchainParams : call.chainParams = none) : StepSpec b (b.notifications configure) call where
  unset h := h
  handler kind := by rw [hregistrations, handler_notifications]
  chainparams := by rw [hchainParams]; rfl

theorem stepSpec_validation (b : ContextBuilder) (configure : List ValidationCall)
    {call : BuilderCall}
    (hregistrations : call.registrations = configure.map ValidationCall.registration)
    (hchainParams : call.chainParams = none) : StepSpec b (b.validation configure) call where
  unset h := h
  handler kind := by rw [hregistrations, handler_validation]
  chainparams := by rw [hchainParams]; rfl

/-- The step lemma: a call on a builder returns, and does what it says. -/
theorem step_spec (b : ContextBuilder) (call : BuilderCall) :
    ∃ b', b.step call = some b' ∧ StepSpec b b' call := by
  cases call with
  | chainType chainType => cases chainType <;> exact ⟨_, rfl, fun h => h, fun _ => rfl, rfl⟩
  | signet challenge => exact ⟨_, rfl, fun h => h, fun _ => rfl, rfl⟩
  | withBlockTipNotification | withProgressNotification | withHeaderTipNotification
  | withWarningSetNotification | withWarningUnsetNotification | withFlushErrorNotification
  | withFatalErrorNotification | notifications => exact ⟨_, rfl, stepSpec_notifications b _ rfl rfl⟩
  | withBlockCheckedValidation | withNewPowValidBlockValidation | withBlockConnectedValidation
  | withBlockDisconnectedValidation | validation => exact ⟨_, rfl, stepSpec_validation b _ rfl rfl⟩

/-- What a sequence of calls on a new builder has done. -/
structure Spec (calls : List BuilderCall) (b : ContextBuilder) : Prop where
  unset : b.Unset
  handler : ∀ kind, b.handler kind = latest kind (calls.flatMap BuilderCall.registrations)
  chainparams : b.inner.chainparams = (calls.filterMap BuilderCall.chainParams).getLast?

theorem Spec.snoc {calls : List BuilderCall} {b b' : ContextBuilder} {call : BuilderCall}
    (h : Spec calls b) (hstep : StepSpec b b' call) : Spec (calls ++ [call]) b' where
  unset := hstep.unset h.unset
  handler kind := by
    rw [hstep.handler, h.handler, flatMap_append, latest_append, flatMap_singleton]
  chainparams := by
    rw [hstep.chainparams, h.chainparams, filterMap_append, getLast?_append]
    cases hcall : call.chainParams <;> simp [hcall]

/-- Every sequence of calls on a new builder returns. -/
theorem run_spec (calls : List BuilderCall) :
    ∃ b, Runs.run step {} calls = some b ∧ Spec calls b := by
  apply Runs.run_history (I := Spec) _ _ calls prefix_rfl
  · exact ⟨⟨rfl, rfl⟩, fun _ => rfl, rfl⟩
  · intro pre call b _ _ h
    obtain ⟨b', hb', hstep⟩ := step_spec b call
    exact ⟨b', hb', h.snoc hstep⟩

end ContextBuilder

/-- The context that a sequence of calls on a new builder gives, if all of them
return and the build succeeds. -/
def buildContext (fromUtf8Lossy : List UInt8 → String) (calls : List BuilderCall) (sane : Bool) :
    Option Context := do
  let b ← Runs.run ContextBuilder.step {} calls
  (b.build fromUtf8Lossy sane).toOption

/-- What a context does for the calls on the builder that made it. -/
structure Context.Spec (fromUtf8Lossy : List UInt8 → String) (calls : List BuilderCall)
    (context : Context) : Prop where
  raise : ∀ event : Event, context.raise event = some (event.invocations fromUtf8Lossy
      (latest event.kind (calls.flatMap BuilderCall.registrations)))
  chainparams : context.chainparams = (calls.filterMap BuilderCall.chainParams).getLast?.getD .main

theorem chainparams_options (b : ContextBuilder) :
    (b.options fromUtf8Lossy).chainparams = b.inner.chainparams := by
  unfold ContextBuilder.options
  cases b.notificationRegistry <;> cases b.validationRegistry <;> rfl

theorem buildContext_spec (fromUtf8Lossy : List UInt8 → String) (calls : List BuilderCall) :
    ∃ context, buildContext fromUtf8Lossy calls true = some context ∧
      context.Spec fromUtf8Lossy calls := by
  obtain ⟨b, hrun, hspec⟩ := ContextBuilder.run_spec calls
  refine ⟨Context.ofOptions (b.options fromUtf8Lossy), ?_, ?_, ?_⟩
  · rw [buildContext, hrun]
    rfl
  · intro event
    rw [raise_ofOptions hspec.unset, hspec.handler]
  · show (b.options fromUtf8Lossy).chainparams.getD .main = _
    rw [chainparams_options, hspec.chainparams]

/-- Every sequence of calls on a builder returns.  After a successful build each
event calls the handler registered last for its kind, once and with its own
arguments, and no other handler, and none if there is none.  The chain
parameters are those chosen last, and those of mainnet if none were.  A call
that does not register for a kind of event changes nothing about its events. -/
theorem callback_dispatch (fromUtf8Lossy : List UInt8 → String) (calls : List BuilderCall) :
    ∃ context, buildContext fromUtf8Lossy calls true = some context ∧
      context.Spec fromUtf8Lossy calls ∧
      ∀ call, ∃ context', buildContext fromUtf8Lossy (calls ++ [call]) true = some context' ∧
        ∀ event : Event, (∀ registration ∈ call.registrations, registration.1 ≠ event.kind) →
          context'.raise event = context.raise event := by
  obtain ⟨context, hcontext, hspec⟩ := buildContext_spec fromUtf8Lossy calls
  refine ⟨context, hcontext, hspec, ?_⟩
  intro call
  obtain ⟨context', hcontext', hspec'⟩ := buildContext_spec fromUtf8Lossy (calls ++ [call])
  refine ⟨context', hcontext', ?_⟩
  intro event hother
  rw [hspec'.raise, hspec.raise, flatMap_append, latest_append, flatMap_singleton,
    latest_eq_none hother, none_or]

-- The second closure for `pow_valid_block` gets the entry first; a builder
-- without notifications calls none for a header tip.
example (fromUtf8Lossy : List UInt8 → String) (pindex : EntryRef) (block : Ptr) :
    (buildContext fromUtf8Lossy
        [.withNewPowValidBlockValidation (.closure 0), .chainType .regtest,
          .validation [.registerBlockChecked (.object 1),
            .registerNewPowValidBlock (.closure 2)]] true).map
        (fun context => (context.raise (.newPowValidBlock pindex block),
          context.raise (.headerTip .postInit 7 8 false), context.chainparams)) =
      some (some [⟨.closure 2, [.entry pindex, .block block]⟩], some [], .regTest) := rfl

end BitcoinKernel.Notifications
