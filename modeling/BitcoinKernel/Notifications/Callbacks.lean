import BitcoinKernel.State.BlockIndex

/-!
# Callbacks from the registration to the handler

A handler of the user goes through five stations.  The `ContextBuilder` puts
it in a slot of one of two registries.  `build` boxes the registries and gives
them to the kernel as the user data of two callback tables, whose functions
are the wrappers of this crate.  The kernel keeps the tables in a
`KernelNotifications` and a `KernelValidationInterface`.  An event of the
kernel calls a method of these, the method calls the function of its slot in
the table, and the wrapper calls the handler in its slot of the registry.

Arguments are converted on the way.  Enumerations travel as numbers, booleans
as `0` and `1`, and strings as a pointer with a length.  A pointer to an object
of the kernel is named by a number, and a reference to a block tree entry
carries the node that it points to.

`none` is a call that does not return: a failed `assert`, a `panic!` inside
of an `extern "C"` function, or a null pointer that is dereferenced.
`from_utf8_lossy` of the standard library is the parameter `fromUtf8Lossy`.
-/

namespace BitcoinKernel.Notifications

open State

/-! ## Handlers -/

/-- A handler of the user.  A closure implements a callback trait by the
blanket `impl` of the trait, an object by an `impl` of the user. -/
inductive Handler
  | closure (id : Nat)
  | object (id : Nat)
deriving DecidableEq, Repr

/-- `SynchronizationState` of this crate. -/
inductive SynchronizationState
  | initReindex
  | initDownload
  | postInit
deriving DecidableEq, Repr

/-- `Warning` of this crate. -/
inductive Warning
  | unknownNewRulesActivated
  | largeWorkInvalidChain
deriving DecidableEq, Repr

/-- A pointer to an object of the kernel. -/
abbrev Ptr := Nat

/-- A pointer to a block tree entry, with the node behind it. -/
structure EntryRef where
  ptr : EntryPtr
  index : BlockIndex
deriving DecidableEq, Repr

/-- A value that a handler is called with.  An `f64` is given by its bits. -/
inductive Arg
  | synchronizationState (state : SynchronizationState)
  | warning (warning : Warning)
  | blockHash (hash : Uint256)
  | float (bits : UInt64)
  | int (value : Int)
  | bool (value : Bool)
  | string (value : String)
  | block (block : Ptr)
  | entry (entry : EntryRef)
  | validationState (state : Ptr)
deriving DecidableEq, Repr

/-- One call of a handler, with the arguments in their order. -/
structure Invocation where
  handler : Handler
  args : List Arg
deriving DecidableEq, Repr

/-- The calls of handlers that a call makes. -/
abbrev Outcome := Option (List Invocation)

namespace Handler

/-- `BlockTipCallback::on_block_tip`. -/
def onBlockTip (h : Handler) (state : SynchronizationState) (hash : Uint256)
    (verificationProgress : UInt64) : Invocation :=
  ⟨h, [.synchronizationState state, .blockHash hash, .float verificationProgress]⟩

/-- `HeaderTipCallback::on_header_tip`. -/
def onHeaderTip (h : Handler) (state : SynchronizationState) (height timestamp : Int)
    (presync : Bool) : Invocation :=
  ⟨h, [.synchronizationState state, .int height, .int timestamp, .bool presync]⟩

/-- `ProgressCallback::on_progress`. -/
def onProgress (h : Handler) (title : String) (percent : Int) (resumePossible : Bool) :
    Invocation :=
  ⟨h, [.string title, .int percent, .bool resumePossible]⟩

/-- `WarningSetCallback::on_warning_set`. -/
def onWarningSet (h : Handler) (warning : Warning) (message : String) : Invocation :=
  ⟨h, [.warning warning, .string message]⟩

/-- `WarningUnsetCallback::on_warning_unset`. -/
def onWarningUnset (h : Handler) (warning : Warning) : Invocation := ⟨h, [.warning warning]⟩

/-- `FlushErrorCallback::on_flush_error`. -/
def onFlushError (h : Handler) (message : String) : Invocation := ⟨h, [.string message]⟩

/-- `FatalErrorCallback::on_fatal_error`. -/
def onFatalError (h : Handler) (message : String) : Invocation := ⟨h, [.string message]⟩

/-- `BlockCheckedCallback::on_block_checked`. -/
def onBlockChecked (h : Handler) (block state : Ptr) : Invocation :=
  ⟨h, [.block block, .validationState state]⟩

/-- `NewPoWValidBlockCallback::on_new_pow_valid_block`.  The blanket `impl` for
closures turns the arguments around. -/
def onNewPowValidBlock (h : Handler) (block : Ptr) (entry : EntryRef) : Invocation :=
  match h with
  | .closure _ => ⟨h, [.entry entry, .block block]⟩
  | .object _ => ⟨h, [.block block, .entry entry]⟩

/-- `BlockConnectedCallback::on_block_connected`. -/
def onBlockConnected (h : Handler) (block : Ptr) (entry : EntryRef) : Invocation :=
  ⟨h, [.block block, .entry entry]⟩

/-- `BlockDisconnectedCallback::on_block_disconnected`. -/
def onBlockDisconnected (h : Handler) (block : Ptr) (entry : EntryRef) : Invocation :=
  ⟨h, [.block block, .entry entry]⟩

end Handler

/-! ## Registries -/

/-- `NotificationCallbackRegistry`. -/
structure NotificationCallbackRegistry where
  blockTipHandler : Option Handler := none
  headerTipHandler : Option Handler := none
  progressHandler : Option Handler := none
  warningSetHandler : Option Handler := none
  warningUnsetHandler : Option Handler := none
  flushErrorHandler : Option Handler := none
  fatalErrorHandler : Option Handler := none
deriving DecidableEq, Repr

/-- The methods of a `NotificationCallbackRegistry`. -/
inductive NotificationCall
  | registerBlockTip (handler : Handler)
  | registerHeaderTip (handler : Handler)
  | registerProgress (handler : Handler)
  | registerWarningSet (handler : Handler)
  | registerWarningUnset (handler : Handler)
  | registerFlushError (handler : Handler)
  | registerFatalError (handler : Handler)
deriving DecidableEq, Repr

/-- A method of a `NotificationCallbackRegistry`. -/
def NotificationCallbackRegistry.register (r : NotificationCallbackRegistry) :
    NotificationCall → NotificationCallbackRegistry
  | .registerBlockTip handler => { r with blockTipHandler := some handler }
  | .registerHeaderTip handler => { r with headerTipHandler := some handler }
  | .registerProgress handler => { r with progressHandler := some handler }
  | .registerWarningSet handler => { r with warningSetHandler := some handler }
  | .registerWarningUnset handler => { r with warningUnsetHandler := some handler }
  | .registerFlushError handler => { r with flushErrorHandler := some handler }
  | .registerFatalError handler => { r with fatalErrorHandler := some handler }

/-- `ValidationCallbackRegistry`. -/
structure ValidationCallbackRegistry where
  blockCheckedHandler : Option Handler := none
  newPowValidBlockHandler : Option Handler := none
  blockConnectedHandler : Option Handler := none
  blockDisconnectedHandler : Option Handler := none
deriving DecidableEq, Repr

/-- The methods of a `ValidationCallbackRegistry`. -/
inductive ValidationCall
  | registerBlockChecked (handler : Handler)
  | registerNewPowValidBlock (handler : Handler)
  | registerBlockConnected (handler : Handler)
  | registerBlockDisconnected (handler : Handler)
deriving DecidableEq, Repr

/-- A method of a `ValidationCallbackRegistry`. -/
def ValidationCallbackRegistry.register (r : ValidationCallbackRegistry) :
    ValidationCall → ValidationCallbackRegistry
  | .registerBlockChecked handler => { r with blockCheckedHandler := some handler }
  | .registerNewPowValidBlock handler => { r with newPowValidBlockHandler := some handler }
  | .registerBlockConnected handler => { r with blockConnectedHandler := some handler }
  | .registerBlockDisconnected handler => { r with blockDisconnectedHandler := some handler }

/-! ## Conversions -/

namespace Kernel

/-- `SynchronizationState` of the kernel. -/
inductive SynchronizationState
  | initReindex
  | initDownload
  | postInit
deriving DecidableEq, Repr

/-- `kernel::Warning`. -/
inductive Warning
  | unknownNewRulesActivated
  | largeWorkInvalidChain
deriving DecidableEq, Repr

/-- `bilingual_str`, with the bytes of both texts. -/
structure BilingualStr where
  original : List UInt8
  translated : List UInt8
deriving DecidableEq, Repr

end Kernel

/-- `cast_state`. -/
def castState : Kernel.SynchronizationState → Nat
  | .initReindex => 0
  | .initDownload => 1
  | .postInit => 2

/-- `From<btck_SynchronizationState>`. -/
def SynchronizationState.ofBtck : Nat → Option SynchronizationState
  | 0 => some .initReindex
  | 1 => some .initDownload
  | 2 => some .postInit
  | _ => none

/-- `cast_btck_warning`. -/
def castBtckWarning : Kernel.Warning → Nat
  | .unknownNewRulesActivated => 0
  | .largeWorkInvalidChain => 1

/-- `From<btck_Warning>`. -/
def Warning.ofBtck : Nat → Option Warning
  | 0 => some .unknownNewRulesActivated
  | 1 => some .largeWorkInvalidChain
  | _ => none

/-- A C string: a null pointer, or the memory from a pointer on. -/
abbrev CStr := Option (List UInt8)

/-- `std::string::c_str`. -/
def cStr (text : List UInt8) : CStr := some (text ++ [0])

/-- The conversion of a C++ `bool` at the interface. -/
def btckBool (b : Bool) : Int := if b then 1 else 0

/-- `c_helpers::enabled`. -/
def enabled (code : Int) : Bool := code != 0

variable (fromUtf8Lossy : List UInt8 → String)

/-- `c_helpers::to_string`. -/
def toString (str : CStr) (len : Nat) : String :=
  match str with
  | some bytes => fromUtf8Lossy (bytes.take len)
  | none => ""

/-- `btck_block_tree_entry_get_block_hash`. -/
def btckBlockTreeEntryGetBlockHash (entry : EntryRef) : Uint256 := entry.index.hash

/-! ## Wrappers -/

/-- What all wrappers do: dereference the user data and call the handler of one
slot, if there is one. -/
def withHandler {ρ : Type} (userData : Option ρ) (slot : ρ → Option Handler)
    (call : Handler → Option Invocation) : Outcome := do
  let registry ← userData
  match slot registry with
  | some handler => return [← call handler]
  | none => return []

/-- A pointer to a boxed registry. -/
abbrev NotificationData := Option NotificationCallbackRegistry

/-- A pointer to a boxed registry. -/
abbrev ValidationData := Option ValidationCallbackRegistry

/-- `notification_block_tip_wrapper`. -/
def notificationBlockTipWrapper (userData : NotificationData) (state : Nat) (entry : EntryRef)
    (verificationProgress : UInt64) : Outcome :=
  withHandler userData (·.blockTipHandler) fun handler => do
    let blockHash := btckBlockTreeEntryGetBlockHash entry
    return handler.onBlockTip (← SynchronizationState.ofBtck state) blockHash verificationProgress

/-- `notification_header_tip_wrapper`. -/
def notificationHeaderTipWrapper (userData : NotificationData) (state : Nat)
    (height timestamp presync : Int) : Outcome :=
  withHandler userData (·.headerTipHandler) fun handler => do
    return handler.onHeaderTip (← SynchronizationState.ofBtck state) height timestamp
      (enabled presync)

/-- `notification_progress_wrapper`. -/
def notificationProgressWrapper (userData : NotificationData) (title : CStr) (titleLen : Nat)
    (progressPercent resumePossible : Int) : Outcome :=
  withHandler userData (·.progressHandler) fun handler =>
    some (handler.onProgress (toString fromUtf8Lossy title titleLen) progressPercent
      (enabled resumePossible))

/-- `notification_warning_set_wrapper`. -/
def notificationWarningSetWrapper (userData : NotificationData) (warning : Nat) (message : CStr)
    (messageLen : Nat) : Outcome :=
  withHandler userData (·.warningSetHandler) fun handler => do
    return handler.onWarningSet (← Warning.ofBtck warning)
      (toString fromUtf8Lossy message messageLen)

/-- `notification_warning_unset_wrapper`. -/
def notificationWarningUnsetWrapper (userData : NotificationData) (warning : Nat) : Outcome :=
  withHandler userData (·.warningUnsetHandler) fun handler => do
    return handler.onWarningUnset (← Warning.ofBtck warning)

/-- `notification_flush_error_wrapper`. -/
def notificationFlushErrorWrapper (userData : NotificationData) (message : CStr)
    (messageLen : Nat) : Outcome :=
  withHandler userData (·.flushErrorHandler) fun handler =>
    some (handler.onFlushError (toString fromUtf8Lossy message messageLen))

/-- `notification_fatal_error_wrapper`. -/
def notificationFatalErrorWrapper (userData : NotificationData) (message : CStr)
    (messageLen : Nat) : Outcome :=
  withHandler userData (·.fatalErrorHandler) fun handler =>
    some (handler.onFatalError (toString fromUtf8Lossy message messageLen))

/-- `validation_block_checked_wrapper`. -/
def validationBlockCheckedWrapper (userData : ValidationData) (block state : Ptr) : Outcome :=
  withHandler userData (·.blockCheckedHandler) fun handler =>
    some (handler.onBlockChecked block state)

/-- `validation_new_pow_valid_block_wrapper`. -/
def validationNewPowValidBlockWrapper (userData : ValidationData) (block : Ptr)
    (entry : EntryRef) : Outcome :=
  withHandler userData (·.newPowValidBlockHandler) fun handler =>
    some (handler.onNewPowValidBlock block entry)

/-- `validation_block_connected_wrapper`. -/
def validationBlockConnectedWrapper (userData : ValidationData) (block : Ptr)
    (entry : EntryRef) : Outcome :=
  withHandler userData (·.blockConnectedHandler) fun handler =>
    some (handler.onBlockConnected block entry)

/-- `validation_block_disconnected_wrapper`. -/
def validationBlockDisconnectedWrapper (userData : ValidationData) (block : Ptr)
    (entry : EntryRef) : Outcome :=
  withHandler userData (·.blockDisconnectedHandler) fun handler =>
    some (handler.onBlockDisconnected block entry)

/-! ## The objects of the kernel -/

/-- `btck_NotificationInterfaceCallbacks`, the member of
`KernelNotifications`. -/
structure NotificationInterfaceCallbacks where
  userData : NotificationData
  blockTip : Option (NotificationData → Nat → EntryRef → UInt64 → Outcome)
  headerTip : Option (NotificationData → Nat → Int → Int → Int → Outcome)
  progress : Option (NotificationData → CStr → Nat → Int → Int → Outcome)
  warningSet : Option (NotificationData → Nat → CStr → Nat → Outcome)
  warningUnset : Option (NotificationData → Nat → Outcome)
  flushError : Option (NotificationData → CStr → Nat → Outcome)
  fatalError : Option (NotificationData → CStr → Nat → Outcome)

/-- `btck_ValidationInterfaceCallbacks`, the member of
`KernelValidationInterface`. -/
structure ValidationInterfaceCallbacks where
  userData : ValidationData
  blockChecked : Option (ValidationData → Ptr → Ptr → Outcome)
  powValidBlock : Option (ValidationData → Ptr → EntryRef → Outcome)
  blockConnected : Option (ValidationData → Ptr → EntryRef → Outcome)
  blockDisconnected : Option (ValidationData → Ptr → EntryRef → Outcome)

/-- The table of a context without notifications. -/
def NotificationInterfaceCallbacks.null : NotificationInterfaceCallbacks :=
  ⟨none, none, none, none, none, none, none, none⟩

/-- The events of the kernel: the methods of `kernel::Notifications` and those
of `CValidationInterface` that the kernel interface overrides. -/
inductive Event
  | blockTip (state : Kernel.SynchronizationState) (index : EntryRef)
      (verificationProgress : UInt64)
  | headerTip (state : Kernel.SynchronizationState) (height timestamp : Int) (presync : Bool)
  | progress (title : Kernel.BilingualStr) (progressPercent : Int) (resumePossible : Bool)
  | warningSet (id : Kernel.Warning) (message : Kernel.BilingualStr)
  | warningUnset (id : Kernel.Warning)
  | flushError (message : Kernel.BilingualStr)
  | fatalError (message : Kernel.BilingualStr)
  | blockChecked (block state : Ptr)
  | newPowValidBlock (pindex : EntryRef) (block : Ptr)
  | blockConnected (block : Ptr) (pindex : EntryRef)
  | blockDisconnected (block : Ptr) (pindex : EntryRef)
deriving DecidableEq, Repr

/-- A function of a table is called if it is not null. -/
def ifSet {φ : Type} (function : Option φ) (call : φ → Outcome) : Outcome :=
  match function with
  | some f => call f
  | none => some []

/-- The methods of `KernelNotifications`. -/
def NotificationInterfaceCallbacks.raise (cbs : NotificationInterfaceCallbacks) : Event → Outcome
  | .blockTip state index verificationProgress =>
    ifSet cbs.blockTip fun f => f cbs.userData (castState state) index verificationProgress
  | .headerTip state height timestamp presync =>
    ifSet cbs.headerTip fun f =>
      f cbs.userData (castState state) height timestamp (btckBool presync)
  | .progress title progressPercent resumePossible =>
    ifSet cbs.progress fun f =>
      f cbs.userData (cStr title.original) title.original.length progressPercent
        (btckBool resumePossible)
  | .warningSet id message =>
    ifSet cbs.warningSet fun f =>
      f cbs.userData (castBtckWarning id) (cStr message.original) message.original.length
  | .warningUnset id => ifSet cbs.warningUnset fun f => f cbs.userData (castBtckWarning id)
  | .flushError message =>
    ifSet cbs.flushError fun f =>
      f cbs.userData (cStr message.original) message.original.length
  | .fatalError message =>
    ifSet cbs.fatalError fun f =>
      f cbs.userData (cStr message.original) message.original.length
  | _ => some []

/-- The methods of `KernelValidationInterface`.  The copy of a block handle
refers to the same block. -/
def ValidationInterfaceCallbacks.raise (cbs : ValidationInterfaceCallbacks) : Event → Outcome
  | .blockChecked block state => ifSet cbs.blockChecked fun f => f cbs.userData block state
  | .newPowValidBlock pindex block =>
    ifSet cbs.powValidBlock fun f => f cbs.userData block pindex
  | .blockConnected block pindex =>
    ifSet cbs.blockConnected fun f => f cbs.userData block pindex
  | .blockDisconnected block pindex =>
    ifSet cbs.blockDisconnected fun f => f cbs.userData block pindex
  | _ => some []

/-- `ValidationSignalsImpl::Iterate`.  The task runner of a context runs an event
at once. -/
def iterate (interfaces : List ValidationInterfaceCallbacks) (event : Event) : Outcome := do
  let invocations ← interfaces.mapM (·.raise event)
  return invocations.flatten

/-! ## Contexts -/

/-- `CChainParams`, by the function that makes them and its options. -/
inductive CChainParams
  | main
  | testNet
  | testNet4
  | sigNet (challenge : Option (List UInt8))
  | regTest
deriving DecidableEq, Repr

/-- `ChainType`. -/
inductive ChainType
  | mainnet
  | testnet
  | testnet4
  | signet
  | regtest
deriving DecidableEq, Repr

/-- `From<ChainType>`. -/
def ChainType.toBtck : ChainType → Nat
  | .mainnet => 0
  | .testnet => 1
  | .testnet4 => 2
  | .signet => 3
  | .regtest => 4

/-- `btck_chain_parameters_create`. -/
def btckChainParametersCreate : Nat → Option CChainParams
  | 0 => some .main
  | 1 => some .testNet
  | 2 => some .testNet4
  | 3 => some (.sigNet none)
  | 4 => some .regTest
  | _ => none

/-- `btck_chain_parameters_create_signet`. -/
def btckChainParametersCreateSignet (challenge : List UInt8) : CChainParams :=
  .sigNet (some challenge)

/-- `ContextOptions`. -/
structure ContextOptions where
  chainparams : Option CChainParams := none
  notifications : Option NotificationInterfaceCallbacks := none
  validationInterface : Option ValidationInterfaceCallbacks := none

/-- `Context`.  `signals` is the list of `m_signals`, which is null without an
interface. -/
structure Context where
  notifications : NotificationInterfaceCallbacks
  signals : Option (List ValidationInterfaceCallbacks)
  chainparams : CChainParams

/-- The constructor of `Context`. -/
def Context.ofOptions (options : ContextOptions) : Context where
  notifications := options.notifications.getD .null
  signals := options.validationInterface.map fun interface => [interface]
  chainparams := options.chainparams.getD .main

/-- The kernel raises an event in a context.  Signals that are null are not
called. -/
def Context.raise (c : Context) (event : Event) : Outcome :=
  match event with
  | .blockChecked .. | .newPowValidBlock .. | .blockConnected .. | .blockDisconnected .. =>
    match c.signals with
    | some interfaces => iterate interfaces event
    | none => some []
  | _ => c.notifications.raise event

/-! ## The builder -/

/-- `ContextBuilder`. -/
structure ContextBuilder where
  inner : ContextOptions := {}
  notificationRegistry : Option NotificationCallbackRegistry := none
  validationRegistry : Option ValidationCallbackRegistry := none

/-- The calls on a builder.  The argument of `notifications` and of `validation`
is what the closure does with the registry it gets. -/
inductive BuilderCall
  | chainType (chainType : ChainType)
  | signet (challenge : List UInt8)
  | withBlockTipNotification (handler : Handler)
  | withProgressNotification (handler : Handler)
  | withHeaderTipNotification (handler : Handler)
  | withWarningSetNotification (handler : Handler)
  | withWarningUnsetNotification (handler : Handler)
  | withFlushErrorNotification (handler : Handler)
  | withFatalErrorNotification (handler : Handler)
  | notifications (configure : List NotificationCall)
  | withBlockCheckedValidation (handler : Handler)
  | withNewPowValidBlockValidation (handler : Handler)
  | withBlockConnectedValidation (handler : Handler)
  | withBlockDisconnectedValidation (handler : Handler)
  | validation (configure : List ValidationCall)
deriving DecidableEq, Repr

/-- `KernelError`, as far as `build` returns it. -/
inductive KernelError
  | internal (message : String)
deriving DecidableEq, Repr

namespace ContextBuilder

/-- `ContextBuilder::notifications`: the closure gets the registry, which is
made first if there is none. -/
def notifications (b : ContextBuilder) (configure : List NotificationCall) : ContextBuilder :=
  { b with
    notificationRegistry :=
      some (configure.foldl NotificationCallbackRegistry.register
        (b.notificationRegistry.getD {})) }

/-- `ContextBuilder::validation`. -/
def validation (b : ContextBuilder) (configure : List ValidationCall) : ContextBuilder :=
  { b with
    validationRegistry :=
      some (configure.foldl ValidationCallbackRegistry.register
        (b.validationRegistry.getD {})) }

/-- A call on a builder.  A `with_*` method makes one registration. -/
def step (b : ContextBuilder) : BuilderCall → Option ContextBuilder
  | .chainType chainType => do
      let chainParams ← btckChainParametersCreate chainType.toBtck
      return { b with inner := { b.inner with chainparams := some chainParams } }
  | .signet challenge =>
    let chainParams := btckChainParametersCreateSignet challenge
    some { b with inner := { b.inner with chainparams := some chainParams } }
  | .withBlockTipNotification handler => b.notifications [.registerBlockTip handler]
  | .withProgressNotification handler => b.notifications [.registerProgress handler]
  | .withHeaderTipNotification handler => b.notifications [.registerHeaderTip handler]
  | .withWarningSetNotification handler => b.notifications [.registerWarningSet handler]
  | .withWarningUnsetNotification handler => b.notifications [.registerWarningUnset handler]
  | .withFlushErrorNotification handler => b.notifications [.registerFlushError handler]
  | .withFatalErrorNotification handler => b.notifications [.registerFatalError handler]
  | .notifications configure => b.notifications configure
  | .withBlockCheckedValidation handler => b.validation [.registerBlockChecked handler]
  | .withNewPowValidBlockValidation handler => b.validation [.registerNewPowValidBlock handler]
  | .withBlockConnectedValidation handler => b.validation [.registerBlockConnected handler]
  | .withBlockDisconnectedValidation handler =>
    b.validation [.registerBlockDisconnected handler]
  | .validation configure => b.validation configure

/-- `setup_notification_interface`: the table that `build` sets. -/
def notificationHolder (registry : NotificationCallbackRegistry) :
    NotificationInterfaceCallbacks where
  userData := some registry
  blockTip := some notificationBlockTipWrapper
  headerTip := some notificationHeaderTipWrapper
  progress := some (notificationProgressWrapper fromUtf8Lossy)
  warningSet := some (notificationWarningSetWrapper fromUtf8Lossy)
  warningUnset := some notificationWarningUnsetWrapper
  flushError := some (notificationFlushErrorWrapper fromUtf8Lossy)
  fatalError := some (notificationFatalErrorWrapper fromUtf8Lossy)

/-- `setup_validation_interface`: the table that `build` sets. -/
def validationHolder (registry : ValidationCallbackRegistry) : ValidationInterfaceCallbacks where
  userData := some registry
  blockChecked := some validationBlockCheckedWrapper
  powValidBlock := some validationNewPowValidBlockWrapper
  blockConnected := some validationBlockConnectedWrapper
  blockDisconnected := some validationBlockDisconnectedWrapper

/-- The options that `build` hands to the kernel. -/
def options (b : ContextBuilder) : ContextOptions :=
  let options :=
    match b.notificationRegistry with
    | some registry =>
      { b.inner with notifications := some (notificationHolder fromUtf8Lossy registry) }
    | none => b.inner
  match b.validationRegistry with
  | some registry => { options with validationInterface := some (validationHolder registry) }
  | none => options

/-- `ContextBuilder::build`.  `sane` is the answer of the sanity checks. -/
def build (b : ContextBuilder) (sane : Bool) : Except KernelError Context :=
  if sane then .ok (Context.ofOptions (b.options fromUtf8Lossy))
  else .error (.internal "Invalid context.")

end ContextBuilder

end BitcoinKernel.Notifications
