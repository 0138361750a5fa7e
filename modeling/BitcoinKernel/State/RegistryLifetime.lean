import BitcoinKernel.Lib.Ownership
import BitcoinKernel.State.Registries

/-!
# The lifetime of callback registries

A registry is destroyed exactly once, and not before the last value that keeps
it is gone, and no callback is made with a registry that was destroyed.

The invariant `Inv` relates three things.  The use counts of the shared
objects are the numbers of pointers in values and live contexts (`Counted`).
The registries made so far are those destroyed and those still held, each
once, and none is lost (`Balanced`).  The log has no callback after the
destruction of its registry.

In the middle of a call some pointers are in local variables.  `Inv s locals`
counts them as well, so every small step of a call has its own lemma: what it
makes is added to the locals, what it releases is taken from them.
-/

namespace BitcoinKernel.State.Registries

open SharedPtr Ownership List

/-- The kinds of things that a value holds. -/
inductive Pointer
  | notifications
  | validationInterface
  | context
  | registry
deriving DecidableEq, Repr

/-- What is held, by kind. -/
abbrev Holding := Pointer → List Nat

namespace Holding

/-- Nothing. -/
def none : Holding := fun _ => []

/-- One more thing. -/
def push (h : Holding) (p : Pointer) (i : Nat) : Holding :=
  fun q => if q = p then i :: h q else h q

/-- One more thing, if there is one. -/
def pushOption (h : Holding) (p : Pointer) : Option Nat → Holding
  | some i => h.push p i
  | Option.none => h

/-- Both together. -/
def add (h h' : Holding) : Holding := fun p => h p ++ h' p

end Holding

/-- What a value holds. -/
def Value.holding : Value → Holding
  | .contextBuilder builder => fun
      | .notifications => builder.options.notifications.toList
      | .validationInterface => builder.options.validationInterface.toList
      | .context => []
      | .registry => builder.notificationRegistry.toList ++ builder.validationRegistry.toList
  | .context c | .chainstateManagerBuilder c _ | .chainstateManager c _ =>
    Holding.none.push .context c

/-- The pointers of options that are a local variable. -/
def ContextOptions.add (options : ContextOptions) (locals : Holding) : Holding :=
  (locals.pushOption .notifications options.notifications).pushOption .validationInterface
    options.validationInterface

theorem ContextOptions.add_pushOption_registry (options : ContextOptions) (locals : Holding)
    (registry : Option Nat) :
    options.add (locals.pushOption .registry registry) =
      (options.add locals).pushOption .registry registry := by
  funext p
  cases hr : registry <;> cases hn : options.notifications <;>
    cases hi : options.validationInterface <;> cases p <;>
    simp [ContextOptions.add, Holding.pushOption, Holding.push, hn, hi]

/-- What a context holds. -/
def Context.holding (context : Context) : Holding
  | .notifications => [context.notifications]
  | .validationInterface =>
    context.validationInterface.toList ++ context.validationInterface.toList
  | .context => []
  | .registry => []

/-- The registries destroyed so far. -/
def destroyed (log : List Event) : List Nat :=
  log.filterMap fun
    | .destroyed registry => some registry
    | .callback _ => none

/-- No callback is made with a registry that was destroyed. -/
def NoUseAfterDestroy (log : List Event) : Prop :=
  log.Pairwise fun e e' => ∀ registry, e = .destroyed registry → e' ≠ .callback registry

/-! ## The log -/

theorem destroyed_append_destroyed (log : List Event) (registry : Nat) :
    destroyed (log ++ [.destroyed registry]) = destroyed log ++ [registry] := by
  rw [destroyed, filterMap_append]
  rfl

theorem destroyed_append_callback (log : List Event) (registry : Nat) :
    destroyed (log ++ [.callback registry]) = destroyed log := by
  rw [destroyed, filterMap_append]
  exact append_nil _

theorem mem_destroyed {log : List Event} {registry : Nat} :
    registry ∈ destroyed log ↔ Event.destroyed registry ∈ log := by
  rw [destroyed, mem_filterMap]
  constructor
  · rintro ⟨event, hmem, hevent⟩
    cases event with
    | callback other => cases hevent
    | destroyed other =>
      cases hevent
      exact hmem
  · intro hmem
    exact ⟨_, hmem, rfl⟩

theorem NoUseAfterDestroy.append_destroyed {log : List Event} (h : NoUseAfterDestroy log)
    (registry : Nat) : NoUseAfterDestroy (log ++ [.destroyed registry]) := by
  refine pairwise_append.mpr ⟨h, pairwise_singleton _ _, ?_⟩
  intro e _ e' he' other _
  rw [mem_singleton.mp he']
  exact Event.noConfusion

theorem NoUseAfterDestroy.append_callback {log : List Event} (h : NoUseAfterDestroy log)
    {registry : Nat} (hnot : registry ∉ destroyed log) :
    NoUseAfterDestroy (log ++ [.callback registry]) := by
  refine pairwise_append.mpr ⟨h, pairwise_singleton _ _, ?_⟩
  intro e he e' he' other heq heq'
  rw [mem_singleton.mp he', Event.callback.injEq] at heq'
  rw [heq, ← heq'] at he
  exact hnot (mem_destroyed.mpr he)

namespace World

/-- All pointers of a kind: in locals, in values and in live contexts. -/
def pointers (s : World) (locals : Holding) (p : Pointer) : List Nat :=
  locals p ++ s.values.flatMap (fun v => v.holding p) ++
    s.contexts.live.flatMap (fun context => context.holding p)

/-- The registries that are kept: by Rust values, or as the user data of live
kernel objects. -/
def kept (s : World) (locals : Holding) : List Nat :=
  s.pointers locals .registry ++ s.kernelNotifications.live.filterMap id ++
    s.validationInterfaces.live

/-- The invariant, with some pointers in local variables. -/
structure Inv (s : World) (locals : Holding) : Prop where
  notifications : Counted s.kernelNotifications (s.pointers locals .notifications)
  interfaces : Counted s.validationInterfaces (s.pointers locals .validationInterface)
  contexts : Counted s.contexts (s.pointers locals .context)
  registries : Balanced (List.range s.nextRegistry) (destroyed s.log) (s.kept locals) []
  log : NoUseAfterDestroy s.log

theorem inv_init : Inv {} Holding.none where
  notifications := Counted.nil
  interfaces := Counted.nil
  contexts := Counted.nil
  registries := Balanced.nil
  log := List.Pairwise.nil

theorem pointers_push_self (s : World) (locals : Holding) (p : Pointer) (i : Nat) :
    s.pointers (locals.push p i) p = i :: s.pointers locals p := by
  simp [pointers, Holding.push]

theorem pointers_push_of_ne (s : World) (locals : Holding) {p q : Pointer} (h : q ≠ p) (i : Nat) :
    s.pointers (locals.push p i) q = s.pointers locals q := by
  simp [pointers, Holding.push, h]

namespace Inv

variable {s s' : World} {locals locals' : Holding}

/-- The invariant does not see which variable holds a pointer. -/
theorem congr (h : Inv s locals) (hn : s'.kernelNotifications = s.kernelNotifications)
    (hi : s'.validationInterfaces = s.validationInterfaces) (hc : s'.contexts = s.contexts)
    (hnext : s'.nextRegistry = s.nextRegistry) (hlog : s'.log = s.log)
    (hp : ∀ p, (s.pointers locals p).Perm (s'.pointers locals' p)) : Inv s' locals' where
  notifications := by
    rw [hn]
    exact h.notifications.congr (hp _).count_eq
  interfaces := by
    rw [hi]
    exact h.interfaces.congr (hp _).count_eq
  contexts := by
    rw [hc]
    exact h.contexts.congr (hp _).count_eq
  registries := by
    rw [hnext, hlog]
    refine h.registries.congr (.refl _) (.refl _) ?_
    unfold kept
    rw [hn, hi]
    exact ((hp _).append_right _).append_right _
  log := by
    rw [hlog]
    exact h.log

variable {registry i j c : Nat} {options : ContextOptions} {context : Context}
  {builder : ContextBuilder} {v v' : Value}

/-- A registry is destroyed when nothing keeps it any more. -/
theorem emit_destroyed (hn : Counted s.kernelNotifications (s.pointers locals .notifications))
    (hi : Counted s.validationInterfaces (s.pointers locals .validationInterface))
    (hc : Counted s.contexts (s.pointers locals .context))
    (hr : Balanced (List.range s.nextRegistry) (destroyed s.log) (registry :: s.kept locals) [])
    (hlog : NoUseAfterDestroy s.log) : Inv (s.emit (.destroyed registry)) locals where
  notifications := hn
  interfaces := hi
  contexts := hc
  registries := by
    refine hr.release.congr (.refl _) ?_ (.refl _)
    rw [emit, destroyed_append_destroyed]
    exact (perm_append_singleton _ _).symm
  log := hlog.append_destroyed registry

theorem releaseNotifications (h : Inv s (locals.push .notifications i)) :
    Inv (s.releaseNotifications i) locals := by
  have hcounted := h.notifications
  rw [pointers_push_self] at hcounted
  obtain ⟨hrest, userData, -, hcases⟩ := hcounted.release
  have hi := h.interfaces
  have hc := h.contexts
  have hr := h.registries
  unfold kept at hr
  rw [pointers_push_of_ne _ _ (by decide)] at hi hc hr
  unfold World.releaseNotifications
  rcases hcases with ⟨-, hnone, hlive⟩ | ⟨-, hsome, hlive⟩
  · simp only [hnone]
    refine ⟨hrest, hi, hc, ?_, h.log⟩
    unfold kept
    rw [hlive]
    exact hr
  · have hkept := hlive.filterMap id
    cases userData with
    | none =>
      simp only [hsome]
      refine ⟨hrest, hi, hc, ?_, h.log⟩
      refine hr.congr (.refl _) (.refl _) ?_
      exact (hkept.append_left _).append_right _
    | some registry =>
      simp only [hsome]
      refine emit_destroyed hrest hi hc ?_ h.log
      refine hr.congr (.refl _) (.refl _) ?_
      exact ((hkept.append_left _).append_right _).trans (perm_middle.append_right _)

theorem releaseInterface (h : Inv s (locals.push .validationInterface j)) :
    Inv (s.releaseInterface j) locals := by
  have hcounted := h.interfaces
  rw [pointers_push_self] at hcounted
  obtain ⟨hrest, registry, -, hcases⟩ := hcounted.release
  have hn := h.notifications
  have hc := h.contexts
  have hr := h.registries
  unfold kept at hr
  rw [pointers_push_of_ne _ _ (by decide)] at hn hc hr
  unfold World.releaseInterface
  rcases hcases with ⟨-, hnone, hlive⟩ | ⟨-, hsome, hlive⟩
  · simp only [hnone]
    refine ⟨hn, hrest, hc, ?_, h.log⟩
    unfold kept
    rw [hlive]
    exact hr
  · simp only [hsome]
    refine emit_destroyed hn hrest hc ?_ h.log
    refine hr.congr (.refl _) (.refl _) ?_
    exact (hlive.append_left _).trans perm_middle

/-- Only the pointers to contexts change with the heap of contexts. -/
theorem congr_contexts {heap : Heap Context} (h : Inv s locals)
    (hc : Counted heap (({ s with contexts := heap } : World).pointers locals' .context))
    (hp : ∀ p, p ≠ .context →
      (s.pointers locals p).Perm (({ s with contexts := heap } : World).pointers locals' p)) :
    Inv { s with contexts := heap } locals' where
  notifications := h.notifications.congr (hp _ (by decide)).count_eq
  interfaces := h.interfaces.congr (hp _ (by decide)).count_eq
  contexts := hc
  registries := h.registries.congr (.refl _) (.refl _)
    (((hp _ (by decide)).append_right _).append_right _)
  log := h.log

/-- The end of a context gives its pointers to local variables. -/
theorem release_context (h : Inv s (locals.push .context c)) : ((s.contexts.release c).1 = none ∧
        Inv { s with contexts := (s.contexts.release c).2 } locals) ∨
      ∃ context, (s.contexts.release c).1 = some context ∧
        Inv { s with contexts := (s.contexts.release c).2 } (context.holding.add locals) := by
  have hcounted := h.contexts
  rw [pointers_push_self] at hcounted
  obtain ⟨hrest, context, -, hcases⟩ := hcounted.release
  rcases hcases with ⟨-, hnone, hlive⟩ | ⟨-, hsome, hlive⟩
  · have hsame : ∀ p, ({ s with contexts := (s.contexts.release c).2 } : World).pointers locals p =
        s.pointers locals p := by
      intro p
      unfold pointers
      rw [hlive]
    refine Or.inl ⟨hnone, h.congr_contexts ?_ ?_⟩
    · rw [hsame]
      exact hrest
    · intro p hp
      rw [hsame, pointers_push_of_ne _ _ hp]
  · have hmoved : ∀ p, (s.pointers locals p).Perm
        (({ s with contexts := (s.contexts.release c).2 } : World).pointers
          (context.holding.add locals) p) := by
      intro p
      rw [perm_iff_count]
      intro i
      have hcount := (hlive.flatMap_right fun context => context.holding p).count_eq i
      rw [flatMap_cons] at hcount
      simp only [pointers, Holding.add, count_append] at hcount ⊢
      omega
    refine Or.inr ⟨context, hsome, h.congr_contexts (hrest.congr (hmoved _).count_eq) ?_⟩
    intro p hp
    rw [pointers_push_of_ne _ _ hp]
    exact hmoved p

/-- The locals may be listed in any order. -/
theorem rearrange (h : Inv s locals) (hp : ∀ p, (locals p).Perm (locals' p)) : Inv s locals' :=
  h.congr rfl rfl rfl rfl rfl fun p => ((hp p).append_right _).append_right _

theorem releaseContext (h : Inv s (locals.push .context c)) : Inv (s.releaseContext c) locals := by
  unfold World.releaseContext
  rcases h.release_context with ⟨hnone, hrest⟩ | ⟨context, hsome, hrest⟩
  · simp only [hnone]
    exact hrest
  · simp only [hsome]
    cases hinterface : context.validationInterface with
    | none =>
      refine releaseNotifications (hrest.rearrange fun p => ?_)
      cases p <;> simp [Context.holding, Holding.add, Holding.push, hinterface]
    | some j =>
      refine releaseNotifications (releaseInterface (releaseInterface
        (hrest.rearrange fun p => ?_)))
      cases p <;> simp [Context.holding, Holding.add, Holding.push, hinterface]

theorem destroyOptions (h : Inv s (options.add locals)) :
    Inv (s.destroyOptions options) locals := by
  unfold World.destroyOptions
  unfold ContextOptions.add at h
  cases hi : options.validationInterface with
  | none =>
    rw [hi] at h
    cases hn : options.notifications with
    | none => rw [hn] at h; exact h
    | some i => rw [hn] at h; exact h.releaseNotifications
  | some j =>
    rw [hi] at h
    cases hn : options.notifications with
    | none => rw [hn] at h; exact h.releaseInterface
    | some i => rw [hn] at h; exact h.releaseInterface.releaseNotifications

theorem dropRegistry {registry : Option Nat} (h : Inv s (locals.pushOption .registry registry)) :
    Inv (s.dropRegistry registry) locals := by
  cases registry with
  | none => exact h
  | some registry =>
    have hr := h.registries
    unfold kept at hr
    rw [Holding.pushOption, pointers_push_self] at hr
    have hn := h.notifications
    have hi := h.interfaces
    have hc := h.contexts
    rw [Holding.pushOption, pointers_push_of_ne _ _ (by decide)] at hn hi hc
    exact emit_destroyed hn hi hc hr h.log

/-- A registry becomes the user data of a new object. -/
theorem makeNotifications (userData : Option Nat)
    (h : Inv s (locals.pushOption .registry userData)) :
    Inv { s with kernelNotifications := (s.kernelNotifications.make userData).2 }
      (locals.push .notifications (s.kernelNotifications.make userData).1) := by
  have hpointers : ∀ p, p ≠ .registry →
      s.pointers (locals.pushOption .registry userData) p = s.pointers locals p := by
    intro p hp
    cases userData with
    | none => rfl
    | some registry => exact pointers_push_of_ne _ _ hp _
  have hother : ∀ p, p ≠ .notifications → ({ s with
      kernelNotifications := (s.kernelNotifications.make userData).2 } : World).pointers
        (locals.push .notifications (s.kernelNotifications.make userData).1) p =
      s.pointers locals p := fun p hp => pointers_push_of_ne _ _ hp _
  refine ⟨?_, ?_, ?_, ?_, h.log⟩
  · rw [pointers_push_self]
    have hn := h.notifications
    rw [hpointers _ (by decide)] at hn
    exact hn.make userData
  · rw [hother _ (by decide), ← hpointers _ (by decide)]
    exact h.interfaces
  · rw [hother _ (by decide), ← hpointers _ (by decide)]
    exact h.contexts
  · refine h.registries.congr (.refl _) (.refl _) ?_
    unfold kept
    rw [hother _ (by decide), Heap.live_make, filterMap_append]
    cases userData with
    | none => simp [Holding.pushOption]
    | some registry =>
      have hsingle : [some registry].filterMap id = [registry] := rfl
      rw [Holding.pushOption, pointers_push_self, hsingle, perm_iff_count]
      intro i
      simp only [count_append, count_cons, count_nil]
      omega

theorem makeInterface (h : Inv s (locals.push .registry registry)) :
    Inv { s with validationInterfaces := (s.validationInterfaces.make registry).2 }
      (locals.push .validationInterface (s.validationInterfaces.make registry).1) := by
  have hother : ∀ p, p ≠ .validationInterface → ({ s with
      validationInterfaces := (s.validationInterfaces.make registry).2 } : World).pointers
        (locals.push .validationInterface (s.validationInterfaces.make registry).1) p =
      s.pointers locals p := fun p hp => pointers_push_of_ne _ _ hp _
  have hn := h.notifications
  have hi := h.interfaces
  have hc := h.contexts
  rw [pointers_push_of_ne _ _ (by decide)] at hn hi hc
  refine ⟨?_, ?_, ?_, ?_, h.log⟩
  · rw [hother _ (by decide)]
    exact hn
  · rw [pointers_push_self]
    exact hi.make registry
  · rw [hother _ (by decide)]
    exact hc
  · refine h.registries.congr (.refl _) (.refl _) ?_
    unfold kept
    rw [hother _ (by decide), Heap.live_make, pointers_push_self, perm_iff_count]
    intro i
    simp only [count_append, count_cons, count_nil]
    omega

theorem retainNotifications (h : Inv s locals) (hi : i ∈ s.pointers locals .notifications) :
    Inv { s with kernelNotifications := s.kernelNotifications.retain i }
      (locals.push .notifications i) := by
  have hother : ∀ p, p ≠ .notifications → ({ s with
      kernelNotifications := s.kernelNotifications.retain i } : World).pointers
        (locals.push .notifications i) p =
      s.pointers locals p := fun p hp => pointers_push_of_ne _ _ hp _
  refine ⟨?_, ?_, ?_, ?_, h.log⟩
  · rw [pointers_push_self]
    exact h.notifications.retain hi
  · rw [hother _ (by decide)]
    exact h.interfaces
  · rw [hother _ (by decide)]
    exact h.contexts
  · unfold kept
    rw [hother _ (by decide), Heap.live_retain (h.notifications.useCount_pos_iff.mpr hi)]
    exact h.registries

theorem retainInterface (h : Inv s locals) (hj : j ∈ s.pointers locals .validationInterface) :
    Inv { s with validationInterfaces := s.validationInterfaces.retain j }
      (locals.push .validationInterface j) := by
  have hother : ∀ p, p ≠ .validationInterface → ({ s with
      validationInterfaces := s.validationInterfaces.retain j } : World).pointers
        (locals.push .validationInterface j) p =
      s.pointers locals p := fun p hp => pointers_push_of_ne _ _ hp _
  refine ⟨?_, ?_, ?_, ?_, h.log⟩
  · rw [hother _ (by decide)]
    exact h.notifications
  · rw [pointers_push_self]
    exact h.interfaces.retain hj
  · rw [hother _ (by decide)]
    exact h.contexts
  · unfold kept
    rw [hother _ (by decide), Heap.live_retain (h.interfaces.useCount_pos_iff.mpr hj)]
    exact h.registries

theorem retainContext (h : Inv s locals) (hc : c ∈ s.pointers locals .context) :
    Inv { s with contexts := s.contexts.retain c } (locals.push .context c) := by
  have hsame : ∀ l p, ({ s with contexts := s.contexts.retain c } : World).pointers l p =
      s.pointers l p := by
    intro l p
    unfold pointers
    rw [Heap.live_retain (h.contexts.useCount_pos_iff.mpr hc)]
  refine h.congr_contexts ?_ ?_
  · rw [hsame, pointers_push_self]
    exact h.contexts.retain hc
  · intro p hp
    rw [hsame, pointers_push_of_ne _ _ hp]

/-- A new context takes its pointers from local variables. -/
theorem makeContext (h : Inv s (context.holding.add locals)) :
    Inv { s with contexts := (s.contexts.make context).2 }
      (locals.push .context (s.contexts.make context).1) := by
  have hmoved : ∀ p, (s.pointers (context.holding.add locals) p).Perm
      (({ s with contexts := (s.contexts.make context).2 } : World).pointers locals p) := by
    intro p
    rw [perm_iff_count]
    intro i
    simp only [pointers, Holding.add, Heap.live_make, flatMap_append, flatMap_cons,
      flatMap_nil, count_append, count_nil]
    omega
  refine h.congr_contexts ?_ ?_
  · rw [pointers_push_self]
    exact (h.contexts.make context).congr ((hmoved _).cons _).count_eq
  · intro p hp
    rw [pointers_push_of_ne _ _ hp]
    exact hmoved p

/-! ### Building a context -/

theorem setupNotificationInterface (h : Inv s ((options.add locals).push .registry registry)) :
    Inv (s.setupNotificationInterface options registry).2
      ((s.setupNotificationInterface options registry).1.add locals) := by
  have hmade := makeNotifications (some registry) h
  unfold World.setupNotificationInterface
  cases hold : options.notifications with
  | none =>
    refine hmade.rearrange fun p => ?_
    cases hi : options.validationInterface <;> cases p <;>
      simp [ContextOptions.add, Holding.pushOption, Holding.push, hold, hi]
  | some old =>
    refine releaseNotifications (hmade.rearrange fun p => ?_)
    cases hi : options.validationInterface <;> cases p <;>
      simp [ContextOptions.add, Holding.pushOption, Holding.push, hold, hi, List.Perm.swap]

theorem setupValidationInterface (h : Inv s ((options.add locals).push .registry registry)) :
    Inv (s.setupValidationInterface options registry).2
      ((s.setupValidationInterface options registry).1.add locals) := by
  have hmade := h.makeInterface
  unfold World.setupValidationInterface
  cases hold : options.validationInterface with
  | none =>
    refine hmade.rearrange fun p => ?_
    cases hn : options.notifications <;> cases p <;>
      simp [ContextOptions.add, Holding.pushOption, Holding.push, hold, hn]
  | some old =>
    refine releaseInterface (hmade.rearrange fun p => ?_)
    cases hn : options.notifications <;> cases p <;>
      simp [ContextOptions.add, Holding.pushOption, Holding.push, hold, hn, List.Perm.swap]

theorem contextNotifications (h : Inv s (options.add locals)) :
    Inv (s.contextNotifications options).2
      ((options.add locals).push .notifications (s.contextNotifications options).1) := by
  unfold World.contextNotifications
  cases hn : options.notifications with
  | none => exact makeNotifications none h
  | some i =>
    refine h.retainNotifications (mem_append_left _ (mem_append_left _ ?_))
    cases hi : options.validationInterface <;>
      simp [ContextOptions.add, Holding.pushOption, Holding.push, hn, hi]

theorem contextInterface (options : ContextOptions)
    (h : Inv s locals) (hj : ∀ j, options.validationInterface = some j →
      j ∈ s.pointers locals .validationInterface) :
    Inv (s.contextInterface options)
      ((locals.pushOption .validationInterface options.validationInterface).pushOption
        .validationInterface options.validationInterface) := by
  unfold World.contextInterface
  cases hi : options.validationInterface with
  | none => exact h
  | some j =>
    refine (h.retainInterface (hj j hi)).retainInterface ?_
    rw [pointers_push_self]
    exact mem_cons_self

theorem makeContext_options (h : Inv s (options.add locals)) : Inv (s.makeContext options).2
      ((options.add locals).push .context (s.makeContext options).1) := by
  have hinterface := contextInterface options h.contextNotifications (by
    intro j hj
    refine mem_append_left _ (mem_append_left _ ?_)
    simp [ContextOptions.add, Holding.pushOption, Holding.push, hj])
  have hcontext : Inv ((s.contextNotifications options).2.contextInterface options)
      (Context.holding ⟨(s.contextNotifications options).1, options.validationInterface⟩ |>.add
        (options.add locals)) := by
    refine hinterface.rearrange fun p => ?_
    cases hi : options.validationInterface <;> cases p <;>
      simp [Context.holding, Holding.add, Holding.pushOption, Holding.push]
  exact hcontext.makeContext

theorem setupInterfaces
    (h : Inv s (((builder.options.add locals).pushOption .registry
      builder.validationRegistry).pushOption .registry builder.notificationRegistry)) :
    Inv (s.setupInterfaces builder).2 ((s.setupInterfaces builder).1.add locals) := by
  unfold World.setupInterfaces
  cases hn : builder.notificationRegistry with
  | none =>
    cases hv : builder.validationRegistry with
    | none =>
      rw [hn, hv] at h
      exact h
    | some registry =>
      rw [hn, hv] at h
      exact h.setupValidationInterface
  | some registry =>
    rw [hn, ← ContextOptions.add_pushOption_registry] at h
    have hset := h.setupNotificationInterface
    rw [ContextOptions.add_pushOption_registry] at hset
    cases hv : builder.validationRegistry with
    | none =>
      rw [hv] at hset
      exact hset
    | some registry' =>
      rw [hv] at hset
      exact hset.setupValidationInterface

/-! ### Values -/

/-- What a list of values holds, with one of them taken out. -/
theorem count_holding_of_perm {values rest : List Value} (h : values.Perm (v :: rest)) (p : Pointer)
    (j : Nat) :
    (values.flatMap fun v => v.holding p).count j =
      (v.holding p).count j + (rest.flatMap fun v => v.holding p).count j := by
  rw [(List.Perm.flatMap_right _ h).count_eq j, flatMap_cons, count_append]

/-- A value becomes a local variable. -/
theorem remove (h : Inv s locals) (hv : s.values[i]? = some v) :
    Inv (s.remove i) (v.holding.add locals) := by
  refine h.congr rfl rfl rfl rfl rfl fun p => ?_
  obtain ⟨hlt, rfl⟩ := List.getElem?_eq_some_iff.mp hv
  rw [perm_iff_count]
  intro j
  have hcount := count_holding_of_perm (getElem_cons_eraseIdx_perm hlt).symm p j
  simp only [pointers, World.remove, Holding.add, count_append]
  omega

/-- A local variable becomes a value. -/
theorem keep (h : Inv s (v.holding.add locals)) :
    Inv { s with values := v :: s.values } locals := by
  refine h.congr rfl rfl rfl rfl rfl fun p => ?_
  rw [perm_iff_count]
  intro j
  simp only [pointers, Holding.add, flatMap_cons, count_append]
  omega

/-- A pointer to a context becomes a value. -/
theorem keepContext (h : Inv s (locals.push .context c))
    (hv : v.holding = Holding.none.push .context c) :
    Inv { s with values := v :: s.values } locals := by
  refine keep (h.rearrange fun p => ?_)
  rw [hv]
  cases p <;> simp [Holding.add, Holding.push, Holding.none]

/-- A builder that is a local variable, in the order in which `build` and `drop`
take it apart. -/
theorem of_contextBuilder (h : Inv s ((Value.contextBuilder builder).holding.add locals)) :
    Inv s (((builder.options.add locals).pushOption .registry
      builder.validationRegistry).pushOption .registry builder.notificationRegistry) := by
  refine h.rearrange fun p => ?_
  cases ho : builder.options.notifications <;> cases hi : builder.options.validationInterface <;>
    cases hn : builder.notificationRegistry <;> cases hv : builder.validationRegistry <;>
    cases p <;> simp [Value.holding, ContextOptions.add, Holding.add, Holding.pushOption,
      Holding.push, ho, hi, hn, hv]

theorem build (sane : Bool) (h : Inv s ((Value.contextBuilder builder).holding.add locals)) :
    Inv (s.build builder sane) locals := by
  have hsetup := h.of_contextBuilder.setupInterfaces
  unfold World.build
  generalize s.setupInterfaces builder = setup at hsetup
  have hmade := hsetup.makeContext_options
  refine destroyOptions ?_
  cases sane with
  | false => exact hmade.releaseContext
  | true => exact hmade.keepContext rfl

/-- A local variable takes the place of a value. -/
theorem replace (h : Inv (s.remove i) (v'.holding.add locals)) (hi : i < s.values.length) :
    Inv { s with values := s.values.set i v' } locals := by
  refine h.congr rfl rfl rfl rfl rfl fun p => ?_
  rw [perm_iff_count]
  intro j
  have hcount := count_holding_of_perm (set_perm_cons_eraseIdx hi v') p j
  simp only [pointers, World.remove, Holding.add, count_append]
  omega

section

variable (h : Inv s locals)

include h

/-- A new registry in a local variable. -/
theorem makeRegistry :
    Inv { s with nextRegistry := s.nextRegistry + 1 } (locals.push .registry s.nextRegistry) where
  notifications := h.notifications
  interfaces := h.interfaces
  contexts := h.contexts
  registries := by
    have hacquired := h.registries.acquire (a := s.nextRegistry) (by simp)
    refine hacquired.congr ?_ (.refl _) ?_
    · rw [range_succ]
      exact (perm_append_singleton _ _).symm
    · unfold kept
      rw [pointers_push_self]
      exact .refl _
  log := h.log

theorem withNotification (hv : s.values[i]? = some (.contextBuilder builder)) :
    Inv (s.withNotification i builder) locals := by
  unfold World.withNotification
  cases hregistry : builder.notificationRegistry with
  | some registry => exact h
  | none =>
    have hremoved := h.makeRegistry.remove hv
    refine replace (hremoved.rearrange fun p => ?_) (List.getElem?_eq_some_iff.mp hv).1
    cases p <;> simp [Value.holding, Holding.add, Holding.push, hregistry, perm_middle]

theorem withValidation (hv : s.values[i]? = some (.contextBuilder builder)) :
    Inv (s.withValidation i builder) locals := by
  unfold World.withValidation
  cases hregistry : builder.validationRegistry with
  | some registry => exact h
  | none =>
    have hremoved := h.makeRegistry.remove hv
    refine replace (hremoved.rearrange fun p => ?_) (List.getElem?_eq_some_iff.mp hv).1
    cases p <;> simp [Value.holding, Holding.add, Holding.push, hregistry]

/-- A value enters another phase and holds what it held. -/
theorem enter (hv : s.values[i]? = some v) (hsame : v'.holding = v.holding) :
    Inv { s with values := s.values.set i v' } locals := by
  refine replace ?_ (List.getElem?_eq_some_iff.mp hv).1
  rw [hsame]
  exact h.remove hv

theorem shareContext (hc : c ∈ s.pointers locals .context)
    (hv : v.holding = Holding.none.push .context c) : Inv (s.shareContext c v) locals :=
  (h.retainContext hc).keepContext hv

/-! ### Events -/

/-- A context with a pointer to it is alive. -/
theorem context_live (hc : c ∈ s.pointers locals .context) :
    ∃ context, s.contexts.get? c = some context ∧ context ∈ s.contexts.live := by
  have hpos := h.contexts.useCount_pos_iff.mpr hc
  obtain ⟨context, hget⟩ := Heap.get?_isSome_of_useCount hpos
  exact ⟨context, hget, Heap.mem_live_iff.mpr ⟨c, hpos, hget⟩⟩

end

/-- What a live context holds is pointed to. -/
theorem mem_pointers_of_live (hlive : context ∈ s.contexts.live) {p : Pointer}
    (hi : i ∈ context.holding p) : i ∈ s.pointers locals p :=
  mem_append_right _ (mem_flatMap.mpr ⟨context, hlive, hi⟩)

/-- The user data of an object with a pointer to it is kept. -/
theorem kept_of_notifications (h : Inv s locals) (hi : i ∈ s.pointers locals .notifications)
    (hget : s.kernelNotifications.get? i = some (some registry)) : registry ∈ s.kept locals := by
  have hlive := Heap.mem_live_iff.mpr ⟨i, h.notifications.useCount_pos_iff.mpr hi, hget⟩
  exact mem_append_left _ (mem_append_right _ (mem_filterMap.mpr ⟨some registry, hlive, rfl⟩))

theorem kept_of_interface (h : Inv s locals) (hj : j ∈ s.pointers locals .validationInterface)
    (hget : s.validationInterfaces.get? j = some registry) : registry ∈ s.kept locals :=
  mem_append_right _
    (Heap.mem_live_iff.mpr ⟨j, h.interfaces.useCount_pos_iff.mpr hj, hget⟩)

/-- A callback is made with a registry that is kept. -/
theorem emit_callback (h : Inv s locals) (hkept : registry ∈ s.kept locals) :
    Inv (s.emit (.callback registry)) locals where
  notifications := h.notifications
  interfaces := h.interfaces
  contexts := h.contexts
  registries := by
    rw [emit, destroyed_append_callback]
    exact h.registries
  log := h.log.append_callback (h.registries.not_released hkept)

theorem notify (h : Inv s locals) (hc : c ∈ s.pointers locals .context) :
    Inv (s.notify c) locals := by
  obtain ⟨context, hget, hlive⟩ := h.context_live hc
  have hi : context.notifications ∈ s.pointers locals .notifications :=
    mem_pointers_of_live hlive mem_cons_self
  unfold World.notify
  simp only [hget]
  split
  · rename_i registry hregistry
    exact h.emit_callback (h.kept_of_notifications hi hregistry)
  · exact h

theorem signal (h : Inv s locals) (hc : c ∈ s.pointers locals .context) :
    Inv (s.signal c) locals := by
  obtain ⟨context, hget, hlive⟩ := h.context_live hc
  unfold World.signal
  simp only [hget]
  split
  · rename_i j hinterface
    have hj : j ∈ s.pointers locals .validationInterface :=
      mem_pointers_of_live hlive (by simp [Context.holding, hinterface])
    split
    · rename_i registry hregistry
      exact h.emit_callback (h.kept_of_interface hj hregistry)
    · exact h
  · exact h

/-! ### Calls -/

/-- A value that holds a pointer to a context. -/
theorem mem_pointers_of_value (hv : s.values[i]? = some v)
    (hholding : v.holding = Holding.none.push .context c) : c ∈ s.pointers locals .context := by
  refine mem_append_left _ (mem_append_right _ ?_)
  refine mem_flatMap.mpr ⟨v, mem_of_getElem? hv, ?_⟩
  rw [hholding]
  exact mem_cons_self

/-- A value that holds a pointer to a context becomes a local variable. -/
theorem removeContext (h : Inv s locals) (hv : s.values[i]? = some v)
    (hholding : v.holding = Holding.none.push .context c) :
    Inv (s.remove i) (locals.push .context c) := by
  refine (h.remove hv).rearrange fun p => ?_
  rw [hholding]
  cases p <;> simp [Holding.add, Holding.push, Holding.none]

theorem drop (h : Inv s locals) (hv : s.values[i]? = some v) : Inv (s.drop i v) locals := by
  cases v with
  | contextBuilder builder =>
    have hbuilder := (h.remove hv).of_contextBuilder
    rw [← ContextOptions.add_pushOption_registry, ← ContextOptions.add_pushOption_registry]
      at hbuilder
    exact hbuilder.destroyOptions.dropRegistry.dropRegistry
  | context c => exact (h.removeContext hv rfl).releaseContext
  | chainstateManagerBuilder c loading =>
    cases loading with
    | false => exact (h.removeContext hv rfl).releaseContext
    | true => exact h
  | chainstateManager c closing =>
    cases closing with
    | false => exact h.enter hv rfl
    | true => exact h

theorem raises_mem (hv : s.values[i]? = some v) (hraises : v.raises = some c) :
    c ∈ s.pointers locals .context := by
  cases v with
  | contextBuilder builder => cases hraises
  | context c' => cases hraises
  | chainstateManagerBuilder c' loading =>
    cases loading with
    | false => cases hraises
    | true =>
      cases hraises
      exact mem_pointers_of_value hv rfl
  | chainstateManager c' closing =>
    cases hraises
    exact mem_pointers_of_value hv rfl

theorem stepOn {op : Op} (h : Inv s locals) (hv : s.values[op.position]? = some v) :
    Inv (s.stepOn op v) locals := by
  unfold World.stepOn
  split
  · exact h.withNotification hv
  · exact h.withValidation hv
  · exact build _ (h.remove hv)
  · split
    · exact h.shareContext (mem_pointers_of_value hv rfl) rfl
    · exact h
  · exact h.enter hv rfl
  · rename_i i succeeds c
    refine releaseContext ?_
    have hremoved : Inv (s.remove i) (locals.push .context c) := h.removeContext hv rfl
    split
    · refine hremoved.shareContext ?_ rfl
      rw [pointers_push_self]
      exact mem_cons_self
    · exact hremoved
  · split
    · rename_i c hraises
      exact h.notify (raises_mem hv hraises)
    · exact h
  · split
    · rename_i c hraises
      exact h.signal (raises_mem hv hraises)
    · exact h
  · exact h.drop hv
  · exact (h.removeContext hv rfl).releaseContext
  · exact h

theorem step (h : Inv s Holding.none) (op : Op) : Inv (s.step op) Holding.none := by
  unfold World.step
  split
  · refine keep (h.rearrange fun p => ?_)
    cases p <;> simp [Value.holding, Holding.add, Holding.none]
  · split
    · rename_i v hv
      exact h.stepOn hv
    · exact h

end Inv

/-! ## Who keeps a registry -/

/-- The user data of a `KernelNotifications`, or of a
`KernelValidationInterface`, is the registry. -/
def PointsTo (s : World) (registry : Nat) : Pointer → Nat → Prop
  | .notifications, i => s.kernelNotifications.get? i = some (some registry)
  | .validationInterface, j => s.validationInterfaces.get? j = some registry
  | .context, _ => False
  | .registry, r => r = registry

/-- Something that holds these pointers keeps the registry. -/
def HoldingKeeps (s : World) (holding : Holding) (registry : Nat) : Prop :=
  ∃ p i, i ∈ holding p ∧ s.PointsTo registry p i

/-- A value keeps a registry: by itself, or through its context. -/
def Keeps (s : World) (v : Value) (registry : Nat) : Prop :=
  s.HoldingKeeps v.holding registry ∨
    ∃ c ∈ v.holding .context, ∃ context, s.contexts.get? c = some context ∧
      s.HoldingKeeps context.holding registry

/-- What an object that is pointed to keeps is kept. -/
theorem Inv.kept_of_pointsTo {s : World} {locals : Holding} (h : Inv s locals) {p : Pointer}
    {i registry : Nat} (hi : i ∈ s.pointers locals p) (hp : s.PointsTo registry p i) :
    registry ∈ s.kept locals := by
  cases p with
  | notifications => exact h.kept_of_notifications hi hp
  | validationInterface => exact h.kept_of_interface hi hp
  | context => exact hp.elim
  | registry =>
    rw [← show i = registry from hp]
    exact mem_append_left _ (mem_append_left _ hi)

/-- A pointer that is not in a local variable belongs to a value, directly or
through a live context. -/
theorem Inv.keeps_of_pointsTo {s : World} (h : Inv s Holding.none) {p : Pointer} {i registry : Nat}
    (hi : i ∈ s.pointers Holding.none p) (hp : s.PointsTo registry p i) :
    ∃ v ∈ s.values, s.Keeps v registry := by
  rcases mem_append.mp hi with hi | hi
  · rcases mem_append.mp hi with hi | hi
    · cases hi
    · obtain ⟨v, hv, hi⟩ := mem_flatMap.mp hi
      exact ⟨v, hv, Or.inl ⟨p, i, hi, hp⟩⟩
  · obtain ⟨context, hlive, hi⟩ := mem_flatMap.mp hi
    obtain ⟨c, hpos, hget⟩ := Heap.mem_live_iff.mp hlive
    have hc := h.contexts.useCount_pos_iff.mp hpos
    rcases mem_append.mp hc with hc | hc
    · rcases mem_append.mp hc with hc | hc
      · cases hc
      · obtain ⟨v, hv, hc⟩ := mem_flatMap.mp hc
        exact ⟨v, hv, Or.inr ⟨c, hc, context, hget, p, i, hi, hp⟩⟩
    · obtain ⟨other, -, hc⟩ := mem_flatMap.mp hc
      cases hc

theorem Inv.kept_iff {s : World} (h : Inv s Holding.none) (registry : Nat) :
    registry ∈ s.kept Holding.none ↔ ∃ v ∈ s.values, s.Keeps v registry := by
  constructor
  · intro hkept
    rcases mem_append.mp hkept with hkept | hkept
    · rcases mem_append.mp hkept with hkept | hkept
      · exact h.keeps_of_pointsTo (p := .registry) hkept rfl
      · obtain ⟨userData, hlive, hdata⟩ := mem_filterMap.mp hkept
        obtain ⟨i, hpos, hget⟩ := Heap.mem_live_iff.mp hlive
        rw [show userData = some registry from hdata] at hget
        exact h.keeps_of_pointsTo (p := .notifications)
          (h.notifications.useCount_pos_iff.mp hpos) hget
    · obtain ⟨j, hpos, hget⟩ := Heap.mem_live_iff.mp hkept
      exact h.keeps_of_pointsTo (p := .validationInterface)
        (h.interfaces.useCount_pos_iff.mp hpos) hget
  · rintro ⟨v, hv, ⟨p, i, hi, hp⟩ | ⟨c, hc, context, hget, p, i, hi, hp⟩⟩
    · refine h.kept_of_pointsTo (mem_append_left _ (mem_append_right _ ?_)) hp
      exact mem_flatMap.mpr ⟨v, hv, hi⟩
    · have hc' : c ∈ s.pointers Holding.none .context :=
        mem_append_left _ (mem_append_right _ (mem_flatMap.mpr ⟨v, hv, hc⟩))
      obtain ⟨context', hget', hlive⟩ := h.context_live hc'
      cases hget.symm.trans hget'
      exact h.kept_of_pointsTo (mem_pointers_of_live hlive hi) hp

end World

/-! ## Whole runs -/

theorem inv_runs (ops : List Op) : (runs ops).Inv Holding.none := by
  unfold runs
  refine List.foldlRecOn (motive := fun s => s.Inv Holding.none) ops World.step
    World.inv_init ?_
  intro s h op _
  exact h.step op

/-- After any sequence of calls, a registry is either still kept by a value and
was not destroyed, or no value keeps it and it was destroyed exactly once; and
no callback was ever made with a registry that was destroyed before. -/
theorem registry_lifetime (ops : List Op) : (∀ registry < (runs ops).nextRegistry,
      ((∃ v ∈ (runs ops).values, (runs ops).Keeps v registry) ∧
        (destroyed (runs ops).log).count registry = 0) ∨
      ((∀ v ∈ (runs ops).values, ¬ (runs ops).Keeps v registry) ∧
        (destroyed (runs ops).log).count registry = 1)) ∧
    NoUseAfterDestroy (runs ops).log := by
  have h := inv_runs ops
  refine ⟨?_, h.log⟩
  intro registry hlt
  by_cases hkept : registry ∈ (runs ops).kept Holding.none
  · refine Or.inl ⟨(h.kept_iff registry).mp hkept, ?_⟩
    exact count_eq_zero.mpr (h.registries.not_released hkept)
  · refine Or.inr ⟨?_, h.registries.count_released (mem_range.mpr hlt) hkept⟩
    intro v hv hkeeps
    exact hkept ((h.kept_iff registry).mpr ⟨v, hv, hkeeps⟩)

/-- A context with both registries and one manager.  The context goes first;
the manager still raises an event in its flush. -/
def sampleRun : List Op :=
  [.contextBuilderNew, .withNotification 0, .withValidation 0, .contextBuilderBuild 0 true,
    .chainstateManagerBuilderNew 0 true, .chainstateManagerBuilderBuild 0, .notify 0,
    .chainstateManagerCreated 0 true, .signal 0, .drop 1, .drop 0, .notify 0,
    .chainstateManagerDelete 0]

theorem registry_lifetime_sampleRun :
    (runs sampleRun).values = [] ∧ (destroyed (runs sampleRun).log).count 0 = 1 ∧
      (destroyed (runs sampleRun).log).count 1 = 1 := by
  have hvalues : (runs sampleRun).values = [] := by decide +kernel
  have hnext : (runs sampleRun).nextRegistry = 2 := by decide +kernel
  have hlifetime : ∀ registry < 2, (destroyed (runs sampleRun).log).count registry = 1 := by
    intro registry hlt
    rcases (registry_lifetime sampleRun).1 registry (by omega) with ⟨⟨v, hv, -⟩, -⟩ | ⟨-, hone⟩
    · rw [hvalues] at hv
      cases hv
    · exact hone
  exact ⟨hvalues, hlifetime 0 (by omega), hlifetime 1 (by omega)⟩

end BitcoinKernel.State.Registries
