import BitcoinKernel.Lib.Ownership
import BitcoinKernel.Ffi.Calls

/-!
# The handle ledger

Every object whose ownership the C API handed to the crate must be passed to
its destroy function exactly once, and no lent object may be passed to one.

The proof is a conservation law.  As long as every result that is handed over
is put in an owning wrapper, and every result that is only lent in a
reference, the objects handed over are the objects destroyed so far together
with the objects in live owning wrappers.  `Method.paired` checks this
pairing for all functions of the crate.  One of them fails it:
`BlockTreeEntry::header` puts the header that
`btck_block_tree_entry_get_block_header` made for the caller in a
`BlockHeaderRef`, which never destroys it.  `handle_ledger_iff` says that the
ledger holds at the end of exactly those runs that never call it.
-/

namespace BitcoinKernel.Ffi

open Ownership Runs List Option

/-- The ledger: every object that was handed over was destroyed once, by the
function of its type, and nothing else was destroyed. -/
def World.LedgerHolds (w : World) : Prop :=
  (∀ o ∈ w.handed, w.destroyed.filter (fun call => call.2 = o) = [(o.kind, o)]) ∧
    ∀ call ∈ w.destroyed, call.2 ∈ w.handed

/-- The objects in owning wrappers. -/
def owned (values : List Value) : List Object :=
  (values.filter fun v => v.wrapper.destroys.isSome).map Value.inner

variable {v : Value} {wrapper : Wrapper} {m : Method} {create : CFunction} {self : Nat} {op : Op}
  {w : World} {ops : List Op}

theorem owned_cons_of_isSome (h : v.wrapper.destroys.isSome = true) (values : List Value) :
    owned (v :: values) = v.inner :: owned values := by
  simp only [owned, filter_cons, h, if_true, map_cons]

theorem owned_cons_of_eq_none (h : v.wrapper.destroys = none) (values : List Value) :
    owned (v :: values) = owned values := by
  simp only [owned, filter_cons, h, isSome_none, Bool.false_eq_true, if_false]

theorem owned_append (values values' : List Value) :
    owned (values ++ values') = owned values ++ owned values' := by
  rw [owned, filter_append, map_append, owned, owned]

/-! ## The wrapper types -/

theorem Wrapper.kind_of_destroys {kind : Kind} (h : wrapper.destroys = some kind) :
    kind = wrapper.kind := by
  cases wrapper <;> cases h <;> rfl

theorem Wrapper.reference_spec {reference : Wrapper} (h : wrapper.reference = some reference) :
    reference.destroys = none ∧ reference.kind = wrapper.kind := by
  cases wrapper <;> cases h <;> exact ⟨rfl, rfl⟩

/-- A result that is handed over goes to an owning wrapper, a result that is
lent to a reference. -/
def Paired (f : CFunction) (wrapper : Wrapper) : Prop :=
  f.signature.ownership = .transfer ↔ wrapper.destroys.isSome = true

instance (f : CFunction) (wrapper : Wrapper) : Decidable (Paired f wrapper) :=
  inferInstanceAs (Decidable (_ ↔ _))

/-- All functions of the crate but one pair ownership with `Drop`. -/
theorem Method.paired (h : m ≠ .blockTreeEntryHeader) : Paired m.row.calls m.row.wraps := by
  cases m <;> first | contradiction | decide

/-! ## The invariant -/

/-- The account of a world balances, up to the objects `lost`. -/
structure Inv (w : World) (lost : List Object) : Prop where
  fresh : ∀ o ∈ w.handed, ∃ id kind, o = .handed id kind ∧ id < w.nextId
  typed : ∀ v ∈ w.values, v.wrapper.kind = v.inner.kind
  matched : ∀ call ∈ w.destroyed, call.1 = call.2.kind
  balanced : Balanced w.handed (w.destroyed.map Prod.snd) (owned w.values) lost

theorem inv_init : Inv {} [] where
  fresh := fun _ h => absurd h not_mem_nil
  typed := fun _ h => absurd h not_mem_nil
  matched := fun _ h => absurd h not_mem_nil
  balanced := Balanced.nil

namespace Inv

variable {w : World} {lost : List Object}

section

variable (h : Inv w lost)

include h

/-- The next object is a new one. -/
theorem not_mem_handed (kind : Kind) : Object.handed w.nextId kind ∉ w.handed := by
  intro hmem
  obtain ⟨id, kind', heq, hlt⟩ := h.fresh _ hmem
  cases heq
  exact Nat.lt_irrefl _ hlt

theorem fresh_hand (kind : Kind) :
    ∀ o ∈ (w.hand kind).2.handed, ∃ id kind, o = .handed id kind ∧ id < w.nextId + 1 := by
  intro o ho
  rcases mem_cons.mp ho with rfl | ho
  · exact ⟨w.nextId, kind, rfl, Nat.lt_succ_self _⟩
  · obtain ⟨id, kind', heq, hlt⟩ := h.fresh o ho
    exact ⟨id, kind', heq, Nat.lt_succ_of_lt hlt⟩

theorem typed_cons {v : Value} (hv : v.wrapper.kind = v.inner.kind) :
    ∀ v' ∈ v :: w.values, v'.wrapper.kind = v'.inner.kind := by
  intro v' hv'
  rcases mem_cons.mp hv' with rfl | hv'
  · exact hv
  · exact h.typed v' hv'

/-- A new object in an owning wrapper. -/
theorem keep_hand {wrapper : Wrapper} (hown : wrapper.destroys.isSome = true) :
    Inv ((w.hand wrapper.kind).2.keep wrapper (w.hand wrapper.kind).1) lost where
  fresh := h.fresh_hand _
  typed := h.typed_cons rfl
  matched := h.matched
  balanced := by
    rw [World.keep, owned_cons_of_isSome hown]
    exact h.balanced.acquire (h.not_mem_handed _)

/-- A new object in a reference is lost. -/
theorem lose_hand {wrapper : Wrapper} (href : wrapper.destroys = none) :
    Inv ((w.hand wrapper.kind).2.keep wrapper (w.hand wrapper.kind).1)
      (.handed w.nextId wrapper.kind :: lost) where
  fresh := h.fresh_hand _
  typed := h.typed_cons rfl
  matched := h.matched
  balanced := by
    rw [World.keep, owned_cons_of_eq_none href]
    exact h.balanced.lose (h.not_mem_handed _)

/-- A further reference to any object. -/
theorem keep_ref {wrapper : Wrapper} {o : Object} (hkind : wrapper.kind = o.kind)
    (href : wrapper.destroys = none) :
    Inv (w.keep wrapper o) lost where
  fresh := h.fresh
  typed := h.typed_cons hkind
  matched := h.matched
  balanced := by
    rw [World.keep, owned_cons_of_eq_none href]
    exact h.balanced

/-- `Drop` of any value. -/
theorem drop {value : Nat} {v : Value} (hv : w.values[value]? = some v) :
    Inv ({ w with values := w.values.eraseIdx value }.destroy v) lost := by
  obtain ⟨hlt, rfl⟩ := List.getElem?_eq_some_iff.mp hv
  have hsplit : w.values = w.values.take value ++ w.values[value] :: w.values.drop (value + 1) := by
    rw [cons_getElem_drop_succ, take_append_drop]
  have herase : w.values.eraseIdx value = w.values.take value ++ w.values.drop (value + 1) :=
    eraseIdx_eq_take_drop_succ _ _
  have htyped : ∀ v' ∈ w.values.eraseIdx value, v'.wrapper.kind = v'.inner.kind :=
    fun v' hv' => h.typed v' (mem_of_mem_eraseIdx hv')
  have hbalanced := h.balanced
  cases hdrop : w.values[value].wrapper.destroys with
  | none =>
    simp only [World.destroy, hdrop]
    refine ⟨h.fresh, htyped, h.matched, ?_⟩
    rw [hsplit, owned_append, owned_cons_of_eq_none hdrop, ← owned_append, ← herase] at hbalanced
    exact hbalanced
  | some kind =>
    simp only [World.destroy, hdrop]
    refine ⟨h.fresh, htyped, ?_, ?_⟩
    · intro call hcall
      rcases mem_cons.mp hcall with rfl | hcall
      · exact (Wrapper.kind_of_destroys hdrop).trans (h.typed _ (getElem_mem hlt))
      · exact h.matched call hcall
    · rw [hsplit, owned_append, owned_cons_of_isSome (by rw [hdrop]; rfl)] at hbalanced
      have hreleased := (hbalanced.congr (.refl _) (.refl _) perm_middle).release
      rw [← owned_append, ← herase] at hreleased
      exact hreleased

end

end Inv

/-! ## Actions and calls -/

/-- The pairing, for every way in which an action makes a value. -/
def Action.Paired : Action → Prop
  | .wrap f wrapper _ _ => Ffi.Paired f wrapper
  | .receiveCopy _ wrapper => wrapper.destroys.isSome = true
  | .receiveRef wrapper _ => wrapper.destroys = none
  | .use _ _ | .borrow _ | .drop _ => True

namespace World

variable {w w' : World}

theorem kind_lend (owner : Option Object) (kind : Kind) (index : Nat) :
    (lend owner kind index).kind = kind := by
  cases owner <;> rfl

/-- What wrapping the result of a C function does. -/
theorem perform_wrap {f : CFunction} {wrapper : Wrapper} {self : Option Nat} {index : Nat}
    (hw : w.perform (.wrap f wrapper self index) = some w') :
    wrapper.kind = f.signature.result ∧ ((f.signature.ownership = .transfer ∧
          w' = (w.hand wrapper.kind).2.keep wrapper (w.hand wrapper.kind).1) ∨
        (f.signature.ownership = .lend ∧ ∃ owner,
          w' = w.keep wrapper (lend owner wrapper.kind index))) := by
  simp only [perform, bind_eq_bind, bind_eq_some_iff] at hw
  obtain ⟨owner, -, hw⟩ := hw
  split at hw
  · rename_i htypes
    refine ⟨htypes.2, ?_⟩
    rw [htypes.2]
    cases hown : f.signature.ownership with
    | transfer =>
      simp only [call, hown, Option.some.injEq] at hw
      exact Or.inl ⟨rfl, hw.symm⟩
    | lend =>
      simp only [call, hown, Option.some.injEq] at hw
      exact Or.inr ⟨rfl, owner, hw.symm⟩
  · cases hw

end World

namespace Inv

variable {w w' : World} {lost : List Object}

/-- A paired action keeps the account balanced and loses nothing. -/
theorem perform (h : Inv w lost) {a : Action} (ha : a.Paired) (hw : w.perform a = some w') :
    Inv w' lost := by
  cases a with
  | use value types =>
    simp only [World.perform, bind_eq_bind, bind_eq_some_iff] at hw
    obtain ⟨v, -, hw⟩ := hw
    split at hw
    · cases hw
      exact h
    · cases hw
  | wrap f wrapper self index =>
    obtain ⟨-, ⟨hown, rfl⟩ | ⟨hown, owner, rfl⟩⟩ := World.perform_wrap hw
    · exact h.keep_hand (ha.mp hown)
    · refine h.keep_ref (World.kind_lend _ _ _).symm ?_
      rw [← not_isSome_iff_eq_none]
      intro hsome
      rw [ha.mpr hsome] at hown
      cases hown
  | borrow value =>
    simp only [World.perform, bind_eq_bind, bind_eq_some_iff, Option.some.injEq] at hw
    obtain ⟨v, hv, reference, href, rfl⟩ := hw
    obtain ⟨hnone, hkind⟩ := Wrapper.reference_spec href
    exact h.keep_ref (hkind.trans (h.typed v (mem_of_getElem? hv))) hnone
  | receiveCopy kind wrapper =>
    simp only [World.perform] at hw
    split at hw
    · rename_i hkind
      cases hw
      rw [← hkind]
      exact h.keep_hand ha
    · cases hw
  | receiveRef wrapper id =>
    cases hw
    exact h.keep_ref (World.kind_lend _ _ _).symm ha
  | drop value =>
    simp only [World.perform, bind_eq_bind, bind_eq_some_iff, Option.some.injEq] at hw
    obtain ⟨v, hv, rfl⟩ := hw
    exact h.drop hv

theorem run_actions {actions : List Action} (hpaired : ∀ a ∈ actions, a.Paired) (h : Inv w lost)
    (hw : run World.perform w actions = some w') : Inv w' lost := by
  induction actions generalizing w with
  | nil =>
    cases hw
    exact h
  | cons a actions ih =>
    rw [run_cons, bind_eq_some_iff] at hw
    obtain ⟨t, ht, hw⟩ := hw
    exact ih (forall_mem_cons.mp hpaired).2
      (h.perform (hpaired a mem_cons_self) ht) hw

end Inv

/-- The call of `BlockTreeEntry::header`. -/
def Op.IsBlockTreeEntryHeader (op : Op) : Prop :=
  ∃ self index answers, op = .method .blockTreeEntryHeader self index answers

theorem Method.paired_actions (h : m ≠ .blockTreeEntryHeader) (self index : Nat) (answers : Bool) :
    ∀ a ∈ m.actions self index answers, a.Paired := by
  intro a ha
  simp only [Method.actions] at ha
  split at ha
  · rcases mem_append.mp ha with ha | ha
    · split at ha
      · cases ha
      · rw [mem_singleton.mp ha]
        trivial
    · rw [mem_singleton.mp ha]
      exact Method.paired h
  · split at ha
    · split at ha
      · cases ha
      · rw [mem_singleton.mp ha]
        trivial
    · rw [mem_singleton.mp ha]
      trivial

theorem buildActions_paired {builder product : Wrapper} {succeeds : Bool}
    (h : Paired create product) :
    ∀ a ∈ buildActions builder create product self succeeds, a.Paired := by
  cases succeeds <;> simp [buildActions, Action.Paired, h]

theorem validationWrapper_paired {argument : Wrapper} (h : argument.destroys = none)
    (handler : Bool) (id : Nat) : ∀ a ∈ validationWrapper argument handler id, a.Paired := by
  have hblock : Wrapper.block.destroys.isSome = true := rfl
  cases handler <;> simp [validationWrapper, Action.Paired, h, hblock]

theorem contextBuilderSetChainparams_paired (h : Paired create .chainParams) (self : Nat) :
    ∀ a ∈ contextBuilderSetChainparams create self, a.Paired := by
  simp [contextBuilderSetChainparams, Action.Paired, h]

/-- All calls but one pair ownership with `Drop` in all their actions. -/
theorem Op.paired (h : ¬ op.IsBlockTreeEntryHeader) : ∀ a ∈ op.actions, a.Paired := by
  cases op with
  | method m self index answers =>
    refine Method.paired_actions ?_ self index answers
    rintro rfl
    exact h ⟨self, index, answers, rfl⟩
  | asRef self => simp [actions, Action.Paired]
  | drop self => simp [actions, Action.Paired]
  | blockCheck self passes =>
    have hstate : Paired .blockValidationStateCreate .blockValidationState := by decide
    cases passes <;> simp [actions, Action.Paired, hstate]
  | transactionCheck self =>
    have hstate : Paired .txValidationStateCreate .txValidationState := by decide
    simp [actions, Action.Paired, hstate]
  | headerFmt self =>
    have hhash : Paired .blockHeaderGetHash .blockHash := by decide
    simp [actions, Action.Paired, hhash]
  | processBlockHeader self null valid =>
    have hstate : Paired .chainstateManagerProcessBlockHeader .blockValidationState := by decide
    cases null <;> cases valid <;> simp [actions, Action.Paired, hstate]
  | contextBuilderChainType self => exact contextBuilderSetChainparams_paired (by decide) self
  | contextBuilderSignet self => exact contextBuilderSetChainparams_paired (by decide) self
  | contextBuilderBuild self sane => exact buildActions_paired (by decide)
  | chainstateManagerBuilderWipeDb self accepted => cases accepted <;> simp [actions, Action.Paired]
  | chainstateManagerBuilderBuild self created => exact buildActions_paired (by decide)
  | chainstateManagerNew context options created =>
    intro a ha
    rcases mem_append.mp ha with ha | ha
    · exact Method.paired_actions (by decide) _ _ _ a ha
    · split at ha
      · exact buildActions_paired (by decide) a ha
      · cases ha
  | blockChecked handler state => exact validationWrapper_paired rfl handler state
  | newPowValidBlock handler entry => exact validationWrapper_paired rfl handler entry
  | blockConnected handler entry => exact validationWrapper_paired rfl handler entry
  | blockDisconnected handler entry => exact validationWrapper_paired rfl handler entry
  | blockTip handler entry =>
    have hentry : Wrapper.blockTreeEntry.destroys = none := rfl
    have hhash : Paired .blockTreeEntryGetBlockHash .blockHashRef := by decide
    have hcopy : Paired .blockHashCopy .blockHash := by decide
    cases handler <;> simp [actions, Action.Paired, hentry, hhash, hcopy]

/-- `BlockTreeEntry::header` loses the header that it is handed. -/
theorem Inv.step_blockTreeEntryHeader {w' : World} {lost : List Object} (h : Inv w lost)
    (hop : op.IsBlockTreeEntryHeader) (hw : w.step op = some w') : ∃ o, Inv w' (o :: lost) := by
  obtain ⟨self, index, answers, rfl⟩ := hop
  cases answers with
  | true =>
    have hactions : (Op.method .blockTreeEntryHeader self index true).actions =
        [.use self [.blockTreeEntry],
          .wrap .blockTreeEntryGetBlockHeader .blockHeaderRef (some self) index] := rfl
    rw [World.step, hactions, run_cons, bind_eq_some_iff] at hw
    obtain ⟨t, ht, hw⟩ := hw
    rw [run_cons, bind_eq_some_iff] at hw
    obtain ⟨t', ht', hw⟩ := hw
    cases hw
    have htInv : Inv t lost := h.perform (a := .use self [.blockTreeEntry]) trivial ht
    rcases (World.perform_wrap ht').2 with ⟨-, rfl⟩ | ⟨hown, -⟩
    · exact ⟨_, htInv.lose_hand rfl⟩
    · cases hown
  | false =>
    have hactions : (Op.method .blockTreeEntryHeader self index false).actions =
        [.use self []] := rfl
    rw [World.step, hactions, run_cons, bind_eq_some_iff] at hw
    obtain ⟨t, ht, -⟩ := hw
    simp [World.perform] at ht

/-- The account of a run.  Something is lost when the run calls
`BlockTreeEntry::header`. -/
theorem inv_of_run (hrun : run World.step {} ops = some w) :
    ∃ lost, Inv w lost ∧ (lost = [] ↔ ∀ op ∈ ops, ¬ op.IsBlockTreeEntryHeader) := by
  refine run_invariant (I := fun ops w => ∃ lost, Inv w lost ∧
    (lost = [] ↔ ∀ op ∈ ops, ¬ op.IsBlockTreeEntryHeader)) ⟨[], inv_init, by simp⟩ ?_ hrun
  rintro pre op s t ⟨lost, hInv, hlost⟩ hstep
  by_cases hop : op.IsBlockTreeEntryHeader
  · obtain ⟨o, ht⟩ := hInv.step_blockTreeEntryHeader hop hstep
    refine ⟨o :: lost, ht, ?_⟩
    simp only [cons_ne_nil, forall_mem_append, forall_mem_singleton, hop,
      not_true_eq_false, and_false]
  · refine ⟨lost, hInv.run_actions (Op.paired hop) hstep, ?_⟩
    simp only [hlost, forall_mem_append, forall_mem_singleton, hop, not_false_eq_true, and_true]

/-! ## The ledger at the end of a run -/

/-- The destroy calls on one object, when all calls match their object. -/
theorem World.filter_destroyed (hmatched : ∀ call ∈ w.destroyed, call.1 = call.2.kind)
    (o : Object) :
    w.destroyed.filter (fun call => call.2 = o) =
      List.replicate ((w.destroyed.map Prod.snd).count o) (o.kind, o) := by
  rw [eq_replicate_iff]
  constructor
  · rw [← countP_eq_length_filter, List.count, countP_map]
    refine countP_congr fun call _ => ?_
    simp
  · intro call hcall
    obtain ⟨hmem, heq⟩ := mem_filter.mp hcall
    have hobject : call.2 = o := of_decide_eq_true heq
    rw [← hobject, ← hmatched call hmem]

/-- With calls of matching functions only, the ledger is the settled account. -/
theorem World.ledgerHolds_iff_settled (hmatched : ∀ call ∈ w.destroyed, call.1 = call.2.kind) :
    w.LedgerHolds ↔ Settled w.handed (w.destroyed.map Prod.snd) := by
  unfold World.LedgerHolds Settled
  refine and_congr ?_ ?_
  · refine forall₂_congr fun o _ => ?_
    have hsingleton : [(o.kind, o)] = List.replicate 1 (o.kind, o) := rfl
    rw [World.filter_destroyed hmatched, hsingleton, replicate_inj]
    simp
  · rw [List.forall_mem_map]

/-- The ledger at the end of a run of calls after which every Rust value was
dropped. -/
theorem handle_ledger_iff {ops : List Op} {w : World} (hrun : run World.step {} ops = some w)
    (hdropped : w.values = []) :
    w.LedgerHolds ↔ ∀ op ∈ ops, ¬ op.IsBlockTreeEntryHeader := by
  obtain ⟨lost, hInv, hlost⟩ := inv_of_run hrun
  have hbalanced := hInv.balanced
  rw [hdropped] at hbalanced
  rw [World.ledgerHolds_iff_settled hInv.matched, hbalanced.settled_iff, hlost]

instance (w : World) : Decidable w.LedgerHolds := inferInstanceAs (Decidable (_ ∧ _))

/-- A context, a manager and the entry of its best header. -/
def openManager : List Op :=
  [.method .contextBuilderNew 0 0 true, .contextBuilderChainType 0, .contextBuilderBuild 0 true,
    .chainstateManagerNew 0 true true, .method .bestEntry 0 0 true]

/-- A block read from disk, a validation callback with a handler, one without,
and a failed read. -/
def readBlock : List Op :=
  [.method .readBlockData 1 0 true, .drop 0, .blockConnected true 0, .drop 0, .drop 0,
    .blockChecked false 0, .method .readSpentOutputs 1 0 false]

/-- The header of the entry. -/
def readHeader : List Op := [.method .blockTreeEntryHeader 0 0 true, .drop 0]

/-- The entry, the manager and the context are dropped. -/
def closeManager : List Op := [.drop 0, .drop 0, .drop 0]

theorem ledgerHolds_readBlock :
    ∃ w, run World.step {} (openManager ++ readBlock ++ closeManager) = some w ∧
      w.values = [] ∧ w.LedgerHolds := by
  have hdrops : ((run World.step {} (openManager ++ readBlock ++ closeManager)).map
      fun w => decide (w.values = [])) = some true := by decide +kernel
  obtain ⟨w, hrun, hvalues⟩ := map_eq_some_iff.mp hdrops
  have hdropped : w.values = [] := of_decide_eq_true hvalues
  refine ⟨w, hrun, hdropped, (handle_ledger_iff hrun hdropped).mpr ?_⟩
  rintro op hop ⟨self, index, answers, rfl⟩
  simp [openManager, readBlock, closeManager] at hop

/-- The header of a tree entry is never destroyed. -/
theorem not_ledgerHolds_readHeader :
    ∃ w, run World.step {} (openManager ++ readHeader ++ closeManager) = some w ∧
      w.values = [] ∧ ¬ w.LedgerHolds := by
  have hfails : ((run World.step {} (openManager ++ readHeader ++ closeManager)).map
      fun w => decide (w.values = [] ∧ ¬ w.LedgerHolds)) = some true := by decide +kernel
  obtain ⟨w, hrun, hw⟩ := map_eq_some_iff.mp hfails
  exact ⟨w, hrun, of_decide_eq_true hw⟩

end BitcoinKernel.Ffi
