import Mathlib.Algebra.Order.BigOperators.Group.List
import BitcoinKernel.Consensus.TxCheck
import BitcoinKernel.Lib.Outcome
import BitcoinKernel.Lib.Stateful
import BitcoinKernel.Primitives.RoundTrip

/-!
# `Transaction::check` and what it accepts

`Transaction::check` makes a fresh validation state, lets `CheckTransaction`
write into it and reads the verdict from it.  `ValidTransaction` says in plain
terms what a transaction must satisfy: the sum of the output values is the sum
of integers, and the outpoints are distinct as a list.  The code has a running
sum in 64 bits and a set of the outpoints seen so far, and leaves at the first
rule that is broken.

There are three groups.

* The loops.  `checkOutputValues_eq_ok_iff` and `checkDuplicateInputs_eq_ok_iff`
  say what each loop accepts.  The running sum stays in the range of money, so
  no addition leaves the 64 bits (`checkOutputValuesTrapping_eq`).
* The whole check.  `checkTransaction_eq_ok_iff` is the verdict, and
  `checkTransaction_onlyConsensus` the reason of a rejection.
* The call.  `transaction_check_exact` puts them together.  No part of the
  specification reads a witness, so neither does the verdict.
-/

namespace BitcoinKernel

open Consensus Serialize Stateful Outcome List

/-! ## The call -/

/-- The mode of a `ValidationState`. -/
inductive ModeState
  | valid
  | invalid
  | error
deriving DecidableEq, Repr

/-- `TxValidationState`. -/
structure TxValidationState where
  mode : ModeState := .valid
  result : TxValidationResult := .txResultUnset
  rejectReason : String := ""
  debugMessage : String := ""
deriving DecidableEq, Repr

/-- `ValidationState::Invalid`. -/
def TxValidationState.invalid (state : TxValidationState) (rejection : TxRejection) :
    TxValidationState where
  mode := if state.mode ≠ .error then .invalid else state.mode
  result := rejection.result
  rejectReason := rejection.rejectReason
  debugMessage := rejection.debugMessage

/-- `ValidationMode`. -/
inductive ValidationMode
  | valid
  | invalid
  | internalError
deriving DecidableEq, Repr

/-- `btck_tx_validation_state_get_validation_mode`. -/
def TxValidationState.validationMode (state : TxValidationState) : ValidationMode :=
  match state.mode with
  | .valid => .valid
  | .invalid => .invalid
  | .error => .internalError

/-- `btck_transaction_check`: the state afterwards.  What was in the state before
does not matter. -/
def btckTransactionCheck (tx : Transaction) (_state : TxValidationState) : TxValidationState :=
  let state : TxValidationState := {}
  match checkTransaction tx with
  | .ok _ => state
  | .error rejection => state.invalid rejection

/-- `TxCheckResult`. -/
inductive TxCheckResult
  | valid
  | invalid (result : TxValidationResult)
deriving DecidableEq, Repr

/-- `Transaction::check`. -/
def Transaction.check (tx : Transaction) : TxCheckResult :=
  let state := btckTransactionCheck tx {}
  match state.validationMode with
  | .valid => .valid
  | _ => .invalid state.result

/-! ## What a transaction must satisfy -/

/-- The sum of the output values, without a bound. -/
def Transaction.valueOut (tx : Transaction) : Int := (tx.vout.map fun out => out.nValue.toInt).sum

/-- The specification of `Transaction::check`. -/
structure ValidTransaction (tx : Transaction) : Prop where
  inputs : tx.vin ≠ []
  outputs : tx.vout ≠ []
  size : 4 * (writeTransaction false tx).length ≤ maxBlockWeight
  values : ∀ out ∈ tx.vout, 0 ≤ out.nValue.toInt ∧ out.nValue.toInt ≤ maxMoney.toInt
  total : 0 ≤ tx.valueOut ∧ tx.valueOut ≤ maxMoney.toInt
  distinct : (tx.vin.map TxIn.prevout).Nodup
  prevouts : (∃ input, tx.vin = [input] ∧ input.prevout.isNull = true ∧
      2 ≤ input.scriptSig.length ∧ input.scriptSig.length ≤ 100) ∨
    ∀ input ∈ tx.vin, input.prevout.isNull = false

/-! ## The loops -/

/-- An addition that traps when it leaves the 64 bits. -/
def addTrapping (a b : Int64) : Option Int64 :=
  if -2 ^ 63 ≤ a.toInt + b.toInt ∧ a.toInt + b.toInt < 2 ^ 63 then some (a + b) else none

/-- The loop over the outputs with additions that trap. -/
def checkOutputValuesTrapping : (nValueOut : Int64) → List TxOut → Option (Except TxRejection Unit)
  | _, [] => some (.ok ())
  | nValueOut, txout :: rest =>
    if txout.nValue < 0 then some (.error (txConsensus "bad-txns-vout-negative"))
    else if txout.nValue > maxMoney then some (.error (txConsensus "bad-txns-vout-toolarge"))
    else do
      let nValueOut ← addTrapping nValueOut txout.nValue
      if !moneyRange nValueOut then some (.error (txConsensus "bad-txns-txouttotal-toolarge"))
      else checkOutputValuesTrapping nValueOut rest

/-- The range of money, in integers. -/
theorem moneyRange_iff (nValue : Int64) :
    moneyRange nValue = true ↔ 0 ≤ nValue.toInt ∧ nValue.toInt ≤ maxMoney.toInt := by
  rw [moneyRange, Bool.and_eq_true, decide_eq_true_eq, decide_eq_true_eq, Int64.le_iff_toInt_le,
    Int64.le_iff_toInt_le, Int64.toInt_zero]

/-- Two amounts of money are added without leaving the 64 bits. -/
theorem toInt_add_of_money {a b : Int64} (ha : 0 ≤ a.toInt ∧ a.toInt ≤ maxMoney.toInt)
    (hb : 0 ≤ b.toInt ∧ b.toInt ≤ maxMoney.toInt) :
    (a + b).toInt = a.toInt + b.toInt ∧ addTrapping a b = some (a + b) := by
  have hmax : maxMoney.toInt = 2100000000000000 := by decide
  constructor
  · rw [Int64.toInt_add]
    apply Int.bmod_eq_of_le
    · omega
    · omega
  · exact if_pos ⟨by omega, by omega⟩

/-- One turn of the loop over the outputs. -/
theorem checkOutputValues_cons (nValueOut : Int64) (txout : TxOut) (rest : List TxOut) :
    checkOutputValues nValueOut (txout :: rest) =
      if txout.nValue < 0 then .error (txConsensus "bad-txns-vout-negative")
      else if txout.nValue > maxMoney then .error (txConsensus "bad-txns-vout-toolarge")
      else if !moneyRange (nValueOut + txout.nValue) then
        .error (txConsensus "bad-txns-txouttotal-toolarge")
      else checkOutputValues (nValueOut + txout.nValue) rest := by
  rw [checkOutputValues]
  dsimp only
  by_cases hneg : txout.nValue < 0
  · rw [if_pos hneg, if_pos hneg]
    rfl
  by_cases hlarge : txout.nValue > maxMoney
  · rw [if_neg hneg, if_neg hneg, if_pos hlarge, if_pos hlarge]
    rfl
  rw [if_neg hneg, if_neg hneg, if_neg hlarge, if_neg hlarge]
  split_ifs <;> rfl

/-- A value that passes the first two checks of a turn is money. -/
theorem money_of_not_lt {nValue : Int64} (hneg : ¬nValue < 0) (hlarge : ¬nValue > maxMoney) :
    0 ≤ nValue.toInt ∧ nValue.toInt ≤ maxMoney.toInt := by
  rw [Int64.lt_iff_toInt_lt, Int64.toInt_zero] at hneg
  rw [gt_iff_lt, Int64.lt_iff_toInt_lt] at hlarge
  exact ⟨by omega, by omega⟩

/-- No addition of the loop leaves the 64 bits. -/
theorem checkOutputValuesTrapping_eq (vout : List TxOut) {nValueOut : Int64}
    (hmoney : 0 ≤ nValueOut.toInt ∧ nValueOut.toInt ≤ maxMoney.toInt) :
    checkOutputValuesTrapping nValueOut vout = some (checkOutputValues nValueOut vout) := by
  induction vout generalizing nValueOut with
  | nil => rfl
  | cons txout rest ih =>
    rw [checkOutputValues_cons, checkOutputValuesTrapping]
    split_ifs with hneg hlarge htotal
    · rfl
    · rfl
    · rw [(toInt_add_of_money hmoney (money_of_not_lt hneg hlarge)).2, Option.bind_eq_bind,
        Option.bind_some, if_pos htotal]
    · rw [(toInt_add_of_money hmoney (money_of_not_lt hneg hlarge)).2, Option.bind_eq_bind,
        Option.bind_some, if_neg htotal]
      rw [Bool.not_eq_true', Bool.not_eq_false, moneyRange_iff] at htotal
      exact ih htotal

/-- The loop over the outputs accepts when all values are money and so is their
sum with the one before. -/
theorem checkOutputValues_eq_ok_iff (vout : List TxOut) {nValueOut : Int64}
    (hmoney : 0 ≤ nValueOut.toInt ∧ nValueOut.toInt ≤ maxMoney.toInt) :
    checkOutputValues nValueOut vout = .ok () ↔
      (∀ out ∈ vout, 0 ≤ out.nValue.toInt ∧ out.nValue.toInt ≤ maxMoney.toInt) ∧
        nValueOut.toInt + (vout.map fun out => out.nValue.toInt).sum ≤ maxMoney.toInt := by
  induction vout generalizing nValueOut with
  | nil =>
    rw [map_nil, sum_nil, Int.add_zero]
    exact iff_of_true rfl ⟨fun out hout => (nomatch hout), hmoney.2⟩
  | cons txout rest ih =>
    rw [checkOutputValues_cons, forall_mem_cons, map_cons, sum_cons]
    split_ifs with hneg hlarge htotal
    · rw [Int64.lt_iff_toInt_lt, Int64.toInt_zero] at hneg
      exact iff_of_false (fun h => nomatch h) (fun h => by omega)
    · rw [gt_iff_lt, Int64.lt_iff_toInt_lt] at hlarge
      exact iff_of_false (fun h => nomatch h) (fun h => by omega)
    · -- the later values are not negative, so the sum cannot come back
      have hvalue := money_of_not_lt hneg hlarge
      have hsum := (toInt_add_of_money hmoney hvalue).1
      rw [Bool.not_eq_true', Bool.eq_false_iff, ne_eq, moneyRange_iff, hsum] at htotal
      refine iff_of_false (fun h => nomatch h) ?_
      rintro ⟨⟨-, hrest⟩, hle⟩
      have hnonneg : 0 ≤ (rest.map fun out => out.nValue.toInt).sum := by
        apply sum_nonneg
        intro value hmem
        obtain ⟨out, hout, rfl⟩ := mem_map.mp hmem
        exact (hrest out hout).1
      omega
    · have hvalue := money_of_not_lt hneg hlarge
      have hsum := (toInt_add_of_money hmoney hvalue).1
      rw [Bool.not_eq_true', Bool.not_eq_false, moneyRange_iff] at htotal
      rw [ih htotal, hsum, and_assoc, Int.add_assoc]
      exact (and_iff_right hvalue).symm

/-- The loop over the inputs accepts when the outpoints are new and distinct. -/
theorem checkDuplicateInputs_eq_ok_iff (vin : List TxIn) {seen : List OutPoint} :
    checkDuplicateInputs seen vin = .ok () ↔
      (vin.map TxIn.prevout).Nodup ∧ ∀ txin ∈ vin, txin.prevout ∉ seen := by
  induction vin generalizing seen with
  | nil => exact iff_of_true rfl ⟨nodup_nil, fun txin hmem => (nomatch hmem)⟩
  | cons txin rest ih =>
    rw [checkDuplicateInputs, throwIf_bind_eq_ok_iff, ih, map_cons, nodup_cons, forall_mem_cons]
    simp only [mem_map, mem_cons, not_exists, not_and, not_or]
    constructor
    · intro ⟨hnew, hnodup, hrest⟩
      exact ⟨⟨fun other hmem => (hrest other hmem).1, hnodup⟩, hnew,
        fun other hmem => (hrest other hmem).2⟩
    · intro ⟨⟨hfirst, hnodup⟩, hnew, hrest⟩
      exact ⟨hnew, hnodup, fun other hmem => ⟨hfirst other hmem, hrest other hmem⟩⟩

/-- The last check accepts a coinbase with a script of the right length, and a
transaction without a null outpoint. -/
theorem checkPrevouts_eq_ok_iff (tx : Transaction) : checkPrevouts tx = .ok () ↔
      (∃ input, tx.vin = [input] ∧ input.prevout.isNull = true ∧
        2 ≤ input.scriptSig.length ∧ input.scriptSig.length ≤ 100) ∨
      ∀ input ∈ tx.vin, input.prevout.isNull = false := by
  unfold checkPrevouts
  by_cases hcoinbase : tx.isCoinBase = true
  · obtain ⟨input, hvin, hnull⟩ : ∃ input, tx.vin = [input] ∧ input.prevout.isNull = true := by
      unfold Transaction.isCoinBase at hcoinbase
      split at hcoinbase
      · rename_i input hvin
        exact ⟨input, hvin, hcoinbase⟩
      · cases hcoinbase
    have hsize : (tx.vin.head?.map fun input => input.scriptSig.length).getD 0 =
        input.scriptSig.length := by
      rw [hvin]
      rfl
    rw [if_pos hcoinbase]
    dsimp only
    rw [hsize, throwIf_eq_ok_iff, Bool.or_eq_true, decide_eq_true_iff, decide_eq_true_iff]
    constructor
    · intro hlength
      exact Or.inl ⟨input, hvin, hnull, by omega, by omega⟩
    · intro hcases
      rcases hcases with ⟨input', hvin', _, hmin, hmax⟩ | hall
      · obtain rfl := singleton_inj.mp (hvin.symm.trans hvin')
        omega
      · rw [hall input (hvin ▸ mem_singleton_self input)] at hnull
        cases hnull
  · rw [if_neg hcoinbase, throwIf_eq_ok_iff, any_eq_true, not_exists]
    constructor
    · intro hnone
      refine Or.inr fun input hmem => Bool.eq_false_iff.mpr fun hnull => ?_
      exact hnone input ⟨hmem, hnull⟩
    · intro hcases input ⟨hmem, hnull⟩
      rcases hcases with ⟨input', hvin, hnull', _⟩ | hall
      · -- a single null outpoint makes a coinbase
        rw [Transaction.isCoinBase, hvin] at hcoinbase
        exact hcoinbase hnull'
      · rw [hall input hmem] at hnull
        cases hnull

/-! ## The whole check -/

/-- `CheckTransaction` accepts what the specification says. -/
theorem checkTransaction_eq_ok_iff (tx : Transaction) :
    checkTransaction tx = .ok () ↔ ValidTransaction tx := by
  have hzero : 0 ≤ (0 : Int64).toInt ∧ (0 : Int64).toInt ≤ maxMoney.toInt := by decide
  unfold checkTransaction
  dsimp only
  rw [throwIf_bind_eq_ok_iff, throwIf_bind_eq_ok_iff, throwIf_bind_eq_ok_iff,
    Stateful.bind_eq_ok_iff, Stateful.bind_eq_ok_iff, checkOutputValues_eq_ok_iff tx.vout hzero,
    checkDuplicateInputs_eq_ok_iff, List.isEmpty_iff, List.isEmpty_iff, Int64.toInt_zero,
    Int.zero_add]
  constructor
  · rintro ⟨hinputs, houtputs, hsize, ⟨hvalues, htotal⟩, ⟨hdistinct, -⟩, hprevouts⟩
    rw [checkPrevouts_eq_ok_iff] at hprevouts
    refine ⟨hinputs, houtputs, ?_, hvalues, ⟨?_, htotal⟩, hdistinct, hprevouts⟩
    · rw [witnessScaleFactor] at hsize
      omega
    · apply sum_nonneg
      intro value hmem
      obtain ⟨out, hout, rfl⟩ := mem_map.mp hmem
      exact (hvalues out hout).1
  · intro h
    refine ⟨h.inputs, h.outputs, ?_, ⟨h.values, h.total.2⟩,
      ⟨h.distinct, fun _ _ => not_mem_nil⟩, (checkPrevouts_eq_ok_iff tx).mpr h.prevouts⟩
    have hsize := h.size
    rw [witnessScaleFactor]
    omega

/-- A check that rejects for one reason only. -/
def OnlyConsensus (check : Except TxRejection Unit) : Prop :=
  Ensures (fun rejection => rejection.result = .txConsensus) (fun _ => True) check

theorem checkOutputValues_onlyConsensus (vout : List TxOut) (nValueOut : Int64) :
    OnlyConsensus (checkOutputValues nValueOut vout) := by
  induction vout generalizing nValueOut with
  | nil => exact True.intro
  | cons txout rest ih =>
    rw [checkOutputValues_cons]
    split_ifs
    · rfl
    · rfl
    · rfl
    · exact ih _

theorem checkDuplicateInputs_onlyConsensus (vin : List TxIn) (seen : List OutPoint) :
    OnlyConsensus (checkDuplicateInputs seen vin) := by
  induction vin generalizing seen with
  | nil => exact True.intro
  | cons txin rest ih =>
    rw [checkDuplicateInputs]
    exact .throwIf_bind rfl fun _ => ih _

theorem checkPrevouts_onlyConsensus (tx : Transaction) : OnlyConsensus (checkPrevouts tx) := by
  unfold checkPrevouts
  dsimp only
  split_ifs
  · rfl
  · exact True.intro
  · rfl
  · exact True.intro

/-- Every rejection of `CheckTransaction` has the same reason. -/
theorem checkTransaction_onlyConsensus (tx : Transaction) :
    OnlyConsensus (checkTransaction tx) := by
  unfold checkTransaction
  refine .throwIf_bind rfl fun _ => .throwIf_bind rfl fun _ => .throwIf_bind rfl fun _ => ?_
  refine .bind (checkOutputValues_onlyConsensus tx.vout 0) fun _ _ => ?_
  refine .bind (checkDuplicateInputs_onlyConsensus tx.vin []) fun _ _ => ?_
  exact checkPrevouts_onlyConsensus tx

/-! ## The verdict -/

/-- The verdict says whether the specification holds. -/
theorem Transaction.check_eq (tx : Transaction) [Decidable (ValidTransaction tx)] :
    tx.check = if ValidTransaction tx then .valid else .invalid .txConsensus := by
  have hok := checkTransaction_eq_ok_iff tx
  have hreason := checkTransaction_onlyConsensus tx
  unfold Transaction.check btckTransactionCheck
  cases hcheck : checkTransaction tx with
  | ok _ =>
    rw [if_pos (hok.mp hcheck)]
    rfl
  | error rejection =>
    have hinvalid : ¬ValidTransaction tx := by
      intro hvalid
      rw [hok.mpr hvalid] at hcheck
      cases hcheck
    have hresult : rejection.result = .txConsensus := hreason.of_eq_error hcheck
    rw [if_neg hinvalid, ← hresult]
    rfl

/-- A transaction without its witnesses. -/
def Transaction.withoutWitnesses (tx : Transaction) : Transaction :=
  { tx with vin := tx.vin.map withoutWitness }

/-- The specification does not read the witnesses. -/
theorem validTransaction_withoutWitnesses (tx : Transaction) :
    ValidTransaction tx.withoutWitnesses ↔ ValidTransaction tx := by
  have hwrite : writeTransaction false tx.withoutWitnesses = writeTransaction false tx := by
    show _ ++ writeVector writeTxIn (tx.vin.map withoutWitness) ++ _ ++ _ ++ _ = _
    rw [writeVector_map_withoutWitness]
    rfl
  have hprevouts : (tx.vin.map withoutWitness).map TxIn.prevout = tx.vin.map TxIn.prevout := by
    rw [map_map]
    rfl
  have hsingle : (∃ input, tx.vin.map withoutWitness = [input] ∧ input.prevout.isNull = true ∧
        2 ≤ input.scriptSig.length ∧ input.scriptSig.length ≤ 100) ↔
      ∃ input, tx.vin = [input] ∧ input.prevout.isNull = true ∧
        2 ≤ input.scriptSig.length ∧ input.scriptSig.length ≤ 100 := by
    constructor
    · intro ⟨input, hvin, hrest⟩
      obtain ⟨input', hvin', rfl⟩ := map_eq_singleton_iff.mp hvin
      exact ⟨input', hvin', hrest⟩
    · intro ⟨input, hvin, hrest⟩
      exact ⟨withoutWitness input, by rw [hvin]; rfl, hrest⟩
  have hall : (∀ input ∈ tx.vin.map withoutWitness, input.prevout.isNull = false) ↔
      ∀ input ∈ tx.vin, input.prevout.isNull = false := forall_mem_map
  constructor
  · intro h
    refine ⟨?_, h.outputs, ?_, h.values, h.total, ?_, ?_⟩
    · exact fun hnil => h.inputs (map_eq_nil_iff.mpr hnil)
    · exact hwrite ▸ h.size
    · exact hprevouts ▸ h.distinct
    · exact h.prevouts.imp hsingle.mp hall.mp
  · intro h
    refine ⟨?_, h.outputs, ?_, h.values, h.total, ?_, ?_⟩
    · exact fun hnil => h.inputs (map_eq_nil_iff.mp hnil)
    · exact hwrite.symm ▸ h.size
    · exact hprevouts.symm ▸ h.distinct
    · exact h.prevouts.imp hsingle.mpr hall.mpr

/-- `Transaction::check` accepts exactly the transactions that satisfy the
specification, and rejects all others for the one reason `Consensus`.  No
addition on the way leaves the 64 bits.  Two transactions that differ in their
witnesses alone get the same verdict. -/
theorem transaction_check_exact (tx : Transaction) : (tx.check = .valid ↔ ValidTransaction tx) ∧
      (tx.check = .invalid .txConsensus ↔ ¬ValidTransaction tx) ∧
      (∀ result, tx.check = .invalid result → result = .txConsensus) ∧
      checkOutputValuesTrapping 0 tx.vout = some (checkOutputValues 0 tx.vout) ∧
      ∀ tx' : Transaction, tx'.withoutWitnesses = tx.withoutWitnesses → tx'.check = tx.check := by
  classical
  have hzero : 0 ≤ (0 : Int64).toInt ∧ (0 : Int64).toInt ≤ maxMoney.toInt := by decide
  refine ⟨?_, ?_, ?_, checkOutputValuesTrapping_eq tx.vout hzero, ?_⟩
  · rw [Transaction.check_eq]
    split_ifs with hvalid
    · exact iff_of_true rfl hvalid
    · exact iff_of_false (fun h => nomatch h) hvalid
  · rw [Transaction.check_eq]
    split_ifs with hvalid
    · exact iff_of_false (fun h => nomatch h) (fun h => h hvalid)
    · exact iff_of_true rfl hvalid
  · intro result hresult
    rw [Transaction.check_eq] at hresult
    split_ifs at hresult with hvalid
    exact (TxCheckResult.invalid.inj hresult).symm
  · intro tx' hsame
    have hvalid : ValidTransaction tx' ↔ ValidTransaction tx := by
      rw [← validTransaction_withoutWitnesses tx', hsame, validTransaction_withoutWitnesses]
    rw [Transaction.check_eq, Transaction.check_eq]
    exact if_congr hvalid rfl rfl

end BitcoinKernel
