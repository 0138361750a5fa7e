import BitcoinKernel.Lib.Outcome
import BitcoinKernel.Script.VerifyScript

/-!
# No assertion of the interpreter fails

`VerifyScript` has some ten assertions on its way, and vectors that it reads
without a check.  This module shows that with flags that may be combined, and a
checker that does not fault itself, none of the assertions fails and nothing is
read beyond its end (`verifyScript_safe`): a verification ends with a result or
with a script error.

What carries the proof through a run is that the execution data of a tapscript
stays initialized (`ExecData.Ready`).  The other assertions hold for local
reasons: script numbers have four bytes, the conditional stack is checked before
it is used, and a pay-to-script-hash script fails on an empty stack.
-/

namespace BitcoinKernel.Interpreter

open Outcome

/-- An error that is reported, not a fault. -/
def Halt.IsScriptError : Halt → Prop
  | .scriptError _ => True
  | .fault _ => False

/-- A computation without faults, whose value satisfies `P`. -/
abbrev Safe {α : Type} (P : α → Prop) (x : Eval α) : Prop := Ensures Halt.IsScriptError P x

theorem fail_safe {α : Type} {P : α → Prop} (error : ScriptError) : Safe P (fail error) := trivial

theorem failIf_safe (condition : Bool) (error : ScriptError) :
    Safe (fun _ => True) (failIf condition error) := by
  cases condition <;> trivial

theorem assertThat_safe {condition : Bool} (h : condition = true) :
    Safe (fun _ => True) (assertThat condition) := by
  rw [h]
  exact .ok trivial

/-- A check, and then the rest. -/
theorem failIf_bind_safe {α : Type} {P : α → Prop} {condition : Bool} {error : ScriptError}
    {next : Unit → Eval α} (h : condition = false → Safe P (next ())) :
    Safe P (failIf condition error >>= next) := by
  cases condition with
  | true => exact fail_safe error
  | false => exact h rfl

/-! ## Execution data and checkers -/

/-- What is initialized when the execution of a leaf script starts. -/
structure ExecData.LeafReady (execdata : ExecData) : Prop where
  annexHash : execdata.annexHash.isSome = true
  tapleafHash : execdata.tapleafHash.isSome = true
  validationWeightLeft : execdata.validationWeightLeft.isSome = true

/-- What is initialized while a leaf script is executed. -/
structure ExecData.Ready (execdata : ExecData) : Prop extends execdata.LeafReady where
  codeseparatorPos : execdata.codeseparatorPos.isSome = true

/-- A checker that does not fault on the data that the interpreter gives it, and
that keeps the data initialized. -/
structure SignatureChecker.IsSafe (checker : SignatureChecker) : Prop where
  ecdsa : ∀ vchSig vchPubKey scriptCode sigversion cache, Safe (fun _ => True)
      (checker.checkECDSASignature vchSig vchPubKey scriptCode sigversion cache)
  keyPath : ∀ sig pubkey execdata, pubkey.length = 32 → execdata.annexHash.isSome = true →
    Safe (fun _ => True) (checker.checkSchnorrSignature sig pubkey .taproot execdata)
  tapscript : ∀ sig pubkey execdata, pubkey.length = 32 → execdata.Ready →
    Safe ExecData.Ready (checker.checkSchnorrSignature sig pubkey .tapscript execdata)

/-- The invariant of an evaluation. -/
def EvalState.Inv (sigversion : SigVersion) (st : EvalState) : Prop :=
  sigversion = .tapscript → st.execdata.Ready

section Evaluation

variable {env : EvalEnv}

/-! ## Signature checks -/

theorem checkSignatureEncoding_safe (crypto : Crypto) (flags : VerifyFlags) (vchSig : Val) :
    Safe (fun _ => True) (checkSignatureEncoding crypto flags vchSig) := by
  rw [checkSignatureEncoding]
  split
  · exact .ok trivial
  split
  · exact fail_safe _
  · have hlow : Safe (fun _ => True)
        (if flags.has .lowS then isLowDERSignature crypto vchSig else .ok ()) := by
      split
      · exact failIf_bind_safe fun _ => failIf_safe _ _
      · exact .ok trivial
    exact .bind hlow fun _ _ => failIf_safe _ _

theorem checkPubKeyEncoding_safe (flags : VerifyFlags) (sigversion : SigVersion) (vchPubKey : Val)
    : Safe (fun _ => True) (checkPubKeyEncoding flags sigversion vchPubKey) :=
  failIf_bind_safe fun _ => failIf_safe _ _

variable {st : EvalState} {execdata : ExecData} {n : Int} {opcode : Opcode} {f : Int → Eval Int}
  {c : ConditionStack}

theorem evalChecksigPreTapscript_safe (hc : env.checker.IsSafe)
    (hversion : env.sigversion.isPreTapscript = true) (vchSig vchPubKey : Val)
    (hst : st.Inv env.sigversion) :
    Safe (fun r => r.2.Inv env.sigversion)
      (evalChecksigPreTapscript env vchSig vchPubKey st) := by
  refine .bind (assertThat_safe hversion) fun _ _ => ?_
  refine failIf_bind_safe fun _ => ?_
  refine .bind (checkSignatureEncoding_safe _ _ _) fun _ _ => ?_
  refine .bind (checkPubKeyEncoding_safe _ _ _) fun _ _ => ?_
  refine .bind (hc.ecdsa _ _ _ _ _) fun _ _ => ?_
  exact failIf_bind_safe fun _ => .ok hst

theorem payValidationWeight_safe (sig : Val) (h : execdata.Ready) :
    Safe ExecData.Ready (payValidationWeight sig execdata) := by
  rw [payValidationWeight]
  split
  · exact .ok h
  · obtain ⟨weight, hweight⟩ := Option.isSome_iff_exists.mp h.validationWeightLeft
    rw [hweight]
    exact failIf_bind_safe fun _ => .ok { h with validationWeightLeft := rfl }

theorem checkTapscriptKey_safe (hc : env.checker.IsSafe) (hversion : env.sigversion = .tapscript)
    (success : Bool) (sig pubkey : Val) (h : execdata.Ready) :
    Safe ExecData.Ready (checkTapscriptKey env success sig pubkey execdata) := by
  rw [checkTapscriptKey]
  split
  · next hsize =>
      split
      · rw [hversion]
        exact hc.tapscript sig pubkey execdata hsize h
      · exact .ok h
  · exact failIf_bind_safe fun _ => .ok h

theorem evalChecksigTapscript_safe (hc : env.checker.IsSafe)
    (hversion : env.sigversion = .tapscript) (sig pubkey : Val) (hst : st.Inv env.sigversion) :
    Safe (fun r => r.2.Inv env.sigversion) (evalChecksigTapscript env sig pubkey st) := by
  refine .bind (assertThat_safe (by simp [hversion])) fun _ _ => ?_
  refine .bind (payValidationWeight_safe sig (hst hversion)) fun _ hpaid => ?_
  refine failIf_bind_safe fun _ => ?_
  refine .bind (checkTapscriptKey_safe hc hversion _ sig pubkey hpaid) fun _ hchecked => ?_
  exact .ok fun _ => hchecked

theorem evalChecksig_safe (hc : env.checker.IsSafe) (hversion : env.sigversion ≠ .taproot)
    (sig pubkey : Val) (hst : st.Inv env.sigversion) :
    Safe (fun r => r.2.Inv env.sigversion) (evalChecksig env sig pubkey st) := by
  rw [evalChecksig]
  split
  · next h => exact evalChecksigPreTapscript_safe hc (by rw [h]; rfl) sig pubkey hst
  · next h => exact evalChecksigPreTapscript_safe hc (by rw [h]; rfl) sig pubkey hst
  · next h => exact evalChecksigTapscript_safe hc h sig pubkey hst
  · next h => exact absurd h hversion

/-! ## Multisig -/

theorem scriptNum_safe (env : EvalEnv) (vch : Val) :
    Safe (fun n => n.natAbs < 2 ^ 32) (scriptNum env vch) := by
  rw [scriptNum]
  split
  · next n hn => exact .ok (ScriptNum.natAbs_ofVch_lt hn)
  · exact fail_safe _

theorem dropSignatures_safe (env : EvalEnv) (sigs : List Val) (scriptCode : Script) :
    Safe (fun _ => True) (dropSignatures env sigs scriptCode) := by
  induction sigs generalizing scriptCode with
  | nil => exact .ok trivial
  | cons vchSig rest ih =>
    rw [dropSignatures]
    split
    · exact failIf_bind_safe fun _ => ih _
    · exact ih _

theorem checkMultisigLoop_safe (hc : env.checker.IsSafe) (scriptCode : Script)
    (keys sigs : List Val) (cache : SigHashCache) :
    Safe (fun _ => True) (checkMultisigLoop env scriptCode keys sigs cache) := by
  induction keys generalizing sigs cache with
  | nil => cases sigs <;> exact .ok trivial
  | cons vchPubKey keys ih =>
    cases sigs with
    | nil => exact .ok trivial
    | cons vchSig sigs =>
      refine .bind (checkSignatureEncoding_safe _ _ _) fun _ _ => ?_
      refine .bind (checkPubKeyEncoding_safe _ _ _) fun _ _ => ?_
      refine .bind (hc.ecdsa _ _ _ _ _) fun ⟨fOk, cache⟩ _ => ?_
      dsimp only
      generalize (if fOk then sigs else vchSig :: sigs) = left
      split
      · exact .ok trivial
      · exact ih _ _

theorem finishMultisig_safe (env : EvalEnv) (fSuccess : Bool) (sigs rest : List Val) :
    Safe (fun _ => True) (finishMultisig env fSuccess sigs rest) := by
  cases rest with
  | nil => exact fail_safe _
  | cons dummy stack => exact failIf_bind_safe fun _ => failIf_bind_safe fun _ => .ok trivial

theorem checkMultisigWith_safe (hc : env.checker.IsSafe) (nKeysCount : Nat) (stack : List Val)
    (hst : st.Inv env.sigversion) :
    Safe (fun r => r.2.Inv env.sigversion) (checkMultisigWith env nKeysCount stack st) := by
  rw [checkMultisigWith]
  split
  · exact fail_safe _
  · refine .bind (scriptNum_safe env _) fun _ _ => ?_
    refine failIf_bind_safe fun _ => failIf_bind_safe fun _ => ?_
    refine .bind (dropSignatures_safe env _ _) fun _ _ => ?_
    refine .bind (checkMultisigLoop_safe hc _ _ _ _) fun _ _ => ?_
    exact .bind (finishMultisig_safe env _ _ _) fun _ _ => .ok hst

theorem evalCheckmultisig_safe (hc : env.checker.IsSafe) (hst : st.Inv env.sigversion) :
    Safe (fun r => r.2.Inv env.sigversion) (evalCheckmultisig env st) := by
  refine failIf_bind_safe fun _ => ?_
  split
  · exact fail_safe _
  · refine .bind (scriptNum_safe env _) fun _ _ => ?_
    exact failIf_bind_safe fun _ => failIf_bind_safe fun _ => checkMultisigWith_safe hc _ _ hst

/-! ## Opcodes -/

/-- The assertions of the arithmetic hold, because the operand has four bytes. -/
theorem checkedInt64_safe (h : n.natAbs ≤ 2 ^ 32) : Safe (fun _ => True) (checkedInt64 n) := by
  refine .bind (assertThat_safe ?_) fun _ _ => .ok trivial
  rw [Bool.and_eq_true, decide_eq_true_iff, decide_eq_true_iff]
  omega

theorem unaryOp_safe (h : unaryOp opcode = some f) (hn : n.natAbs < 2 ^ 32) :
    Safe (fun _ => True) (f n) := by
  cases opcode <;> cases h
  case opAbs =>
    dsimp only
    split
    · exact checkedInt64_safe (by omega)
    · exact .ok trivial
  all_goals first
    | exact .ok trivial
    | exact checkedInt64_safe (by omega)

theorem evalUnary_safe (h : unaryOp opcode = some f) (stack : List Val) :
    Safe (fun _ => True) (evalUnary env f stack) := by
  match stack with
  | [] => exact fail_safe _
  | vch :: _ =>
    refine .bind (scriptNum_safe env vch) fun _ hn => ?_
    exact .bind (unaryOp_safe h hn) fun _ _ => .ok trivial

theorem evalBinary_safe (env : EvalEnv) (f : Int → Int → Int) (stack : List Val) :
    Safe (fun _ => True) (evalBinary env f stack) := by
  match stack with
  | [] | [_] => exact fail_safe _
  | _ :: _ :: _ =>
    refine .bind (scriptNum_safe env _) fun _ _ => ?_
    exact .bind (scriptNum_safe env _) fun _ _ => .ok trivial

theorem evalWithin_safe (env : EvalEnv) (stack : List Val) :
    Safe (fun _ => True) (evalWithin env stack) := by
  match stack with
  | [] | [_] | [_, _] => exact fail_safe _
  | _ :: _ :: _ :: _ =>
    refine .bind (scriptNum_safe env _) fun _ _ => .bind (scriptNum_safe env _) fun _ _ => ?_
    exact .bind (scriptNum_safe env _) fun _ _ => .ok trivial

theorem evalPick_safe (env : EvalEnv) (roll : Bool) (stack : List Val) :
    Safe (fun _ => True) (evalPick env roll stack) := by
  match stack with
  | [] | [_] => exact fail_safe _
  | _ :: _ :: _ =>
    exact .bind (scriptNum_safe env _) fun _ _ => failIf_bind_safe fun _ => .ok trivial

theorem verifyTop_safe (error : ScriptError) (stack : List Val) :
    Safe (fun _ => True) (verifyTop error stack) := by
  cases stack with
  | nil => exact fail_safe _
  | cons vch stack =>
    rw [verifyTop]
    split
    · exact .ok trivial
    · exact fail_safe _

theorem lockTimeOperand_safe (env : EvalEnv) (stack : List Val) :
    Safe (fun _ => True) (lockTimeOperand env stack) := by
  cases stack with
  | nil => exact fail_safe _
  | cons vch stack =>
    rw [lockTimeOperand]
    split
    · exact fail_safe _
    · exact failIf_bind_safe fun _ => .ok trivial

theorem evalCheckLockTime_safe (env : EvalEnv) (stack : List Val) :
    Safe (fun _ => True) (evalCheckLockTime env stack) := by
  rw [evalCheckLockTime]
  split
  · exact .bind (lockTimeOperand_safe env stack) fun _ _ => failIf_safe _ _
  · exact .ok trivial

theorem evalCheckSequence_safe (env : EvalEnv) (stack : List Val) :
    Safe (fun _ => True) (evalCheckSequence env stack) := by
  rw [evalCheckSequence]
  split
  · exact .bind (lockTimeOperand_safe env stack) fun _ _ => failIf_safe _ _
  · exact .ok trivial

theorem evalIf_safe (fExec negate : Bool) (hst : st.Inv env.sigversion) :
    Safe (EvalState.Inv env.sigversion) (evalIf env fExec negate st) := by
  have hcondition : Safe (fun _ => True)
      (if fExec then evalCondition env negate st.stack else .ok (false, st.stack)) := by
    split
    · cases st.stack with
      | nil => exact fail_safe _
      | cons vch stack => exact failIf_bind_safe fun _ => failIf_bind_safe fun _ => .ok trivial
    · exact .ok trivial
  exact .bind hcondition fun _ _ => .ok hst

/-- The conditional stack is not empty when its top is toggled. -/
theorem ConditionStack.toggleTop_safe (h : c.empty = false) : Safe (fun _ => True) c.toggleTop := by
  refine .bind (assertThat_safe ?_) fun _ _ => ?_
  · simpa [ConditionStack.empty, Nat.pos_iff_ne_zero] using h
  · split <;> exact .ok trivial

theorem ConditionStack.popBack_safe (h : c.empty = false) : Safe (fun _ => True) c.popBack := by
  refine .bind (assertThat_safe ?_) fun _ _ => .ok trivial
  simpa [ConditionStack.empty, Nat.pos_iff_ne_zero] using h

theorem evalChecksigOp_safe (hc : env.checker.IsSafe) (hversion : env.sigversion ≠ .taproot)
    (hst : st.Inv env.sigversion) :
    Safe (fun r => r.2.Inv env.sigversion) (evalChecksigOp env st) := by
  rw [evalChecksigOp]
  split
  · exact .bind (evalChecksig_safe hc hversion _ _ hst) fun _ h => .ok h
  · exact fail_safe _

theorem evalChecksigadd_safe (hc : env.checker.IsSafe) (hversion : env.sigversion ≠ .taproot)
    (hst : st.Inv env.sigversion) :
    Safe (EvalState.Inv env.sigversion) (evalChecksigadd env st) := by
  refine failIf_bind_safe fun _ => ?_
  split
  · refine .bind (scriptNum_safe env _) fun _ _ => ?_
    exact .bind (evalChecksig_safe hc hversion _ _ hst) fun _ h => .ok h
  · exact fail_safe _

theorem pushResult_safe (verify : Option ScriptError) {sigversion : SigVersion}
    {result : Bool × EvalState} (h : result.2.Inv sigversion) :
    Safe (EvalState.Inv sigversion) (pushResult verify result) := by
  cases verify with
  | none => exact .ok h
  | some error => exact failIf_bind_safe fun _ => .ok h

section

variable (hc : env.checker.IsSafe)

include hc

section

variable (hversion : env.sigversion ≠ .taproot)

include hversion

theorem controlOp_safe (fExec : Bool) (rest : Script) (opcode : Opcode)
    (hst : st.Inv env.sigversion) :
    Safe (EvalState.Inv env.sigversion) (controlOp env fExec rest opcode st) := by
  cases opcode with
  | opChecklocktimeverify => exact .bind (evalCheckLockTime_safe env _) fun _ _ => .ok hst
  | opChecksequenceverify => exact .bind (evalCheckSequence_safe env _) fun _ _ => .ok hst
  | opNop1 | opNop4 | opNop5 | opNop6 | opNop7 | opNop8 | opNop9 | opNop10 =>
    exact failIf_bind_safe fun _ => .ok hst
  | opIf | opNotif => exact evalIf_safe _ _ hst
  | opElse =>
    exact failIf_bind_safe fun h => .bind (ConditionStack.toggleTop_safe h) fun _ _ => .ok hst
  | opEndif =>
    exact failIf_bind_safe fun h => .bind (ConditionStack.popBack_safe h) fun _ _ => .ok hst
  | opVerify => exact .bind (verifyTop_safe _ _) fun _ _ => .ok hst
  | opToaltstack =>
    rw [controlOp]
    split
    · exact fail_safe _
    · exact .ok hst
  | opFromaltstack =>
    rw [controlOp]
    split
    · exact fail_safe _
    · exact .ok hst
  | opPick | opRoll => exact .bind (evalPick_safe env _ _) fun _ _ => .ok hst
  | opEqualverify =>
    rw [controlOp]
    split
    · exact .bind (verifyTop_safe _ _) fun _ _ => .ok hst
    · exact fail_safe _
  | opWithin => exact .bind (evalWithin_safe env _) fun _ _ => .ok hst
  | opCodeseparator => exact .ok fun h => { hst h with codeseparatorPos := rfl }
  | opChecksig | opChecksigverify =>
    exact .bind (evalChecksigOp_safe hc hversion hst) fun _ => pushResult_safe _
  | opChecksigadd => exact evalChecksigadd_safe hc hversion hst
  | opCheckmultisig | opCheckmultisigverify =>
    exact .bind (evalCheckmultisig_safe hc hst) fun _ => pushResult_safe _
  | _ => exact fail_safe _

theorem evalOpcode_safe (fExec : Bool) (rest : Script) (opcode : Opcode)
    (hst : st.Inv env.sigversion) :
    Safe (EvalState.Inv env.sigversion) (evalOpcode env fExec rest opcode st) := by
  rw [evalOpcode]
  split
  · split
    · exact fail_safe _
    · exact .ok hst
  · next hunary => exact .bind (evalUnary_safe hunary _) fun _ _ => .ok hst
  · refine .bind (evalBinary_safe env _ _) fun _ _ => ?_
    split
    · exact .bind (verifyTop_safe _ _) fun _ _ => .ok hst
    · exact .ok hst
  · exact controlOp_safe hc hversion _ _ _ hst

/-! ## Scripts -/

theorem evalInstruction_safe (i : Instruction) (hst : st.Inv env.sigversion) :
    Safe (EvalState.Inv env.sigversion) (evalInstruction env i st) := by
  rw [evalInstruction]
  split
  · exact failIf_bind_safe fun _ => .ok hst
  split
  · split
    · exact fail_safe _
    · exact evalOpcode_safe hc hversion _ _ _ hst
  · exact .ok hst

/-- One iteration of the loop keeps the invariant. -/
theorem evalStep_safe (st : EvalState) (i : Instruction) (hst : st.Inv env.sigversion) :
    Safe (EvalState.Inv env.sigversion) (evalStep env st i) := by
  refine failIf_bind_safe fun _ => failIf_bind_safe fun _ => failIf_bind_safe fun _ => ?_
  refine failIf_bind_safe fun _ => ?_
  refine .bind (evalInstruction_safe hc hversion i ?_) fun _ h => ?_
  · exact hst
  · exact failIf_bind_safe fun _ => .ok h

/-- The whole loop. -/
theorem evalScript_safe (stack : List Val) (script : Script)
    (h : env.sigversion = .tapscript → execdata.LeafReady)
    (cache : SigHashCache) : Safe (fun _ => True) (evalScript env stack script execdata cache) := by
  refine .bind (assertThat_safe (by simpa using hversion)) fun _ _ => ?_
  refine failIf_bind_safe fun _ => ?_
  refine .bind (.foldlM (evalStep_safe hc hversion) _ ?_) fun _ _ => ?_
  · exact fun htapscript => { h htapscript with codeseparatorPos := rfl }
  · exact failIf_bind_safe fun _ => failIf_bind_safe fun _ => .ok trivial

end

end

/-! ## Pay-to-script-hash on an empty stack -/

/-- `OP_HASH160` fails on an empty stack. -/
theorem evalStep_hash160_nil (env : EvalEnv) {i : Instruction} (hstack : st.stack = [])
    (hexec : st.vfExec.allTrue = true) (hop : i.opcode = Opcode.opHash160.code) :
    Ensures (fun _ => True) (fun _ => False) (evalStep env st i) := by
  refine .bind (.trivial _) fun _ _ => .bind (.trivial _) fun _ _ => ?_
  refine .bind (.trivial _) fun _ _ => .bind (.trivial _) fun _ _ => ?_
  refine .bind (P := fun _ => False) ?_ fun _ h => h.elim
  have hpush : ¬Opcode.opHash160.code ≤ Opcode.opPushdata4.code := by decide
  simp only [evalInstruction, hexec, hop, hpush, decide_false, Bool.and_false, Bool.true_or,
    Opcode.ofCode_code, if_true, evalOpcode, stackOp, hstack]
  trivial

/-- A pay-to-script-hash script fails on an empty stack. -/
theorem evalScript_payToScriptHash_nil (env : EvalEnv) {script : Script}
    (h : script.isPayToScriptHash = true) (execdata : ExecData) (cache : SigHashCache) :
    Ensures (fun _ => True) (fun _ => False) (evalScript env [] script execdata cache) := by
  obtain ⟨rest, rfl⟩ : ∃ rest : Script, script = Opcode.opHash160.code :: rest := by
    cases script with
    | nil => cases h
    | cons opcode rest =>
      simp only [Script.isPayToScriptHash, Bool.and_eq_true, beq_iff_eq] at h
      exact ⟨rest, by rw [← Option.some.inj h.1.1.2]⟩
  have hinstructions : (Script.instructions (Opcode.opHash160.code :: rest)).1 =
      ⟨Opcode.opHash160.code, [], rest⟩ :: rest.instructions.1 := by
    rw [Script.instructions_eq]
    rfl
  refine .bind (.trivial _) fun _ _ => .bind (.trivial _) fun _ _ => ?_
  rw [hinstructions]
  refine .bind (P := fun _ => False) ?_ fun _ h => h.elim
  exact .bind (evalStep_hash160_nil env rfl rfl rfl) fun _ h => h.elim

end Evaluation

section Verification

variable {env : VerifyEnv}

/-! ## Witness programs -/

section

variable (hc : env.checker.IsSafe) (stack : List Val) (execScript : Script)
  (sigversion : SigVersion) (hversion : sigversion ≠ .taproot) (execdata : ExecData)
  (h : sigversion = .tapscript → execdata.LeafReady) (cache : SigHashCache)

include hc hversion h

theorem runWitnessScript_safe :
    Safe (fun _ => True) (runWitnessScript env stack execScript sigversion execdata cache) := by
  refine failIf_bind_safe fun _ => ?_
  refine .bind (evalScript_safe hc hversion _ _ h _) fun _ _ => ?_
  split
  · exact failIf_safe _ _
  · exact fail_safe _

theorem executeWitnessScript_safe :
    Safe (fun _ => True) (executeWitnessScript env stack execScript sigversion execdata cache) := by
  rw [executeWitnessScript]
  split
  · split
    · exact fail_safe _
    · exact failIf_safe _ _
    · exact failIf_bind_safe fun _ => runWitnessScript_safe hc _ _ _ hversion _ h _
  · exact runWitnessScript_safe hc _ _ _ hversion _ h _

end

theorem verifyTaprootCommitment_safe (crypto : Crypto) {control program : Val}
    (hcontrol : isControlSize control.length = true) (hprogram : program.length = 32)
    (tapleafHash : Uint256) :
    Safe (fun _ => True) (verifyTaprootCommitment crypto control program tapleafHash) := by
  have hbase : taprootControlBaseSize ≤ control.length := by
    simp only [isControlSize, Bool.and_eq_true, decide_eq_true_iff] at hcontrol
    exact hcontrol.1.1
  refine .bind (assertThat_safe (decide_eq_true hbase)) fun _ _ => ?_
  refine .bind (assertThat_safe (by rw [hprogram]; rfl)) fun _ _ => ?_
  refine .bind (P := fun _ => True) ?_ fun _ _ => .ok trivial
  exact .bind (assertThat_safe hcontrol) fun _ _ => .ok trivial

theorem verifyTaprootScriptPath_safe (hc : env.checker.IsSafe) (witness : List Val) (control : Val)
    (script : Script) (stack : List Val) {program : Val} (hprogram : program.length = 32)
    {execdata : ExecData} (hannex : execdata.annexHash.isSome = true) (cache : SigHashCache) :
    Safe (fun _ => True)
      (verifyTaprootScriptPath env witness control script stack program execdata cache) := by
  refine failIf_bind_safe fun hcontrol => ?_
  have hcontrol : isControlSize control.length = true := by simpa using hcontrol
  refine .bind (verifyTaprootCommitment_safe _ hcontrol hprogram _) fun _ _ => ?_
  refine failIf_bind_safe fun _ => ?_
  dsimp only
  split
  · refine executeWitnessScript_safe hc _ _ _ (by decide) _ ?_ _
    exact fun _ => ⟨hannex, rfl, rfl⟩
  · exact failIf_safe _ _

/-- Something is left of a witness without its annex. -/
theorem splitAnnex_ne_nil {stack : List Val} (h : stack ≠ []) : (splitAnnex stack).2 ≠ [] := by
  match stack with
  | [_] => exact List.cons_ne_nil _ _
  | _ :: _ :: _ =>
    rw [splitAnnex]
    split <;> exact List.cons_ne_nil _ _

section

variable (hc : env.checker.IsSafe)

include hc

theorem verifyTaproot_safe (witness : List Val) {program : Val} (hprogram : program.length = 32)
    (cache : SigHashCache) :
    Safe (fun _ => True) (verifyTaproot env witness program cache) := by
  refine failIf_bind_safe fun hempty => ?_
  have hne : witness.reverse ≠ [] := by simpa using hempty
  have hrest := splitAnnex_ne_nil hne
  generalize splitAnnex witness.reverse = parts at hrest ⊢
  obtain ⟨annex, stack⟩ := parts
  match stack with
  | _ :: _ :: _ => exact verifyTaprootScriptPath_safe hc _ _ _ _ hprogram rfl _
  | [sig] => exact .bind (hc.keyPath _ _ _ hprogram rfl) fun _ _ => .ok trivial
  | [] => exact absurd rfl hrest

theorem verifyWitnessV0_safe (witness : List Val) (program : Val) (cache : SigHashCache)
    : Safe (fun _ => True) (verifyWitnessV0 env witness program cache) := by
  rw [verifyWitnessV0]
  split
  · split
    · exact fail_safe _
    · exact failIf_bind_safe fun _ =>
        executeWitnessScript_safe hc _ _ _ (by decide) _ (by simp) _
  split
  · exact failIf_bind_safe fun _ =>
      executeWitnessScript_safe hc _ _ _ (by decide) _ (by simp) _
  · exact fail_safe _

theorem verifyWitnessProgram_safe (witness : List Val) (witversion : Nat) (program : Val)
    (isP2sh : Bool) (cache : SigHashCache) : Safe (fun _ => True)
      (verifyWitnessProgram env witness witversion program isP2sh cache) := by
  rw [verifyWitnessProgram]
  split
  · exact verifyWitnessV0_safe hc _ _ _
  split
  · next h =>
      split
      · exact verifyTaproot_safe hc _ h.2.1 _
      · exact .ok trivial
  split
  · exact .ok trivial
  · exact failIf_safe _ _

/-! ## `VerifyScript` -/

/-- The evaluation of an output script.  A pay-to-script-hash script that
succeeds had something on its stack. -/
theorem evalToTrue_safe (stack : List Val) (script : Script) (cache : SigHashCache) :
    Safe (fun _ => script.isPayToScriptHash = true → stack ≠ [])
      (evalToTrue env stack script cache) := by
  refine .bind ((evalScript_safe hc (by simp) stack script (by simp) cache).mono
    (Q := fun _ => script.isPayToScriptHash = true → stack ≠ []) ?_) fun st hst => ?_
  · rintro st hst - hscript rfl
    exact (evalScript_payToScriptHash_nil _ hscript _ _).of_eq_ok hst
  · split
    · exact fail_safe _
    · exact failIf_bind_safe fun _ => .ok hst

theorem verifyProgramIn_safe (witness : List Val) (script : Script) (isP2sh scriptSigOk : Bool)
    (malleated : ScriptError) (st : EvalState) : Safe (fun _ => True)
      (verifyProgramIn env witness script isP2sh scriptSigOk malleated st) := by
  rw [verifyProgramIn]
  split
  · exact .ok trivial
  · refine failIf_bind_safe fun _ => ?_
    exact .bind (verifyWitnessProgram_safe hc _ _ _ _ _) fun _ _ => .ok trivial

theorem verifyScriptHash_safe (scriptSig : Script) (witness : List Val) {stackCopy : List Val}
    (hne : stackCopy ≠ []) (cache : SigHashCache) :
    Safe (fun _ => True) (verifyScriptHash env scriptSig witness stackCopy cache) := by
  refine failIf_bind_safe fun _ => ?_
  cases stackCopy with
  | nil => exact absurd rfl hne
  | cons pubKey2 stack =>
    exact .bind (evalToTrue_safe hc _ _ _) fun _ _ => verifyProgramIn_safe hc _ _ _ _ _ _

end

theorem verifyEnd_safe (hvalid : env.flags.isValidCombination = true) (witness : List Val)
    (hadWitness : Bool) (stackSize : Nat) :
    Safe (fun _ => True) (verifyEnd env witness hadWitness stackSize) := by
  have hp2sh := VerifyFlags.has_p2sh_of_witness hvalid
  refine .bind (P := fun _ => True) ?_ fun _ _ => ?_
  · rw [checkCleanstack]
    split
    · next h =>
        have hwitness := VerifyFlags.has_witness_of_cleanstack hvalid h
        refine .bind (assertThat_safe (hp2sh hwitness)) fun _ _ => ?_
        exact .bind (assertThat_safe hwitness) fun _ _ => failIf_safe _ _
    · exact .ok trivial
  · rw [checkUnexpectedWitness]
    split
    · next h => exact .bind (assertThat_safe (hp2sh h)) fun _ _ => failIf_safe _ _
    · exact .ok trivial

/-- `VerifyScript` does not fault, if its checker does not and the flags may be
combined. -/
theorem verifyScript_safe (hc : env.checker.IsSafe) (hvalid : env.flags.isValidCombination = true)
    (scriptSig scriptPubKey : Script) (witness : List Val) :
    Safe (fun _ => True) (verifyScript env scriptSig scriptPubKey witness) := by
  refine failIf_bind_safe fun _ => ?_
  refine .bind (evalScript_safe hc (by simp) _ _ (by simp) _) fun stSig _ => ?_
  refine .bind (evalToTrue_safe hc _ _ _) fun _ hstack => ?_
  refine .bind (verifyProgramIn_safe hc _ _ _ _ _ _) fun _ _ => ?_
  dsimp only
  split
  · next h =>
      rw [Bool.and_eq_true] at h
      refine .bind (verifyScriptHash_safe hc _ _ (hstack h.2) _) fun _ _ => ?_
      exact verifyEnd_safe hvalid _ _ _
  · exact verifyEnd_safe hvalid _ _ _

end Verification

end BitcoinKernel.Interpreter
