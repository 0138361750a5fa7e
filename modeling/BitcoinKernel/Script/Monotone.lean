import BitcoinKernel.Lib.Outcome
import BitcoinKernel.Script.VerifyScript

/-!
# More flags and a stricter checker accept less

Every verification flag only adds ways to fail (`interpreter.h` says that the
flags are soft forks), and a checker that accepts fewer signatures makes more
scripts fail.  Neither changes what a script that succeeds computes.  So if an
evaluation succeeds with some flags and a checker, it gives the same result with
fewer flags and a more lenient checker (`evalScript_refines`).  The proof goes
through the interpreter function by function.

`verifyScript_refines` extends this to `VerifyScript`.  There a flag can switch
off the evaluation of a witness program or of a redeem script, and the rest is
compared.
-/

namespace BitcoinKernel.Interpreter

open Outcome

/-! ## The order of flags and checkers -/

/-- All flags of `flags'` are set in `flags`. -/
def VerifyFlags.Subset (flags' flags : VerifyFlags) : Prop :=
  ∀ name, flags'.has name = true → flags.has name = true

theorem VerifyFlags.Subset.refl (flags : VerifyFlags) : flags.Subset flags := fun _ h => h

theorem VerifyFlags.Subset.and {flags' flags : VerifyFlags} (h : flags'.Subset flags)
    {name : FlagName} {b : Bool} (hb : (flags'.has name && b) = true) :
    (flags.has name && b) = true := by
  rw [Bool.and_eq_true] at hb ⊢
  exact ⟨h name hb.1, hb.2⟩

/-- What `c` accepts in scripts of a version, `c'` accepts with the same result. -/
structure SignatureChecker.Below (sigversion : SigVersion) (c c' : SignatureChecker) : Prop where
  ecdsa : ∀ vchSig vchPubKey scriptCode cache,
    Refines (c.checkECDSASignature vchSig vchPubKey scriptCode sigversion cache)
      (c'.checkECDSASignature vchSig vchPubKey scriptCode sigversion cache)
  schnorr : ∀ sig pubkey execdata, Refines (c.checkSchnorrSignature sig pubkey sigversion execdata)
      (c'.checkSchnorrSignature sig pubkey sigversion execdata)
  lockTime : ∀ n, c.checkLockTime n = true → c'.checkLockTime n = true
  sequence : ∀ n, c.checkSequence n = true → c'.checkSequence n = true

theorem SignatureChecker.Below.refl (sigversion : SigVersion) (c : SignatureChecker) :
    c.Below sigversion c where
  ecdsa _ _ _ _ := .refl _
  schnorr _ _ _ := .refl _
  lockTime _ h := h
  sequence _ h := h

theorem failIf_refines {c c' : Bool} {e e' : ScriptError} (h : c' = true → c = true) :
    Refines (failIf c e) (failIf c' e') := by
  cases c with
  | true => exact .error _ _
  | false =>
    cases c' with
    | false => exact .refl _
    | true => cases h rfl

/-- A check that is switched off accepts everything. -/
theorem refines_ok_unit (x : Eval Unit) : Refines x (.ok ()) := fun _ _ => rfl

section Evaluation

variable {crypto : Crypto} {flags flags' : VerifyFlags} {checker checker' : SignatureChecker}
  {sigversion : SigVersion}

/-! ## Signature checks -/

section

variable (hf : flags'.Subset flags)

include hf

theorem checkSignatureEncoding_refines (vchSig : Val) :
    Refines (checkSignatureEncoding crypto flags vchSig)
      (checkSignatureEncoding crypto flags' vchSig) := by
  rw [checkSignatureEncoding, checkSignatureEncoding]
  split
  · exact .refl _
  split
  · exact .error _ _
  · next hder =>
      have hder' : ¬((flags'.has .dersig || flags'.has .lowS || flags'.has .strictenc) &&
          !isValidSignatureEncoding vchSig) = true := by
        intro h
        refine hder ?_
        simp only [Bool.and_eq_true, Bool.or_eq_true] at h ⊢
        exact ⟨h.1.imp (Or.imp (hf _) (hf _)) (hf _), h.2⟩
      rw [if_neg hder']
      refine .bind ?_ fun _ => failIf_refines hf.and
      cases hlow : flags'.has .lowS with
      | false => exact refines_ok_unit _
      | true => rw [hf _ hlow]; exact .refl _

theorem checkPubKeyEncoding_refines (vchPubKey : Val) :
    Refines (checkPubKeyEncoding flags sigversion vchPubKey)
      (checkPubKeyEncoding flags' sigversion vchPubKey) :=
  .bind (failIf_refines hf.and) fun _ => failIf_refines hf.and

section

variable (hc : checker.Below sigversion checker')

include hc

theorem evalChecksigPreTapscript_refines (vchSig vchPubKey : Val) (st : EvalState) :
    Refines (evalChecksigPreTapscript ⟨crypto, flags, checker, sigversion⟩ vchSig vchPubKey st)
      (evalChecksigPreTapscript ⟨crypto, flags', checker', sigversion⟩ vchSig vchPubKey st) := by
  refine .bind (.refl _) fun _ => ?_
  refine .bind (failIf_refines hf.and) fun _ => ?_
  refine .bind (checkSignatureEncoding_refines hf _) fun _ => ?_
  refine .bind (checkPubKeyEncoding_refines hf _) fun _ => ?_
  refine .bind (hc.ecdsa _ _ _ _) fun _ => ?_
  exact .bind (failIf_refines hf.and) fun _ => .refl _

theorem checkTapscriptKey_refines (success : Bool) (sig pubkey : Val) (execdata : ExecData) :
    Refines (checkTapscriptKey ⟨crypto, flags, checker, sigversion⟩ success sig pubkey execdata)
      (checkTapscriptKey ⟨crypto, flags', checker', sigversion⟩ success sig pubkey execdata) := by
  rw [checkTapscriptKey, checkTapscriptKey]
  split
  · split
    · exact hc.schnorr _ _ _
    · exact .refl _
  · exact .bind (failIf_refines (hf _)) fun _ => .refl _

theorem evalChecksig_refines (sig pubkey : Val) (st : EvalState) :
    Refines (evalChecksig ⟨crypto, flags, checker, sigversion⟩ sig pubkey st)
      (evalChecksig ⟨crypto, flags', checker', sigversion⟩ sig pubkey st) := by
  cases sigversion with
  | base | witnessV0 => exact evalChecksigPreTapscript_refines hf hc sig pubkey st
  | tapscript =>
    refine .bind (.refl _) fun _ => .bind (.refl _) fun _ => .bind (.refl _) fun _ => ?_
    exact .bind (checkTapscriptKey_refines hf hc _ _ _ _) fun _ => .refl _
  | taproot => exact .refl _

end

/-! ## Numbers -/

theorem scriptNum_refines (vch : Val) : Refines (scriptNum ⟨crypto, flags, checker, sigversion⟩ vch)
      (scriptNum ⟨crypto, flags', checker', sigversion⟩ vch) := by
  rw [scriptNum, scriptNum]
  cases hnum : ScriptNum.ofVch (flags.has .minimaldata) ScriptNum.defaultMaxNumSize vch with
  | none => exact .error _ _
  | some n => rw [ScriptNum.ofVch_of_minimal (hf _) hnum]; exact .refl _

theorem lockTimeOperand_refines (stack : List Val) :
    Refines (lockTimeOperand ⟨crypto, flags, checker, sigversion⟩ stack)
      (lockTimeOperand ⟨crypto, flags', checker', sigversion⟩ stack) := by
  cases stack with
  | nil => exact .refl _
  | cons vch stack =>
    rw [lockTimeOperand, lockTimeOperand]
    cases hnum : ScriptNum.ofVch (flags.has .minimaldata) 5 vch with
    | none => exact .error _ _
    | some n => rw [ScriptNum.ofVch_of_minimal (hf _) hnum]; exact .refl _

theorem evalUnary_refines (f : Int → Eval Int) (stack : List Val) :
    Refines (evalUnary ⟨crypto, flags, checker, sigversion⟩ f stack)
      (evalUnary ⟨crypto, flags', checker', sigversion⟩ f stack) := by
  match stack with
  | [] => exact .refl _
  | vch :: _ => exact .bind (scriptNum_refines hf vch) fun _ => .refl _

theorem evalBinary_refines (f : Int → Int → Int) (stack : List Val) :
    Refines (evalBinary ⟨crypto, flags, checker, sigversion⟩ f stack)
      (evalBinary ⟨crypto, flags', checker', sigversion⟩ f stack) := by
  match stack with
  | [] | [_] => exact .refl _
  | _ :: _ :: _ =>
    exact .bind (scriptNum_refines hf _) fun _ => .bind (scriptNum_refines hf _) fun _ => .refl _

theorem evalWithin_refines (stack : List Val) :
    Refines (evalWithin ⟨crypto, flags, checker, sigversion⟩ stack)
      (evalWithin ⟨crypto, flags', checker', sigversion⟩ stack) := by
  match stack with
  | [] | [_] | [_, _] => exact .refl _
  | _ :: _ :: _ :: _ =>
    refine .bind (scriptNum_refines hf _) fun _ => .bind (scriptNum_refines hf _) fun _ => ?_
    exact .bind (scriptNum_refines hf _) fun _ => .refl _

theorem evalPick_refines (roll : Bool) (stack : List Val) :
    Refines (evalPick ⟨crypto, flags, checker, sigversion⟩ roll stack)
      (evalPick ⟨crypto, flags', checker', sigversion⟩ roll stack) := by
  match stack with
  | [] | [_] => exact .refl _
  | _ :: _ :: _ => exact .bind (scriptNum_refines hf _) fun _ => .refl _

/-! ## Multisig -/

theorem dropSignatures_refines (sigs : List Val) (scriptCode : Script) :
    Refines (dropSignatures ⟨crypto, flags, checker, sigversion⟩ sigs scriptCode)
      (dropSignatures ⟨crypto, flags', checker', sigversion⟩ sigs scriptCode) := by
  induction sigs generalizing scriptCode with
  | nil => exact .refl _
  | cons vchSig rest ih =>
    rw [dropSignatures, dropSignatures]
    split
    · exact .bind (failIf_refines hf.and) fun _ => ih _
    · exact ih _

theorem checkMultisigLoop_refines (hc : checker.Below sigversion checker') (scriptCode : Script)
    (keys sigs : List Val) (cache : SigHashCache) :
    Refines (checkMultisigLoop ⟨crypto, flags, checker, sigversion⟩ scriptCode keys sigs cache)
      (checkMultisigLoop ⟨crypto, flags', checker', sigversion⟩ scriptCode keys sigs cache) := by
  induction keys generalizing sigs cache with
  | nil => cases sigs <;> exact .refl _
  | cons vchPubKey keys ih =>
    cases sigs with
    | nil => exact .refl _
    | cons vchSig sigs =>
      refine .bind (checkSignatureEncoding_refines hf _) fun _ => ?_
      refine .bind (checkPubKeyEncoding_refines hf _) fun _ => ?_
      refine .bind (hc.ecdsa _ _ _ _) fun ⟨fOk, cache⟩ => ?_
      dsimp only
      generalize (if fOk then sigs else vchSig :: sigs) = left
      split
      · exact .refl _
      · exact ih _ _

theorem finishMultisig_refines (fSuccess : Bool) (sigs rest : List Val) :
    Refines (finishMultisig ⟨crypto, flags, checker, sigversion⟩ fSuccess sigs rest)
      (finishMultisig ⟨crypto, flags', checker', sigversion⟩ fSuccess sigs rest) := by
  cases rest with
  | nil => exact .refl _
  | cons dummy stack =>
    refine .bind (failIf_refines hf.and) fun _ => ?_
    exact .bind (failIf_refines hf.and) fun _ => .refl _

section

variable (hc : checker.Below sigversion checker')

include hc

theorem checkMultisigWith_refines (nKeysCount : Nat) (stack : List Val) (st : EvalState) :
    Refines (checkMultisigWith ⟨crypto, flags, checker, sigversion⟩ nKeysCount stack st)
      (checkMultisigWith ⟨crypto, flags', checker', sigversion⟩ nKeysCount stack st) := by
  rw [checkMultisigWith, checkMultisigWith]
  split
  · exact .refl _
  · refine .bind (scriptNum_refines hf _) fun _ => ?_
    refine .bind (.refl _) fun _ => .bind (.refl _) fun _ => ?_
    refine .bind (dropSignatures_refines hf _ _) fun _ => ?_
    refine .bind (checkMultisigLoop_refines hf hc _ _ _ _) fun _ => ?_
    exact .bind (finishMultisig_refines hf _ _ _) fun _ => .refl _

theorem evalCheckmultisig_refines (st : EvalState) :
    Refines (evalCheckmultisig ⟨crypto, flags, checker, sigversion⟩ st)
      (evalCheckmultisig ⟨crypto, flags', checker', sigversion⟩ st) := by
  refine .bind (.refl _) fun _ => ?_
  split
  · exact .refl _
  · refine .bind (scriptNum_refines hf _) fun _ => ?_
    refine .bind (.refl _) fun _ => .bind (.refl _) fun _ => ?_
    exact checkMultisigWith_refines hf hc _ _ _

/-! ## Opcodes -/

theorem evalCheckLockTime_refines (stack : List Val) :
    Refines (evalCheckLockTime ⟨crypto, flags, checker, sigversion⟩ stack)
      (evalCheckLockTime ⟨crypto, flags', checker', sigversion⟩ stack) := by
  rw [evalCheckLockTime, evalCheckLockTime]
  cases hflag : flags'.has .checklocktimeverify with
  | false => exact refines_ok_unit _
  | true =>
    rw [hf _ hflag]
    refine .bind (lockTimeOperand_refines hf _) fun n => failIf_refines ?_
    have hn := hc.lockTime n
    cases hchecker : checker.checkLockTime n <;> simp_all

theorem evalCheckSequence_refines (stack : List Val) :
    Refines (evalCheckSequence ⟨crypto, flags, checker, sigversion⟩ stack)
      (evalCheckSequence ⟨crypto, flags', checker', sigversion⟩ stack) := by
  rw [evalCheckSequence, evalCheckSequence]
  cases hflag : flags'.has .checksequenceverify with
  | false => exact refines_ok_unit _
  | true =>
    rw [hf _ hflag]
    refine .bind (lockTimeOperand_refines hf _) fun n => failIf_refines ?_
    have hn := hc.sequence n
    cases hchecker : checker.checkSequence n <;> simp_all

end

theorem evalIf_refines (fExec negate : Bool) (st : EvalState) :
    Refines (evalIf ⟨crypto, flags, checker, sigversion⟩ fExec negate st)
      (evalIf ⟨crypto, flags', checker', sigversion⟩ fExec negate st) := by
  refine .bind ?_ fun _ => .refl _
  split
  · cases st.stack with
    | nil => exact .refl _
    | cons vch stack =>
      refine .bind (.refl _) fun _ => ?_
      exact .bind (failIf_refines hf.and) fun _ => .refl _
  · exact .refl _

section

variable (hc : checker.Below sigversion checker')

include hc

theorem evalChecksigOp_refines (st : EvalState) :
    Refines (evalChecksigOp ⟨crypto, flags, checker, sigversion⟩ st)
      (evalChecksigOp ⟨crypto, flags', checker', sigversion⟩ st) := by
  rw [evalChecksigOp, evalChecksigOp]
  split
  · exact .bind (evalChecksig_refines hf hc _ _ _) fun _ => .refl _
  · exact .refl _

theorem evalChecksigadd_refines (st : EvalState) :
    Refines (evalChecksigadd ⟨crypto, flags, checker, sigversion⟩ st)
      (evalChecksigadd ⟨crypto, flags', checker', sigversion⟩ st) := by
  refine .bind (.refl _) fun _ => ?_
  split
  · refine .bind (scriptNum_refines hf _) fun _ => ?_
    exact .bind (evalChecksig_refines hf hc _ _ _) fun _ => .refl _
  · exact .refl _

theorem controlOp_refines (fExec : Bool) (rest : Script) (opcode : Opcode) (st : EvalState) :
    Refines (controlOp ⟨crypto, flags, checker, sigversion⟩ fExec rest opcode st)
      (controlOp ⟨crypto, flags', checker', sigversion⟩ fExec rest opcode st) := by
  cases opcode with
  | opChecklocktimeverify => exact .bind (evalCheckLockTime_refines hf hc _) fun _ => .refl _
  | opChecksequenceverify => exact .bind (evalCheckSequence_refines hf hc _) fun _ => .refl _
  | opNop1 | opNop4 | opNop5 | opNop6 | opNop7 | opNop8 | opNop9 | opNop10 =>
    exact .bind (failIf_refines (hf _)) fun _ => .refl _
  | opIf | opNotif => exact evalIf_refines hf _ _ _
  | opPick | opRoll => exact .bind (evalPick_refines hf _ _) fun _ => .refl _
  | opWithin => exact .bind (evalWithin_refines hf _) fun _ => .refl _
  | opChecksig | opChecksigverify => exact .bind (evalChecksigOp_refines hf hc _) fun _ => .refl _
  | opChecksigadd => exact evalChecksigadd_refines hf hc _
  | opCheckmultisig | opCheckmultisigverify =>
    exact .bind (evalCheckmultisig_refines hf hc _) fun _ => .refl _
  | _ => exact .refl _

theorem evalOpcode_refines (fExec : Bool) (rest : Script) (opcode : Opcode) (st : EvalState) :
    Refines (evalOpcode ⟨crypto, flags, checker, sigversion⟩ fExec rest opcode st)
      (evalOpcode ⟨crypto, flags', checker', sigversion⟩ fExec rest opcode st) := by
  rw [evalOpcode, evalOpcode]
  dsimp only
  cases stackOp crypto opcode with
  | some f => exact .refl _
  | none =>
    cases unaryOp opcode with
    | some f => exact .bind (evalUnary_refines hf _ _) fun _ => .refl _
    | none =>
      cases binaryOp opcode with
      | some f => exact .bind (evalBinary_refines hf _ _) fun _ => .refl _
      | none => exact controlOp_refines hf hc _ _ _ _

/-! ## Scripts -/

theorem evalInstruction_refines (i : Instruction) (st : EvalState) :
    Refines (evalInstruction ⟨crypto, flags, checker, sigversion⟩ i st)
      (evalInstruction ⟨crypto, flags', checker', sigversion⟩ i st) := by
  rw [evalInstruction, evalInstruction]
  split
  · exact .bind (failIf_refines hf.and) fun _ => .refl _
  split
  · split
    · exact .refl _
    · exact evalOpcode_refines hf hc _ _ _ _
  · exact .refl _

/-- One iteration of the loop. -/
theorem evalStep_refines (st : EvalState) (i : Instruction) :
    Refines (evalStep ⟨crypto, flags, checker, sigversion⟩ st i)
      (evalStep ⟨crypto, flags', checker', sigversion⟩ st i) := by
  refine .bind (.refl _) fun _ => .bind (.refl _) fun _ => .bind (.refl _) fun _ => ?_
  refine .bind (failIf_refines hf.and) fun _ => ?_
  exact .bind (evalInstruction_refines hf hc _ _) fun _ => .refl _

/-- The whole loop. -/
theorem evalScript_refines (stack : List Val) (script : Script) (execdata : ExecData)
    (cache : SigHashCache) :
    Refines (evalScript ⟨crypto, flags, checker, sigversion⟩ stack script execdata cache)
      (evalScript ⟨crypto, flags', checker', sigversion⟩ stack script execdata cache) := by
  refine .bind (.refl _) fun _ => .bind (.refl _) fun _ => ?_
  exact .bind (.foldlM (evalStep_refines hf hc) _ _) fun _ => .refl _

end

end

end Evaluation

section Verification

variable {crypto : Crypto} {flags flags' : VerifyFlags} {checker checker' : SignatureChecker}

/-! ## Witness programs -/

section

variable (hf : flags'.Subset flags)

include hf

theorem runWitnessScript_refines {sigversion : SigVersion} (hc : checker.Below sigversion checker')
    (stack : List Val) (execScript : Script) (execdata : ExecData) (cache : SigHashCache) :
    Refines (runWitnessScript ⟨crypto, flags, checker⟩ stack execScript sigversion execdata cache)
      (runWitnessScript ⟨crypto, flags', checker'⟩ stack execScript sigversion execdata cache) := by
  refine .bind (.refl _) fun _ => ?_
  exact .bind (evalScript_refines hf hc _ _ _ _) fun _ => .refl _

theorem executeWitnessScript_refines {sigversion : SigVersion}
    (hc : checker.Below sigversion checker') (stack : List Val) (execScript : Script)
    (execdata : ExecData) (cache : SigHashCache) : Refines
      (executeWitnessScript ⟨crypto, flags, checker⟩ stack execScript sigversion execdata cache)
      (executeWitnessScript ⟨crypto, flags', checker'⟩ stack execScript sigversion execdata
        cache) := by
  rw [executeWitnessScript, executeWitnessScript]
  split
  · split
    · exact .refl _
    · exact failIf_refines (hf _)
    · exact .bind (.refl _) fun _ => runWitnessScript_refines hf hc _ _ _ _
  · exact runWitnessScript_refines hf hc _ _ _ _

theorem verifyTaprootScriptPath_refines (hc : checker.Below .tapscript checker')
    (witness : List Val) (control : Val) (script : Script)
    (stack : List Val) (program : Val) (execdata : ExecData) (cache : SigHashCache) : Refines
      (verifyTaprootScriptPath ⟨crypto, flags, checker⟩ witness control script stack program
        execdata cache)
      (verifyTaprootScriptPath ⟨crypto, flags', checker'⟩ witness control script stack program
        execdata cache) := by
  refine .bind (.refl _) fun _ => .bind (.refl _) fun _ => .bind (.refl _) fun _ => ?_
  dsimp only
  split
  · exact executeWitnessScript_refines hf hc _ _ _ _
  · exact failIf_refines (hf _)

theorem verifyTaproot_refines (hkey : checker.Below .taproot checker')
    (hscript : checker.Below .tapscript checker') (witness : List Val) (program : Val)
    (cache : SigHashCache) : Refines (verifyTaproot ⟨crypto, flags, checker⟩ witness program cache)
      (verifyTaproot ⟨crypto, flags', checker'⟩ witness program cache) := by
  refine .bind (.refl _) fun _ => ?_
  obtain ⟨annex, stack⟩ := splitAnnex witness.reverse
  match stack with
  | _ :: _ :: _ => exact verifyTaprootScriptPath_refines hf hscript _ _ _ _ _ _ _
  | [_] => exact .bind (hkey.schnorr _ _ _) fun _ => .refl _
  | [] => exact .refl _

theorem verifyWitnessV0_refines (hc : checker.Below .witnessV0 checker') (witness : List Val)
    (program : Val) (cache : SigHashCache) :
    Refines (verifyWitnessV0 ⟨crypto, flags, checker⟩ witness program cache)
      (verifyWitnessV0 ⟨crypto, flags', checker'⟩ witness program cache) := by
  rw [verifyWitnessV0, verifyWitnessV0]
  split
  · split
    · exact .refl _
    · exact .bind (.refl _) fun _ => executeWitnessScript_refines hf hc _ _ _ _
  split
  · exact .bind (.refl _) fun _ => executeWitnessScript_refines hf hc _ _ _ _
  · exact .refl _

/-- A program of version 0 depends on the checks of that version, and a taproot
program on those of taproot, if it is evaluated and there is a witness. -/
theorem verifyWitnessProgram_refines (witness : List Val) (witversion : Nat) (program : Val)
    (isP2sh : Bool) (cache : SigHashCache)
    (hv0 : witversion = 0 → checker.Below .witnessV0 checker')
    (htaproot : flags'.has .taproot = true → witversion = 1 → program.length = 32 →
      isP2sh = false → witness ≠ [] →
      checker.Below .taproot checker' ∧ checker.Below .tapscript checker') : Refines
      (verifyWitnessProgram ⟨crypto, flags, checker⟩ witness witversion program isP2sh cache)
      (verifyWitnessProgram ⟨crypto, flags', checker'⟩ witness witversion program isP2sh
        cache) := by
  rw [verifyWitnessProgram, verifyWitnessProgram]
  split
  · next h => exact verifyWitnessV0_refines hf (hv0 h) _ _ _
  split
  · next h =>
      cases hflag : flags'.has .taproot with
      | false => exact refines_ok_unit _
      | true =>
        rw [hf _ hflag]
        cases witness with
        | nil => exact .error _ _
        | cons elem rest =>
          obtain ⟨hkey, hscript⟩ := htaproot hflag h.1 h.2.1 h.2.2 (List.cons_ne_nil _ _)
          exact verifyTaproot_refines hf hkey hscript _ _ _
  split
  · exact .refl _
  · exact failIf_refines (hf _)

/-! ## `VerifyScript` -/

theorem evalToTrue_refines (hc : checker.Below .base checker') (stack : List Val) (script : Script)
    (cache : SigHashCache) :
    Refines (evalToTrue ⟨crypto, flags, checker⟩ stack script cache)
      (evalToTrue ⟨crypto, flags', checker'⟩ stack script cache) :=
  .bind (evalScript_refines hf hc _ _ _ _) fun _ => .refl _

theorem verifyProgramIn_refines (hwitness : flags'.has .witness = true) (witness : List Val)
    (script : Script) (isP2sh scriptSigOk : Bool) (malleated : ScriptError)
    (st : EvalState) (hprogram : ∀ witversion program, scriptSigOk = true →
      script.isWitnessProgram = some (witversion, program) → Refines
        (verifyWitnessProgram ⟨crypto, flags, checker⟩ witness witversion program isP2sh
          st.sighashCache)
        (verifyWitnessProgram ⟨crypto, flags', checker'⟩ witness witversion program isP2sh
          st.sighashCache)) : Refines
      (verifyProgramIn ⟨crypto, flags, checker⟩ witness script isP2sh scriptSigOk malleated st)
      (verifyProgramIn ⟨crypto, flags', checker'⟩ witness script isP2sh scriptSigOk malleated
        st) := by
  simp only [verifyProgramIn, hwitness, hf _ hwitness, if_true]
  split
  · exact .refl _
  · next witversion program heq =>
      cases scriptSigOk with
      | false => exact .error _ _
      | true => exact .bind (.refl _) fun _ => .bind (hprogram _ _ rfl heq) fun _ => .refl _

end

/-- Without segwit nothing is looked at in the witness. -/
theorem verifyProgramIn_of_not_witness (env : VerifyEnv) (h : env.flags.has .witness = false)
    (witness : List Val) (script : Script) (isP2sh scriptSigOk : Bool) (malleated : ScriptError)
    (st : EvalState) :
    verifyProgramIn env witness script isP2sh scriptSigOk malleated st =
      pure (false, st.stack.length) := by
  simp only [verifyProgramIn, h]
  rfl

/-- Without segwit the end of `VerifyScript` checks nothing. -/
theorem verifyEnd_of_not_witness (env : VerifyEnv) (hvalid : env.flags.isValidCombination = true)
    (h : env.flags.has .witness = false) (witness : List Val) (hadWitness : Bool)
    (stackSize : Nat) : verifyEnd env witness hadWitness stackSize = .ok () := by
  have hcleanstack : env.flags.has .cleanstack = false := by
    by_contra hc
    have := VerifyFlags.has_witness_of_cleanstack hvalid (eq_true_of_ne_false hc)
    simp_all
  simp only [verifyEnd, checkCleanstack, checkUnexpectedWitness, hcleanstack, h]
  rfl

theorem verifyEnd_refines (hf : flags'.Subset flags) (hvalid : flags'.isValidCombination = true)
    (witness : List Val) (hadWitness : Bool) (stackSize : Nat) :
    Refines (verifyEnd ⟨crypto, flags, checker⟩ witness hadWitness stackSize)
      (verifyEnd ⟨crypto, flags', checker'⟩ witness hadWitness stackSize) := by
  cases hwitness : flags'.has .witness with
  | false =>
    rw [verifyEnd_of_not_witness ⟨crypto, flags', checker'⟩ hvalid hwitness]
    exact refines_ok_unit _
  | true =>
    have hp2sh := VerifyFlags.has_p2sh_of_witness hvalid hwitness
    refine .bind ?_ fun _ => ?_
    · simp only [checkCleanstack, hp2sh, hwitness, hf _ hp2sh, hf _ hwitness]
      cases hcleanstack : flags'.has .cleanstack with
      | false => exact refines_ok_unit _
      | true => rw [hf _ hcleanstack]; exact .refl _
    · simp only [checkUnexpectedWitness, hp2sh, hwitness, hf _ hp2sh, hf _ hwitness]
      exact .refl _

section VerifyScript

variable {scriptSig scriptPubKey : Script} {witness : List Val}

theorem verifyScriptHash_refines (hf : flags'.Subset flags) (hc : checker.Below .base checker')
    (hwitness : flags'.has .witness = true) (stackCopy : List Val) (cache : SigHashCache)
    (hredeem : ∀ (redeem : Script) witversion program cache, scriptSig = pushData redeem →
      redeem.isWitnessProgram = some (witversion, program) →
      Refines
        (verifyWitnessProgram ⟨crypto, flags, checker⟩ witness witversion program true cache)
        (verifyWitnessProgram ⟨crypto, flags', checker'⟩ witness witversion program true cache)) :
    Refines (verifyScriptHash ⟨crypto, flags, checker⟩ scriptSig witness stackCopy cache)
      (verifyScriptHash ⟨crypto, flags', checker'⟩ scriptSig witness stackCopy cache) := by
  refine .bind (.refl _) fun _ => ?_
  cases stackCopy with
  | nil => exact .refl _
  | cons pubKey2 stack =>
    refine .bind (evalToTrue_refines hf hc _ _ _) fun st => ?_
    refine verifyProgramIn_refines hf hwitness _ _ _ _ _ _ fun witversion program hsig heq => ?_
    exact hredeem _ _ _ _ (eq_of_beq hsig) heq

/-- Without segwit, a redeem script is all that there is to evaluate. -/
theorem verifyScriptHash_refines_of_not_witness (hf : flags'.Subset flags)
    (hc : checker.Below .base checker') (hwitness : flags'.has .witness = false)
    (stackCopy : List Val) (cache : SigHashCache) (next : Bool × Nat → Eval Unit) :
    Refines
      (verifyScriptHash ⟨crypto, flags, checker⟩ scriptSig witness stackCopy cache >>= next)
      (verifyScriptHash ⟨crypto, flags', checker'⟩ scriptSig witness stackCopy cache >>=
        fun _ => .ok ()) := by
  unfold verifyScriptHash
  rw [bind_assoc, bind_assoc]
  refine .bind (.refl _) fun _ => ?_
  cases stackCopy with
  | nil => exact .error _ _
  | cons pubKey2 stack =>
    dsimp only
    rw [bind_assoc, bind_assoc]
    refine .bind (evalToTrue_refines hf hc _ _ _) fun st => ?_
    rw [verifyProgramIn_of_not_witness ⟨crypto, flags', checker'⟩ hwitness, pure_bind]
    exact refines_ok_unit _

section Programs

variable (hf : flags'.Subset flags) (hvalid : flags'.isValidCombination = true)
  (hc : checker.Below .base checker')

include hf hvalid hc

/-- Without segwit, the witness program of the stricter verification has no
counterpart in the other one. -/
theorem verifyScript_refines_of_not_witness (hwitness : flags'.has .witness = false) :
    Refines (verifyScript ⟨crypto, flags, checker⟩ scriptSig scriptPubKey witness)
      (verifyScript ⟨crypto, flags', checker'⟩ scriptSig scriptPubKey witness) := by
  refine .bind (failIf_refines hf.and) fun _ => ?_
  refine .bind (evalScript_refines hf hc _ _ _ _) fun stSig => ?_
  refine .bind (evalToTrue_refines hf hc _ _ _) fun st => ?_
  rw [verifyProgramIn_of_not_witness ⟨crypto, flags', checker'⟩ hwitness, pure_bind]
  refine .of_bind fun _ => ?_
  have hend := verifyEnd_of_not_witness ⟨crypto, flags', checker'⟩ hvalid hwitness
  cases hp2sh : flags'.has .p2sh && scriptPubKey.isPayToScriptHash with
  | false =>
    simp only [hend]
    exact refines_ok_unit _
  | true =>
    simp only [hf.and hp2sh, if_true, hend]
    exact verifyScriptHash_refines_of_not_witness hf hc hwitness _ _ _

variable
  (hnative : ∀ witversion program cache, flags'.has .witness = true →
    scriptPubKey.isWitnessProgram = some (witversion, program) →
    Refines
      (verifyWitnessProgram ⟨crypto, flags, checker⟩ witness witversion program false cache)
      (verifyWitnessProgram ⟨crypto, flags', checker'⟩ witness witversion program false cache))
  (hredeem : ∀ (redeem : Script) witversion program cache, flags'.has .witness = true →
    scriptPubKey.isPayToScriptHash = true → scriptSig = pushData redeem →
    redeem.isWitnessProgram = some (witversion, program) →
    Refines
      (verifyWitnessProgram ⟨crypto, flags, checker⟩ witness witversion program true cache)
      (verifyWitnessProgram ⟨crypto, flags', checker'⟩ witness witversion program true cache))

include hnative hredeem

/-- With segwit the two verifications run in step. -/
theorem verifyScript_refines_of_witness (hwitness : flags'.has .witness = true) :
    Refines (verifyScript ⟨crypto, flags, checker⟩ scriptSig scriptPubKey witness)
      (verifyScript ⟨crypto, flags', checker'⟩ scriptSig scriptPubKey witness) := by
  have hp2sh := VerifyFlags.has_p2sh_of_witness hvalid hwitness
  refine .bind (failIf_refines hf.and) fun _ => ?_
  refine .bind (evalScript_refines hf hc _ _ _ _) fun stSig => ?_
  refine .bind (evalToTrue_refines hf hc _ _ _) fun st => ?_
  refine .bind (verifyProgramIn_refines hf hwitness _ _ _ _ _ _ fun _ _ _ =>
    hnative _ _ _ hwitness) fun _ => ?_
  simp only [hp2sh, hf _ hp2sh, Bool.true_and]
  split
  · next hscript =>
      refine .bind (verifyScriptHash_refines hf hc hwitness _ _ ?_) fun _ => ?_
      · exact fun redeem _ _ cache => hredeem redeem _ _ cache hwitness hscript
      · exact verifyEnd_refines hf hvalid _ _ _
  · exact verifyEnd_refines hf hvalid _ _ _

/-- What `VerifyScript` accepts, it accepts with fewer flags and a more lenient
checker. -/
theorem verifyScript_refines :
    Refines (verifyScript ⟨crypto, flags, checker⟩ scriptSig scriptPubKey witness)
      (verifyScript ⟨crypto, flags', checker'⟩ scriptSig scriptPubKey witness) := by
  cases hwitness : flags'.has .witness with
  | false => exact verifyScript_refines_of_not_witness hf hvalid hc hwitness
  | true => exact verifyScript_refines_of_witness hf hvalid hc hnative hredeem hwitness

end Programs

/-- The flags are soft forks: what `VerifyScript` accepts, it accepts with fewer
of them. -/
theorem verifyScript_refines_flags (hf : flags'.Subset flags)
    (hvalid : flags'.isValidCombination = true) :
    Refines (verifyScript ⟨crypto, flags, checker⟩ scriptSig scriptPubKey witness)
      (verifyScript ⟨crypto, flags', checker⟩ scriptSig scriptPubKey witness) := by
  have hprogram (witversion : Nat) (program : Val) (isP2sh : Bool) (cache : SigHashCache) : Refines
        (verifyWitnessProgram ⟨crypto, flags, checker⟩ witness witversion program isP2sh cache)
        (verifyWitnessProgram ⟨crypto, flags', checker⟩ witness witversion program isP2sh
          cache) := by
    refine verifyWitnessProgram_refines hf _ _ _ _ _ ?_ ?_
    · exact fun _ => .refl _ _
    · exact fun _ _ _ _ _ => ⟨.refl _ _, .refl _ _⟩
  refine verifyScript_refines hf hvalid (.refl _ _) ?_ ?_
  · exact fun witversion program cache _ _ => hprogram witversion program false cache
  · exact fun _ witversion program cache _ _ _ _ => hprogram witversion program true cache

end VerifyScript

end Verification

end BitcoinKernel.Interpreter
