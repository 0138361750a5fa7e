import BitcoinKernel.Core.Verify

/-!
# Verifying with the data of another transaction

`IsBound` is what a user of `verify` relies on: a verification does not read
beyond the spent outputs, and what is accepted with some precomputed data is
accepted with the data of the verified transaction.  `verify` does not ensure it,
because the data may come from another transaction.

`isBound_of_fits` says which data is good enough for one input and one script.
A script before segwit does not use the data at all, so only the number of
spent outputs matters.  A witness program of version 0 uses the segwit hashes
if the data has them, and a taproot output needs the taproot hashes.
-/

namespace BitcoinKernel.Verify

open Interpreter Outcome

/-! ## What binds the data -/

/-- What is expected of a verification with data that `new` made from some
transaction and `spentOutputs`: no spent output is looked up beyond the list, and
what is accepted is accepted with the data of the verified transaction as
well. -/
def IsBound (crypto : Crypto) (scriptPubkey : Script) (amount : Option Int64)
    (txTo : Transaction) (inputIndex : Nat) (flags : Option ScriptVerificationFlags)
    (spentOutputs : List TxOut) (data : PrecomputedData) : Prop :=
  verify crypto scriptPubkey amount txTo inputIndex flags data ≠ .error .outOfBounds ∧
    (verify crypto scriptPubkey amount txTo inputIndex flags data = .ok (.ok ()) →
      ∃ data', PrecomputedTransactionData.new crypto txTo spentOutputs = .ok (.ok data') ∧
        verify crypto scriptPubkey amount txTo inputIndex flags data' = .ok (.ok ()))

/-- A witness program of version 0 is verified: the output script is one, or the
input script pushes one for a pay-to-script-hash script. -/
def RunsWitnessV0 (flags : VerifyFlags) (scriptSig scriptPubkey : Script) : Prop :=
  flags.has .witness = true ∧ ((∃ program, scriptPubkey.isWitnessProgram = some (0, program)) ∨
      scriptPubkey.isPayToScriptHash = true ∧ ∃ (redeem : Script) (program : Val),
        scriptSig = pushData redeem ∧ redeem.isWitnessProgram = some (0, program))

/-- A taproot output is verified, with a witness. -/
def RunsTaproot (flags : VerifyFlags) (scriptPubkey : Script) (witness : List Val) : Prop :=
  flags.has .witness = true ∧ flags.has .taproot = true ∧ witness ≠ [] ∧
    ∃ program, scriptPubkey.isWitnessProgram = some (1, program) ∧ program.length = 32

/-- The data of `tx` serves for an input `txin` of `txTo`: the spent outputs are
those of `txTo`, and the hashes that the script uses are of bytes that are the
same in both transactions. -/
structure Fits (tx txTo : Transaction) (spentOutputs : List TxOut) (txin : TxIn)
    (flags : VerifyFlags) (scriptPubkey : Script) : Prop where
  accepted : Accepted txTo spentOutputs
  segwit : RunsWitnessV0 flags txin.scriptSig scriptPubkey →
    usesBip143Segwit tx spentOutputs = true → SameHashedParts tx txTo
  taproot : RunsTaproot flags scriptPubkey txin.scriptWitness →
    usesBip341Taproot tx spentOutputs = true →
      usesBip341Taproot txTo spentOutputs = true ∧ SameHashedParts tx txTo

/-! ## Data that fits -/

section Fits

variable {crypto : Crypto} {scriptPubkey : Script} {amount : Option Int64} {tx txTo : Transaction}
  {nIn : Nat} {txin : TxIn} {flags : ScriptVerificationFlags} {spentOutputs : List TxOut}

theorem verifyEnv_precompute :
    verifyEnv crypto (amount.getD 0) txTo (precompute crypto tx spentOutputs) nIn flags =
      ⟨crypto, fromInt flags,
        (CheckerData.withDataOf crypto txTo nIn (amount.getD 0) tx spentOutputs).checker crypto⟩ :=
  rfl

/-- With as many spent outputs as inputs no verification faults. -/
theorem runScript_safe (hin : nIn < txTo.vin.length) (hspent : Accepted txTo spentOutputs)
    (hvalid : (fromInt flags).isValidCombination = true) :
    Safe (fun _ => True)
      (runScript crypto scriptPubkey amount txTo nIn txin flags
        (precompute crypto tx spentOutputs)) := by
  rw [runScript, verifyEnv_precompute]
  refine verifyScript_safe ?_ ?_ _ _ _
  · exact CheckerData.checker_isSafe (CheckerData.withDataOf_wellFormed hin hspent)
  · exact hvalid

/-- What a script accepts with data that fits, it accepts with the right data. -/
theorem runScript_refines (hin : nIn < txTo.vin.length)
    (hvalid : (fromInt flags).isValidCombination = true)
    (hfits : Fits tx txTo spentOutputs txin (fromInt flags) scriptPubkey) :
    Refines
      (runScript crypto scriptPubkey amount txTo nIn txin flags
        (precompute crypto tx spentOutputs))
      (runScript crypto scriptPubkey amount txTo nIn txin flags
        (precompute crypto txTo spentOutputs)) := by
  rw [runScript, runScript, verifyEnv_precompute, verifyEnv_precompute]
  refine verifyScript_refines (.refl _) hvalid CheckerData.checker_below_base ?_ ?_
  · intro witversion program cache hwitness hprogram
    refine verifyWitnessProgram_refines (.refl _) _ _ _ _ _ ?_ ?_
    · rintro rfl
      exact CheckerData.checker_below_witnessV0
        (hfits.segwit ⟨hwitness, .inl ⟨program, hprogram⟩⟩)
    · rintro htaproot rfl hsize - hne
      have h := hfits.taproot ⟨hwitness, htaproot, hne, program, hprogram, hsize⟩
      exact ⟨CheckerData.checker_below_taproot (.inl rfl) hin h,
        CheckerData.checker_below_taproot (.inr rfl) hin h⟩
  · intro redeem witversion program cache hwitness hscript hsig hprogram
    refine verifyWitnessProgram_refines (.refl _) _ _ _ _ _ ?_ ?_
    · rintro rfl
      exact CheckerData.checker_below_witnessV0
        (hfits.segwit ⟨hwitness, .inr ⟨hscript, redeem, program, hsig, hprogram⟩⟩)
    · intro _ _ _ hfalse
      cases hfalse

/-- Data that fits is as good as the data of the verified transaction. -/
theorem isBound_of_fits {inputIndex : Nat} {flags : Option ScriptVerificationFlags}
    {data : PrecomputedData}
    (hnew : PrecomputedTransactionData.new crypto tx spentOutputs = .ok (.ok data))
    (hfits : ∀ txin, txTo.vin[checkedInput inputIndex]? = some txin →
      Fits tx txTo spentOutputs txin (fromInt (flags.getD verifyAll)) scriptPubkey) :
    IsBound crypto scriptPubkey amount txTo inputIndex flags spentOutputs data := by
  obtain ⟨-, rfl⟩ := new_eq_ok_iff.mp hnew
  constructor
  · refine verify_ne_error (fun txin hpasses htxin fault hfault => ?_) _
    have hin := (List.getElem?_eq_some_iff.mp htxin).1
    have hsafe : Safe (fun _ => True)
        (runScript crypto scriptPubkey amount txTo (checkedInput inputIndex) txin
          (flags.getD verifyAll) (precompute crypto tx spentOutputs)) :=
      runScript_safe hin (hfits txin htxin).accepted hpasses.valid
    exact hsafe.of_eq_error hfault
  · intro hok
    obtain ⟨hpasses, txin, htxin, hrun⟩ := verify_eq_ok_iff.mp hok
    have hin := (List.getElem?_eq_some_iff.mp htxin).1
    have haccepted := (hfits txin htxin).accepted
    refine ⟨_, new_of_accepted haccepted, verify_eq_ok_iff.mpr ⟨?_, txin, htxin, ?_⟩⟩
    · exact { hpasses with spentOutputs := hpasses.spentOutputs }
    · exact runScript_refines hin hpasses.valid (hfits txin htxin) () hrun

end Fits

end BitcoinKernel.Verify
