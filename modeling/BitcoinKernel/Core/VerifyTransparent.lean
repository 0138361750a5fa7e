import BitcoinKernel.Core.VerifyResult

/-!
# Without taproot, precomputed data changes nothing

Which hashes `PrecomputedTransactionData::new` computes depends on the spent
outputs that it is given.  An input with a witness counts as a taproot spend or
as a segwit spend by the script of its spent output, and the segwit hashes may
be missing when all of them look like taproot.

`verifyDirect` is a verification without any precomputed data, so that every
segwit digest is computed from the transaction.  `verify_transparent` says that
without `VERIFY_TAPROOT` this is the result of `verify`, with data made from no
spent outputs and with data made from any spent outputs, one for each input.

The checkers with and without data agree on ECDSA signatures
(`checkECDSASignature_direct`).  They differ on Schnorr signatures, and no script
gets there without the flag.  The interpreter turns the agreement of the checkers
into the agreement of the verdicts (`verifyScript_refines`, in both directions),
and neither run faults.
-/

namespace BitcoinKernel.Verify

open Interpreter Outcome

/-! ## A verification without precomputed data -/

/-- A checker that computes every digest from the transaction. -/
def directChecker (txTo : Transaction) (nIn : Nat) (amount : Int64) : CheckerData :=
  { txTo, nIn, amount, txdata := none, mdb := .fail }

/-- `VerifyScript` with such a checker. -/
def runDirect (crypto : Crypto) (scriptPubkey : Script) (amount : Option Int64)
    (txTo : Transaction) (nIn : Nat) (txin : TxIn) (flags : ScriptVerificationFlags) : Eval Unit :=
  verifyScript
    ⟨crypto, fromInt flags, (directChecker txTo nIn (amount.getD 0)).checker crypto⟩
    txin.scriptSig scriptPubkey txin.scriptWitness

/-- The checks of `verify`, and then a verification that computes every digest
from the transaction. -/
def verifyDirect (crypto : Crypto) (scriptPubkey : Script) (amount : Option Int64)
    (txTo : Transaction) (inputIndex : Nat) (flags : ScriptVerificationFlags) :
    Except Fault (Result Unit) :=
  if inputIndex ≥ txTo.vin.length then .ok (.error (.scriptVerify .txInputIndex))
  else if flags &&& ~~~verifyAll ≠ 0 then .ok (.error (.scriptVerify .invalidFlags))
  else if !(fromInt flags).isValidCombination then
    .ok (.error (.scriptVerify .invalidFlagsCombination))
  else
    match txTo.vin[checkedInput inputIndex]? with
    | none => .error .assertion
    | some txin => do
        let ret ← returned
          (runDirect crypto scriptPubkey amount txTo (checkedInput inputIndex) txin flags)
        return if ret then .ok () else .error (.scriptVerify .invalid)

/-! ## The two checkers -/

section Checkers

variable {crypto : Crypto} {tx : Transaction} {nIn : Nat} {amount : Int64}
  {spentOutputs : List TxOut}

/-- With data of the transaction or without, an ECDSA check has one result. -/
theorem checkECDSASignature_direct (vchSig vchPubKey : Val) (scriptCode : Script)
    (sigversion : SigVersion) (cache : SigHashCache) :
    (CheckerData.withDataOf crypto tx nIn amount tx spentOutputs).checkECDSASignature crypto vchSig
        vchPubKey scriptCode sigversion cache =
      (directChecker tx nIn amount).checkECDSASignature crypto vchSig vchPubKey scriptCode
        sigversion cache := by
  simp only [CheckerData.checkECDSASignature, CheckerData.withDataOf, directChecker,
    signatureHash_precompute fun _ _ => SameHashedParts.refl tx]
  cases vchSig.getLast? with
  | none => rfl
  | some hashType => rfl

/-- The versions of scripts that have ECDSA signatures. -/
def Ecdsa (sigversion : SigVersion) : Prop := sigversion = .base ∨ sigversion = .witnessV0

/-- In these versions a Schnorr check is not reached. -/
theorem checkSchnorrSignature_ecdsa {sigversion : SigVersion} (h : Ecdsa sigversion)
    (data : CheckerData) (sig pubkey : Val) (execdata : ExecData) :
    data.checkSchnorrSignature crypto sig pubkey sigversion execdata =
      .error (.fault .assertion) := by
  rcases h with rfl | rfl <;> rfl

/-- In these versions each of the two checkers accepts what the other one does. -/
theorem below_direct {sigversion : SigVersion} (h : Ecdsa sigversion) :
    ((CheckerData.withDataOf crypto tx nIn amount tx spentOutputs).checker crypto).Below sigversion
        ((directChecker tx nIn amount).checker crypto) ∧
      ((directChecker tx nIn amount).checker crypto).Below sigversion
        ((CheckerData.withDataOf crypto tx nIn amount tx spentOutputs).checker crypto) := by
  constructor
  · refine ⟨fun _ _ _ _ => .of_eq (checkECDSASignature_direct _ _ _ _ _), ?_, fun _ h => h,
      fun _ h => h⟩
    intro sig pubkey execdata
    exact .of_eq ((checkSchnorrSignature_ecdsa h _ _ _ _).trans
      (checkSchnorrSignature_ecdsa h _ _ _ _).symm)
  · refine ⟨fun _ _ _ _ => .of_eq (checkECDSASignature_direct _ _ _ _ _).symm, ?_, fun _ h => h,
      fun _ h => h⟩
    intro sig pubkey execdata
    exact .of_eq ((checkSchnorrSignature_ecdsa h _ _ _ _).trans
      (checkSchnorrSignature_ecdsa h _ _ _ _).symm)

/-- The checker without data does not fault. -/
theorem directChecker_wellFormed (hin : nIn < tx.vin.length) :
    (directChecker tx nIn amount).WellFormed where
  nIn_lt := hin
  mdb_eq := rfl
  spentOutputs _ hcache := nomatch hcache

end Checkers

/-! ## The two runs -/

theorem and_verifyTaproot_ne_zero_iff (flags : ScriptVerificationFlags) :
    flags &&& verifyTaproot ≠ 0 ↔ (fromInt flags).has .taproot = true := by
  rw [has_fromInt]
  exact and_flag_ne_zero_iff (by decide) (by decide)

/-- Without taproot, checkers that agree on ECDSA signatures accept the same
scripts. -/
theorem verifyScript_refines_of_ecdsa {crypto : Crypto} {flags : VerifyFlags}
    {checker checker' : SignatureChecker} (hvalid : flags.isValidCombination = true)
    (htaproot : flags.has .taproot = false)
    (hbelow : ∀ {sigversion : SigVersion}, Ecdsa sigversion → checker.Below sigversion checker')
    (scriptSig scriptPubKey : Script) (witness : List Val) :
    Refines (verifyScript ⟨crypto, flags, checker⟩ scriptSig scriptPubKey witness)
      (verifyScript ⟨crypto, flags, checker'⟩ scriptSig scriptPubKey witness) := by
  have hprogram : ∀ (witversion : Nat) (program : Val) (isP2sh : Bool) (cache : SigHashCache),
      Refines
        (verifyWitnessProgram ⟨crypto, flags, checker⟩ witness witversion program isP2sh cache)
        (verifyWitnessProgram ⟨crypto, flags, checker'⟩ witness witversion program isP2sh
          cache) := by
    intro witversion program isP2sh cache
    refine verifyWitnessProgram_refines (.refl _) _ _ _ _ _ (fun _ => hbelow (.inr rfl)) ?_
    intro htaproot'
    rw [htaproot] at htaproot'
    cases htaproot'
  refine verifyScript_refines (.refl _) hvalid (hbelow (.inl rfl)) ?_ ?_
  · exact fun witversion program cache _ _ => hprogram witversion program false cache
  · exact fun _ witversion program cache _ _ _ _ => hprogram witversion program true cache

/-- Two runs that accept the same and do not fault return the same. -/
theorem returned_eq {run run' : Eval Unit} (h : Refines run run') (h' : Refines run' run)
    (hsafe : Safe (fun _ => True) run) (hsafe' : Safe (fun _ => True) run') :
    returned run = returned run' := by
  rcases hrun : run with (e | fault) | _
  · rcases hrun' : run' with (e' | fault') | _
    · rfl
    · exact (hsafe'.of_eq_error hrun').elim
    · -- what the second run accepts, the first one accepts
      rw [h' () hrun'] at hrun
      cases hrun
  · exact (hsafe.of_eq_error hrun).elim
  · rw [h () hrun]

section Runs

variable {crypto : Crypto} {scriptPubkey : Script} {amount : Option Int64} {tx : Transaction}
  {spentOutputs : List TxOut} {flags : ScriptVerificationFlags}

/-- A run without data does not fault. -/
theorem runDirect_safe {nIn : Nat} {txin : TxIn} (hin : nIn < tx.vin.length)
    (hvalid : (fromInt flags).isValidCombination = true) :
    Safe (fun _ => True) (runDirect crypto scriptPubkey amount tx nIn txin flags) := by
  rw [runDirect]
  refine verifyScript_safe ?_ ?_ _ _ _
  · exact CheckerData.checker_isSafe (directChecker_wellFormed hin)
  · exact hvalid

/-- Without taproot, a run with data of the transaction returns what a run without
data returns. -/
theorem returned_runScript {nIn : Nat} {txin : TxIn} (hin : nIn < tx.vin.length)
    (hspent : Accepted tx spentOutputs) (hvalid : (fromInt flags).isValidCombination = true)
    (htaproot : flags &&& verifyTaproot = 0) :
    returned (runScript crypto scriptPubkey amount tx nIn txin flags
        (precompute crypto tx spentOutputs)) =
      returned (runDirect crypto scriptPubkey amount tx nIn txin flags) := by
  have hflag : (fromInt flags).has .taproot = false := by
    rw [← Bool.not_eq_true, ← and_verifyTaproot_ne_zero_iff]
    exact not_not_intro htaproot
  refine returned_eq ?_ ?_ (runScript_safe hin hspent hvalid) (runDirect_safe hin hvalid)
  · rw [runScript, verifyEnv_precompute, runDirect]
    exact verifyScript_refines_of_ecdsa hvalid hflag (fun h => (below_direct h).1) _ _ _
  · rw [runScript, verifyEnv_precompute, runDirect]
    exact verifyScript_refines_of_ecdsa hvalid hflag (fun h => (below_direct h).2) _ _ _

/-- Without taproot, `verify` with data of the transaction is the verification
without data. -/
theorem verify_eq_verifyDirect (inputIndex : Nat) (hspent : Accepted tx spentOutputs)
    (htaproot : flags &&& verifyTaproot = 0) :
    verify crypto scriptPubkey amount tx inputIndex (some flags)
        (precompute crypto tx spentOutputs) =
      verifyDirect crypto scriptPubkey amount tx inputIndex flags := by
  unfold verifyDirect
  by_cases hindex : inputIndex < tx.vin.length
  case neg => rw [if_pos (Nat.le_of_not_lt hindex), verify, if_pos (Nat.le_of_not_lt hindex)]
  rw [if_neg (Nat.not_le_of_lt hindex)]
  by_cases hflags : flags &&& ~~~verifyAll ≠ 0
  case pos =>
    rw [if_pos hflags, verify, if_neg (Nat.not_le_of_lt hindex), any_flags_eq_decide,
      if_pos (by simpa using hflags)]
  rw [if_neg hflags]
  cases hvalid : (fromInt flags).isValidCombination with
  | false =>
    have hflags' : ¬(some flags).getD verifyAll &&& ~~~verifyAll ≠ 0 := hflags
    apply verify_of_btck .errorInvalidFlagsCombination hindex hflags'
    rw [Option.getD_some, btckScriptPubkeyVerify, if_neg hflags, hvalid]
    rfl
  | true =>
    obtain ⟨txin, htxin⟩ := exists_checkedInput hindex
    have hin := (List.getElem?_eq_some_iff.mp htxin).1
    have hpasses : Passes tx inputIndex flags (precompute crypto tx spentOutputs) :=
      ⟨hindex, not_not.mp hflags, hvalid, fun h => absurd htaproot h⟩
    rw [verify_of_passes hpasses htxin, htxin]
    show Except.map _ (returned (runScript crypto scriptPubkey amount tx _ txin flags _)) = _
    rw [returned_runScript hin hspent hvalid htaproot, if_neg (by decide)]
    dsimp only
    cases returned (runDirect crypto scriptPubkey amount tx (checkedInput inputIndex) txin flags)
      with
    | error fault => rfl
    | ok ret => rfl

end Runs

/-- For flags without `VERIFY_TAPROOT`, data made from no spent outputs and data
made from one spent output for each input give the result of a verification that
computes every segwit digest from the transaction. -/
theorem verify_transparent (crypto : Crypto) (scriptPubkey : Script) (amount : Option Int64)
    (tx : Transaction) (inputIndex : Nat) {flags : ScriptVerificationFlags}
    (htaproot : flags &&& verifyTaproot = 0) {spentOutputs : List TxOut}
    (hspent : spentOutputs.length = tx.vin.length) :
    ∃ data data', PrecomputedTransactionData.new crypto tx [] = .ok (.ok data) ∧
      PrecomputedTransactionData.new crypto tx spentOutputs = .ok (.ok data') ∧
      verify crypto scriptPubkey amount tx inputIndex (some flags) data =
        verifyDirect crypto scriptPubkey amount tx inputIndex flags ∧
      verify crypto scriptPubkey amount tx inputIndex (some flags) data' =
        verifyDirect crypto scriptPubkey amount tx inputIndex flags :=
  ⟨_, _, new_of_accepted (.inl rfl), new_of_accepted (.inr hspent),
    verify_eq_verifyDirect inputIndex (.inl rfl) htaproot,
    verify_eq_verifyDirect inputIndex (.inr hspent) htaproot⟩

/-- A transaction whose input has the witness script `OP_1`. -/
def segwitTx : Transaction where
  version := 2
  vin :=
    [{ prevout := ⟨Uint256.filled 7, 0⟩, scriptSig := [], nSequence := 0xffffffff,
       scriptWitness := [[0x51]] }]
  vout := [{ nValue := 1000, scriptPubKey := [0x51] }]
  nLockTime := 0

/-- A hash function with one value, and a signature scheme that accepts nothing. -/
def constantCrypto : Crypto :=
  { sampleCrypto with sha256 := fun _ => Uint256.filled 7 }

/-- The input spends the witness program of its script.  It passes also with a
spent output that looks like taproot, for which no segwit hashes are computed. -/
theorem verify_transparent_sample : (verifyWitness ||| verifyP2sh) &&& verifyTaproot = 0 ∧
      ∃ data data', PrecomputedTransactionData.new constantCrypto segwitTx [] = .ok (.ok data) ∧
        PrecomputedTransactionData.new constantCrypto segwitTx
          [⟨7, 0x51 :: 0x20 :: List.replicate 32 0⟩] = .ok (.ok data') ∧
        verify constantCrypto (0x00 :: 0x20 :: List.replicate 32 7) (some 7) segwitTx 0
          (some (verifyWitness ||| verifyP2sh)) data = .ok (.ok ()) ∧
        verify constantCrypto (0x00 :: 0x20 :: List.replicate 32 7) (some 7) segwitTx 0
          (some (verifyWitness ||| verifyP2sh)) data' = .ok (.ok ()) := by
  refine ⟨by decide, ?_⟩
  have hdirect : verifyDirect constantCrypto (0x00 :: 0x20 :: List.replicate 32 7) (some 7)
      segwitTx 0 (verifyWitness ||| verifyP2sh) = .ok (.ok ()) := by
    decide +kernel
  rw [← hdirect]
  exact verify_transparent constantCrypto (0x00 :: 0x20 :: List.replicate 32 7) (some 7) segwitTx
    0 (by decide) (by decide)

end BitcoinKernel.Verify
