import BitcoinKernel.Core.Encoding
import BitcoinKernel.Core.VerifyBinding

/-!
# The results of `verify`

What `verify` returns for data that was made from the verified transaction.

`verify_eq_outcome` gives the result for every script, amount, index and flags:
one error for each check, in the order of the checks, and behind them the
verdict of the script.  No assertion fails on the way, in the interpreter or in
the computation of a digest.

`verify_of_fewer_flags` compares two sets of flags.  A script that passes with
some flags passes with fewer of them.
-/

namespace BitcoinKernel.Verify

open Interpreter Outcome Encoding

/-! ## Bits of the flags -/

/-- A flag of the Rust interface has one bit, at the position that it has in the
kernel. -/
theorem has_fromInt (flags : ScriptVerificationFlags) (name : FlagName) :
    (fromInt flags).has name = flags.toBitVec.getLsbD name.bit := by
  rw [VerifyFlags.has, fromInt, UInt32.toBitVec_toUInt64, BitVec.getLsbD_setWidth]
  cases name <;> rfl

theorem and_flag_ne_zero_iff {flags flag : ScriptVerificationFlags} {bit : Nat}
    (hflag : flag.toBitVec = BitVec.twoPow 32 bit) (hbit : bit < 32) :
    flags &&& flag ≠ 0 ↔ flags.toBitVec.getLsbD bit = true := by
  rw [ne_eq, ← UInt32.toBitVec_inj, UInt32.toBitVec_and, hflag, BitVec.and_twoPow]
  have hne : BitVec.twoPow 32 bit ≠ 0#32 := by
    intro h
    have hget := congrArg (fun x : BitVec 32 => x.getLsbD bit) h
    simp [hbit] at hget
  cases flags.toBitVec.getLsbD bit <;> simp [hne]

theorem and_verifyWitness_ne_zero_iff (flags : ScriptVerificationFlags) :
    flags &&& verifyWitness ≠ 0 ↔ (fromInt flags).has .witness = true := by
  rw [has_fromInt]
  exact and_flag_ne_zero_iff (by decide) (by decide)

theorem and_verifyP2sh_ne_zero_iff (flags : ScriptVerificationFlags) :
    flags &&& verifyP2sh ≠ 0 ↔ (fromInt flags).has .p2sh = true := by
  rw [has_fromInt]
  exact and_flag_ne_zero_iff (by decide) (by decide)

/-- Flags of the interface do not contain `SCRIPT_VERIFY_CLEANSTACK`. -/
theorem has_cleanstack_of_and_eq_zero {flags : ScriptVerificationFlags}
    (h : flags &&& ~~~verifyAll = 0) : (fromInt flags).has .cleanstack = false := by
  have hbit := congrArg (fun x : UInt32 => x.toBitVec.getLsbD 8) h
  rw [has_fromInt]
  show flags.toBitVec.getLsbD 8 = false
  have hall : verifyAll.toBitVec[8] = false := by decide
  simpa [UInt32.toBitVec_and, hall] using hbit

/-- `VERIFY_WITNESS` without `VERIFY_P2SH`. -/
def WitnessWithoutP2sh (flags : ScriptVerificationFlags) : Prop :=
  flags &&& verifyWitness ≠ 0 ∧ flags &&& verifyP2sh = 0

instance (flags : ScriptVerificationFlags) : Decidable (WitnessWithoutP2sh flags) :=
  inferInstanceAs (Decidable (_ ∧ _))

/-- Of the rules on flags, one is left for flags of the interface. -/
theorem isValidCombination_iff {flags : ScriptVerificationFlags} (h : flags &&& ~~~verifyAll = 0) :
    (fromInt flags).isValidCombination = true ↔ ¬WitnessWithoutP2sh flags := by
  have hp2sh : flags &&& verifyP2sh = 0 ↔ ¬(fromInt flags).has .p2sh = true := by
    rw [← and_verifyP2sh_ne_zero_iff, not_ne_iff]
  rw [WitnessWithoutP2sh, and_verifyWitness_ne_zero_iff, hp2sh, VerifyFlags.isValidCombination,
    has_cleanstack_of_and_eq_zero h]
  cases (fromInt flags).has .witness <;> cases (fromInt flags).has .p2sh <;> decide

/-! ## The result for every input -/

/-- What a run of a script says about the input. -/
def verdict : Eval Unit → Result Unit
  | .ok () => .ok ()
  | .error _ => .error (.scriptVerify .invalid)

/-- The verdict of the script of an input. -/
def scriptVerdict (crypto : Crypto) (scriptPubkey : Script) (amount : Option Int64)
    (tx : Transaction) (nIn : Nat) (flags : ScriptVerificationFlags) (data : PrecomputedData) :
    Result Unit :=
  match tx.vin[nIn]? with
  | none => .error (.scriptVerify .txInputIndex)
  | some txin => verdict (runScript crypto scriptPubkey amount tx nIn txin flags data)

/-- The documented results of `verify`, in the order in which they are decided. -/
def outcome (crypto : Crypto) (scriptPubkey : Script) (amount : Option Int64) (tx : Transaction)
    (inputIndex : Nat) (flags : ScriptVerificationFlags) (spentOutputs : List TxOut)
    (data : PrecomputedData) : Result Unit :=
  if ¬inputIndex < tx.vin.length then .error (.scriptVerify .txInputIndex)
  else if flags &&& ~~~verifyAll ≠ 0 then .error (.scriptVerify .invalidFlags)
  else if WitnessWithoutP2sh flags then .error (.scriptVerify .invalidFlagsCombination)
  else if flags &&& verifyTaproot ≠ 0 ∧ spentOutputs = [] then
    .error (.scriptVerify .spentOutputsRequired)
  else scriptVerdict crypto scriptPubkey amount tx inputIndex flags data

section Outcome

variable {crypto : Crypto} {scriptPubkey : Script} {amount : Option Int64} {tx : Transaction}
  {inputIndex : Nat} {flags : Option ScriptVerificationFlags} {spentOutputs : List TxOut}

/-- The index of an input of a transaction that was decoded is not narrowed. -/
theorem checkedInput_eq {raw : List UInt8} (htx : Transaction.new raw = .ok tx)
    (hindex : inputIndex < tx.vin.length) : checkedInput inputIndex = inputIndex := by
  have hsize : tx.vin.length ≤ 0x02000000 := (decodable_of_new htx).vin.1
  apply UInt32.toNat_ofNat_of_lt'
  show inputIndex < 2 ^ 32
  omega

theorem any_flags_eq_decide : (flags.any fun flag => flag &&& ~~~verifyAll ≠ 0) =
      decide (flags.getD verifyAll &&& ~~~verifyAll ≠ 0) := by
  cases flags with
  | none => decide
  | some flag => rfl

/-- Before the script is run, the result of the C function does not depend on
it. -/
theorem verify_of_btck {data : PrecomputedData} (status : ScriptVerifyStatus)
    (hindex : inputIndex < tx.vin.length) (hflags : ¬flags.getD verifyAll &&& ~~~verifyAll ≠ 0)
    (hbtck : btckScriptPubkeyVerify crypto scriptPubkey (amount.getD 0) tx data
      (UInt32.ofNat inputIndex) (flags.getD verifyAll) = .ok (false, status)) :
    verify crypto scriptPubkey amount tx inputIndex flags data =
      .ok (.error (.scriptVerify status.toError)) := by
  rw [verify, if_neg (Nat.not_le_of_lt hindex), any_flags_eq_decide, if_neg (by simpa using hflags)]
  simp only [hbtck]
  rfl

/-- A script that runs without a fault gives the verdict. -/
theorem map_returned_eq_ok {run : Eval Unit} (h : Safe (fun _ => True) run) :
    ((returned run).map fun ret =>
      if ret then (.ok () : Result Unit) else .error (.scriptVerify .invalid)) =
      .ok (verdict run) := by
  rcases hrun : run with (e | fault) | _
  · rfl
  · exact (h.of_eq_error hrun).elim
  · rfl

end Outcome

/-- Data made from the verified transaction, with no spent outputs or one per
input.  `verify` returns, and its result is one of the documented ones, decided
by the documented conditions. -/
theorem verify_eq_outcome {raw : List UInt8} {tx : Transaction} {spentOutputs : List TxOut}
    (htx : Transaction.new raw = .ok tx) (hspent : Accepted tx spentOutputs) (crypto : Crypto)
    (scriptPubkey : Script) (amount : Option Int64) (inputIndex : Nat)
    (flags : Option ScriptVerificationFlags) :
    ∃ data, PrecomputedTransactionData.new crypto tx spentOutputs = .ok (.ok data) ∧
      verify crypto scriptPubkey amount tx inputIndex flags data =
        .ok (outcome crypto scriptPubkey amount tx inputIndex (flags.getD verifyAll) spentOutputs
          data) := by
  refine ⟨precompute crypto tx spentOutputs, new_of_accepted hspent, ?_⟩
  rw [outcome]
  by_cases hindex : inputIndex < tx.vin.length
  case neg =>
    rw [if_pos hindex, verify, if_pos (Nat.le_of_not_lt hindex)]
  rw [if_neg (not_not_intro hindex)]
  by_cases hflags : flags.getD verifyAll &&& ~~~verifyAll ≠ 0
  case pos =>
    rw [if_pos hflags, verify, if_neg (Nat.not_le_of_lt hindex), any_flags_eq_decide,
      if_pos (by simpa using hflags)]
  rw [if_neg hflags]
  have hzero : flags.getD verifyAll &&& ~~~verifyAll = 0 := not_not.mp hflags
  by_cases hcombination : WitnessWithoutP2sh (flags.getD verifyAll)
  case pos =>
    have hinvalid : (fromInt (flags.getD verifyAll)).isValidCombination = false := by
      rw [← Bool.not_eq_true, isValidCombination_iff hzero]
      exact not_not_intro hcombination
    rw [if_pos hcombination]
    apply verify_of_btck .errorInvalidFlagsCombination hindex hflags
    rw [btckScriptPubkeyVerify, if_neg hflags, hinvalid]
    rfl
  rw [if_neg hcombination]
  have hvalid := (isValidCombination_iff hzero).mpr hcombination
  obtain ⟨txin, htxin⟩ := exists_checkedInput hindex
  by_cases hrequired : flags.getD verifyAll &&& verifyTaproot ≠ 0 ∧ spentOutputs = []
  case pos =>
    rw [if_pos hrequired]
    apply verify_of_btck .errorSpentOutputsRequired hindex hflags
    rw [checkedInput] at htxin
    simp only [btckScriptPubkeyVerify, if_neg hflags, hvalid, htxin]
    exact if_pos hrequired
  rw [if_neg hrequired]
  have hpasses : Passes tx inputIndex (flags.getD verifyAll) (precompute crypto tx spentOutputs) :=
    ⟨hindex, hzero, hvalid, fun htaproot hnil => hrequired ⟨htaproot, hnil⟩⟩
  rw [verify_of_passes hpasses htxin]
  rw [checkedInput_eq htx hindex] at htxin ⊢
  rw [scriptVerdict, htxin]
  exact map_returned_eq_ok (runScript_safe hindex hspent hvalid)

/-- A hash function and a signature scheme that accepts nothing. -/
def sampleCrypto : Crypto where
  sha256 _ := Uint256.null
  ripemd160 _ := []
  sha1 _ := []
  checkLowS _ := true
  verifyECDSA _ _ _ := false
  verifySchnorr _ _ _ := false
  checkTapTweak _ _ _ _ := false

/-- `0 OP_CHECKLOCKTIMEVERIFY OP_DROP 1`. -/
def lockTimeScript : Script := [0x00, 0xb1, 0x75, 0x51]

def lockTimeFlags : ScriptVerificationFlags := verifyP2sh ||| verifyChecklocktimeverify

/-- With all flags, a transaction without spent outputs is refused before its
script is run. -/
theorem verify_eq_outcome_sample : Transaction.new sampleRaw = .ok sampleTx ∧ Accepted sampleTx [] ∧
      ∃ data, PrecomputedTransactionData.new sampleCrypto sampleTx [] = .ok (.ok data) ∧
        verify sampleCrypto lockTimeScript none sampleTx 0 none data =
          .ok (.error (.scriptVerify .spentOutputsRequired)) ∧
        verify sampleCrypto lockTimeScript none sampleTx 0 (some lockTimeFlags) data =
          .ok (.ok ()) := by
  have hnew : Transaction.new sampleRaw = .ok sampleTx := by decide +kernel
  have houtcome := fun flags =>
    verify_eq_outcome hnew (.inl rfl) sampleCrypto lockTimeScript none 0 flags
  obtain ⟨data, hdata, hrefused⟩ := houtcome none
  obtain ⟨data', hdata', hrun⟩ := houtcome (some lockTimeFlags)
  cases (new_of_accepted (.inl rfl)).symm.trans hdata
  cases hdata.symm.trans hdata'
  refine ⟨hnew, .inl rfl, _, hdata, hrefused, hrun.trans (congrArg _ ?_)⟩
  decide +kernel

/-! ## Fewer flags -/

theorem subset_of_and_eq {flags flags' : ScriptVerificationFlags} (h : flags' &&& flags = flags') :
    (fromInt flags').Subset (fromInt flags) := by
  intro name hname
  rw [has_fromInt, ← h, UInt32.toBitVec_and, BitVec.getLsbD_and, Bool.and_eq_true] at hname
  rw [has_fromInt]
  exact hname.2

/-- The flags are soft forks: what passes with some flags passes with fewer.
`flags'` has bits of `flags` only, and `VERIFY_WITNESS` only together with
`VERIFY_P2SH`. -/
theorem verify_of_fewer_flags {crypto : Crypto} {scriptPubkey : Script} {amount : Option Int64}
    {tx : Transaction} {inputIndex : Nat} {data : PrecomputedData}
    {flags flags' : Option ScriptVerificationFlags}
    (hsubset : flags'.getD verifyAll &&& flags.getD verifyAll = flags'.getD verifyAll)
    (hcombination : ¬WitnessWithoutP2sh (flags'.getD verifyAll))
    (hok : verify crypto scriptPubkey amount tx inputIndex flags data = .ok (.ok ())) :
    verify crypto scriptPubkey amount tx inputIndex flags' data = .ok (.ok ()) := by
  obtain ⟨hpasses, txin, htxin, hrun⟩ := verify_eq_ok_iff.mp hok
  have hzero : flags'.getD verifyAll &&& ~~~verifyAll = 0 := by
    rw [← hsubset, UInt32.and_assoc, hpasses.flags_and, UInt32.and_zero]
  have hvalid := (isValidCombination_iff hzero).mpr hcombination
  refine verify_eq_ok_iff.mpr ⟨⟨hpasses.inputIndex_lt, hzero, hvalid, ?_⟩, txin, htxin, ?_⟩
  · intro htaproot
    apply hpasses.spentOutputs
    intro hnone
    apply htaproot
    rw [← hsubset, UInt32.and_assoc, hnone, UInt32.and_zero]
  · exact verifyScript_refines_flags (subset_of_and_eq hsubset) hvalid () hrun

theorem verify_of_fewer_flags_sample :
    verify sampleCrypto lockTimeScript none sampleTx 0 (some lockTimeFlags)
        (precompute sampleCrypto sampleTx []) = .ok (.ok ()) ∧
      verify sampleCrypto lockTimeScript none sampleTx 0 (some verifyP2sh)
        (precompute sampleCrypto sampleTx []) = .ok (.ok ()) := by
  have hok : verify sampleCrypto lockTimeScript none sampleTx 0 (some lockTimeFlags)
      (precompute sampleCrypto sampleTx []) = .ok (.ok ()) := by decide +kernel
  exact ⟨hok, verify_of_fewer_flags (by decide) (by decide) hok⟩

end BitcoinKernel.Verify
