import BitcoinKernel.Script.TransactionChecker

/-!
# `PrecomputedTransactionData::new` and `verify`

The two functions of `core/verify.rs` with the C functions that they call.

`verify` takes a transaction and precomputed data as two arguments.  The number
of spent outputs was checked by `new`, against the transaction that the data was
made from.  The input index is checked by `verify`, against the transaction that
is verified.  Nothing compares the two transactions.

`new_eq_ok_iff` says what `new` accepts and returns.  `verify_eq_ok_iff` and
`verify_ne_error` reduce `verify` to `VerifyScript` behind the checks that it
makes (`Passes`).
-/

namespace BitcoinKernel.Verify

open Interpreter Outcome

/-- `ScriptVerifyError`. -/
inductive ScriptVerifyError
  | txInputIndex
  | invalidFlags
  | invalidFlagsCombination
  | spentOutputsRequired
  | invalid
deriving DecidableEq, Repr

/-- `KernelError`, as far as the functions here return it. -/
inductive KernelError
  | scriptVerify (error : ScriptVerifyError)
  | mismatchedOutputsSize
deriving DecidableEq, Repr

/-- `Result<T, KernelError>`.  A call that may fault has the type
`Except Fault (Result α)`. -/
abbrev Result (α : Type) := Except KernelError α

/-! ## Flags -/

/-- `ScriptVerificationFlags`. -/
abbrev ScriptVerificationFlags := UInt32

/-- `VERIFY_NONE`. -/
def verifyNone : ScriptVerificationFlags := 0

/-- `VERIFY_P2SH`. -/
def verifyP2sh : ScriptVerificationFlags := (1 : UInt32) <<< 0

/-- `VERIFY_DERSIG`. -/
def verifyDersig : ScriptVerificationFlags := (1 : UInt32) <<< 2

/-- `VERIFY_NULLDUMMY`. -/
def verifyNulldummy : ScriptVerificationFlags := (1 : UInt32) <<< 4

/-- `VERIFY_CHECKLOCKTIMEVERIFY`. -/
def verifyChecklocktimeverify : ScriptVerificationFlags := (1 : UInt32) <<< 9

/-- `VERIFY_CHECKSEQUENCEVERIFY`. -/
def verifyChecksequenceverify : ScriptVerificationFlags := (1 : UInt32) <<< 10

/-- `VERIFY_WITNESS`. -/
def verifyWitness : ScriptVerificationFlags := (1 : UInt32) <<< 11

/-- `VERIFY_TAPROOT`. -/
def verifyTaproot : ScriptVerificationFlags := (1 : UInt32) <<< 17

/-- `VERIFY_ALL`. -/
def verifyAll : ScriptVerificationFlags :=
  verifyP2sh ||| verifyDersig ||| verifyNulldummy ||| verifyChecklocktimeverify |||
    verifyChecksequenceverify ||| verifyWitness ||| verifyTaproot

/-- `script_verify_flags::from_int`. -/
def fromInt (flags : ScriptVerificationFlags) : VerifyFlags := ⟨flags.toUInt64⟩

/-! ## The C functions -/

variable (crypto : Crypto)

/-- `btck_precomputed_transaction_data_create`. -/
def btckPrecomputedTransactionDataCreate (txTo : Transaction) (spentOutputs : List TxOut) :
    Except Fault PrecomputedData :=
  if !spentOutputs.isEmpty && spentOutputs.length != txTo.vin.length then .error .assertion
  else init crypto txTo spentOutputs

/-- `ScriptVerifyStatus`. -/
inductive ScriptVerifyStatus
  | ok
  | errorInvalidFlagsCombination
  | errorSpentOutputsRequired
deriving DecidableEq, Repr

/-- What a C++ function returns that is true or false and may fault. -/
def returned : Eval Unit → Except Fault Bool
  | .ok () => .ok true
  | .error (.scriptError _) => .ok false
  | .error (.fault fault) => .error fault

/-- The environment of the call of `VerifyScript`. -/
def verifyEnv (amount : Int64) (txTo : Transaction) (txdata : PrecomputedData) (inputIndex : Nat)
    (flags : ScriptVerificationFlags) : VerifyEnv :=
  let data : CheckerData :=
    { txTo, nIn := inputIndex, amount, txdata := some txdata, mdb := .fail }
  { crypto, flags := fromInt flags, checker := data.checker crypto }

/-- `btck_script_pubkey_verify`: the result and the status. -/
def btckScriptPubkeyVerify (scriptPubkey : Script) (amount : Int64) (txTo : Transaction)
    (txdata : PrecomputedData) (inputIndex : UInt32) (flags : ScriptVerificationFlags) :
    Except Fault (Bool × ScriptVerifyStatus) :=
  if flags &&& ~~~verifyAll ≠ 0 then .error .assertion
  else if !(fromInt flags).isValidCombination then .ok (false, .errorInvalidFlagsCombination)
  else
    match txTo.vin[inputIndex.toNat]? with
    | none => .error .assertion
    | some txin =>
      if flags &&& verifyTaproot ≠ 0 ∧ txdata.spentOutputs = [] then
        .ok (false, .errorSpentOutputsRequired)
      else do
        let env := verifyEnv crypto amount txTo txdata inputIndex.toNat flags
        let result ← returned (verifyScript env txin.scriptSig scriptPubkey txin.scriptWitness)
        return (result, .ok)

/-! ## The Rust functions -/

/-- `PrecomputedTransactionData::new`. -/
def PrecomputedTransactionData.new (tx : Transaction) (spentOutputs : List TxOut) :
    Except Fault (Result PrecomputedData) :=
  if !spentOutputs.isEmpty && spentOutputs.length != tx.vin.length then
    .ok (.error .mismatchedOutputsSize)
  else do
    let inner ← btckPrecomputedTransactionDataCreate crypto tx spentOutputs
    return .ok inner

/-- The error of a verification that did not pass. -/
def ScriptVerifyStatus.toError : ScriptVerifyStatus → ScriptVerifyError
  | .errorInvalidFlagsCombination => .invalidFlagsCombination
  | .errorSpentOutputsRequired => .spentOutputsRequired
  | .ok => .invalid

/-- `verify`. -/
def verify (scriptPubkey : Script) (amount : Option Int64) (txTo : Transaction) (inputIndex : Nat)
    (flags : Option ScriptVerificationFlags) (precomputedTxdata : PrecomputedData) :
    Except Fault (Result Unit) :=
  if inputIndex ≥ txTo.vin.length then .ok (.error (.scriptVerify .txInputIndex))
  else if flags.any fun flag => flag &&& ~~~verifyAll ≠ 0 then
    .ok (.error (.scriptVerify .invalidFlags))
  else do
    let kernelFlags := flags.getD verifyAll
    let kernelAmount := amount.getD 0
    let (ret, status) ←
      btckScriptPubkeyVerify crypto scriptPubkey kernelAmount txTo precomputedTxdata
        (UInt32.ofNat inputIndex) kernelFlags
    return if ret then .ok () else .error (.scriptVerify status.toError)

/-! ## What the calls come down to -/

variable {crypto}

/-- The number of spent outputs that `new` accepts. -/
def Accepted (tx : Transaction) (spentOutputs : List TxOut) : Prop :=
  spentOutputs = [] ∨ spentOutputs.length = tx.vin.length

variable {tx : Transaction} {spentOutputs : List TxOut}

theorem new_of_accepted (h : Accepted tx spentOutputs) :
    PrecomputedTransactionData.new crypto tx spentOutputs =
      .ok (.ok (precompute crypto tx spentOutputs)) := by
  have hguard : (!spentOutputs.isEmpty && spentOutputs.length != tx.vin.length) = false := by
    rcases h with rfl | h <;> simp [*]
  have hinit : (spentOutputs.isEmpty || spentOutputs.length == tx.vin.length) = true := by
    rcases h with rfl | h <;> simp [*]
  rw [PrecomputedTransactionData.new, btckPrecomputedTransactionDataCreate, init, hguard, hinit]
  rfl

theorem new_of_not_accepted (h : ¬Accepted tx spentOutputs) :
    PrecomputedTransactionData.new crypto tx spentOutputs =
      .ok (.error .mismatchedOutputsSize) := by
  have hguard : (!spentOutputs.isEmpty && spentOutputs.length != tx.vin.length) = true := by
    simpa [Accepted] using h
  rw [PrecomputedTransactionData.new, hguard]
  rfl

theorem new_eq_ok_iff {data : PrecomputedData} :
    PrecomputedTransactionData.new crypto tx spentOutputs = .ok (.ok data) ↔
      Accepted tx spentOutputs ∧ data = precompute crypto tx spentOutputs := by
  by_cases h : Accepted tx spentOutputs
  · simp [new_of_accepted h, h, eq_comm]
  · simp [new_of_not_accepted h, h]

/-- The input that `verify` hands to the kernel: `input_index as u32`. -/
def checkedInput (inputIndex : Nat) : Nat := (UInt32.ofNat inputIndex).toNat

theorem checkedInput_le (inputIndex : Nat) : checkedInput inputIndex ≤ inputIndex := by
  rw [checkedInput, UInt32.toNat_ofNat']
  exact Nat.mod_le _ _

/-- The checks that `verify` and the C function make before they run the script. -/
structure Passes (txTo : Transaction) (inputIndex : Nat) (flags : ScriptVerificationFlags)
    (data : PrecomputedData) : Prop where
  inputIndex_lt : inputIndex < txTo.vin.length
  flags_and : flags &&& ~~~verifyAll = 0
  valid : (fromInt flags).isValidCombination = true
  spentOutputs : flags &&& verifyTaproot ≠ 0 → data.spentOutputs ≠ []

/-- `VerifyScript` as `verify` calls it. -/
def runScript (crypto : Crypto) (scriptPubkey : Script) (amount : Option Int64)
    (txTo : Transaction) (nIn : Nat) (txin : TxIn) (flags : ScriptVerificationFlags)
    (data : PrecomputedData) : Eval Unit :=
  verifyScript (verifyEnv crypto (amount.getD 0) txTo data nIn flags) txin.scriptSig scriptPubkey
    txin.scriptWitness

section Calls

variable {txTo : Transaction} {inputIndex : Nat} {data : PrecomputedData}

/-- The input that is verified exists. -/
theorem exists_checkedInput (h : inputIndex < txTo.vin.length) :
    ∃ txin, txTo.vin[checkedInput inputIndex]? = some txin :=
  ⟨_, List.getElem?_eq_getElem (Nat.lt_of_le_of_lt (checkedInput_le inputIndex) h)⟩

/-- Behind its checks, the C function reports what `VerifyScript` returns. -/
theorem btckScriptPubkeyVerify_of_passes {flags : ScriptVerificationFlags}
    (h : Passes txTo inputIndex flags data) {txin : TxIn}
    (htxin : txTo.vin[checkedInput inputIndex]? = some txin) (scriptPubkey : Script)
    (amount : Option Int64) :
    btckScriptPubkeyVerify crypto scriptPubkey (amount.getD 0) txTo data (UInt32.ofNat inputIndex)
        flags =
      (returned (runScript crypto scriptPubkey amount txTo (checkedInput inputIndex) txin flags
        data)).map fun ret => (ret, .ok) := by
  have hspent : ¬(flags &&& verifyTaproot ≠ 0 ∧ data.spentOutputs = []) :=
    fun hspent => h.spentOutputs hspent.1 hspent.2
  rw [checkedInput] at htxin
  simp only [btckScriptPubkeyVerify, if_neg (not_not_intro h.flags_and), h.valid, htxin,
    if_neg hspent, runScript, checkedInput]
  cases returned (verifyScript _ txin.scriptSig scriptPubkey txin.scriptWitness) <;> rfl

/-- A check that fails is reported, not asserted. -/
theorem btckScriptPubkeyVerify_of_not_passes {flags : ScriptVerificationFlags}
    (hindex : inputIndex < txTo.vin.length) (hflags : flags &&& ~~~verifyAll = 0)
    (h : ¬Passes txTo inputIndex flags data) (crypto : Crypto) (scriptPubkey : Script)
    (amount : Int64) :
    ∃ status, btckScriptPubkeyVerify crypto scriptPubkey amount txTo data
      (UInt32.ofNat inputIndex) flags = .ok (false, status) := by
  simp only [btckScriptPubkeyVerify, if_neg (not_not_intro hflags)]
  split
  · exact ⟨_, rfl⟩
  next hvalid =>
  obtain ⟨txin, htxin⟩ := exists_checkedInput hindex
  rw [checkedInput] at htxin
  rw [htxin]
  dsimp only
  split
  · exact ⟨_, rfl⟩
  next hspent =>
  refine absurd ?_ h
  exact ⟨hindex, hflags, by simpa using hvalid, fun h1 h2 => hspent ⟨h1, h2⟩⟩

variable {flags : Option ScriptVerificationFlags}

theorem verify_of_passes (h : Passes txTo inputIndex (flags.getD verifyAll) data) {txin : TxIn}
    (htxin : txTo.vin[checkedInput inputIndex]? = some txin) (scriptPubkey : Script)
    (amount : Option Int64) :
    verify crypto scriptPubkey amount txTo inputIndex flags data =
      (returned (runScript crypto scriptPubkey amount txTo (checkedInput inputIndex) txin
        (flags.getD verifyAll) data)).map
        fun ret => if ret then .ok () else .error (.scriptVerify .invalid) := by
  have hany : (flags.any fun flag => flag &&& ~~~verifyAll ≠ 0) = false := by
    cases flags with
    | none => rfl
    | some flag => simpa using h.flags_and
  simp only [verify, if_neg (Nat.not_le_of_lt h.inputIndex_lt), hany,
    btckScriptPubkeyVerify_of_passes h htxin]
  cases returned (runScript crypto scriptPubkey amount txTo (checkedInput inputIndex) txin
    (flags.getD verifyAll) data) <;> rfl

theorem verify_of_not_passes (h : ¬Passes txTo inputIndex (flags.getD verifyAll) data)
    (crypto : Crypto) (scriptPubkey : Script) (amount : Option Int64) :
    ∃ error, verify crypto scriptPubkey amount txTo inputIndex flags data = .ok (.error error) := by
  rw [verify]
  split
  · exact ⟨_, rfl⟩
  next hindex =>
  split
  · exact ⟨_, rfl⟩
  next hany =>
  have hflags : flags.getD verifyAll &&& ~~~verifyAll = 0 := by
    cases flags with
    | none => decide
    | some flag => simpa using hany
  obtain ⟨status, hstatus⟩ := btckScriptPubkeyVerify_of_not_passes (Nat.lt_of_not_le hindex) hflags
    h crypto scriptPubkey (amount.getD 0)
  simp only [hstatus]
  exact ⟨_, rfl⟩

theorem verify_eq_ok_iff {scriptPubkey : Script} {amount : Option Int64} :
    verify crypto scriptPubkey amount txTo inputIndex flags data = .ok (.ok ()) ↔
      Passes txTo inputIndex (flags.getD verifyAll) data ∧
        ∃ txin, txTo.vin[checkedInput inputIndex]? = some txin ∧
          runScript crypto scriptPubkey amount txTo (checkedInput inputIndex) txin
            (flags.getD verifyAll) data = .ok () := by
  by_cases h : Passes txTo inputIndex (flags.getD verifyAll) data
  · obtain ⟨txin, htxin⟩ := exists_checkedInput h.inputIndex_lt
    rw [verify_of_passes h htxin]
    simp only [h, htxin, true_and, Option.some.injEq, exists_eq_left']
    rcases runScript crypto scriptPubkey amount txTo (checkedInput inputIndex) txin
      (flags.getD verifyAll) data with (_ | _) | _ <;> simp [returned, Except.map]
  · obtain ⟨error, herror⟩ := verify_of_not_passes h crypto scriptPubkey amount
    simp [herror, h]

/-- `verify` faults only if `VerifyScript` does. -/
theorem verify_ne_error {scriptPubkey : Script} {amount : Option Int64}
    (h : ∀ txin, Passes txTo inputIndex (flags.getD verifyAll) data →
      txTo.vin[checkedInput inputIndex]? = some txin →
      ∀ fault, runScript crypto scriptPubkey amount txTo (checkedInput inputIndex) txin
        (flags.getD verifyAll) data ≠ .error (.fault fault)) (fault : Fault) :
    verify crypto scriptPubkey amount txTo inputIndex flags data ≠ .error fault := by
  by_cases hpasses : Passes txTo inputIndex (flags.getD verifyAll) data
  · obtain ⟨txin, htxin⟩ := exists_checkedInput hpasses.inputIndex_lt
    have hrun := h txin hpasses htxin fault
    rw [verify_of_passes hpasses htxin]
    rcases heq : runScript crypto scriptPubkey amount txTo (checkedInput inputIndex) txin
      (flags.getD verifyAll) data with (_ | _) | _ <;> simp_all [returned, Except.map]
  · obtain ⟨error, herror⟩ := verify_of_not_passes hpasses crypto scriptPubkey amount
    simp [herror]

end Calls

end BitcoinKernel.Verify
