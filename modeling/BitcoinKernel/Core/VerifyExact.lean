import BitcoinKernel.Core.VerifyBinding

/-!
# When the data of another transaction serves

`alwaysBound_iff` is the exact condition under which precomputed data of a
transaction `tx` may be used to verify an input of `txTo`, whatever the script,
the signature of the input, the amount and the flags are, and for all hash
functions and signature schemes.  The number of spent outputs must be right for
`txTo`.  Hashes that the data has must be of bytes that are the same in both
transactions.  If the data has taproot hashes, the data of `txTo` must have them,
too.

That this is sufficient is `isBound_of_fits`.  That it is necessary is shown by
three spends: a script that needs no signature, a segwit spend and a taproot
spend, the last two with one signature each.  A signature scheme accepts one
digest only, the one that the data of `tx` gives (`oracle`).  The hash function
has no collision on the strings that matter (`separate`), so if the spend is
accepted with the data of `txTo`, the hashed bytes are the same.
-/

namespace BitcoinKernel.Verify

open Interpreter Outcome Serialize List

/-! ## Signing an input -/

/-- `tx` with another input script and another witness in one of its inputs. -/
def signInput (tx : Transaction) (nIn : Nat) (scriptSig : Script) (witness : List Val) :
    Transaction :=
  { tx with vin := tx.vin.modify nIn fun txin => { txin with scriptSig, scriptWitness := witness } }

section SignInput

variable (tx : Transaction) (nIn : Nat) (scriptSig : Script) (witness : List Val)

@[simp] theorem length_signInput_vin :
    (signInput tx nIn scriptSig witness).vin.length = tx.vin.length :=
  length_modify _ _ _

theorem signInput_vin_getElem? (i : Nat) : (signInput tx nIn scriptSig witness).vin[i]? =
      tx.vin[i]?.map fun txin =>
        if nIn = i then { txin with scriptSig, scriptWitness := witness } else txin :=
  getElem?_modify _ _ _ _

/-- What a signature is no part of does not change. -/
theorem flatMap_signInput_vin (f : TxIn → List UInt8)
    (hf : ∀ txin, f { txin with scriptSig, scriptWitness := witness } = f txin) :
    (signInput tx nIn scriptSig witness).vin.flatMap f = tx.vin.flatMap f := by
  have hmap : (signInput tx nIn scriptSig witness).vin.map f = tx.vin.map f := by
    refine ext_getElem? fun i => ?_
    rw [getElem?_map, getElem?_map, signInput_vin_getElem?, Option.map_map]
    congr 1
    funext txin
    simp only [Function.comp]
    split
    · exact hf txin
    · rfl
  rw [flatMap_def, flatMap_def, hmap]

/-- Precomputed hashes do not cover signatures. -/
theorem sameHashedParts_signInput_iff (tx' : Transaction) :
    SameHashedParts tx' (signInput tx nIn scriptSig witness) ↔ SameHashedParts tx' tx := by
  have hprevouts := flatMap_signInput_vin tx nIn scriptSig witness
    (fun txin => writeOutPoint txin.prevout) fun _ => rfl
  have hsequences := flatMap_signInput_vin tx nIn scriptSig witness
    (fun txin => writeUint32 txin.nSequence) fun _ => rfl
  constructor
  · exact fun h => ⟨h.prevouts.trans hprevouts, h.sequences.trans hsequences, h.outputs⟩
  · exact fun h =>
      ⟨h.prevouts.trans hprevouts.symm, h.sequences.trans hsequences.symm, h.outputs⟩

theorem accepted_signInput_iff (spentOutputs : List TxOut) :
    Accepted (signInput tx nIn scriptSig witness) spentOutputs ↔ Accepted tx spentOutputs := by
  rw [Accepted, Accepted, length_signInput_vin]

end SignInput

variable {spentOutputs : List TxOut} {opcode : UInt8} {program : Val}

theorem usesBip341Taproot_iff {tx : Transaction} : usesBip341Taproot tx spentOutputs = true ↔
      ∃ (i : Nat) (txin : TxIn), tx.vin[i]? = some txin ∧ txin.scriptWitness.isEmpty = false ∧
        looksLikeTaproot spentOutputs[i]? = true := by
  simp only [usesBip341Taproot, any_eq_true, mem_zipIdx_iff_getElem?, Prod.exists,
    Bool.and_eq_true, Bool.not_eq_true']
  exact exists_comm

/-- Whether `Init` finds a taproot spend does not depend on what an input is
signed with, if there is a witness at all. -/
theorem usesBip341Taproot_signInput {tx : Transaction} {nIn : Nat} {scriptSig scriptSig' : Script}
    {witness witness' : List Val} (h : witness'.isEmpty = false)
    (huses : usesBip341Taproot (signInput tx nIn scriptSig witness) spentOutputs = true) :
    usesBip341Taproot (signInput tx nIn scriptSig' witness') spentOutputs = true := by
  obtain ⟨i, txin, htxin, hwitness, hspent⟩ := usesBip341Taproot_iff.mp huses
  rw [signInput_vin_getElem?, Option.map_eq_some_iff] at htxin
  obtain ⟨txin', htxin', rfl⟩ := htxin
  have hsigned := signInput_vin_getElem? tx nIn scriptSig' witness' i
  rw [htxin', Option.map_some] at hsigned
  refine usesBip341Taproot_iff.mpr ⟨i, _, hsigned, ?_, hspent⟩
  split
  · exact h
  · next hne => rwa [if_neg hne] at hwitness

/-! ## A hash that separates given strings -/

/-- The hashes that are used below.  They are true as script values. -/
def code (index : Nat) : Uint256 := ⟨1 :: UInt8.ofNat index :: List.replicate 30 0, by simp⟩

theorem code_injective {i j : Nat} (hi : i < 256) (hj : j < 256) (h : code i = code j) : i = j := by
  have hbyte : UInt8.ofNat i = UInt8.ofNat j := by
    simpa [code] using h
  have hnat := congrArg UInt8.toNat hbyte
  rwa [UInt8.toNat_ofNat_of_lt' hi, UInt8.toNat_ofNat_of_lt' hj] at hnat

/-- The bytes of the hashes below. -/
def codes : List (List UInt8) := (List.range 16).map fun index => (code index).bytes

/-- A hash without collisions on the strings of `early`, on `last` and on
`codes`. -/
def separate (early : List (List UInt8)) (last : List UInt8) (data : List UInt8) : Uint256 :=
  code ((early ++ last :: codes).idxOf data)

section Separate

variable {early : List (List UInt8)} {last : List UInt8}

variable {a b last' : List UInt8}

theorem separate_injective (hearly : early.length < 16) (ha : a ∈ early ++ last :: codes)
    (h : separate early last a = separate early last b) : a = b := by
  have hlength : (early ++ last :: codes).length < 256 := by
    simp only [length_append, length_cons, codes, length_map, length_range]
    omega
  have hidx (data : List UInt8) : (early ++ last :: codes).idxOf data < 256 :=
    Nat.lt_of_le_of_lt idxOf_le_length hlength
  exact (idxOf_inj ha).mp (code_injective (hidx a) (hidx b) h)

/-- The hash of an early string does not depend on the last one. -/
theorem separate_of_mem (ha : a ∈ early) (last last' : List UInt8) :
    separate early last a = separate early last' a := by
  rw [separate, separate, idxOf_append, idxOf_append, if_pos ha, if_pos ha]

/-- Nor does the hash of another string, as long as it is not the last one. -/
theorem separate_of_ne (ha : last ≠ a) (ha' : last' ≠ a) :
    separate early last a = separate early last' a := by
  rw [separate, separate, idxOf_append, idxOf_append, idxOf_cons, idxOf_cons,
    beq_false_of_ne ha, beq_false_of_ne ha']

/-- The hashes of the given strings are among the codes. -/
theorem separate_bytes_mem_codes (hearly : early.length < 16) (ha : a ∈ early ++ [last]) :
    (separate early last a).bytes ∈ codes := by
  have hlt : (early ++ last :: codes).idxOf a < 16 := by
    rw [append_cons, idxOf_append, if_pos ha]
    refine Nat.lt_of_lt_of_le (idxOf_lt_length_of_mem ha) ?_
    rw [length_append, length_singleton]
    omega
  exact mem_map.mpr ⟨_, mem_range.mpr hlt, rfl⟩

/-- The double hash separates the given strings, too. -/
theorem separate_separate_injective (hearly : early.length < 16) (ha : a ∈ early ++ [last])
    (h : separate early last (separate early last a).bytes =
      separate early last (separate early last b).bytes) : a = b := by
  have hmem : (separate early last a).bytes ∈ early ++ last :: codes :=
    mem_append_right _ (mem_cons_of_mem _ (separate_bytes_mem_codes hearly ha))
  have ha' : a ∈ early ++ last :: codes := by
    rw [append_cons]
    exact mem_append_left _ ha
  exact separate_injective hearly ha' (Uint256.ext (separate_injective hearly hmem h))

/-- The double hash of an early string does not depend on the last one either, if
that is no hash. -/
theorem separate_separate_of_mem (ha : a ∈ early) (hlast : last.length ≠ 32)
    (hlast' : last'.length ≠ 32) :
    separate early last (separate early last a).bytes =
      separate early last' (separate early last' a).bytes := by
  have hne {q : List UInt8} (hq : q.length ≠ 32) (x : Uint256) : q ≠ x.bytes := by
    rintro rfl
    exact hq x.length_eq
  rw [separate_of_mem ha last last']
  exact separate_of_ne (hne hlast _) (hne hlast' _)

end Separate

/-- Hashes as given, and signatures that are right for one digest. -/
def oracle (sha256 : List UInt8 → Uint256) (target : Uint256) : Crypto where
  sha256
  ripemd160 _ := []
  sha1 _ := []
  checkLowS _ := true
  verifyECDSA _ _ sighash := sighash == target
  verifySchnorr _ _ sighash := sighash == target
  checkTapTweak _ _ _ _ := false

@[simp] theorem oracle_sha256 (sha256 : List UInt8 → Uint256) (target : Uint256) :
    (oracle sha256 target).sha256 = sha256 := rfl

/-! ## Three spends -/

/-- The flags for a segwit spend. -/
def segwitFlags : ScriptVerificationFlags := verifyP2sh ||| verifyWitness

/-- The flags for a taproot spend. -/
def taprootFlags : ScriptVerificationFlags := segwitFlags ||| verifyTaproot

/-- A checker that accepts nothing. -/
def rejecting : SignatureChecker where
  checkECDSASignature _ _ _ _ _ := fail .unknownError
  checkSchnorrSignature _ _ _ _ := fail .unknownError
  checkLockTime _ := false
  checkSequence _ := false

theorem rejecting_below (sigversion : SigVersion) (checker : SignatureChecker) :
    rejecting.Below sigversion checker where
  ecdsa _ _ _ _ := .error _ _
  schnorr _ _ _ := .error _ _
  lockTime _ h := nomatch h
  sequence _ h := nomatch h

/-- A spend without a signature. -/
theorem verifyScript_op1 (checker : SignatureChecker) :
    verifyScript ⟨oracle (fun _ => Uint256.null) Uint256.null, fromInt verifyNone, checker⟩ []
      [Opcode.op1.code] [] = .ok () := by
  have hrejecting : verifyScript
      ⟨oracle (fun _ => Uint256.null) Uint256.null, fromInt verifyNone, rejecting⟩ []
      [Opcode.op1.code] [] = .ok () := by decide
  exact verifyScript_refines_of_not_witness (VerifyFlags.Subset.refl _) (by decide)
    (rejecting_below _ checker) (by decide) _ hrejecting

theorem witnessProgram_instructions (hop : opcode = 0 ∨ opcode = 0x51) (h : program.length = 32) :
    Script.instructions (opcode :: 0x20 :: program) =
      ([⟨opcode, [], 0x20 :: program⟩, ⟨0x20, program, []⟩], true) := by
  have hfirst : getScriptOp (opcode :: 0x20 :: program) = some ⟨opcode, [], 0x20 :: program⟩ := by
    rcases hop with rfl | rfl <;> rfl
  have hsecond : getScriptOp (0x20 :: program) = some ⟨0x20, program, []⟩ := by
    simp [getScriptOp, pushSize, Opcode.code, h, take_of_length_le]
  rw [Script.instructions_eq, hfirst]
  simp only [Script.instructions_eq (0x20 :: program), hsecond]
  rfl

/-- A witness program as a script pushes its version and the program. -/
theorem evalScript_witnessProgram (env : EvalEnv) (hversion : env.sigversion = .base)
    (hminimal : env.flags.has .minimaldata = false)
    (hconst : env.flags.has .constScriptcode = false) (hop : opcode = 0 ∨ opcode = 0x51)
    (h : program.length = 32) :
    ∃ st, evalScript env [] (opcode :: 0x20 :: program) {} {} = .ok st ∧ st.sighashCache = {} ∧
      ∃ version, st.stack = [program, version] := by
  have hdisabled : isDisabledOpcode 0x20 = false ∧ isDisabledOpcode 0 = false ∧
      isDisabledOpcode 0x51 = false := by decide
  have hop1 : Opcode.ofCode 0x51 = some .op1 := by decide
  rcases hop with rfl | rfl <;>
    simp [evalScript, assertThat, failIf, hversion, SigVersion.isPreTapscript, h, maxScriptSize,
      witnessProgram_instructions, evalStep, maxScriptElementSize, countOpcode, Opcode.code,
      hdisabled, hconst, evalInstruction, ConditionStack.allTrue, hminimal, hop1, evalOpcode,
      stackOp, maxStackSize, ConditionStack.empty, pure, Except.pure]

/-- A spend of a native witness program comes down to the program. -/
theorem verifyScript_witnessProgram {flags : ScriptVerificationFlags}
    (hflags : flags = segwitFlags ∨ flags = taprootFlags) (crypto : Crypto)
    (checker : SignatureChecker) (hop : opcode = 0 ∨ opcode = 0x51) (h : program.length = 32)
    (htrue : castToBool program = true) (witness : List Val) :
    verifyScript ⟨crypto, fromInt flags, checker⟩ [] (opcode :: 0x20 :: program) witness =
      verifyWitnessProgram ⟨crypto, fromInt flags, checker⟩ witness (decodeOpN opcode) program
        false {} := by
  have hhas : (fromInt flags).has .sigpushonly = false ∧
      (fromInt flags).has .minimaldata = false ∧ (fromInt flags).has .constScriptcode = false ∧
      (fromInt flags).has .witness = true ∧ (fromInt flags).has .p2sh = true ∧
      (fromInt flags).has .cleanstack = false := by
    rcases hflags with rfl | rfl <;> decide
  obtain ⟨hpush, hminimal, hconst, hwitness, hp2sh, hclean⟩ := hhas
  have hempty : evalScript ((VerifyEnv.mk crypto (fromInt flags) checker).eval .base) [] []
      {} {} = .ok { stack := [], codeHash := [], sighashCache := {}
                    execdata := { codeseparatorPos := some 0xffffffff } } := rfl
  obtain ⟨st, hst, hcache, version, hstack⟩ := evalScript_witnessProgram
    ((VerifyEnv.mk crypto (fromInt flags) checker).eval .base) rfl hminimal hconst hop h
  have hprogram : Script.isWitnessProgram (opcode :: 0x20 :: program) =
      some (decodeOpN opcode, program) := by
    rcases hop with rfl | rfl <;> simp [Script.isWitnessProgram, h, Opcode.code]
  have hscript : Script.isPayToScriptHash (opcode :: 0x20 :: program) = false := by
    simp [Script.isPayToScriptHash, h]
  simp [verifyScript, hpush, failIf, hempty, evalToTrue, hst, hstack, htrue, verifyProgramIn,
    hwitness, hprogram, hscript, hcache, verifyEnd, checkCleanstack, hclean,
    checkUnexpectedWitness, hp2sh, assertThat, pure, Except.pure]
  cases verifyWitnessProgram ⟨crypto, fromInt flags, checker⟩ witness (decodeOpN opcode) program
    false {} <;> rfl

/-- A public key. -/
def spendPubKey : Val := 2 :: List.replicate 32 0

/-- A script that checks a signature. -/
def spendScript : Script := 0x21 :: spendPubKey ++ [Opcode.opChecksig.code]

/-- A signature of the hash type `SIGHASH_ALL`. -/
def spendSig : Val := [1]

theorem spendScript_instructions : spendScript.instructions =
    ([⟨0x21, spendPubKey, [Opcode.opChecksig.code]⟩, ⟨Opcode.opChecksig.code, [], []⟩], true) := by
  decide

/-- A segwit spend comes down to its signature. -/
theorem verifyWitnessProgram_segwit (crypto : Crypto) (checker : SignatureChecker) :
    verifyWitnessProgram ⟨crypto, fromInt segwitFlags, checker⟩ [spendSig, spendScript] 0
        (crypto.sha256 spendScript).bytes false {} =
      checker.checkECDSASignature spendSig spendPubKey spendScript .witnessV0 {} >>=
        fun r => failIf (!r.1) .evalFalse := by
  have hflags : (fromInt segwitFlags).has .minimaldata = false ∧
      (fromInt segwitFlags).has .constScriptcode = false ∧
      (fromInt segwitFlags).has .nullfail = false := by decide
  have hsig : checkSignatureEncoding crypto (fromInt segwitFlags) spendSig = .ok () := rfl
  have hpubkey : checkPubKeyEncoding (fromInt segwitFlags) .witnessV0 spendPubKey = .ok () := rfl
  have hlength : spendScript.length = 35 ∧ spendPubKey.length = 33 ∧ spendSig.length = 1 := by
    decide
  have hdisabled : isDisabledOpcode 0x21 = false ∧
      isDisabledOpcode Opcode.opChecksig.code = false := by decide
  have hcount : countOpcode .witnessV0 0x21 0 = 0 ∧
      countOpcode .witnessV0 Opcode.opChecksig.code 0 = 1 := by decide
  have hpush : (0x21 : UInt8) ≤ Opcode.opPushdata4.code ∧
      ¬Opcode.opChecksig.code ≤ Opcode.opPushdata4.code := by decide
  have hop : stackOp crypto .opChecksig = none ∧ unaryOp .opChecksig = none ∧
      binaryOp .opChecksig = none := ⟨rfl, rfl, rfl⟩
  simp [verifyWitnessProgram, verifyWitnessV0, Uint256.length_eq, failIf, executeWitnessScript,
    runWitnessScript, evalScript, VerifyEnv.eval, assertThat, SigVersion.isPreTapscript,
    maxScriptSize, hlength, maxScriptElementSize, spendScript_instructions, evalStep, hcount,
    hdisabled, maxOpsPerScript, hflags, evalInstruction, ConditionStack.allTrue, hpush,
    Opcode.ofCode_code, evalOpcode, hop, controlOp, evalChecksigOp, evalChecksig,
    evalChecksigPreTapscript, hsig, hpubkey, maxStackSize, pushResult, ConditionStack.empty, pure,
    Except.pure]
  rcases checker.checkECDSASignature spendSig spendPubKey spendScript .witnessV0 {} with
    e | ⟨fSuccess, cache⟩
  · rfl
  · cases fSuccess <;> rfl

/-- A taproot spend of the key path comes down to its signature. -/
theorem verifyWitnessProgram_taproot (crypto : Crypto) (checker : SignatureChecker) (sig : Val)
    (h : program.length = 32) :
    verifyWitnessProgram ⟨crypto, fromInt taprootFlags, checker⟩ [sig] 1 program false {} =
      checker.checkSchnorrSignature sig program .taproot { annexHash := some none } >>=
        fun _ => .ok () := by
  have hflag : (fromInt taprootFlags).has .taproot = true := by decide
  simp [verifyWitnessProgram, h, hflag, Interpreter.verifyTaproot, failIf, splitAnnex, pure,
    Except.pure]

/-! ## The condition is necessary -/

/-- The data of `tx` is bound to `txTo`, whatever the input is signed with. -/
def AlwaysBound (tx txTo : Transaction) (inputIndex : Nat) (spentOutputs : List TxOut) : Prop :=
  ∀ crypto scriptPubkey amount flags scriptSig witness data,
    PrecomputedTransactionData.new crypto tx spentOutputs = .ok (.ok data) →
      IsBound crypto scriptPubkey amount
        (signInput txTo (checkedInput inputIndex) scriptSig witness) inputIndex flags spentOutputs
        data

section Necessary

variable {tx txTo : Transaction} {inputIndex : Nat} {spentOutputs : List TxOut}

variable {scriptPubkey : Script} {witness : List Val} {txin : TxIn} {sha256 : List UInt8 → Uint256}
  {target : Uint256} {nIn : Nat}

theorem verify_signInput_iff {crypto : Crypto} {flags : ScriptVerificationFlags}
    {data : PrecomputedData} (hindex : inputIndex < txTo.vin.length)
    (hand : flags &&& ~~~verifyAll = 0) (hvalid : (fromInt flags).isValidCombination = true)
    (hspent : flags &&& verifyTaproot ≠ 0 → data.spentOutputs ≠ []) :
    verify crypto scriptPubkey none (signInput txTo (checkedInput inputIndex) [] witness)
        inputIndex (some flags) data = .ok (.ok ()) ↔
      verifyScript (verifyEnv crypto 0 (signInput txTo (checkedInput inputIndex) [] witness) data
        (checkedInput inputIndex) flags) [] scriptPubkey witness = .ok () := by
  obtain ⟨txin, htxin⟩ := exists_checkedInput hindex
  have hsigned := signInput_vin_getElem? txTo (checkedInput inputIndex) [] witness
    (checkedInput inputIndex)
  rw [htxin, Option.map_some, if_pos rfl] at hsigned
  have hpasses : Passes (signInput txTo (checkedInput inputIndex) [] witness) inputIndex flags
      data := ⟨by rwa [length_signInput_vin], hand, hvalid, hspent⟩
  rw [verify_eq_ok_iff, hsigned]
  simp [hpasses, runScript]

/-- A spend that is accepted with the data of `tx` is accepted with the right
data. -/
theorem AlwaysBound.transfer (hbound : AlwaysBound tx txTo inputIndex spentOutputs)
    (haccepted : Accepted tx spentOutputs) (hindex : inputIndex < txTo.vin.length)
    (flags : ScriptVerificationFlags) (hand : flags &&& ~~~verifyAll = 0)
    (hvalid : (fromInt flags).isValidCombination = true)
    (hspent : flags &&& verifyTaproot ≠ 0 → spentOutputs ≠ []) {crypto : Crypto}
    (h : verifyScript (verifyEnv crypto 0 (signInput txTo (checkedInput inputIndex) [] witness)
      (precompute crypto tx spentOutputs) (checkedInput inputIndex) flags) [] scriptPubkey
      witness = .ok ()) :
    Accepted txTo spentOutputs ∧
      verifyScript (verifyEnv crypto 0 (signInput txTo (checkedInput inputIndex) [] witness)
        (precompute crypto (signInput txTo (checkedInput inputIndex) [] witness) spentOutputs)
        (checkedInput inputIndex) flags) [] scriptPubkey witness = .ok () := by
  have hok := (hbound crypto scriptPubkey none (some flags) [] witness _
    (new_of_accepted haccepted)).2
  rw [verify_signInput_iff hindex hand hvalid hspent] at hok
  obtain ⟨data', hnew, hverify⟩ := hok h
  obtain ⟨haccepted', rfl⟩ := new_eq_ok_iff.mp hnew
  exact ⟨(accepted_signInput_iff _ _ _ _ _).mp haccepted',
    (verify_signInput_iff hindex hand hvalid hspent).mp hverify⟩

theorem AlwaysBound.accepted (hbound : AlwaysBound tx txTo inputIndex spentOutputs)
    (haccepted : Accepted tx spentOutputs) (hindex : inputIndex < txTo.vin.length) :
    Accepted txTo spentOutputs := by
  exact (hbound.transfer haccepted hindex verifyNone (by decide) (by decide)
    (fun h => absurd rfl h) (verifyScript_op1 _)).1

/-! ### Segwit -/

/-- A segwit digest of the hash type `SIGHASH_ALL`, with given hashes of the
prevouts, the sequence numbers and the outputs. -/
def segwitPreimageOf (txTo : Transaction) (txin : TxIn)
    (hashPrevouts hashSequence hashOutputs : Uint256) : List UInt8 :=
  writeUint32 txTo.version ++ hashPrevouts.bytes ++ hashSequence.bytes ++
    writeOutPoint txin.prevout ++ writeBytes spendScript ++ writeInt64 0 ++
    writeUint32 txin.nSequence ++ hashOutputs.bytes ++ writeUint32 txTo.nLockTime ++
    Bytes.encodeLE 4 1

theorem length_segwitPreimageOf (txTo : Transaction) (txin : TxIn)
    (hashPrevouts hashSequence hashOutputs : Uint256) :
    (segwitPreimageOf txTo txin hashPrevouts hashSequence hashOutputs).length ≠ 32 := by
  simp only [segwitPreimageOf, length_append, Uint256.length_eq]
  omega

theorem segwitPreimageOf_injective {txTo : Transaction}
    {hashPrevouts hashSequence hashOutputs hashPrevouts' hashSequence' hashOutputs' : Uint256}
    (h : segwitPreimageOf txTo txin hashPrevouts hashSequence hashOutputs =
      segwitPreimageOf txTo txin hashPrevouts' hashSequence' hashOutputs') :
    hashPrevouts = hashPrevouts' ∧ hashSequence = hashSequence' ∧ hashOutputs = hashOutputs' := by
  simp only [segwitPreimageOf, append_assoc, append_cancel_left_eq] at h
  obtain ⟨hprevouts, h⟩ := append_inj h (by simp [Uint256.length_eq])
  obtain ⟨hsequence, h⟩ := append_inj h (by simp [Uint256.length_eq])
  simp only [append_cancel_left_eq, append_cancel_right_eq] at h
  exact ⟨Uint256.ext hprevouts, Uint256.ext hsequence, Uint256.ext h⟩

/-- The signature of the segwit spend is right for one digest. -/
theorem checkECDSASignature_oracle (htxin : txTo.vin[nIn]? = some txin) (data : PrecomputedData) :
    ((CheckerData.mk txTo nIn 0 (some data) .fail).checkECDSASignature (oracle sha256 target)
        spendSig spendPubKey spendScript .witnessV0 {} >>= fun r => failIf (!r.1) .evalFalse) =
        .ok () ↔
      (oracle sha256 target).hash256
        (segwitPreimage (oracle sha256 target) spendScript txTo nIn txin 1 0 (some data) ++
          Bytes.encodeLE 4 1) = target := by
  have hpubkey : pubKeyIsValid spendPubKey = true := by decide
  have hverify (sighash : Uint256) : (oracle sha256 target).verifyECDSA spendPubKey [] sighash =
      (sighash == target) := rfl
  simp [CheckerData.checkECDSASignature, hpubkey, spendSig, signatureHash, htxin,
    SigHashCache.load, hverify, failIf, fail, pure, Except.pure]

/-- The digest with the data of a transaction that has segwit hashes. -/
theorem segwitPreimage_of_uses {crypto : Crypto} (huses : usesBip143Segwit tx spentOutputs = true)
    (nIn : Nat) (txin : TxIn) :
    segwitPreimage crypto spendScript txTo nIn txin 1 0
        (some (precompute crypto tx spentOutputs)) ++ Bytes.encodeLE 4 1 =
      segwitPreimageOf txTo txin (crypto.hash256 (prevoutsBytes tx))
        (crypto.hash256 (sequencesBytes tx)) (crypto.hash256 (outputsBytes tx)) := by
  have hall : anyoneCanPay 1 = false ∧ hashSingle 1 = false ∧ hashNone 1 = false := by decide
  simp only [segwitPreimage, precompute, huses, hall, segwitHashOutputs]
  rfl

/-- The digest with the data of the transaction itself. -/
theorem segwitPreimage_self {crypto : Crypto} (nIn : Nat) (txin : TxIn) :
    segwitPreimage crypto spendScript txTo nIn txin 1 0
        (some (precompute crypto txTo spentOutputs)) ++ Bytes.encodeLE 4 1 =
      segwitPreimageOf txTo txin (crypto.hash256 (prevoutsBytes txTo))
        (crypto.hash256 (sequencesBytes txTo)) (crypto.hash256 (outputsBytes txTo)) := by
  have hall : anyoneCanPay 1 = false ∧ hashSingle 1 = false ∧ hashNone 1 = false := by decide
  rw [segwitPreimage_precompute fun _ => SameHashedParts.refl txTo]
  simp only [segwitPreimage, hall, segwitHashOutputs]
  rfl

/-- The segwit spend passes with the one digest that its signature is for. -/
theorem verifyScript_segwit_iff (htxin : txTo.vin[nIn]? = some txin)
    (htrue : castToBool (sha256 spendScript).bytes = true) (data : PrecomputedData) :
    verifyScript (verifyEnv (oracle sha256 target) 0 txTo data nIn segwitFlags) []
        (0 :: 0x20 :: (sha256 spendScript).bytes) [spendSig, spendScript] = .ok () ↔
      (oracle sha256 target).hash256
        (segwitPreimage (oracle sha256 target) spendScript txTo nIn txin 1 0 (some data) ++
          Bytes.encodeLE 4 1) = target := by
  rw [verifyEnv, verifyScript_witnessProgram (.inl rfl) _ _ (.inl rfl) (Uint256.length_eq _) htrue]
  rw [← checkECDSASignature_oracle htxin data]
  exact Eq.congr_left (verifyWitnessProgram_segwit (oracle sha256 target)
    ((CheckerData.mk txTo nIn 0 (some data) .fail).checker (oracle sha256 target)))

/-- Segwit hashes of the data must be those of the verified transaction. -/
theorem AlwaysBound.sameHashedParts_of_segwit (hbound : AlwaysBound tx txTo inputIndex spentOutputs)
    (haccepted : Accepted tx spentOutputs) (hindex : inputIndex < txTo.vin.length)
    (huses : usesBip143Segwit tx spentOutputs = true) : SameHashedParts tx txTo := by
  obtain ⟨txin, htxin⟩ : ∃ txin, (signInput txTo (checkedInput inputIndex) []
      [spendSig, spendScript]).vin[checkedInput inputIndex]? = some txin :=
    exists_checkedInput (by rwa [length_signInput_vin])
  rw [← sameHashedParts_signInput_iff txTo (checkedInput inputIndex) [] [spendSig, spendScript]]
  generalize hsigned : signInput txTo (checkedInput inputIndex) [] [spendSig, spendScript] = signed
    at htxin ⊢
  -- The last string is the preimage that the digest with the data of `tx` has, and
  -- the signature is for that digest.
  let early := [prevoutsBytes tx, sequencesBytes tx, outputsBytes tx]
  let double (last data : List UInt8) : Uint256 :=
    separate early last (separate early last data).bytes
  let last := segwitPreimageOf signed txin (double [] (prevoutsBytes tx))
    (double [] (sequencesBytes tx)) (double [] (outputsBytes tx))
  have hlast : last.length ≠ 32 := length_segwitPreimageOf _ _ _ _ _
  have hdouble {data : List UInt8} (hdata : data ∈ early) : double last data = double [] data :=
    separate_separate_of_mem hdata hlast (by decide)
  have hinjective {a b : List UInt8} (ha : a ∈ early ++ [last])
      (h : double last a = double last b) : a = b :=
    separate_separate_injective (by simp [early]) ha h
  have hok : verifyScript (verifyEnv (oracle (separate early last) (double last last)) 0 signed
      (precompute (oracle (separate early last) (double last last)) tx spentOutputs)
      (checkedInput inputIndex) segwitFlags) [] (0 :: 0x20 :: (separate early last
        spendScript).bytes) [spendSig, spendScript] = .ok () := by
    rw [verifyScript_segwit_iff htxin rfl, segwitPreimage_of_uses huses]
    have hpreimage : segwitPreimageOf signed txin (double last (prevoutsBytes tx))
        (double last (sequencesBytes tx)) (double last (outputsBytes tx)) = last := by
      rw [hdouble (by simp [early]), hdouble (by simp [early]), hdouble (by simp [early])]
    exact congrArg (double last) hpreimage
  subst hsigned
  have htransfer := (hbound.transfer haccepted hindex segwitFlags (by decide) (by decide)
    (fun h => absurd rfl h) hok).2
  rw [verifyScript_segwit_iff htxin rfl, segwitPreimage_self] at htransfer
  have hpreimage := hinjective (by simp) htransfer.symm
  obtain ⟨hprevouts, hsequences, houtputs⟩ := segwitPreimageOf_injective hpreimage
  rw [← hdouble (by simp [early])] at hprevouts hsequences houtputs
  exact ⟨hinjective (by simp [early]) hprevouts, hinjective (by simp [early]) hsequences,
    hinjective (by simp [early]) houtputs⟩

/-! ### Taproot -/

/-- The bytes that `TaggedHash("TapSighash")` hashes. -/
def tapSighashTag : List UInt8 := "TapSighash".toList.map fun c => UInt8.ofNat c.toNat

/-- The bytes that `GetSpentAmountsSHA256` hashes. -/
def spentAmountsBytes (spentOutputs : List TxOut) : List UInt8 :=
  spentOutputs.flatMap fun txout => writeInt64 txout.nValue

/-- The bytes that `GetSpentScriptsSHA256` hashes. -/
def spentScriptsBytes (spentOutputs : List TxOut) : List UInt8 :=
  spentOutputs.flatMap fun txout => writeBytes txout.scriptPubKey

/-- A key path digest of the default hash type, with given hashes. -/
def schnorrPreimageOf (txTo : Transaction) (nIn : Nat)
    (tag prevouts amounts scripts sequences outputs : Uint256) : List UInt8 :=
  tag.bytes ++ tag.bytes ++ [0, 0] ++ writeUint32 txTo.version ++ writeUint32 txTo.nLockTime ++
    (prevouts.bytes ++ amounts.bytes ++ scripts.bytes ++ sequences.bytes ++ outputs.bytes) ++
    [0] ++ Bytes.encodeLE 4 nIn

theorem schnorrPreimageOf_injective {txTo : Transaction}
    {tag prevouts amounts scripts sequences outputs prevouts' sequences' outputs' : Uint256}
    (h : schnorrPreimageOf txTo nIn tag prevouts amounts scripts sequences outputs =
      schnorrPreimageOf txTo nIn tag prevouts' amounts scripts sequences' outputs') :
    prevouts = prevouts' ∧ sequences = sequences' ∧ outputs = outputs' := by
  simp only [schnorrPreimageOf, append_assoc, append_cancel_left_eq] at h
  obtain ⟨hprevouts, h⟩ := append_inj h (by simp [Uint256.length_eq])
  simp only [append_cancel_left_eq] at h
  obtain ⟨hsequences, h⟩ := append_inj h (by simp [Uint256.length_eq])
  simp only [append_cancel_right_eq] at h
  exact ⟨Uint256.ext hprevouts, Uint256.ext hsequences, Uint256.ext h⟩

/-- The key path signature of the taproot spend. -/
def spendSchnorrSig : Val := List.replicate 64 0

/-- The digest with the data of a transaction that has taproot hashes. -/
theorem signatureHashSchnorr_of_uses (crypto : Crypto) (hin : nIn < txTo.vin.length)
    (huses : usesBip341Taproot tx spentOutputs = true) (hspent : spentOutputs ≠ []) :
    signatureHashSchnorr crypto { annexHash := some none } txTo nIn 0 .taproot
        (precompute crypto tx spentOutputs) .fail =
      .ok (some (crypto.sha256 (schnorrPreimageOf txTo nIn (crypto.sha256 tapSighashTag)
        (crypto.sha256 (prevoutsBytes tx)) (crypto.sha256 (spentAmountsBytes spentOutputs))
        (crypto.sha256 (spentScriptsBytes spentOutputs)) (crypto.sha256 (sequencesBytes tx))
        (crypto.sha256 (outputsBytes tx))), { annexHash := some none })) := by
  have htype : anyoneCanPay 0 = false ∧ schnorrOutputType 0 = 1 ∧
      isValidSchnorrHashType 0 = true := by decide
  have hready : spentOutputs.isEmpty = false := by simpa using hspent
  simp [signatureHashSchnorr_eq (.inl rfl) hin, schnorrDigest, schnorrInputData, htype,
    schnorrOutputHash, schnorrLeafData, schnorrTransactionData, precompute, huses, hready,
    taggedHash, schnorrPreimageOf, pure, Except.pure]
  rfl

/-- The data of a transaction without taproot hashes gives no digest. -/
theorem signatureHashSchnorr_of_not_uses (crypto : Crypto) (hin : nIn < txTo.vin.length)
    (huses : usesBip341Taproot tx spentOutputs = false) (execdata : ExecData) (hashType : UInt8) :
    signatureHashSchnorr crypto execdata txTo nIn hashType .taproot
      (precompute crypto tx spentOutputs) .fail = .ok none := by
  simp [signatureHashSchnorr_eq (.inl rfl) hin, precompute, huses]

/-- The taproot spend passes if the data has taproot hashes and gives the one
digest that its signature is for. -/
theorem verifyScript_taproot_iff (hin : nIn < txTo.vin.length) (hspent : spentOutputs ≠ []) :
    verifyScript (verifyEnv (oracle sha256 target) 0 txTo
        (precompute (oracle sha256 target) tx spentOutputs) nIn taprootFlags) []
        (0x51 :: 0x20 :: (code 0).bytes) [spendSchnorrSig] = .ok () ↔
      usesBip341Taproot tx spentOutputs = true ∧
        sha256 (schnorrPreimageOf txTo nIn (sha256 tapSighashTag) (sha256 (prevoutsBytes tx))
          (sha256 (spentAmountsBytes spentOutputs)) (sha256 (spentScriptsBytes spentOutputs))
          (sha256 (sequencesBytes tx)) (sha256 (outputsBytes tx))) = target := by
  rw [verifyEnv, verifyScript_witnessProgram (.inr rfl) _ _ (.inr rfl) (Uint256.length_eq _) rfl]
  refine (Eq.congr_left (verifyWitnessProgram_taproot (oracle sha256 target) _ spendSchnorrSig
    (Uint256.length_eq _))).trans ?_
  have hlength : spendSchnorrSig.length = 64 := length_replicate
  have hverify (pubkey sighash) : (oracle sha256 target).verifySchnorr pubkey spendSchnorrSig
      sighash = (sighash == target) := rfl
  cases huses : usesBip341Taproot tx spentOutputs with
  | false =>
    simp [CheckerData.checker, CheckerData.checkSchnorrSignature, Uint256.length_eq, hlength,
      CheckerData.checkSchnorrDigest, signatureHashSchnorr_of_not_uses _ hin huses, assertThat,
      failIf, fail]
  | true =>
    simp [CheckerData.checker, CheckerData.checkSchnorrSignature, Uint256.length_eq, hlength,
      CheckerData.checkSchnorrDigest, signatureHashSchnorr_of_uses _ hin huses hspent, hverify,
      assertThat, failIf, fail]
    split <;> simp_all

/-- Taproot hashes of the data must be those of the verified transaction, and its
own data must have them, too. -/
theorem AlwaysBound.sameHashedParts_of_taproot
    (hbound : AlwaysBound tx txTo inputIndex spentOutputs) (haccepted : Accepted tx spentOutputs)
    (hindex : inputIndex < txTo.vin.length) (huses : usesBip341Taproot tx spentOutputs = true) :
    SameHashedParts tx txTo ∧
      usesBip341Taproot (signInput txTo (checkedInput inputIndex) [] [spendSchnorrSig])
        spentOutputs = true := by
  have hspent : spentOutputs ≠ [] := by
    rintro rfl
    obtain ⟨i, txin, -, -, hnone⟩ := usesBip341Taproot_iff.mp huses
    cases hnone
  have hin : checkedInput inputIndex <
      (signInput txTo (checkedInput inputIndex) [] [spendSchnorrSig]).vin.length := by
    rw [length_signInput_vin]
    exact Nat.lt_of_le_of_lt (checkedInput_le _) hindex
  rw [← sameHashedParts_signInput_iff txTo (checkedInput inputIndex) [] [spendSchnorrSig]]
  generalize hsigned : signInput txTo (checkedInput inputIndex) [] [spendSchnorrSig] = signed
    at hin ⊢
  -- As for segwit, the last string is the preimage with the data of `tx`.
  let early := [prevoutsBytes tx, sequencesBytes tx, outputsBytes tx, tapSighashTag,
    spentAmountsBytes spentOutputs, spentScriptsBytes spentOutputs]
  let preimage (last : List UInt8) : List UInt8 :=
    schnorrPreimageOf signed (checkedInput inputIndex) (separate early last tapSighashTag)
      (separate early last (prevoutsBytes tx))
      (separate early last (spentAmountsBytes spentOutputs))
      (separate early last (spentScriptsBytes spentOutputs))
      (separate early last (sequencesBytes tx)) (separate early last (outputsBytes tx))
  let last := preimage []
  have hseparate {data : List UInt8} (hdata : data ∈ early) :
      separate early last data = separate early [] data := separate_of_mem hdata _ _
  have hinjective {a b : List UInt8} (ha : a ∈ early ++ last :: codes)
      (h : separate early last a = separate early last b) : a = b :=
    separate_injective (by simp [early]) ha h
  have hpreimage : preimage last = last := by
    simp only [preimage]
    rw [hseparate (by simp [early]), hseparate (by simp [early]), hseparate (by simp [early]),
      hseparate (by simp [early]), hseparate (by simp [early]), hseparate (by simp [early])]
  have hok : verifyScript (verifyEnv (oracle (separate early last) (separate early last last)) 0
      signed (precompute (oracle (separate early last) (separate early last last)) tx spentOutputs)
      (checkedInput inputIndex) taprootFlags) [] (0x51 :: 0x20 :: (code 0).bytes)
      [spendSchnorrSig] = .ok () := by
    rw [verifyScript_taproot_iff hin hspent]
    exact ⟨huses, congrArg (separate early last) hpreimage⟩
  subst hsigned
  have htransfer := (hbound.transfer haccepted hindex taprootFlags (by decide) (by decide)
    (fun _ => hspent) hok).2
  rw [verifyScript_taproot_iff hin hspent] at htransfer
  refine ⟨?_, htransfer.1⟩
  have hlast := hpreimage.trans (hinjective (by simp) htransfer.2.symm)
  obtain ⟨hprevouts, hsequences, houtputs⟩ := schnorrPreimageOf_injective hlast
  exact ⟨hinjective (by simp [early]) hprevouts, hinjective (by simp [early]) hsequences,
    hinjective (by simp [early]) houtputs⟩

end Necessary

/-! ## The exact condition -/

/-- The data of `tx` serves for the input `nIn` of `txTo`, however it is signed. -/
structure Interchangeable (tx txTo : Transaction) (nIn : Nat) (spentOutputs : List TxOut) :
    Prop where
  accepted : Accepted txTo spentOutputs
  segwit : usesBip143Segwit tx spentOutputs = true → SameHashedParts tx txTo
  taproot : usesBip341Taproot tx spentOutputs = true →
    SameHashedParts tx txTo ∧ usesBip341Taproot (signInput txTo nIn [] [[]]) spentOutputs = true

section Exact

variable {tx txTo : Transaction} {nIn : Nat} {spentOutputs : List TxOut}

theorem Interchangeable.fits (h : Interchangeable tx txTo nIn spentOutputs) {scriptSig : Script}
    {witness : List Val} {txin : TxIn}
    (htxin : (signInput txTo nIn scriptSig witness).vin[nIn]? = some txin) (flags : VerifyFlags)
    (scriptPubkey : Script) :
    Fits tx (signInput txTo nIn scriptSig witness) spentOutputs txin flags scriptPubkey where
  accepted := (accepted_signInput_iff _ _ _ _ _).mpr h.accepted
  segwit _ huses := (sameHashedParts_signInput_iff _ _ _ _ _).mpr (h.segwit huses)
  taproot hruns huses := by
    obtain ⟨hsame, htaproot⟩ := h.taproot huses
    refine ⟨usesBip341Taproot_signInput ?_ htaproot,
      (sameHashedParts_signInput_iff _ _ _ _ _).mpr hsame⟩
    rw [signInput_vin_getElem?, Option.map_eq_some_iff] at htxin
    obtain ⟨txin', -, rfl⟩ := htxin
    simpa using hruns.2.2.1

/-- Without the input there is nothing to verify. -/
theorem isBound_of_length_le {crypto : Crypto} {scriptPubkey : Script} {amount : Option Int64}
    {inputIndex : Nat} {flags : Option ScriptVerificationFlags} {data : PrecomputedData}
    (h : txTo.vin.length ≤ inputIndex) :
    IsBound crypto scriptPubkey amount txTo inputIndex flags spentOutputs data := by
  rw [IsBound, verify, if_pos h]
  exact ⟨by simp, fun hok => by simp at hok⟩

end Exact

/-- The data of `tx` is bound to the input of `txTo`, for every script, amount,
flags, signature of the input and oracles, if and only if it is
interchangeable. -/
theorem alwaysBound_iff (tx txTo : Transaction) (inputIndex : Nat) (spentOutputs : List TxOut) :
    AlwaysBound tx txTo inputIndex spentOutputs ↔
      (Accepted tx spentOutputs → inputIndex < txTo.vin.length →
        Interchangeable tx txTo (checkedInput inputIndex) spentOutputs) := by
  constructor
  · intro hbound haccepted hindex
    refine ⟨hbound.accepted haccepted hindex,
      hbound.sameHashedParts_of_segwit haccepted hindex, fun huses => ?_⟩
    obtain ⟨hsame, htaproot⟩ := hbound.sameHashedParts_of_taproot haccepted hindex huses
    exact ⟨hsame, usesBip341Taproot_signInput rfl htaproot⟩
  · intro h crypto scriptPubkey amount flags scriptSig witness data hnew
    by_cases hindex : inputIndex < txTo.vin.length
    · have hfits := h (new_eq_ok_iff.mp hnew).1 hindex
      exact isBound_of_fits hnew fun txin htxin => hfits.fits htxin _ _
    · refine isBound_of_length_le ?_
      rw [length_signInput_vin]
      exact Nat.le_of_not_lt hindex

/-! ## Data that is not bound -/

namespace Sample

/-- An input with a witness. -/
def input (n : UInt32) (witness : List Val) : TxIn :=
  { prevout := ⟨Uint256.null, n⟩, scriptSig := [], nSequence := 0xffffffff,
    scriptWitness := witness }

/-- A taproot output. -/
def output : TxOut := { nValue := 1000, scriptPubKey := 0x51 :: 0x20 :: (code 0).bytes }

/-- A transaction with one input, which the data is made from. -/
def tx : Transaction :=
  { version := 2, vin := [input 0 [spendSchnorrSig]], vout := [output], nLockTime := 0 }

/-- A signature of the hash type `SIGHASH_ALL | SIGHASH_ANYONECANPAY`. -/
def anyoneCanPaySig : Val := List.replicate 64 0 ++ [0x81]

/-- A transaction with two inputs, which is verified. -/
def txTo : Transaction :=
  { version := 2, vin := [input 0 [], input 1 [anyoneCanPaySig]], vout := [output], nLockTime := 0 }

/-- A hash without collisions on the strings that are hashed here, and some
signature scheme. -/
def crypto : Crypto :=
  oracle (separate [prevoutsBytes tx, sequencesBytes tx, outputsBytes tx, tapSighashTag,
    spentAmountsBytes [output], spentScriptsBytes [output]] []) Uint256.null

/-- The data of `tx`. -/
def data : PrecomputedData := precompute crypto tx [output]

end Sample

open Sample

/-- Data of a transaction with one input is used for a transaction with two.  For
the second input, a taproot signature with `SIGHASH_ANYONECANPAY` makes the
kernel look up a second spent output, and there is one only.  For the first
input, a script that needs no signature is accepted, though `new` refuses the
spent outputs for this transaction. -/
theorem not_isBound_sample :
    PrecomputedTransactionData.new crypto tx [output] = .ok (.ok data) ∧
      verify crypto output.scriptPubKey none txTo 1 none data = .error .outOfBounds ∧
      ¬IsBound crypto output.scriptPubKey none txTo 1 none [output] data ∧
      verify crypto [Opcode.op1.code] none txTo 0 none data = .ok (.ok ()) ∧
      ¬IsBound crypto [Opcode.op1.code] none txTo 0 none [output] data := by
  have houtOfBounds : verify crypto output.scriptPubKey none txTo 1 none data =
      .error .outOfBounds := by decide +kernel
  have hok : verify crypto [Opcode.op1.code] none txTo 0 none data = .ok (.ok ()) := by
    decide +kernel
  refine ⟨new_of_accepted (.inr rfl), houtOfBounds, fun h => h.1 houtOfBounds, hok, fun h => ?_⟩
  obtain ⟨data, hnew, -⟩ := h.2 hok
  rw [new_of_not_accepted (by simp [Accepted, txTo])] at hnew
  cases hnew

end BitcoinKernel.Verify
