import BitcoinKernel.Script.SigHash

/-!
# `VerifyScript`

The evaluation of an input script against an output script, with witness
programs (`script/interpreter.cpp`), for an arbitrary signature checker.

The cache of the checker is mutable in the source, and one checker serves all
scripts of an input, so the cache is passed from one evaluation to the next.
-/

namespace BitcoinKernel.Interpreter

open Serialize

/-- What a verification does not change. -/
structure VerifyEnv where
  crypto : Crypto
  flags : VerifyFlags
  checker : SignatureChecker

namespace VerifyEnv

/-- The environment of an evaluation. -/
def eval (env : VerifyEnv) (sigversion : SigVersion) : EvalEnv :=
  { crypto := env.crypto, flags := env.flags, checker := env.checker, sigversion }

@[simp] theorem eval_sigversion (env : VerifyEnv) (sigversion : SigVersion) :
    (env.eval sigversion).sigversion = sigversion := rfl

end VerifyEnv

variable (env : VerifyEnv)

/-! ## Witness scripts -/

/-- What the scan of a tapscript for `OP_SUCCESSx` finds. -/
inductive OpSuccessScan
  | opSuccess
  | badOpcode
  | none
deriving DecidableEq, Repr

/-- The scan of a tapscript for `OP_SUCCESSx`, before it is executed. -/
def scanOpSuccess (script : Script) : OpSuccessScan :=
  if script.instructions.1.any fun i => isOpSuccess i.opcode then .opSuccess
  else if script.instructions.2 then .none
  else .badOpcode

/-- The part of `ExecuteWitnessScript` that runs the script. -/
def runWitnessScript (stack : List Val) (execScript : Script) (sigversion : SigVersion)
    (execdata : ExecData) (sighashCache : SigHashCache) : Eval Unit := do
  failIf (stack.any fun elem => elem.length > maxScriptElementSize) .pushSize
  let st ← evalScript (env.eval sigversion) stack execScript execdata sighashCache
  match st.stack with
  | [top] => failIf (!castToBool top) .evalFalse
  | _ => fail .cleanstack

/-- `ExecuteWitnessScript`.  The stack has its top first. -/
def executeWitnessScript (stack : List Val) (execScript : Script) (sigversion : SigVersion)
    (execdata : ExecData) (sighashCache : SigHashCache) : Eval Unit :=
  if sigversion = .tapscript then
    match scanOpSuccess execScript with
    | .badOpcode => fail .badOpcode
    | .opSuccess => failIf (env.flags.has .discourageOpSuccess) .discourageOpSuccess
    | .none => do
        failIf (stack.length > maxStackSize) .stackSize
        runWitnessScript env stack execScript sigversion execdata sighashCache
  else runWitnessScript env stack execScript sigversion execdata sighashCache

/-! ## Taproot -/

/-- `TAPROOT_LEAF_MASK`. -/
def taprootLeafMask : UInt8 := 0xfe

/-- `TAPROOT_LEAF_TAPSCRIPT`. -/
def taprootLeafTapscript : UInt8 := 0xc0

/-- `TAPROOT_CONTROL_BASE_SIZE`. -/
def taprootControlBaseSize : Nat := 33

/-- `TAPROOT_CONTROL_NODE_SIZE`. -/
def taprootControlNodeSize : Nat := 32

/-- `TAPROOT_CONTROL_MAX_SIZE`. -/
def taprootControlMaxSize : Nat := taprootControlBaseSize + taprootControlNodeSize * 128

/-- `VALIDATION_WEIGHT_OFFSET`. -/
def validationWeightOffset : Int := 50

/-- Whether a control block has a size that it may have. -/
def isControlSize (size : Nat) : Bool :=
  taprootControlBaseSize ≤ size && size ≤ taprootControlMaxSize &&
    (size - taprootControlBaseSize) % taprootControlNodeSize == 0

/-- `ComputeTapleafHash`. -/
def computeTapleafHash (crypto : Crypto) (leafVersion : UInt8) (script : Script) : Uint256 :=
  crypto.sha256 (taggedHash crypto "TapLeaf" ++ [leafVersion] ++ writeBytes script)

/-- `ComputeTapbranchHash`. -/
def computeTapbranchHash (crypto : Crypto) (a b : List UInt8) : Uint256 :=
  crypto.sha256 (taggedHash crypto "TapBranch" ++ if a < b then a ++ b else b ++ a)

/-- The loop of `ComputeTaprootMerkleRoot` over the nodes of a path. -/
def taprootMerkleLoop (crypto : Crypto) : (pathLen : Nat) → List UInt8 → Uint256 → Uint256
  | 0, _, k => k
  | pathLen + 1, path, k =>
    taprootMerkleLoop crypto pathLen (path.drop taprootControlNodeSize)
      (computeTapbranchHash crypto k.bytes (path.take taprootControlNodeSize))

/-- `ComputeTaprootMerkleRoot`. -/
def computeTaprootMerkleRoot (crypto : Crypto) (control : Val) (tapleafHash : Uint256) :
    Eval Uint256 := do
  assertThat (isControlSize control.length)
  let pathLen := (control.length - taprootControlBaseSize) / taprootControlNodeSize
  return taprootMerkleLoop crypto pathLen (control.drop taprootControlBaseSize) tapleafHash

/-- `VerifyTaprootCommitment`. -/
def verifyTaprootCommitment (crypto : Crypto) (control program : Val) (tapleafHash : Uint256) :
    Eval Bool := do
  assertThat (control.length ≥ taprootControlBaseSize)
  assertThat (program.length ≥ 32)
  let p := (control.drop 1).take (taprootControlBaseSize - 1)
  let merkleRoot ← computeTaprootMerkleRoot crypto control tapleafHash
  return crypto.checkTapTweak program p merkleRoot (control.headD 0 &&& 1 != 0)

/-- A taproot spend with a leaf script.  The arguments are the whole witness, and
its parts without the annex. -/
def verifyTaprootScriptPath (witness : List Val) (control : Val) (script : Script)
    (stack : List Val) (program : Val) (execdata : ExecData) (sighashCache : SigHashCache) :
    Eval Unit := do
  failIf (!isControlSize control.length) .taprootWrongControlSize
  let leafVersion := control.headD 0 &&& taprootLeafMask
  let tapleafHash := computeTapleafHash env.crypto leafVersion script
  let committed ← verifyTaprootCommitment env.crypto control program tapleafHash
  failIf (!committed) .witnessProgramMismatch
  let execdata := { execdata with tapleafHash := some tapleafHash }
  if leafVersion = taprootLeafTapscript then
    let weight : Int := (writeVector writeBytes witness).length + validationWeightOffset
    executeWitnessScript env stack script .tapscript
      { execdata with validationWeightLeft := some weight } sighashCache
  else
    failIf (env.flags.has .discourageUpgradableTaprootVersion) .discourageUpgradableTaprootVersion

/-- The annex of a taproot witness, whose last element is first here, and the
rest. -/
def splitAnnex : List Val → Option Val × List Val
  | annex :: below :: rest =>
    if annex.head? = some 0x50 then (some annex, below :: rest)
    else (none, annex :: below :: rest)
  | stack => (none, stack)

/-- The branch of `VerifyWitnessProgram` for taproot. -/
def verifyTaproot (witness : List Val) (program : Val) (sighashCache : SigHashCache) :
    Eval Unit := do
  failIf witness.isEmpty .witnessProgramWitnessEmpty
  let (annex, stack) := splitAnnex witness.reverse
  let annexHash := annex.map fun annex => env.crypto.sha256 (writeBytes annex)
  let execdata : ExecData := { annexHash := some annexHash }
  match stack with
  | control :: script :: stack =>
    verifyTaprootScriptPath env witness control script stack program execdata sighashCache
  | [sig] => do
      let _ ← env.checker.checkSchnorrSignature sig program .taproot execdata
      return
  | [] => .error (.fault .outOfBounds)

/-! ## Witness programs -/

/-- The script of a 20-byte program of version 0. -/
def keyHashScript (program : Val) : Script :=
  [Opcode.opDup.code, Opcode.opHash160.code] ++ pushData program ++
    [Opcode.opEqualverify.code, Opcode.opChecksig.code]

/-- The branch of `VerifyWitnessProgram` for version 0. -/
def verifyWitnessV0 (witness : List Val) (program : Val) (sighashCache : SigHashCache) :
    Eval Unit :=
  if program.length = 32 then
    match witness.reverse with
    | [] => fail .witnessProgramWitnessEmpty
    | execScript :: stack => do
        failIf ((env.crypto.sha256 execScript).bytes ≠ program) .witnessProgramMismatch
        executeWitnessScript env stack execScript .witnessV0 {} sighashCache
  else if program.length = 20 then do
    failIf (witness.length ≠ 2) .witnessProgramMismatch
    executeWitnessScript env witness.reverse (keyHashScript program) .witnessV0 {} sighashCache
  else fail .witnessProgramWrongLength

/-- `VerifyWitnessProgram`. -/
def verifyWitnessProgram (witness : List Val) (witversion : Nat) (program : Val) (isP2sh : Bool)
    (sighashCache : SigHashCache) : Eval Unit :=
  if witversion = 0 then verifyWitnessV0 env witness program sighashCache
  else if witversion = 1 ∧ program.length = 32 ∧ isP2sh = false then
    if env.flags.has .taproot then verifyTaproot env witness program sighashCache else .ok ()
  else if !isP2sh && isPayToAnchor witversion program then .ok ()
  else failIf (env.flags.has .discourageUpgradableWitnessProgram)
    .discourageUpgradableWitnessProgram

/-! ## `VerifyScript` -/

/-- Evaluates a script before segwit and requires a true value on top. -/
def evalToTrue (stack : List Val) (script : Script) (sighashCache : SigHashCache) :
    Eval EvalState := do
  let st ← evalScript (env.eval .base) stack script {} sighashCache
  match st.stack with
  | [] => fail .evalFalse
  | top :: _ => do
      failIf (!castToBool top) .evalFalse
      return st

/-- A witness program in a script, if segwit is on: whether there was one, and
the size of the stack that the end of `VerifyScript` sees. -/
def verifyProgramIn (witness : List Val) (script : Script) (isP2sh scriptSigOk : Bool)
    (malleated : ScriptError) (st : EvalState) : Eval (Bool × Nat) :=
  match (if env.flags.has .witness then script.isWitnessProgram else none) with
  | none => .ok (false, st.stack.length)
  | some (witversion, program) => do
      failIf (!scriptSigOk) malleated
      verifyWitnessProgram env witness witversion program isP2sh st.sighashCache
      return (true, 1)

/-- The part of `VerifyScript` for pay-to-script-hash, on the stack that the
input script left. -/
def verifyScriptHash (scriptSig : Script) (witness stackCopy : List Val)
    (sighashCache : SigHashCache) : Eval (Bool × Nat) := do
  failIf (!scriptSig.isPushOnly) .sigPushonly
  match stackCopy with
  | [] => .error (.fault .assertion)
  | pubKey2 :: stack => do
      let st ← evalToTrue env stack pubKey2 sighashCache
      verifyProgramIn env witness pubKey2 true (scriptSig == pushData pubKey2)
        .witnessMalleatedP2sh st

/-- The check of a clean stack, at the end of `VerifyScript`. -/
def checkCleanstack (stackSize : Nat) : Eval Unit :=
  if env.flags.has .cleanstack then do
    assertThat (env.flags.has .p2sh)
    assertThat (env.flags.has .witness)
    failIf (stackSize ≠ 1) .cleanstack
  else .ok ()

/-- The check for a witness that nothing uses, at the end of `VerifyScript`. -/
def checkUnexpectedWitness (witness : List Val) (hadWitness : Bool) : Eval Unit :=
  if env.flags.has .witness then do
    assertThat (env.flags.has .p2sh)
    failIf (!hadWitness && !witness.isEmpty) .witnessUnexpected
  else .ok ()

/-- The end of `VerifyScript`. -/
def verifyEnd (witness : List Val) (hadWitness : Bool) (stackSize : Nat) : Eval Unit := do
  checkCleanstack env stackSize
  checkUnexpectedWitness env witness hadWitness

/-- `VerifyScript`. -/
def verifyScript (scriptSig scriptPubKey : Script) (witness : List Val) : Eval Unit := do
  failIf (env.flags.has .sigpushonly && !scriptSig.isPushOnly) .sigPushonly
  let stSig ← evalScript (env.eval .base) [] scriptSig {} {}
  let st ← evalToTrue env stSig.stack scriptPubKey stSig.sighashCache
  let (hadWitness, stackSize) ←
    verifyProgramIn env witness scriptPubKey false scriptSig.isEmpty .witnessMalleated st
  if env.flags.has .p2sh && scriptPubKey.isPayToScriptHash then
    let (hadWitnessP2sh, stackSize) ←
      verifyScriptHash env scriptSig witness stSig.stack st.sighashCache
    verifyEnd env witness (hadWitness || hadWitnessP2sh) stackSize
  else verifyEnd env witness hadWitness stackSize

/-! ## Combinations of flags -/

namespace VerifyFlags

/-- `is_valid_flag_combination` of the C interface: what the assertions of
`VerifyScript` on the flags need. -/
def isValidCombination (flags : VerifyFlags) : Bool :=
  if flags.has .cleanstack && (!flags.has .p2sh || !flags.has .witness) then false
  else if flags.has .witness && !flags.has .p2sh then false
  else true

variable {flags : VerifyFlags}

theorem has_p2sh_of_witness (h : flags.isValidCombination = true)
    (hwitness : flags.has .witness = true) : flags.has .p2sh = true := by
  simp only [isValidCombination, hwitness] at h
  cases hp2sh : flags.has .p2sh <;> simp_all

theorem has_witness_of_cleanstack (h : flags.isValidCombination = true)
    (hcleanstack : flags.has .cleanstack = true) : flags.has .witness = true := by
  simp only [isValidCombination, hcleanstack] at h
  cases hwitness : flags.has .witness <;> simp_all

end VerifyFlags

end BitcoinKernel.Interpreter
