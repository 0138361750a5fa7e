import BitcoinKernel.Script.Script
import BitcoinKernel.Script.ScriptNum

/-!
# The script interpreter

`EvalScript` of `script/interpreter.cpp` with everything it calls, except for
the signature checker, which is a parameter as it is in the source
(`BaseSignatureChecker`).  Hashes and signature verification are arbitrary
functions (`Crypto`).

A computation ends with a value, with a `ScriptError`, which is how the source
returns false, or with a `Fault`: an assertion that fails or a vector that is
read beyond its end.

The stack of the source is a vector whose last element is the top.  Here the
top is the first element of a list.  A script is walked through instruction by
instruction.  The opcodes are handled in four groups: those that only rearrange
the stack (`stackOp`), those that compute with one or two numbers (`unaryOp`,
`binaryOp`), and the rest (`controlOp`).
-/

namespace BitcoinKernel.Interpreter

/-- `valtype`. -/
abbrev Val := List UInt8

/-- The hash functions and the signature schemes. -/
structure Crypto where
  sha256 : List UInt8 → Uint256
  ripemd160 : List UInt8 → Val
  sha1 : List UInt8 → Val
  checkLowS : (vchSig : Val) → Bool
  verifyECDSA : (pubkey vchSig : Val) → (sighash : Uint256) → Bool
  verifySchnorr : (pubkey sig : Val) → (sighash : Uint256) → Bool
  checkTapTweak : (output internal : Val) → (merkleRoot : Uint256) → (parity : Bool) → Bool

namespace Crypto

variable (crypto : Crypto)

/-- The double hash of `CHash256`. -/
def hash256 (data : List UInt8) : Uint256 := crypto.sha256 (crypto.sha256 data).bytes

/-- `CHash160`. -/
def hash160 (data : List UInt8) : Val := crypto.ripemd160 (crypto.sha256 data).bytes

end Crypto

/-! ## Flags and errors -/

/-- `SigVersion`. -/
inductive SigVersion
  | base
  | witnessV0
  | taproot
  | tapscript
deriving DecidableEq, Repr

/-- `script_verify_flag_name`. -/
inductive FlagName
  | p2sh | strictenc | dersig | lowS | nulldummy | sigpushonly | minimaldata
  | discourageUpgradableNops | cleanstack | checklocktimeverify | checksequenceverify | witness
  | discourageUpgradableWitnessProgram | minimalif | nullfail | witnessPubkeytype | constScriptcode
  | taproot | discourageUpgradableTaprootVersion | discourageOpSuccess
  | discourageUpgradablePubkeytype
deriving DecidableEq, Repr

/-- The position of a flag in `script_verify_flags`: the names are in the order
of the C++ enumeration. -/
def FlagName.bit (name : FlagName) : Nat := name.ctorIdx

/-- `script_verify_flags`. -/
structure VerifyFlags where
  value : UInt64
deriving DecidableEq, Repr

/-- Whether a flag is set. -/
def VerifyFlags.has (flags : VerifyFlags) (name : FlagName) : Bool :=
  flags.value.toBitVec.getLsbD name.bit

/-- `ScriptError`, without `SCRIPT_ERR_OK`. -/
inductive ScriptError
  | unknownError | evalFalse | opReturn | scriptnum
  | scriptSize | pushSize | opCount | stackSize | sigCount | pubkeyCount
  | verify | equalverify | checkmultisigverify | checksigverify | numequalverify
  | badOpcode | disabledOpcode | invalidStackOperation | invalidAltstackOperation
  | unbalancedConditional
  | negativeLocktime | unsatisfiedLocktime
  | sigHashtype | sigDer | minimaldata | sigPushonly | sigHighS | sigNulldummy | pubkeytype
  | cleanstack | minimalif | sigNullfail
  | discourageUpgradableNops | discourageUpgradableWitnessProgram
  | discourageUpgradableTaprootVersion | discourageOpSuccess | discourageUpgradablePubkeytype
  | witnessProgramWrongLength | witnessProgramWitnessEmpty | witnessProgramMismatch
  | witnessMalleated | witnessMalleatedP2sh | witnessUnexpected | witnessPubkeytype
  | schnorrSigSize | schnorrSigHashtype | schnorrSig | taprootWrongControlSize
  | tapscriptValidationWeight | tapscriptCheckmultisig | tapscriptMinimalif
  | tapscriptEmptyPubkey
  | opCodeseparator | sigFindanddelete
deriving DecidableEq, Repr

/-- What must not happen: a failed assertion, or a read beyond a vector. -/
inductive Fault
  | assertion
  | outOfBounds
deriving DecidableEq, Repr

/-- Why a computation gives no value. -/
inductive Halt
  | scriptError (error : ScriptError)
  | fault (fault : Fault)
deriving DecidableEq, Repr

abbrev Eval := Except Halt

/-- `return set_error(serror, error)`. -/
def fail {α : Type} (error : ScriptError) : Eval α := .error (.scriptError error)

/-- `if (condition) return set_error(serror, error)`. -/
def failIf (condition : Bool) (error : ScriptError) : Eval Unit :=
  if condition then fail error else .ok ()

/-- `assert(condition)`. -/
def assertThat (condition : Bool) : Eval Unit :=
  if condition then .ok () else .error (.fault .assertion)

/-! ## State -/

/-- `ConditionStack`: the number of nested conditionals and the position of the
first one that is false. -/
structure ConditionStack where
  stackSize : Nat := 0
  firstFalsePos : Option Nat := none
deriving DecidableEq, Repr

namespace ConditionStack

def empty (c : ConditionStack) : Bool := c.stackSize == 0

def allTrue (c : ConditionStack) : Bool := c.firstFalsePos.isNone

def pushBack (c : ConditionStack) (f : Bool) : ConditionStack where
  stackSize := c.stackSize + 1
  firstFalsePos := if c.firstFalsePos = none ∧ f = false then some c.stackSize else c.firstFalsePos

def popBack (c : ConditionStack) : Eval ConditionStack := do
  assertThat (c.stackSize > 0)
  let stackSize := c.stackSize - 1
  return { stackSize
           firstFalsePos := if c.firstFalsePos = some stackSize then none else c.firstFalsePos }

def toggleTop (c : ConditionStack) : Eval ConditionStack := do
  assertThat (c.stackSize > 0)
  let top := c.stackSize - 1
  match c.firstFalsePos with
  | none => return { c with firstFalsePos := some top }
  | some pos => return { c with firstFalsePos := if pos = top then none else some pos }

end ConditionStack

/-- `ScriptExecutionData`.  A field is `none` until it is initialized.  An annex
that is absent is `some none`. -/
structure ExecData where
  tapleafHash : Option Uint256 := none
  codeseparatorPos : Option UInt32 := none
  annexHash : Option (Option Uint256) := none
  validationWeightLeft : Option Int := none
  outputHash : Option Uint256 := none
deriving DecidableEq, Repr

/-- `SigHashCache`: for each of the six kinds of hash types, a script code and
what was hashed for it before the hash type. -/
structure SigHashCache where
  entries : Nat → Option (Script × List UInt8) := fun _ => none

/-- `BaseSignatureChecker`.  The ECDSA check works on the mutable cache of the
checker.  The Schnorr check sets an error if it fails. -/
structure SignatureChecker where
  checkECDSASignature :
    (vchSig vchPubKey : Val) → (scriptCode : Script) → SigVersion → SigHashCache →
      Eval (Bool × SigHashCache)
  checkSchnorrSignature : (sig pubkey : Val) → SigVersion → ExecData → Eval ExecData
  checkLockTime : (nLockTime : Int) → Bool
  checkSequence : (nSequence : Int) → Bool

/-- What an evaluation does not change. -/
structure EvalEnv where
  crypto : Crypto
  flags : VerifyFlags
  checker : SignatureChecker
  sigversion : SigVersion

/-- The variables of `EvalScript`. -/
structure EvalState where
  stack : List Val
  altstack : List Val := []
  vfExec : ConditionStack := {}
  nOpCount : Nat := 0
  opcodePos : UInt32 := 0
  codeHash : Script
  execdata : ExecData
  sighashCache : SigHashCache

/-- Scripts before tapscript. -/
def SigVersion.isPreTapscript (sigversion : SigVersion) : Bool :=
  sigversion == .base || sigversion == .witnessV0

/-- `MAX_SCRIPT_ELEMENT_SIZE`. -/
def maxScriptElementSize : Nat := 520

/-- `MAX_OPS_PER_SCRIPT`. -/
def maxOpsPerScript : Nat := 201

/-- `MAX_SCRIPT_SIZE`. -/
def maxScriptSize : Nat := 10000

/-- `MAX_STACK_SIZE`. -/
def maxStackSize : Nat := 1000

/-- `VALIDATION_WEIGHT_PER_SIGOP_PASSED`. -/
def validationWeightPerSigopPassed : Int := 50

/-- `CastToBool`: not zero, where zero may have a sign. -/
def castToBool : Val → Bool
  | [] => false
  | [last] => last != 0 && last != 0x80
  | byte :: rest => byte != 0 || castToBool rest

/-- `vchTrue` or `vchFalse`. -/
def ofBool (b : Bool) : Val := if b then [1] else []

/-! ## Signature and key encodings -/

/-- `IsCompressedOrUncompressedPubKey`. -/
def isCompressedOrUncompressedPubKey (vchPubKey : Val) : Bool :=
  match vchPubKey with
  | [] => false
  | header :: _ =>
    if vchPubKey.length < 33 then false
    else if header = 0x04 then vchPubKey.length == 65
    else if header = 0x02 || header = 0x03 then vchPubKey.length == 33
    else false

/-- `IsCompressedPubKey`. -/
def isCompressedPubKey (vchPubKey : Val) : Bool :=
  match vchPubKey with
  | [] => false
  | header :: _ => vchPubKey.length == 33 && (header == 0x02 || header == 0x03)

/-- `IsValidSignatureEncoding`.  No byte beyond the end is read, because the
lengths are checked first. -/
def isValidSignatureEncoding (sig : Val) : Bool :=
  let byte (i : Nat) : UInt8 := sig.getD i 0
  let lenR := (byte 3).toNat
  let lenS := (byte (5 + lenR)).toNat
  if sig.length < 9 then false
  else if sig.length > 73 then false
  else if byte 0 ≠ 0x30 then false
  else if (byte 1).toNat ≠ sig.length - 3 then false
  else if 5 + lenR ≥ sig.length then false
  else if lenR + lenS + 7 ≠ sig.length then false
  else if byte 2 ≠ 0x02 then false
  else if lenR = 0 then false
  else if byte 4 &&& 0x80 ≠ 0 then false
  else if lenR > 1 && byte 4 == 0x00 && byte 5 &&& 0x80 == 0 then false
  else if byte (lenR + 4) ≠ 0x02 then false
  else if lenS = 0 then false
  else if byte (lenR + 6) &&& 0x80 ≠ 0 then false
  else if lenS > 1 && byte (lenR + 6) == 0x00 && byte (lenR + 7) &&& 0x80 == 0 then false
  else true

/-- `IsLowDERSignature`. -/
def isLowDERSignature (crypto : Crypto) (vchSig : Val) : Eval Unit := do
  failIf (!isValidSignatureEncoding vchSig) .sigDer
  failIf (!crypto.checkLowS vchSig.dropLast) .sigHighS

/-- `IsDefinedHashtypeSignature`. -/
def isDefinedHashtypeSignature (vchSig : Val) : Bool :=
  match vchSig.getLast? with
  | none => false
  | some last =>
    let nHashType := last &&& 0x7f
    1 ≤ nHashType && nHashType ≤ 3

/-- `CheckSignatureEncoding`. -/
def checkSignatureEncoding (crypto : Crypto) (flags : VerifyFlags) (vchSig : Val) : Eval Unit :=
  if vchSig.isEmpty then .ok ()
  else if (flags.has .dersig || flags.has .lowS || flags.has .strictenc) &&
      !isValidSignatureEncoding vchSig then
    fail .sigDer
  else do
    (if flags.has .lowS then isLowDERSignature crypto vchSig else .ok ())
    failIf (flags.has .strictenc && !isDefinedHashtypeSignature vchSig) .sigHashtype

/-- `CheckPubKeyEncoding`. -/
def checkPubKeyEncoding (flags : VerifyFlags) (sigversion : SigVersion) (vchPubKey : Val) :
    Eval Unit := do
  failIf (flags.has .strictenc && !isCompressedOrUncompressedPubKey vchPubKey) .pubkeytype
  failIf (flags.has .witnessPubkeytype &&
    (sigversion == .witnessV0 && !isCompressedPubKey vchPubKey)) .witnessPubkeytype

/-! ## `FindAndDelete` -/

/-- The copies of `b` at the front of a script: their number and what is behind
them. -/
def skipCopies (b : Script) : (fuel : Nat) → Script → Nat × Script
  | 0, script => (0, script)
  | fuel + 1, script =>
    if b.isPrefixOf script then
      let (nFound, rest) := skipCopies b fuel (script.drop b.length)
      (nFound + 1, rest)
    else (0, script)

/-- The loop of `FindAndDelete`: copies are looked for where an instruction may
start, up to the first instruction that cannot be read. -/
def findAndDeleteLoop (b : Script) : (fuel : Nat) → Script → Nat × Script
  | 0, script => (0, script)
  | fuel + 1, script =>
    let (nFound, script) := skipCopies b script.length script
    match getScriptOp script with
    | none => (nFound, script)
    | some i =>
      let (nFoundRest, rest) := findAndDeleteLoop b fuel i.rest
      (nFound + nFoundRest, script.take (script.length - i.rest.length) ++ rest)

/-- `FindAndDelete`: the number of copies of `b` and the script without them. -/
def findAndDelete (script b : Script) : Nat × Script :=
  if b.isEmpty then (0, script) else findAndDeleteLoop b (script.length + 1) script

/-! ## Signature checks -/

/-- `EvalChecksigPreTapscript`. -/
def evalChecksigPreTapscript (env : EvalEnv) (vchSig vchPubKey : Val) (st : EvalState) :
    Eval (Bool × EvalState) := do
  assertThat env.sigversion.isPreTapscript
  let (found, scriptCode) :=
    if env.sigversion = .base then findAndDelete st.codeHash (pushData vchSig)
    else (0, st.codeHash)
  failIf (env.flags.has .constScriptcode && found > 0) .sigFindanddelete
  checkSignatureEncoding env.crypto env.flags vchSig
  checkPubKeyEncoding env.flags env.sigversion vchPubKey
  let (fSuccess, sighashCache) ←
    env.checker.checkECDSASignature vchSig vchPubKey scriptCode env.sigversion st.sighashCache
  failIf (env.flags.has .nullfail && (!fSuccess && !vchSig.isEmpty)) .sigNullfail
  return (fSuccess, { st with sighashCache })

/-- The validation weight that a signature costs, in tapscript. -/
def payValidationWeight (sig : Val) (execdata : ExecData) : Eval ExecData :=
  if sig.isEmpty then .ok execdata
  else
    match execdata.validationWeightLeft with
    | none => .error (.fault .assertion)
    | some weight => do
        let weight := weight - validationWeightPerSigopPassed
        failIf (weight < 0) .tapscriptValidationWeight
        return { execdata with validationWeightLeft := some weight }

/-- The check of a signature, which is not empty if `success`, with a key of any
version but the empty one, in tapscript. -/
def checkTapscriptKey (env : EvalEnv) (success : Bool) (sig pubkey : Val) (execdata : ExecData) :
    Eval ExecData :=
  if pubkey.length = 32 then
    if success then env.checker.checkSchnorrSignature sig pubkey env.sigversion execdata
    else .ok execdata
  else do
    failIf (env.flags.has .discourageUpgradablePubkeytype) .discourageUpgradablePubkeytype
    return execdata

/-- `EvalChecksigTapscript`. -/
def evalChecksigTapscript (env : EvalEnv) (sig pubkey : Val) (st : EvalState) :
    Eval (Bool × EvalState) := do
  assertThat (env.sigversion == .tapscript)
  let success := !sig.isEmpty
  let execdata ← payValidationWeight sig st.execdata
  failIf pubkey.isEmpty .tapscriptEmptyPubkey
  let execdata ← checkTapscriptKey env success sig pubkey execdata
  return (success, { st with execdata })

/-- `EvalChecksig`. -/
def evalChecksig (env : EvalEnv) (sig pubkey : Val) (st : EvalState) : Eval (Bool × EvalState) :=
  match env.sigversion with
  | .base | .witnessV0 => evalChecksigPreTapscript env sig pubkey st
  | .tapscript => evalChecksigTapscript env sig pubkey st
  | .taproot => .error (.fault .assertion)

/-! ## `OP_CHECKMULTISIG` -/

/-- The script code without the signatures, which are dropped in scripts before
segwit. -/
def dropSignatures (env : EvalEnv) : List Val → Script → Eval Script
  | [], scriptCode => .ok scriptCode
  | vchSig :: rest, scriptCode =>
    if env.sigversion = .base then do
      let (found, scriptCode) := findAndDelete scriptCode (pushData vchSig)
      failIf (env.flags.has .constScriptcode && found > 0) .sigFindanddelete
      dropSignatures env rest scriptCode
    else dropSignatures env rest scriptCode

/-- The loop over the keys.  It stops when all signatures are verified, or when
more signatures are left than keys. -/
def checkMultisigLoop (env : EvalEnv) (scriptCode : Script) :
    (keys sigs : List Val) → SigHashCache → Eval (Bool × SigHashCache)
  | _, [], cache => .ok (true, cache)
  | [], _ :: _, cache => .ok (false, cache)
  | vchPubKey :: keys, vchSig :: sigs, cache => do
      checkSignatureEncoding env.crypto env.flags vchSig
      checkPubKeyEncoding env.flags env.sigversion vchPubKey
      let (fOk, cache) ←
        env.checker.checkECDSASignature vchSig vchPubKey scriptCode env.sigversion cache
      let left := if fOk then sigs else vchSig :: sigs
      if left.length > keys.length then .ok (false, cache)
      else checkMultisigLoop env scriptCode keys left cache

/-- The constructor of `CScriptNum` in an evaluation. -/
def scriptNum (env : EvalEnv) (vch : Val) : Eval Int :=
  match ScriptNum.ofVch (env.flags.has .minimaldata) ScriptNum.defaultMaxNumSize vch with
  | some n => .ok n
  | none => fail .scriptnum

/-- The end of `OP_CHECKMULTISIG`: the arguments leave the stack, with the extra
one below them. -/
def finishMultisig (env : EvalEnv) (fSuccess : Bool) (sigs rest : List Val) : Eval (List Val) :=
  match rest with
  | [] => fail .invalidStackOperation
  | dummy :: stack => do
      failIf (env.flags.has .nullfail && (!fSuccess && sigs.any fun vchSig => !vchSig.isEmpty))
        .sigNullfail
      failIf (env.flags.has .nulldummy && !dummy.isEmpty) .sigNulldummy
      return stack

/-- The part of `OP_CHECKMULTISIG` behind the number of keys. -/
def checkMultisigWith (env : EvalEnv) (nKeysCount : Nat) (stack : List Val) (st : EvalState) :
    Eval (Bool × EvalState) :=
  let keys := stack.take nKeysCount
  match stack.drop nKeysCount with
  | [] => fail .invalidStackOperation
  | top :: stack => do
      let nSigsCount := ScriptNum.getint (← scriptNum env top)
      failIf (nSigsCount < 0 || nSigsCount > nKeysCount) .sigCount
      let nSigsCount := nSigsCount.toNat
      failIf (stack.length < nSigsCount + 1) .invalidStackOperation
      let sigs := stack.take nSigsCount
      let scriptCode ← dropSignatures env sigs st.codeHash
      let (fSuccess, sighashCache) ← checkMultisigLoop env scriptCode keys sigs st.sighashCache
      let stack ← finishMultisig env fSuccess sigs (stack.drop nSigsCount)
      return (fSuccess, { st with stack, sighashCache })

/-- `OP_CHECKMULTISIG`: whether the signatures are right, and the state without
the arguments. -/
def evalCheckmultisig (env : EvalEnv) (st : EvalState) : Eval (Bool × EvalState) := do
  failIf (env.sigversion == .tapscript) .tapscriptCheckmultisig
  match st.stack with
  | [] => fail .invalidStackOperation
  | top :: stack =>
    let nKeysCount := ScriptNum.getint (← scriptNum env top)
    failIf (nKeysCount < 0 || nKeysCount > maxPubkeysPerMultisig) .pubkeyCount
    let nKeysCount := nKeysCount.toNat
    let nOpCount := st.nOpCount + nKeysCount
    failIf (nOpCount > maxOpsPerScript) .opCount
    checkMultisigWith env nKeysCount stack { st with nOpCount }

/-! ## Opcodes -/

/-- The opcodes that only look at the stack and rearrange it; `none` inside is a
stack that is too small. -/
def stackOp (crypto : Crypto) (opcode : Opcode) : Option (List Val → Option (List Val)) :=
  match opcode with
  | .op1negate | .op1 | .op2 | .op3 | .op4 | .op5 | .op6 | .op7 | .op8 | .op9 | .op10 | .op11
  | .op12 | .op13 | .op14 | .op15 | .op16 =>
    some fun s => some (ScriptNum.serialize ((opcode.code.toNat : Int) - 0x50) :: s)
  | .opNop => some fun s => some s
  | .op2drop => some fun
      | _ :: _ :: s => some s
      | _ => none
  | .op2dup => some fun
      | x2 :: x1 :: s => some (x2 :: x1 :: x2 :: x1 :: s)
      | _ => none
  | .op3dup => some fun
      | x3 :: x2 :: x1 :: s => some (x3 :: x2 :: x1 :: x3 :: x2 :: x1 :: s)
      | _ => none
  | .op2over => some fun
      | x4 :: x3 :: x2 :: x1 :: s => some (x2 :: x1 :: x4 :: x3 :: x2 :: x1 :: s)
      | _ => none
  | .op2rot => some fun
      | x6 :: x5 :: x4 :: x3 :: x2 :: x1 :: s => some (x2 :: x1 :: x6 :: x5 :: x4 :: x3 :: s)
      | _ => none
  | .op2swap => some fun
      | x4 :: x3 :: x2 :: x1 :: s => some (x2 :: x1 :: x4 :: x3 :: s)
      | _ => none
  | .opIfdup => some fun
      | x :: s => some (if castToBool x then x :: x :: s else x :: s)
      | _ => none
  | .opDepth => some fun s => some (ScriptNum.serialize s.length :: s)
  | .opDrop => some fun
      | _ :: s => some s
      | _ => none
  | .opDup => some fun
      | x :: s => some (x :: x :: s)
      | _ => none
  | .opNip => some fun
      | x2 :: _ :: s => some (x2 :: s)
      | _ => none
  | .opOver => some fun
      | x2 :: x1 :: s => some (x1 :: x2 :: x1 :: s)
      | _ => none
  | .opRot => some fun
      | x3 :: x2 :: x1 :: s => some (x1 :: x3 :: x2 :: s)
      | _ => none
  | .opSwap => some fun
      | x2 :: x1 :: s => some (x1 :: x2 :: s)
      | _ => none
  | .opTuck => some fun
      | x2 :: x1 :: s => some (x2 :: x1 :: x2 :: s)
      | _ => none
  | .opSize => some fun
      | x :: s => some (ScriptNum.serialize x.length :: x :: s)
      | _ => none
  | .opEqual => some fun
      | x2 :: x1 :: s => some (ofBool (x1 == x2) :: s)
      | _ => none
  | .opRipemd160 => some fun
      | x :: s => some (crypto.ripemd160 x :: s)
      | _ => none
  | .opSha1 => some fun
      | x :: s => some (crypto.sha1 x :: s)
      | _ => none
  | .opSha256 => some fun
      | x :: s => some ((crypto.sha256 x).bytes :: s)
      | _ => none
  | .opHash160 => some fun
      | x :: s => some (crypto.hash160 x :: s)
      | _ => none
  | .opHash256 => some fun
      | x :: s => some ((crypto.hash256 x).bytes :: s)
      | _ => none
  | _ => none

/-- A result that an assertion of `CScriptNum` keeps in the range of a 64-bit
integer. -/
def checkedInt64 (n : Int) : Eval Int := do
  assertThat (-2 ^ 63 ≤ n && n < 2 ^ 63)
  return n

/-- The opcodes with one number. -/
def unaryOp : Opcode → Option (Int → Eval Int)
  | .op1add => some fun bn => checkedInt64 (bn + 1)
  | .op1sub => some fun bn => checkedInt64 (bn - 1)
  | .opNegate => some fun bn => checkedInt64 (-bn)
  | .opAbs => some fun bn => if bn < 0 then checkedInt64 (-bn) else .ok bn
  | .opNot => some fun bn => .ok (if bn = 0 then 1 else 0)
  | .op0notequal => some fun bn => .ok (if bn ≠ 0 then 1 else 0)
  | _ => none

/-- The opcodes with two numbers. -/
def binaryOp : Opcode → Option (Int → Int → Int)
  | .opAdd => some fun bn1 bn2 => bn1 + bn2
  | .opSub => some fun bn1 bn2 => bn1 - bn2
  | .opBooland => some fun bn1 bn2 => if bn1 ≠ 0 ∧ bn2 ≠ 0 then 1 else 0
  | .opBoolor => some fun bn1 bn2 => if bn1 ≠ 0 ∨ bn2 ≠ 0 then 1 else 0
  | .opNumequal | .opNumequalverify => some fun bn1 bn2 => if bn1 = bn2 then 1 else 0
  | .opNumnotequal => some fun bn1 bn2 => if bn1 ≠ bn2 then 1 else 0
  | .opLessthan => some fun bn1 bn2 => if bn1 < bn2 then 1 else 0
  | .opGreaterthan => some fun bn1 bn2 => if bn1 > bn2 then 1 else 0
  | .opLessthanorequal => some fun bn1 bn2 => if bn1 ≤ bn2 then 1 else 0
  | .opGreaterthanorequal => some fun bn1 bn2 => if bn1 ≥ bn2 then 1 else 0
  | .opMin => some fun bn1 bn2 => if bn1 < bn2 then bn1 else bn2
  | .opMax => some fun bn1 bn2 => if bn1 > bn2 then bn1 else bn2
  | _ => none

/-- The `VERIFY` part of an opcode: a result that is true leaves the stack. -/
def verifyTop (error : ScriptError) : List Val → Eval (List Val)
  | [] => fail .invalidStackOperation
  | vch :: stack => if castToBool vch then .ok stack else fail error

def evalUnary (env : EvalEnv) (f : Int → Eval Int) : List Val → Eval (List Val)
  | vch :: stack => do
      let bn ← f (← scriptNum env vch)
      return ScriptNum.serialize bn :: stack
  | _ => fail .invalidStackOperation

def evalBinary (env : EvalEnv) (f : Int → Int → Int) : List Val → Eval (List Val)
  | vch2 :: vch1 :: stack => do
      let bn1 ← scriptNum env vch1
      let bn2 ← scriptNum env vch2
      return ScriptNum.serialize (f bn1 bn2) :: stack
  | _ => fail .invalidStackOperation

/-- `OP_WITHIN`. -/
def evalWithin (env : EvalEnv) : List Val → Eval (List Val)
  | vch3 :: vch2 :: vch1 :: stack => do
      let bn1 ← scriptNum env vch1
      let bn2 ← scriptNum env vch2
      let bn3 ← scriptNum env vch3
      return ofBool (bn2 ≤ bn1 && bn1 < bn3) :: stack
  | _ => fail .invalidStackOperation

/-- `OP_PICK` and `OP_ROLL`. -/
def evalPick (env : EvalEnv) (roll : Bool) : List Val → Eval (List Val)
  | top :: below :: rest => do
      let stack := below :: rest
      let n := ScriptNum.getint (← scriptNum env top)
      failIf (n < 0 || n ≥ stack.length) .invalidStackOperation
      let vch := stack.getD n.toNat []
      return vch :: if roll then stack.eraseIdx n.toNat else stack
  | _ => fail .invalidStackOperation

/-- The operand of `OP_CHECKLOCKTIMEVERIFY` and `OP_CHECKSEQUENCEVERIFY`, which
has up to five bytes and stays on the stack. -/
def lockTimeOperand (env : EvalEnv) : List Val → Eval Int
  | [] => fail .invalidStackOperation
  | vch :: _ =>
    match ScriptNum.ofVch (env.flags.has .minimaldata) 5 vch with
    | none => fail .scriptnum
    | some n => do
        failIf (n < 0) .negativeLocktime
        return n

/-- `OP_CHECKLOCKTIMEVERIFY`. -/
def evalCheckLockTime (env : EvalEnv) (stack : List Val) : Eval Unit :=
  if env.flags.has .checklocktimeverify then do
    let nLockTime ← lockTimeOperand env stack
    failIf (!env.checker.checkLockTime nLockTime) .unsatisfiedLocktime
  else .ok ()

/-- `CTxIn::SEQUENCE_LOCKTIME_DISABLE_FLAG`. -/
def sequenceLocktimeDisableFlag : Nat := 1 <<< 31

/-- `OP_CHECKSEQUENCEVERIFY`. -/
def evalCheckSequence (env : EvalEnv) (stack : List Val) : Eval Unit :=
  if env.flags.has .checksequenceverify then do
    let nSequence ← lockTimeOperand env stack
    failIf (nSequence.toNat &&& sequenceLocktimeDisableFlag == 0 &&
      !env.checker.checkSequence nSequence) .unsatisfiedLocktime
  else .ok ()

/-- The condition of `OP_IF` and `OP_NOTIF` in a branch that is executed. -/
def evalCondition (env : EvalEnv) (negate : Bool) : List Val → Eval (Bool × List Val)
  | [] => fail .invalidStackOperation
  | vch :: stack => do
      let notMinimal := vch.length > 1 || vch.length == 1 && vch != [1]
      failIf (env.sigversion == .tapscript && notMinimal) .tapscriptMinimalif
      failIf (env.flags.has .minimalif && (env.sigversion == .witnessV0 && notMinimal)) .minimalif
      return (castToBool vch != negate, stack)

/-- `OP_IF` and `OP_NOTIF`. -/
def evalIf (env : EvalEnv) (fExec negate : Bool) (st : EvalState) : Eval EvalState := do
  let (fValue, stack) ←
    (if fExec then evalCondition env negate st.stack else .ok (false, st.stack))
  return { st with stack, vfExec := st.vfExec.pushBack fValue }

/-- The two arguments of `OP_CHECKSIG` and `OP_CHECKSIGVERIFY`. -/
def evalChecksigOp (env : EvalEnv) (st : EvalState) : Eval (Bool × EvalState) :=
  match st.stack with
  | vchPubKey :: vchSig :: stack => do
      let (fSuccess, st) ← evalChecksig env vchSig vchPubKey st
      return (fSuccess, { st with stack })
  | _ => fail .invalidStackOperation

/-- `OP_CHECKSIGADD`. -/
def evalChecksigadd (env : EvalEnv) (st : EvalState) : Eval EvalState := do
  failIf env.sigversion.isPreTapscript .badOpcode
  match st.stack with
  | pubkey :: numVch :: sig :: stack =>
    let num ← scriptNum env numVch
    let (success, st) ← evalChecksig env sig pubkey st
    return { st with stack := ScriptNum.serialize (num + if success then 1 else 0) :: stack }
  | _ => fail .invalidStackOperation

/-- The result of a signature check on the stack, or off it for a `VERIFY`
opcode. -/
def pushResult (verify : Option ScriptError) (result : Bool × EvalState) : Eval EvalState :=
  match verify with
  | none => .ok { result.2 with stack := ofBool result.1 :: result.2.stack }
  | some error => do
      failIf (!result.1) error
      return result.2

/-- The opcodes that do more than compute on the stack. -/
def controlOp (env : EvalEnv) (fExec : Bool) (rest : Script) (opcode : Opcode) (st : EvalState) :
    Eval EvalState :=
  match opcode with
  | .opChecklocktimeverify => do
      evalCheckLockTime env st.stack
      return st
  | .opChecksequenceverify => do
      evalCheckSequence env st.stack
      return st
  | .opNop1 | .opNop4 | .opNop5 | .opNop6 | .opNop7 | .opNop8 | .opNop9 | .opNop10 => do
      failIf (env.flags.has .discourageUpgradableNops) .discourageUpgradableNops
      return st
  | .opIf => evalIf env fExec false st
  | .opNotif => evalIf env fExec true st
  | .opElse => do
      failIf st.vfExec.empty .unbalancedConditional
      return { st with vfExec := ← st.vfExec.toggleTop }
  | .opEndif => do
      failIf st.vfExec.empty .unbalancedConditional
      return { st with vfExec := ← st.vfExec.popBack }
  | .opVerify => do
      return { st with stack := ← verifyTop .verify st.stack }
  | .opReturn => fail .opReturn
  | .opToaltstack =>
    match st.stack with
    | [] => fail .invalidStackOperation
    | vch :: stack => .ok { st with stack, altstack := vch :: st.altstack }
  | .opFromaltstack =>
    match st.altstack with
    | [] => fail .invalidAltstackOperation
    | vch :: altstack => .ok { st with stack := vch :: st.stack, altstack }
  | .opPick => do
      return { st with stack := ← evalPick env false st.stack }
  | .opRoll => do
      return { st with stack := ← evalPick env true st.stack }
  | .opEqualverify =>
    match st.stack with
    | vch2 :: vch1 :: stack => do
        return { st with stack := ← verifyTop .equalverify (ofBool (vch1 == vch2) :: stack) }
    | _ => fail .invalidStackOperation
  | .opWithin => do
      return { st with stack := ← evalWithin env st.stack }
  | .opCodeseparator =>
    .ok { st with
          codeHash := rest
          execdata := { st.execdata with codeseparatorPos := some st.opcodePos } }
  | .opChecksig => do pushResult none (← evalChecksigOp env st)
  | .opChecksigverify => do pushResult (some .checksigverify) (← evalChecksigOp env st)
  | .opChecksigadd => evalChecksigadd env st
  | .opCheckmultisig => do pushResult none (← evalCheckmultisig env st)
  | .opCheckmultisigverify => do
      pushResult (some .checkmultisigverify) (← evalCheckmultisig env st)
  | _ => fail .badOpcode

/-- The `switch` of `EvalScript`. -/
def evalOpcode (env : EvalEnv) (fExec : Bool) (rest : Script) (opcode : Opcode) (st : EvalState) :
    Eval EvalState :=
  match stackOp env.crypto opcode, unaryOp opcode, binaryOp opcode with
  | some f, _, _ =>
    match f st.stack with
    | none => fail .invalidStackOperation
    | some stack => .ok { st with stack }
  | none, some f, _ => do
      return { st with stack := ← evalUnary env f st.stack }
  | none, none, some f => do
      let stack ← evalBinary env f st.stack
      if opcode = .opNumequalverify then
        return { st with stack := ← verifyTop .numequalverify stack }
      else return { st with stack }
  | none, none, none => controlOp env fExec rest opcode st

/-! ## `EvalScript` -/

/-- The opcodes that are disabled, also in branches that are not executed. -/
def isDisabledOpcode (opcode : UInt8) : Bool :=
  match Opcode.ofCode opcode with
  | some .opCat | some .opSubstr | some .opLeft | some .opRight | some .opInvert | some .opAnd
  | some .opOr | some .opXor | some .op2mul | some .op2div | some .opMul | some .opDiv
  | some .opMod | some .opLshift | some .opRshift => true
  | _ => false

/-- The number of operations after an opcode, in scripts that limit it. -/
def countOpcode (sigversion : SigVersion) (opcode : UInt8) (nOpCount : Nat) : Nat :=
  if sigversion.isPreTapscript && opcode > Opcode.op16.code then nOpCount + 1 else nOpCount

/-- The part of an iteration of `EvalScript` that acts. -/
def evalInstruction (env : EvalEnv) (i : Instruction) (st : EvalState) : Eval EvalState :=
  let fExec := st.vfExec.allTrue
  if fExec && i.opcode ≤ Opcode.opPushdata4.code then do
    failIf (env.flags.has .minimaldata && !checkMinimalPush i.data i.opcode) .minimaldata
    return { st with stack := i.data :: st.stack }
  else if fExec || Opcode.opIf.code ≤ i.opcode && i.opcode ≤ Opcode.opEndif.code then
    match Opcode.ofCode i.opcode with
    | none => fail .badOpcode
    | some opcode => evalOpcode env fExec i.rest opcode st
  else .ok st

/-- An iteration of `EvalScript`. -/
def evalStep (env : EvalEnv) (st : EvalState) (i : Instruction) : Eval EvalState := do
  failIf (i.data.length > maxScriptElementSize) .pushSize
  let nOpCount := countOpcode env.sigversion i.opcode st.nOpCount
  failIf (nOpCount > st.nOpCount && nOpCount > maxOpsPerScript) .opCount
  failIf (isDisabledOpcode i.opcode) .disabledOpcode
  failIf (env.flags.has .constScriptcode &&
    (i.opcode == Opcode.opCodeseparator.code && env.sigversion == .base)) .opCodeseparator
  let st ← evalInstruction env i { st with nOpCount }
  failIf (st.stack.length + st.altstack.length > maxStackSize) .stackSize
  return { st with opcodePos := st.opcodePos + 1 }

/-- `EvalScript`.  The result has the stack, the execution data and the cache of
the checker. -/
def evalScript (env : EvalEnv) (stack : List Val) (script : Script) (execdata : ExecData)
    (sighashCache : SigHashCache) : Eval EvalState := do
  assertThat (env.sigversion != .taproot)
  failIf (env.sigversion.isPreTapscript && script.length > maxScriptSize) .scriptSize
  let st : EvalState :=
    { stack, codeHash := script, sighashCache
      execdata := { execdata with codeseparatorPos := some 0xffffffff } }
  let st ← script.instructions.1.foldlM (evalStep env) st
  failIf (!script.instructions.2) .badOpcode
  failIf (!st.vfExec.empty) .unbalancedConditional
  return st

end BitcoinKernel.Interpreter
