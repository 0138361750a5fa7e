import BitcoinKernel.Lib.Bytes
import BitcoinKernel.Primitives.Types

/-!
# Scripts: opcodes, instructions and the legacy count of signature operations

A script is a byte string.  `getScriptOp` reads one instruction from its front
(`script.cpp`), and `Script.instructions` cuts a whole script into its
instructions, up to the first one that is truncated.  The loops of the source
that walk over a script are recursions over this list.

An opcode is a number: the C++ code casts any byte to `opcodetype` and compares
opcodes with `<`.  `Opcode` enumerates the opcodes from `OP_PUSHDATA1` up, which
all have a name.  The values below are direct pushes (`OP_0` among them), and
those above are unassigned.
-/

namespace BitcoinKernel

/-- The members of `opcodetype` from `OP_PUSHDATA1` to `OP_CHECKSIGADD`. -/
inductive Opcode
  | opPushdata1 | opPushdata2 | opPushdata4 | op1negate | opReserved | op1 | op2 | op3 | op4 | op5
  | op6 | op7 | op8 | op9 | op10 | op11 | op12 | op13 | op14 | op15 | op16 | opNop | opVer | opIf
  | opNotif | opVerif | opVernotif | opElse | opEndif | opVerify | opReturn | opToaltstack
  | opFromaltstack | op2drop | op2dup | op3dup | op2over | op2rot | op2swap | opIfdup | opDepth
  | opDrop | opDup | opNip | opOver | opPick | opRoll | opRot | opSwap | opTuck | opCat | opSubstr
  | opLeft | opRight | opSize | opInvert | opAnd | opOr | opXor | opEqual | opEqualverify
  | opReserved1 | opReserved2 | op1add | op1sub | op2mul | op2div | opNegate | opAbs | opNot
  | op0notequal | opAdd | opSub | opMul | opDiv | opMod | opLshift | opRshift | opBooland
  | opBoolor | opNumequal | opNumequalverify | opNumnotequal | opLessthan | opGreaterthan
  | opLessthanorequal | opGreaterthanorequal | opMin | opMax | opWithin | opRipemd160 | opSha1
  | opSha256 | opHash160 | opHash256 | opCodeseparator | opChecksig | opChecksigverify
  | opCheckmultisig | opCheckmultisigverify | opNop1 | opChecklocktimeverify
  | opChecksequenceverify | opNop4 | opNop5 | opNop6 | opNop7 | opNop8 | opNop9 | opNop10
  | opChecksigadd
deriving DecidableEq, Repr

namespace Opcode

/-- The value in the C++ enumeration. -/
def code : Opcode → UInt8
  | .opPushdata1 => 0x4c | .opPushdata2 => 0x4d | .opPushdata4 => 0x4e | .op1negate => 0x4f
  | .opReserved => 0x50 | .op1 => 0x51 | .op2 => 0x52 | .op3 => 0x53 | .op4 => 0x54 | .op5 => 0x55
  | .op6 => 0x56 | .op7 => 0x57 | .op8 => 0x58 | .op9 => 0x59 | .op10 => 0x5a | .op11 => 0x5b
  | .op12 => 0x5c | .op13 => 0x5d | .op14 => 0x5e | .op15 => 0x5f | .op16 => 0x60 | .opNop => 0x61
  | .opVer => 0x62 | .opIf => 0x63 | .opNotif => 0x64 | .opVerif => 0x65 | .opVernotif => 0x66
  | .opElse => 0x67 | .opEndif => 0x68 | .opVerify => 0x69 | .opReturn => 0x6a
  | .opToaltstack => 0x6b | .opFromaltstack => 0x6c | .op2drop => 0x6d | .op2dup => 0x6e
  | .op3dup => 0x6f | .op2over => 0x70 | .op2rot => 0x71 | .op2swap => 0x72 | .opIfdup => 0x73
  | .opDepth => 0x74 | .opDrop => 0x75 | .opDup => 0x76 | .opNip => 0x77 | .opOver => 0x78
  | .opPick => 0x79 | .opRoll => 0x7a | .opRot => 0x7b | .opSwap => 0x7c | .opTuck => 0x7d
  | .opCat => 0x7e | .opSubstr => 0x7f | .opLeft => 0x80 | .opRight => 0x81 | .opSize => 0x82
  | .opInvert => 0x83 | .opAnd => 0x84 | .opOr => 0x85 | .opXor => 0x86 | .opEqual => 0x87
  | .opEqualverify => 0x88 | .opReserved1 => 0x89 | .opReserved2 => 0x8a | .op1add => 0x8b
  | .op1sub => 0x8c | .op2mul => 0x8d | .op2div => 0x8e | .opNegate => 0x8f | .opAbs => 0x90
  | .opNot => 0x91 | .op0notequal => 0x92 | .opAdd => 0x93 | .opSub => 0x94 | .opMul => 0x95
  | .opDiv => 0x96 | .opMod => 0x97 | .opLshift => 0x98 | .opRshift => 0x99 | .opBooland => 0x9a
  | .opBoolor => 0x9b | .opNumequal => 0x9c | .opNumequalverify => 0x9d | .opNumnotequal => 0x9e
  | .opLessthan => 0x9f | .opGreaterthan => 0xa0 | .opLessthanorequal => 0xa1
  | .opGreaterthanorequal => 0xa2 | .opMin => 0xa3 | .opMax => 0xa4 | .opWithin => 0xa5
  | .opRipemd160 => 0xa6 | .opSha1 => 0xa7 | .opSha256 => 0xa8 | .opHash160 => 0xa9
  | .opHash256 => 0xaa | .opCodeseparator => 0xab | .opChecksig => 0xac
  | .opChecksigverify => 0xad | .opCheckmultisig => 0xae | .opCheckmultisigverify => 0xaf
  | .opNop1 => 0xb0 | .opChecklocktimeverify => 0xb1 | .opChecksequenceverify => 0xb2
  | .opNop4 => 0xb3 | .opNop5 => 0xb4 | .opNop6 => 0xb5 | .opNop7 => 0xb6 | .opNop8 => 0xb7
  | .opNop9 => 0xb8 | .opNop10 => 0xb9 | .opChecksigadd => 0xba

/-- The named opcode with a value, if there is one. -/
def ofCode (value : UInt8) : Option Opcode :=
  let opcode := Opcode.ofNat (value.toNat - 0x4c)
  if opcode.code = value then some opcode else none

theorem ofCode_code (opcode : Opcode) : ofCode opcode.code = some opcode := by
  cases opcode <;> rfl

end Opcode

/-- `OP_INVALIDOPCODE`. -/
def opInvalidopcode : UInt8 := 0xff

/-- `MAX_PUBKEYS_PER_MULTISIG`. -/
def maxPubkeysPerMultisig : Nat := 20

/-- An instruction: the value of its opcode, the data that it pushes and the
rest of the script behind it. -/
structure Instruction where
  opcode : UInt8
  data : List UInt8
  rest : Script
deriving DecidableEq, Repr

/-! ## Instructions -/

/-- The size in the `count` bytes behind an `OP_PUSHDATA` opcode. -/
def readPushSize (count : Nat) (pc : Script) : Option (Nat × Script) :=
  if pc.length < count then none
  else some (Bytes.decodeLE (pc.take count), pc.drop count)

/-- The size of the data that a push takes, and the script from that data on. -/
def pushSize (opcode : UInt8) (pc : Script) : Option (Nat × Script) :=
  if opcode < Opcode.opPushdata1.code then some (opcode.toNat, pc)
  else if opcode = Opcode.opPushdata1.code then readPushSize 1 pc
  else if opcode = Opcode.opPushdata2.code then readPushSize 2 pc
  else readPushSize 4 pc

/-- `GetScriptOp`. -/
def getScriptOp : Script → Option Instruction
  | [] => none
  | opcode :: pc =>
    if opcode ≤ Opcode.opPushdata4.code then do
      let (nSize, pc) ← pushSize opcode pc
      if pc.length < nSize then none
      else some { opcode, data := pc.take nSize, rest := pc.drop nSize }
    else some { opcode, data := [], rest := pc }

theorem pushSize_length_le {opcode : UInt8} {pc pc' : Script} {nSize : Nat}
    (h : pushSize opcode pc = some (nSize, pc')) : pc'.length ≤ pc.length := by
  have hread : ∀ count, readPushSize count pc = some (nSize, pc') → pc'.length ≤ pc.length := by
    intro count hcount
    rw [readPushSize] at hcount
    split at hcount
    · cases hcount
    · cases hcount
      simp
  rw [pushSize] at h
  split at h
  · cases h
    exact Nat.le_refl _
  split at h
  · exact hread 1 h
  split at h
  · exact hread 2 h
  · exact hread 4 h

/-- Every instruction takes at least one byte. -/
theorem getScriptOp_rest_length_lt {script : Script} {i : Instruction}
    (h : getScriptOp script = some i) : i.rest.length < script.length := by
  cases script with
  | nil => cases h
  | cons opcode pc =>
    rw [getScriptOp] at h
    split at h
    · obtain ⟨⟨nSize, pc'⟩, hsize, h⟩ := Option.bind_eq_some_iff.mp h
      have hle := pushSize_length_le hsize
      simp only at h
      split at h
      · cases h
      · cases h
        simp only [List.length_drop, List.length_cons]
        omega
    · cases h
      simp

/-- The instructions of a script and whether they are all of it; at most
`fuel` of them. -/
def instructionsWithin : (fuel : Nat) → Script → List Instruction × Bool
  | 0, script => ([], script.isEmpty)
  | fuel + 1, script =>
    if script.isEmpty then ([], true)
    else
      match getScriptOp script with
      | none => ([], false)
      | some i =>
        let (rest, complete) := instructionsWithin fuel i.rest
        (i :: rest, complete)

/-- The instructions of a script, and whether `GetOp` succeeds up to the end.
Each of them takes a byte, so there are no more than bytes. -/
def Script.instructions (script : Script) : List Instruction × Bool :=
  instructionsWithin script.length script

/-- Fuel beyond the number of bytes does not matter. -/
theorem instructionsWithin_of_length_le {fuel fuel' : Nat} {script : Script}
    (h : script.length ≤ fuel) (h' : script.length ≤ fuel') :
    instructionsWithin fuel script = instructionsWithin fuel' script := by
  induction fuel generalizing fuel' script with
  | zero =>
    rw [List.eq_nil_of_length_eq_zero (Nat.eq_zero_of_le_zero h)]
    cases fuel' <;> rfl
  | succ fuel ih =>
    cases script with
    | nil => cases fuel' <;> rfl
    | cons opcode pc =>
      cases fuel' with
      | zero => cases h'
      | succ fuel' =>
        rw [instructionsWithin, instructionsWithin]
        cases hop : getScriptOp (opcode :: pc) with
        | none => rfl
        | some i =>
          have hlt := getScriptOp_rest_length_lt hop
          simp only [ih (by omega) (by omega : i.rest.length ≤ fuel')]

/-- The loop `while (pc < end) GetOp(..)`, unrolled once. -/
theorem Script.instructions_eq (script : Script) : script.instructions =
      if script.isEmpty then ([], true)
      else
        match getScriptOp script with
        | none => ([], false)
        | some i => (i :: i.rest.instructions.1, i.rest.instructions.2) := by
  cases script with
  | nil => rfl
  | cons opcode pc =>
    rw [Script.instructions, List.length_cons, instructionsWithin]
    cases hop : getScriptOp (opcode :: pc) with
    | none => rfl
    | some i =>
      have hlt := getScriptOp_rest_length_lt hop
      rw [List.length_cons] at hlt
      simp only [instructionsWithin_of_length_le (Nat.le_of_lt_succ hlt) (Nat.le_refl _),
        Script.instructions]

/-! ## Signature operations -/

/-- `CScript::DecodeOP_N` of an opcode from `OP_1` to `OP_16`. -/
def decodeOpN (opcode : UInt8) : Nat := opcode.toNat - 0x50

/-- What the instruction with the opcode `opcode` adds to the count of
signature operations. -/
def sigOps (fAccurate : Bool) (lastOpcode opcode : UInt8) : UInt32 :=
  match Opcode.ofCode opcode with
  | some .opChecksig | some .opChecksigverify => 1
  | some .opCheckmultisig | some .opCheckmultisigverify =>
    if fAccurate && Opcode.op1.code ≤ lastOpcode && lastOpcode ≤ Opcode.op16.code then
      UInt32.ofNat (decodeOpN lastOpcode)
    else UInt32.ofNat maxPubkeysPerMultisig
  | _ => 0

/-- The loop of `CScript::GetSigOpCount`. -/
def sigOpCountLoop (fAccurate : Bool) : UInt8 → UInt32 → List Instruction → UInt32
  | _, n, [] => n
  | lastOpcode, n, i :: rest =>
    sigOpCountLoop fAccurate i.opcode (n + sigOps fAccurate lastOpcode i.opcode) rest

/-- `CScript::GetSigOpCount`. -/
def Script.getSigOpCount (script : Script) (fAccurate : Bool) : UInt32 :=
  sigOpCountLoop fAccurate opInvalidopcode 0 script.instructions.1

/-- `GetLegacySigOpCount`. -/
def getLegacySigOpCount (tx : Transaction) : UInt32 :=
  let inputs := tx.vin.foldl (fun n input => n + input.scriptSig.getSigOpCount false) 0
  tx.vout.foldl (fun n output => n + output.scriptPubKey.getSigOpCount false) inputs

/-! ## Kinds of scripts -/

/-- `CScript::IsPushOnly`. -/
def Script.isPushOnly (script : Script) : Bool :=
  script.instructions.2 && script.instructions.1.all fun i => i.opcode ≤ Opcode.op16.code

/-- `CScript::IsPayToScriptHash`. -/
def Script.isPayToScriptHash (script : Script) : Bool :=
  script.length == 23 && script[0]? == some Opcode.opHash160.code && script[1]? == some 0x14 &&
    script[22]? == some Opcode.opEqual.code

/-- `CScript::IsWitnessProgram`: the version and the program. -/
def Script.isWitnessProgram (script : Script) : Option (Nat × List UInt8) :=
  match script with
  | opcode :: size :: program =>
    if script.length < 4 || script.length > 42 then none
    else if opcode ≠ 0 && (opcode < Opcode.op1.code || opcode > Opcode.op16.code) then none
    else if size.toNat + 2 = script.length then some (decodeOpN opcode, program)
    else none
  | _ => none

/-- `CScript::IsPayToAnchor` of a witness program. -/
def isPayToAnchor (version : Nat) (program : List UInt8) : Bool :=
  version == 1 && program == [0x4e, 0x73]

/-- `IsOpSuccess`. -/
def isOpSuccess (opcode : UInt8) : Bool :=
  opcode == 80 || opcode == 98 || (opcode ≥ 126 && opcode ≤ 129) ||
    (opcode ≥ 131 && opcode ≤ 134) || (opcode ≥ 137 && opcode ≤ 138) ||
    (opcode ≥ 141 && opcode ≤ 142) || (opcode ≥ 149 && opcode ≤ 153) ||
    (opcode ≥ 187 && opcode ≤ 254)

/-! ## Pushes -/

/-- `CheckMinimalPush` of a push opcode. -/
def checkMinimalPush (data : List UInt8) (opcode : UInt8) : Bool :=
  match data with
  | [] => opcode == 0
  | [byte] =>
    if 1 ≤ byte && byte ≤ 16 then false
    else if byte = 0x81 then false
    else opcode == 1
  | _ =>
    if data.length ≤ 75 then opcode.toNat == data.length
    else if data.length ≤ 255 then opcode == Opcode.opPushdata1.code
    else if data.length ≤ 65535 then opcode == Opcode.opPushdata2.code
    else true

/-- `CScript() << data`. -/
def pushData (data : List UInt8) : Script :=
  let size := data.length
  let sizeBytes :=
    if size < Opcode.opPushdata1.code.toNat then Bytes.encodeLE 1 size
    else if size ≤ 0xff then Opcode.opPushdata1.code :: Bytes.encodeLE 1 size
    else if size ≤ 0xffff then Opcode.opPushdata2.code :: Bytes.encodeLE 2 size
    else Opcode.opPushdata4.code :: Bytes.encodeLE 4 size
  sizeBytes ++ data

end BitcoinKernel
