import BitcoinKernel.Primitives.Serialize
import BitcoinKernel.Script.Interpreter

/-!
# Signature hashes and the signature checker of a transaction

`PrecomputedTransactionData`, `SignatureHash`, `SignatureHashSchnorr` and
`TransactionSignatureChecker` of `script/interpreter.cpp`.

The checker is given a transaction and, separately, precomputed data.  The
digests of segwit and taproot mix fields of the transaction with hashes from
the data.  Nothing here checks that the data was made from the transaction.

A `HashWriter` is the list of the bytes that were written to it.
-/

namespace BitcoinKernel.Interpreter

open Serialize

/-! ## Precomputed data -/

/-- `PrecomputedTransactionData`. -/
structure PrecomputedData where
  prevoutsSingleHash : Uint256 := Uint256.null
  sequencesSingleHash : Uint256 := Uint256.null
  outputsSingleHash : Uint256 := Uint256.null
  spentAmountsSingleHash : Uint256 := Uint256.null
  spentScriptsSingleHash : Uint256 := Uint256.null
  bip341TaprootReady : Bool := false
  hashPrevouts : Uint256 := Uint256.null
  hashSequence : Uint256 := Uint256.null
  hashOutputs : Uint256 := Uint256.null
  bip143SegwitReady : Bool := false
  spentOutputs : List TxOut := []
  spentOutputsReady : Bool := false
deriving DecidableEq, Repr

variable (crypto : Crypto)

/-- `GetPrevoutsSHA256`. -/
def getPrevoutsSHA256 (txTo : Transaction) : Uint256 :=
  crypto.sha256 (txTo.vin.flatMap fun txin => writeOutPoint txin.prevout)

/-- `GetSequencesSHA256`. -/
def getSequencesSHA256 (txTo : Transaction) : Uint256 :=
  crypto.sha256 (txTo.vin.flatMap fun txin => writeUint32 txin.nSequence)

/-- `GetOutputsSHA256`. -/
def getOutputsSHA256 (txTo : Transaction) : Uint256 :=
  crypto.sha256 (txTo.vout.flatMap writeTxOut)

/-- `GetSpentAmountsSHA256`. -/
def getSpentAmountsSHA256 (outputsSpent : List TxOut) : Uint256 :=
  crypto.sha256 (outputsSpent.flatMap fun txout => writeInt64 txout.nValue)

/-- `GetSpentScriptsSHA256`. -/
def getSpentScriptsSHA256 (outputsSpent : List TxOut) : Uint256 :=
  crypto.sha256 (outputsSpent.flatMap fun txout => writeBytes txout.scriptPubKey)

/-- `SHA256Uint256`. -/
def sha256Uint256 (h : Uint256) : Uint256 := crypto.sha256 h.bytes

/-- What `Init` takes for the output of a taproot spend. -/
def looksLikeTaproot : Option TxOut → Bool
  | some txout =>
    txout.scriptPubKey.length == 34 && txout.scriptPubKey[0]? == some Opcode.op1.code
  | none => false

/-- Whether `Init` finds an input with a witness that is a taproot spend. -/
def usesBip341Taproot (txTo : Transaction) (spentOutputs : List TxOut) : Bool :=
  txTo.vin.zipIdx.any fun (txin, inpos) =>
    !txin.scriptWitness.isEmpty && looksLikeTaproot spentOutputs[inpos]?

/-- Whether `Init` finds an input with a witness that is not one. -/
def usesBip143Segwit (txTo : Transaction) (spentOutputs : List TxOut) : Bool :=
  txTo.vin.zipIdx.any fun (txin, inpos) =>
    !txin.scriptWitness.isEmpty && !looksLikeTaproot spentOutputs[inpos]?

/-- `PrecomputedTransactionData::Init`, behind its assertion on the number of
spent outputs. -/
def precompute (txTo : Transaction) (spentOutputs : List TxOut) : PrecomputedData :=
  let ready := !spentOutputs.isEmpty
  let segwit := usesBip143Segwit txTo spentOutputs
  let taproot := usesBip341Taproot txTo spentOutputs
  let prevouts := getPrevoutsSHA256 crypto txTo
  let sequences := getSequencesSHA256 crypto txTo
  let outputs := getOutputsSHA256 crypto txTo
  { prevoutsSingleHash := if segwit || taproot then prevouts else Uint256.null
    sequencesSingleHash := if segwit || taproot then sequences else Uint256.null
    outputsSingleHash := if segwit || taproot then outputs else Uint256.null
    spentAmountsSingleHash :=
      if taproot && ready then getSpentAmountsSHA256 crypto spentOutputs else Uint256.null
    spentScriptsSingleHash :=
      if taproot && ready then getSpentScriptsSHA256 crypto spentOutputs else Uint256.null
    bip341TaprootReady := taproot && ready
    hashPrevouts := if segwit then sha256Uint256 crypto prevouts else Uint256.null
    hashSequence := if segwit then sha256Uint256 crypto sequences else Uint256.null
    hashOutputs := if segwit then sha256Uint256 crypto outputs else Uint256.null
    bip143SegwitReady := segwit
    spentOutputs
    spentOutputsReady := ready }

/-- `PrecomputedTransactionData::Init`. -/
def init (txTo : Transaction) (spentOutputs : List TxOut) : Except Fault PrecomputedData :=
  if spentOutputs.isEmpty || spentOutputs.length == txTo.vin.length then
    .ok (precompute crypto txTo spentOutputs)
  else .error .assertion

/-! ## Hash types -/

/-- `SIGHASH_ANYONECANPAY` in a hash type. -/
def anyoneCanPay (hashType : UInt8) : Bool := hashType &&& 0x80 != 0

/-- `SIGHASH_NONE` in an ECDSA hash type. -/
def hashNone (hashType : UInt8) : Bool := hashType &&& 0x1f == 2

/-- `SIGHASH_SINGLE` in an ECDSA hash type. -/
def hashSingle (hashType : UInt8) : Bool := hashType &&& 0x1f == 3

/-! ## `SignatureHash` -/

/-- Where `GetScriptOp` leaves the iterator if it fails. -/
def getScriptOpStop : Script → Script
  | [] => []
  | opcode :: pc =>
    match pushSize opcode pc with
    | none => pc
    | some (_, pc) => pc

/-- The bytes that `SerializeScriptCode` writes: those of the instructions other
than `OP_CODESEPARATOR`, and those of an instruction that cannot be read, as far
as they were looked at. -/
def scriptCodeBytes : Script → List Instruction → List UInt8
  | pc, [] => pc.take (pc.length - (getScriptOpStop pc).length)
  | pc, i :: rest =>
    (if i.opcode = Opcode.opCodeseparator.code then [] else pc.take (pc.length - i.rest.length))
      ++ scriptCodeBytes i.rest rest

/-- `SerializeScriptCode`. -/
def serializeScriptCode (scriptCode : Script) : List UInt8 :=
  let instructions := scriptCode.instructions.1
  let nCodeSeparators :=
    instructions.countP fun i => i.opcode == Opcode.opCodeseparator.code
  writeCompactSize (scriptCode.length - nCodeSeparators) ++ scriptCodeBytes scriptCode instructions

/-- `SerializeInput` of an input, which is the one being signed if `self`. -/
def serializeInput (scriptCode : Script) (hashType : UInt8) (self : Bool) (txin : TxIn) :
    List UInt8 :=
  writeOutPoint txin.prevout ++ (if self then serializeScriptCode scriptCode else writeBytes []) ++
    (if !self && (hashSingle hashType || hashNone hashType) then Bytes.encodeLE 4 0
    else writeUint32 txin.nSequence)

/-- The inputs of `CTransactionSignatureSerializer::Serialize`, with whether
they are the one being signed. -/
def signedInputs (txTo : Transaction) (nIn : Nat) (hashType : UInt8) : List (Bool × TxIn) :=
  let inputs := txTo.vin.zipIdx.map fun (txin, nInput) => (nInput == nIn, txin)
  if anyoneCanPay hashType then inputs.filter fun (self, _) => self else inputs

/-- The outputs of `CTransactionSignatureSerializer::Serialize`. -/
def signedOutputs (txTo : Transaction) (nIn : Nat) (hashType : UInt8) : List TxOut :=
  if hashNone hashType then []
  else if hashSingle hashType then
    List.replicate nIn { nValue := -1, scriptPubKey := [] } ++ (txTo.vout.drop nIn).take 1
  else txTo.vout

/-- `CTransactionSignatureSerializer::Serialize`. -/
def serializeForSignature (txTo : Transaction) (scriptCode : Script) (nIn : Nat)
    (hashType : UInt8) : List UInt8 :=
  writeUint32 txTo.version ++
    writeVector (fun (self, txin) => serializeInput scriptCode hashType self txin)
      (signedInputs txTo nIn hashType) ++
    writeVector writeTxOut (signedOutputs txTo nIn hashType) ++ writeUint32 txTo.nLockTime

/-- The hash of the outputs in a segwit digest. -/
def segwitHashOutputs (txTo : Transaction) (nIn : Nat) (hashType : UInt8)
    (hashOutputs : Uint256) : Uint256 :=
  if !hashSingle hashType && !hashNone hashType then hashOutputs
  else
    match hashSingle hashType, txTo.vout[nIn]? with
    | true, some txout => crypto.hash256 (writeTxOut txout)
    | _, _ => Uint256.null

/-- What a segwit digest hashes before the hash type. -/
def segwitPreimage (scriptCode : Script) (txTo : Transaction) (nIn : Nat) (txin : TxIn)
    (hashType : UInt8) (amount : Int64) (cache : Option PrecomputedData) : List UInt8 :=
  let ready := cache.filter fun data => data.bip143SegwitReady
  let all := !anyoneCanPay hashType && !hashSingle hashType && !hashNone hashType
  let hashPrevouts :=
    if anyoneCanPay hashType then Uint256.null
    else (ready.map PrecomputedData.hashPrevouts).getD
      (sha256Uint256 crypto (getPrevoutsSHA256 crypto txTo))
  let hashSequence :=
    if all then (ready.map PrecomputedData.hashSequence).getD
      (sha256Uint256 crypto (getSequencesSHA256 crypto txTo))
    else Uint256.null
  let hashOutputs :=
    segwitHashOutputs crypto txTo nIn hashType ((ready.map PrecomputedData.hashOutputs).getD
      (sha256Uint256 crypto (getOutputsSHA256 crypto txTo)))
  writeUint32 txTo.version ++ hashPrevouts.bytes ++ hashSequence.bytes ++
    writeOutPoint txin.prevout ++ writeBytes scriptCode ++ writeInt64 amount ++
    writeUint32 txin.nSequence ++ hashOutputs.bytes ++ writeUint32 txTo.nLockTime

/-- `SigHashCache::CacheIndex`. -/
def cacheIndex (hashType : UInt8) : Nat :=
  3 * (anyoneCanPay hashType).toNat + 2 * (hashSingle hashType).toNat +
    1 * (hashNone hashType).toNat

/-- `SigHashCache::Load`. -/
def SigHashCache.load (cache : SigHashCache) (hashType : UInt8) (scriptCode : Script) :
    Option (List UInt8) :=
  match cache.entries (cacheIndex hashType) with
  | none => none
  | some (script, written) => if script = scriptCode then some written else none

/-- `SigHashCache::Store`. -/
def SigHashCache.store (cache : SigHashCache) (hashType : UInt8) (scriptCode : Script)
    (written : List UInt8) : SigHashCache where
  entries index :=
    if index = cacheIndex hashType then some (scriptCode, written) else cache.entries index

/-- `uint256::ONE`. -/
def uint256One : Uint256 := ⟨1 :: List.replicate 31 0, by simp⟩

/-- `SignatureHash`. -/
def signatureHash (scriptCode : Script) (txTo : Transaction) (nIn : Nat) (hashType : UInt8)
    (amount : Int64) (sigversion : SigVersion) (cache : Option PrecomputedData)
    (sighashCache : SigHashCache) : Eval (Uint256 × SigHashCache) :=
  match txTo.vin[nIn]? with
  | none => .error (.fault .assertion)
  | some txin =>
    if sigversion ≠ .witnessV0 ∧ hashSingle hashType = true ∧ nIn ≥ txTo.vout.length then
      .ok (uint256One, sighashCache)
    else
      match sighashCache.load hashType scriptCode with
      | some written =>
        .ok (crypto.hash256 (written ++ Bytes.encodeLE 4 hashType.toNat), sighashCache)
      | none =>
        let written :=
          if sigversion = .witnessV0 then
            segwitPreimage crypto scriptCode txTo nIn txin hashType amount cache
          else serializeForSignature txTo scriptCode nIn hashType
        .ok (crypto.hash256 (written ++ Bytes.encodeLE 4 hashType.toNat),
          sighashCache.store hashType scriptCode written)

/-! ## `SignatureHashSchnorr` -/

/-- `MissingDataBehavior`. -/
inductive MissingDataBehavior
  | assertFail
  | fail
deriving DecidableEq, Repr

/-- `HandleMissingData`, which returns false if it returns. -/
def handleMissingData : MissingDataBehavior → Eval Unit
  | .assertFail => .error (.fault .assertion)
  | .fail => .ok ()

/-- The bytes that `TaggedHash` writes. -/
def taggedHash (tag : String) : List UInt8 :=
  let tagHash := (crypto.sha256 (tag.toList.map fun c => UInt8.ofNat c.toNat)).bytes
  tagHash ++ tagHash

/-- The hash types that a Schnorr signature may have. -/
def isValidSchnorrHashType (hashType : UInt8) : Bool :=
  hashType ≤ 0x03 || (hashType ≥ 0x81 && hashType ≤ 0x83)

/-- The `output_type` of a hash type. -/
def schnorrOutputType (hashType : UInt8) : UInt8 :=
  if hashType = 0 then 1 else hashType &&& 0x03

/-- The data of all inputs and outputs in a Schnorr digest, which is taken from
the precomputed data. -/
def schnorrTransactionData (hashType : UInt8) (cache : PrecomputedData) : List UInt8 :=
  (if anyoneCanPay hashType then []
    else cache.prevoutsSingleHash.bytes ++ cache.spentAmountsSingleHash.bytes ++
      cache.spentScriptsSingleHash.bytes ++ cache.sequencesSingleHash.bytes) ++
    if schnorrOutputType hashType = 1 then cache.outputsSingleHash.bytes else []

/-- The data of the input in a Schnorr digest.  The spent output is looked up
without a check of the position. -/
def schnorrInputData (txin : TxIn) (inPos : Nat) (hashType : UInt8) (cache : PrecomputedData) :
    Eval (List UInt8) :=
  if anyoneCanPay hashType then
    match cache.spentOutputs[inPos]? with
    | none => .error (.fault .outOfBounds)
    | some spent =>
      .ok (writeOutPoint txin.prevout ++ writeTxOut spent ++ writeUint32 txin.nSequence)
  else .ok (Bytes.encodeLE 4 inPos)

/-- The hash of the one output that a hash type may cover, which is kept in the
execution data; `none` if the input has no such output. -/
def schnorrOutputHash (txTo : Transaction) (inPos : Nat) (hashType : UInt8) (execdata : ExecData) :
    Option (List UInt8 × ExecData) :=
  if schnorrOutputType hashType = 3 then
    match txTo.vout[inPos]? with
    | none => none
    | some txout =>
      let outputHash := execdata.outputHash.getD (crypto.sha256 (writeTxOut txout))
      some (outputHash.bytes, { execdata with outputHash := some outputHash })
  else some ([], execdata)

/-- The data of the leaf script in a Schnorr digest. -/
def schnorrLeafData (sigversion : SigVersion) (execdata : ExecData) : Eval (List UInt8) :=
  if sigversion = .tapscript then
    match execdata.tapleafHash, execdata.codeseparatorPos with
    | some tapleafHash, some codeseparatorPos =>
      .ok (tapleafHash.bytes ++ [0] ++ writeUint32 codeseparatorPos)
    | _, _ => .error (.fault .assertion)
  else .ok []

/-- `SignatureHashSchnorr`, for an input and an extension flag; `none` is the
result false. -/
def schnorrDigest (execdata : ExecData) (txTo : Transaction) (inPos : Nat) (txin : TxIn)
    (extFlag : UInt8) (hashType : UInt8) (sigversion : SigVersion) (cache : PrecomputedData) :
    Eval (Option (Uint256 × ExecData)) :=
  match execdata.annexHash with
  | none => .error (.fault .assertion)
  | some annexHash => do
      let spendType := (extFlag <<< 1) + if annexHash.isSome then 1 else 0
      let inputData ← schnorrInputData txin inPos hashType cache
      match schnorrOutputHash crypto txTo inPos hashType execdata with
      | none => return none
      | some (outputHash, execdata) =>
        let leafData ← schnorrLeafData sigversion execdata
        let written :=
          taggedHash crypto "TapSighash" ++ [0, hashType] ++ writeUint32 txTo.version ++
            writeUint32 txTo.nLockTime ++ schnorrTransactionData hashType cache ++ [spendType] ++
            inputData ++ (annexHash.map Uint256.bytes).getD [] ++ outputHash ++ leafData
        return some (crypto.sha256 written, execdata)

/-- `SignatureHashSchnorr`; `none` is the result false. -/
def signatureHashSchnorr (execdata : ExecData) (txTo : Transaction) (inPos : Nat)
    (hashType : UInt8) (sigversion : SigVersion) (cache : PrecomputedData)
    (mdb : MissingDataBehavior) : Eval (Option (Uint256 × ExecData)) :=
  match sigversion, txTo.vin[inPos]? with
  | .base, _ | .witnessV0, _ => .error (.fault .assertion)
  | _, none => .error (.fault .assertion)
  | _, some txin =>
    let extFlag := if sigversion = .tapscript then 1 else 0
    if !(cache.bip341TaprootReady && cache.spentOutputsReady) then do
      handleMissingData mdb
      return none
    else if !isValidSchnorrHashType hashType then .ok none
    else schnorrDigest crypto execdata txTo inPos txin extFlag hashType sigversion cache

/-! ## `TransactionSignatureChecker` -/

/-- `CPubKey::IsValid` of a key made from bytes. -/
def pubKeyIsValid (vchPubKey : Val) : Bool :=
  match vchPubKey with
  | [] => false
  | header :: _ =>
    if header = 2 || header = 3 then vchPubKey.length == 33
    else if header = 4 || header = 6 || header = 7 then vchPubKey.length == 65
    else false

/-- The fields of a `TransactionSignatureChecker`, other than the cache. -/
structure CheckerData where
  txTo : Transaction
  nIn : Nat
  amount : Int64
  txdata : Option PrecomputedData
  mdb : MissingDataBehavior

namespace CheckerData

variable (data : CheckerData)

/-- `CheckECDSASignature`. -/
def checkECDSASignature (vchSig vchPubKey : Val) (scriptCode : Script) (sigversion : SigVersion)
    (sighashCache : SigHashCache) : Eval (Bool × SigHashCache) :=
  if !pubKeyIsValid vchPubKey then .ok (false, sighashCache)
  else
    match vchSig.getLast? with
    | none => .ok (false, sighashCache)
    | some hashType =>
      if sigversion = .witnessV0 ∧ data.amount < 0 then do
        handleMissingData data.mdb
        return (false, sighashCache)
      else do
        let (sighash, sighashCache) ←
          signatureHash crypto scriptCode data.txTo data.nIn hashType data.amount sigversion
            data.txdata sighashCache
        return (crypto.verifyECDSA vchPubKey vchSig.dropLast sighash, sighashCache)

/-- The part of `CheckSchnorrSignature` behind the checks of the signature's
size. -/
def checkSchnorrDigest (sig pubkey : Val) (hashType : UInt8) (sigversion : SigVersion)
    (execdata : ExecData) : Eval ExecData :=
  match data.txdata with
  | none => do
      handleMissingData data.mdb
      fail .unknownError
  | some cache => do
      let digest ←
        signatureHashSchnorr crypto execdata data.txTo data.nIn hashType sigversion cache data.mdb
      match digest with
      | none => fail .schnorrSigHashtype
      | some (sighash, execdata) =>
        failIf (!crypto.verifySchnorr pubkey sig sighash) .schnorrSig
        return execdata

/-- `CheckSchnorrSignature`. -/
def checkSchnorrSignature (sig pubkey : Val) (sigversion : SigVersion) (execdata : ExecData) :
    Eval ExecData := do
  assertThat (sigversion == .taproot || sigversion == .tapscript)
  assertThat (pubkey.length == 32)
  failIf (sig.length ≠ 64 && sig.length ≠ 65) .schnorrSigSize
  if sig.length = 65 then
    let hashType := sig.getLast?.getD 0
    failIf (hashType == 0) .schnorrSigHashtype
    checkSchnorrDigest crypto data sig.dropLast pubkey hashType sigversion execdata
  else checkSchnorrDigest crypto data sig pubkey 0 sigversion execdata

/-- `LOCKTIME_THRESHOLD`. -/
def locktimeThreshold : Int := 500000000

/-- The `nSequence` of the input that is checked. -/
def nSequence : Nat := (data.txTo.vin[data.nIn]?.map fun txin => txin.nSequence.toNat).getD 0

/-- `CheckLockTime`. -/
def checkLockTime (nLockTime : Int) : Bool :=
  let txLockTime : Int := data.txTo.nLockTime.toNat
  if !((txLockTime < locktimeThreshold && nLockTime < locktimeThreshold) ||
      (txLockTime ≥ locktimeThreshold && nLockTime ≥ locktimeThreshold)) then false
  else if nLockTime > txLockTime then false
  else if data.nSequence = 0xffffffff then false
  else true

/-- `CTxIn::SEQUENCE_LOCKTIME_TYPE_FLAG`. -/
def sequenceLocktimeTypeFlag : Nat := 1 <<< 22

/-- `CTxIn::SEQUENCE_LOCKTIME_MASK`. -/
def sequenceLocktimeMask : Nat := 0xffff

/-- `CheckSequence`. -/
def checkSequence (nSequence : Int) : Bool :=
  let mask := sequenceLocktimeTypeFlag ||| sequenceLocktimeMask
  let txToSequenceMasked := data.nSequence &&& mask
  let nSequenceMasked := nSequence.toNat &&& mask
  if data.txTo.version < 2 then false
  else if data.nSequence &&& sequenceLocktimeDisableFlag ≠ 0 then false
  else if !((txToSequenceMasked < sequenceLocktimeTypeFlag &&
        nSequenceMasked < sequenceLocktimeTypeFlag) ||
      (txToSequenceMasked ≥ sequenceLocktimeTypeFlag &&
        nSequenceMasked ≥ sequenceLocktimeTypeFlag)) then false
  else if nSequenceMasked > txToSequenceMasked then false
  else true

/-- `TransactionSignatureChecker`. -/
def checker : SignatureChecker where
  checkECDSASignature := data.checkECDSASignature crypto
  checkSchnorrSignature := data.checkSchnorrSignature crypto
  checkLockTime := data.checkLockTime
  checkSequence := data.checkSequence

end CheckerData

end BitcoinKernel.Interpreter
