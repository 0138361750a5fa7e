import BitcoinKernel.Script.Monotone
import BitcoinKernel.Script.Safety

/-!
# What the checker of a transaction takes from precomputed data

Two facts about `TransactionSignatureChecker`, whose transaction and whose
precomputed data are given separately.

* `checker_isSafe`: the checker does not fault if its input exists and the data
  has a spent output for it.
* `checker_below_base`, `checker_below_witnessV0` and `checker_below_taproot`:
  what it accepts with the data of another transaction, it accepts with the data
  of its own transaction.  Before segwit this needs nothing, because the data is
  not used.  A segwit digest takes the hashes of the prevouts, the sequence
  numbers and the outputs from the data if the data has them, so they must be
  those of the transaction.  A taproot digest takes them from the data in any
  case, and fails without them.
-/

namespace BitcoinKernel.Interpreter

open Outcome Serialize

variable {crypto : Crypto}

/-! ## Faults -/

variable {txTo : Transaction} {inPos : Nat} {cache : PrecomputedData} {sigversion : SigVersion}
  {execdata : ExecData}

theorem signatureHash_safe {nIn : Nat} (hin : nIn < txTo.vin.length) (scriptCode : Script)
    (hashType : UInt8) (amount : Int64) (sigversion : SigVersion) (cache : Option PrecomputedData)
    (sighashCache : SigHashCache) :
    Safe (fun _ => True)
      (signatureHash crypto scriptCode txTo nIn hashType amount sigversion cache
        sighashCache) := by
  rw [signatureHash, List.getElem?_eq_getElem hin]
  dsimp only
  split
  · exact .ok trivial
  · split <;> exact .ok trivial

/-- What a Schnorr digest needs of the execution data. -/
def ExecData.ReadyFor (sigversion : SigVersion) (execdata : ExecData) : Prop :=
  execdata.annexHash.isSome = true ∧ (sigversion = .tapscript → execdata.Ready)

theorem schnorrInputData_safe (hspent : inPos < cache.spentOutputs.length) (txin : TxIn)
    (hashType : UInt8) : Safe (fun _ => True) (schnorrInputData txin inPos hashType cache) := by
  rw [schnorrInputData, List.getElem?_eq_getElem hspent]
  split <;> exact .ok trivial

/-- Only the hash of an output is added to the execution data. -/
theorem schnorrOutputHash_readyFor {hashType : UInt8} {execdata' : ExecData}
    {outputHash : List UInt8} (h : execdata.ReadyFor sigversion)
    (heq : schnorrOutputHash crypto txTo inPos hashType execdata = some (outputHash, execdata')) :
    execdata'.ReadyFor sigversion := by
  rw [schnorrOutputHash] at heq
  split at heq
  · split at heq
    · cases heq
    · cases heq
      exact ⟨h.1, fun hversion => { h.2 hversion with }⟩
  · cases heq
    exact h

theorem schnorrLeafData_safe (h : execdata.ReadyFor sigversion) :
    Safe (fun _ => True) (schnorrLeafData sigversion execdata) := by
  rw [schnorrLeafData]
  split
  · next hversion =>
      obtain ⟨tapleafHash, htapleaf⟩ := Option.isSome_iff_exists.mp (h.2 hversion).tapleafHash
      obtain ⟨pos, hpos⟩ := Option.isSome_iff_exists.mp (h.2 hversion).codeseparatorPos
      rw [htapleaf, hpos]
      exact .ok trivial
  · exact .ok trivial

/-- A digest, if there is one, leaves the execution data initialized. -/
theorem schnorrDigest_safe (h : execdata.ReadyFor sigversion)
    (hspent : inPos < cache.spentOutputs.length) (txTo : Transaction) (txin : TxIn)
    (extFlag hashType : UInt8) :
    Safe (fun digest => ∀ r ∈ digest, r.2.ReadyFor sigversion)
      (schnorrDigest crypto execdata txTo inPos txin extFlag hashType sigversion cache) := by
  obtain ⟨annexHash, hannex⟩ := Option.isSome_iff_exists.mp h.1
  rw [schnorrDigest, hannex]
  refine .bind (schnorrInputData_safe hspent txin hashType) fun _ _ => ?_
  split
  · exact .ok (by simp)
  · next heq =>
      have hready := schnorrOutputHash_readyFor h heq
      refine .bind (schnorrLeafData_safe hready) fun _ _ => .ok ?_
      rintro r hr
      cases hr
      exact hready

/-- `SignatureHashSchnorr` behind its assertions on the version and the input. -/
theorem signatureHashSchnorr_eq (hversion : sigversion = .taproot ∨ sigversion = .tapscript)
    (hin : inPos < txTo.vin.length) (execdata : ExecData) (hashType : UInt8)
    (cache : PrecomputedData) :
    signatureHashSchnorr crypto execdata txTo inPos hashType sigversion cache .fail =
      if !(cache.bip341TaprootReady && cache.spentOutputsReady) then .ok none
      else if !isValidSchnorrHashType hashType then .ok none
      else schnorrDigest crypto execdata txTo inPos txTo.vin[inPos]
        (if sigversion = .tapscript then 1 else 0) hashType sigversion cache := by
  rcases hversion with rfl | rfl <;>
    simp only [signatureHashSchnorr, List.getElem?_eq_getElem hin] <;> rfl

theorem signatureHashSchnorr_safe (hversion : sigversion = .taproot ∨ sigversion = .tapscript)
    (h : execdata.ReadyFor sigversion) (hin : inPos < txTo.vin.length)
    (hspent : cache.spentOutputsReady = true → inPos < cache.spentOutputs.length)
    (hashType : UInt8) :
    Safe (fun digest => ∀ r ∈ digest, r.2.ReadyFor sigversion)
      (signatureHashSchnorr crypto execdata txTo inPos hashType sigversion cache .fail) := by
  rw [signatureHashSchnorr_eq hversion hin]
  split
  · exact .ok (by simp)
  split
  · exact .ok (by simp)
  · next hready _ =>
      have hready : cache.bip341TaprootReady = true ∧ cache.spentOutputsReady = true := by
        simpa using hready
      exact schnorrDigest_safe h (hspent hready.2) _ _ _ _

namespace CheckerData

variable {data : CheckerData}

/-- What the checker of an input needs in order not to fault. -/
structure WellFormed (data : CheckerData) : Prop where
  nIn_lt : data.nIn < data.txTo.vin.length
  mdb_eq : data.mdb = .fail
  spentOutputs : ∀ cache ∈ data.txdata, cache.spentOutputsReady = true →
    data.nIn < cache.spentOutputs.length

theorem checkECDSASignature_safe (hdata : data.WellFormed) (vchSig vchPubKey : Val)
    (scriptCode : Script) (sigversion : SigVersion) (cache : SigHashCache) :
    Safe (fun _ => True)
      (data.checkECDSASignature crypto vchSig vchPubKey scriptCode sigversion cache) := by
  rw [checkECDSASignature]
  split
  · exact .ok trivial
  split
  · exact .ok trivial
  split
  · rw [hdata.mdb_eq]
    exact .ok trivial
  · exact .bind (signatureHash_safe hdata.nIn_lt _ _ _ _ _ _) fun _ _ => .ok trivial

section

variable (hdata : data.WellFormed) {sigversion : SigVersion}
  (hversion : sigversion = .taproot ∨ sigversion = .tapscript) {execdata : ExecData}
  (h : execdata.ReadyFor sigversion)

include hdata hversion h

theorem checkSchnorrDigest_safe (sig pubkey : Val) (hashType : UInt8) :
    Safe (ExecData.ReadyFor sigversion)
      (data.checkSchnorrDigest crypto sig pubkey hashType sigversion execdata) := by
  rw [checkSchnorrDigest, hdata.mdb_eq]
  split
  · exact fail_safe _
  · next cache hcache =>
      have hspent := hdata.spentOutputs cache hcache
      refine .bind (signatureHashSchnorr_safe hversion h hdata.nIn_lt hspent hashType) ?_
      intro digest hdigest
      split
      · exact fail_safe _
      · exact failIf_bind_safe fun _ => .ok (hdigest _ rfl)

theorem checkSchnorrSignature_safe (sig : Val) {pubkey : Val} (hpubkey : pubkey.length = 32) :
    Safe (ExecData.ReadyFor sigversion)
      (data.checkSchnorrSignature crypto sig pubkey sigversion execdata) := by
  refine .bind (assertThat_safe (by rcases hversion with rfl | rfl <;> rfl)) fun _ _ => ?_
  refine .bind (assertThat_safe (by rw [hpubkey]; rfl)) fun _ _ => ?_
  refine failIf_bind_safe fun _ => ?_
  split
  · exact failIf_bind_safe fun _ => checkSchnorrDigest_safe hdata hversion h _ _ _
  · exact checkSchnorrDigest_safe hdata hversion h _ _ _

end

/-- The checker of an existing input with its spent output does not fault. -/
theorem checker_isSafe (hdata : data.WellFormed) : (data.checker crypto).IsSafe where
  ecdsa := checkECDSASignature_safe hdata
  keyPath sig pubkey execdata hpubkey hannex := by
    have h : execdata.ReadyFor .taproot := ⟨hannex, fun hversion => nomatch hversion⟩
    exact (checkSchnorrSignature_safe hdata (.inl rfl) h sig hpubkey).mono fun _ _ _ => trivial
  tapscript sig pubkey execdata hpubkey hready := by
    have h : execdata.ReadyFor .tapscript := ⟨hready.annexHash, fun _ => hready⟩
    exact (checkSchnorrSignature_safe hdata (.inr rfl) h sig hpubkey).mono fun _ _ h => h.2 rfl

end CheckerData

/-! ## The data of another transaction -/

/-- The bytes that `GetPrevoutsSHA256` hashes. -/
def prevoutsBytes (tx : Transaction) : List UInt8 :=
  tx.vin.flatMap fun txin => writeOutPoint txin.prevout

/-- The bytes that `GetSequencesSHA256` hashes. -/
def sequencesBytes (tx : Transaction) : List UInt8 :=
  tx.vin.flatMap fun txin => writeUint32 txin.nSequence

/-- The bytes that `GetOutputsSHA256` hashes. -/
def outputsBytes (tx : Transaction) : List UInt8 := tx.vout.flatMap writeTxOut

/-- The bytes that precomputed data has hashes of are the same. -/
structure SameHashedParts (tx tx' : Transaction) : Prop where
  prevouts : prevoutsBytes tx = prevoutsBytes tx'
  sequences : sequencesBytes tx = sequencesBytes tx'
  outputs : outputsBytes tx = outputsBytes tx'

namespace SameHashedParts

variable {tx tx' : Transaction}

protected theorem refl (tx : Transaction) : SameHashedParts tx tx := ⟨rfl, rfl, rfl⟩

theorem getPrevoutsSHA256_eq (h : SameHashedParts tx tx') :
    getPrevoutsSHA256 crypto tx = getPrevoutsSHA256 crypto tx' :=
  congrArg crypto.sha256 h.prevouts

theorem getSequencesSHA256_eq (h : SameHashedParts tx tx') :
    getSequencesSHA256 crypto tx = getSequencesSHA256 crypto tx' :=
  congrArg crypto.sha256 h.sequences

theorem getOutputsSHA256_eq (h : SameHashedParts tx tx') :
    getOutputsSHA256 crypto tx = getOutputsSHA256 crypto tx' :=
  congrArg crypto.sha256 h.outputs

end SameHashedParts

section Precomputed

variable {tx txTo : Transaction} {spentOutputs : List TxOut}

/-- A segwit digest with data is the digest without data, if the hashes that the
data has are right. -/
theorem segwitPreimage_precompute
    (h : usesBip143Segwit tx spentOutputs = true → SameHashedParts tx txTo) (scriptCode : Script)
    (nIn : Nat) (txin : TxIn) (hashType : UInt8) (amount : Int64) :
    segwitPreimage crypto scriptCode txTo nIn txin hashType amount
        (some (precompute crypto tx spentOutputs)) =
      segwitPreimage crypto scriptCode txTo nIn txin hashType amount none := by
  cases hsegwit : usesBip143Segwit tx spentOutputs with
  | false => simp [segwitPreimage, precompute, hsegwit, Option.filter]
  | true =>
    simp [segwitPreimage, precompute, hsegwit, Option.filter, (h hsegwit).getPrevoutsSHA256_eq,
      (h hsegwit).getSequencesSHA256_eq, (h hsegwit).getOutputsSHA256_eq]

/-- Only the digests of segwit look at the data. -/
theorem signatureHash_precompute {sigversion : SigVersion}
    (h : sigversion = .witnessV0 → usesBip143Segwit tx spentOutputs = true →
      SameHashedParts tx txTo)
    (scriptCode : Script) (nIn : Nat) (hashType : UInt8) (amount : Int64)
    (sighashCache : SigHashCache) :
    signatureHash crypto scriptCode txTo nIn hashType amount sigversion
        (some (precompute crypto tx spentOutputs)) sighashCache =
      signatureHash crypto scriptCode txTo nIn hashType amount sigversion none sighashCache := by
  by_cases hversion : sigversion = .witnessV0
  · simp only [signatureHash, segwitPreimage_precompute (h hversion)]
  · simp only [signatureHash, if_neg hversion]

/-- A Schnorr digest takes the same hashes from the data of two transactions, if
both have them and they are equal. -/
theorem schnorrTransactionData_precompute (h : SameHashedParts tx txTo)
    (htx : usesBip341Taproot tx spentOutputs = true)
    (htxTo : usesBip341Taproot txTo spentOutputs = true) (hashType : UInt8) :
    schnorrTransactionData hashType (precompute crypto tx spentOutputs) =
      schnorrTransactionData hashType (precompute crypto txTo spentOutputs) := by
  simp [schnorrTransactionData, precompute, htx, htxTo, h.getPrevoutsSHA256_eq,
    h.getSequencesSHA256_eq, h.getOutputsSHA256_eq]

theorem signatureHashSchnorr_precompute {sigversion : SigVersion} {nIn : Nat}
    (hversion : sigversion = .taproot ∨ sigversion = .tapscript) (hin : nIn < txTo.vin.length)
    (h : SameHashedParts tx txTo) (htx : usesBip341Taproot tx spentOutputs = true)
    (htxTo : usesBip341Taproot txTo spentOutputs = true) (execdata : ExecData) (hashType : UInt8) :
    signatureHashSchnorr crypto execdata txTo nIn hashType sigversion
        (precompute crypto tx spentOutputs) .fail =
      signatureHashSchnorr crypto execdata txTo nIn hashType sigversion
        (precompute crypto txTo spentOutputs) .fail := by
  have hready : (precompute crypto tx spentOutputs).bip341TaprootReady =
      (precompute crypto txTo spentOutputs).bip341TaprootReady := by
    simp [precompute, htx, htxTo]
  rw [signatureHashSchnorr_eq hversion hin, signatureHashSchnorr_eq hversion hin, hready]
  simp only [schnorrDigest, schnorrTransactionData_precompute h htx htxTo]
  rfl

namespace CheckerData

/-- The checker of an input of `txTo` with the data of `tx`. -/
def withDataOf (crypto : Crypto) (txTo : Transaction) (nIn : Nat) (amount : Int64)
    (tx : Transaction) (spentOutputs : List TxOut) : CheckerData :=
  { txTo, nIn, amount, txdata := some (precompute crypto tx spentOutputs), mdb := .fail }

variable {nIn : Nat} {amount : Int64}

theorem withDataOf_wellFormed (hin : nIn < txTo.vin.length)
    (hspent : spentOutputs = [] ∨ spentOutputs.length = txTo.vin.length) :
    (withDataOf crypto txTo nIn amount tx spentOutputs).WellFormed where
  nIn_lt := hin
  mdb_eq := rfl
  spentOutputs := by
    rintro cache ⟨⟩ hready
    rcases hspent with rfl | hlength
    · cases hready
    · exact Nat.lt_of_lt_of_eq hin hlength.symm

theorem checkECDSASignature_withDataOf {sigversion : SigVersion}
    (h : sigversion = .witnessV0 → usesBip143Segwit tx spentOutputs = true →
      SameHashedParts tx txTo)
    (vchSig vchPubKey : Val) (scriptCode : Script) (cache : SigHashCache) :
    (withDataOf crypto txTo nIn amount tx spentOutputs).checkECDSASignature crypto vchSig vchPubKey
        scriptCode sigversion cache =
      (withDataOf crypto txTo nIn amount txTo spentOutputs).checkECDSASignature crypto vchSig
        vchPubKey scriptCode sigversion cache := by
  simp only [checkECDSASignature, withDataOf, signatureHash_precompute h,
    signatureHash_precompute fun _ _ => SameHashedParts.refl txTo]

/-- A Schnorr signature that is accepted with the data of `tx`. -/
theorem checkSchnorrSignature_withDataOf {sigversion : SigVersion}
    (hversion : sigversion = .taproot ∨ sigversion = .tapscript) (hin : nIn < txTo.vin.length)
    (h : usesBip341Taproot tx spentOutputs = true →
      usesBip341Taproot txTo spentOutputs = true ∧ SameHashedParts tx txTo)
    (sig pubkey : Val) (execdata : ExecData) :
    Refines
      ((withDataOf crypto txTo nIn amount tx spentOutputs).checkSchnorrSignature crypto sig pubkey
        sigversion execdata)
      ((withDataOf crypto txTo nIn amount txTo spentOutputs).checkSchnorrSignature crypto sig
        pubkey sigversion execdata) := by
  have hdigest : ∀ sig hashType, Refines
      ((withDataOf crypto txTo nIn amount tx spentOutputs).checkSchnorrDigest crypto sig pubkey
        hashType sigversion execdata)
      ((withDataOf crypto txTo nIn amount txTo spentOutputs).checkSchnorrDigest crypto sig pubkey
        hashType sigversion execdata) := by
    intro sig hashType
    cases htx : usesBip341Taproot tx spentOutputs with
    | false =>
      have hready : (precompute crypto tx spentOutputs).bip341TaprootReady = false := by
        simp [precompute, htx]
      simp only [checkSchnorrDigest, withDataOf, signatureHashSchnorr_eq hversion hin, hready]
      exact .error _ _
    | true =>
      obtain ⟨htxTo, hsame⟩ := h htx
      simp only [checkSchnorrDigest, withDataOf,
        signatureHashSchnorr_precompute hversion hin hsame htx htxTo]
      exact .refl _
  refine .bind (.refl _) fun _ => .bind (.refl _) fun _ => .bind (.refl _) fun _ => ?_
  split
  · exact .bind (.refl _) fun _ => hdigest _ _
  · exact hdigest _ _

/-- Before segwit the data does not matter. -/
theorem checker_below_base :
    ((withDataOf crypto txTo nIn amount tx spentOutputs).checker crypto).Below .base
      ((withDataOf crypto txTo nIn amount txTo spentOutputs).checker crypto) where
  ecdsa _ _ _ _ := .of_eq (checkECDSASignature_withDataOf (by simp) _ _ _ _)
  schnorr _ _ _ := .error _ _
  lockTime _ h := h
  sequence _ h := h

theorem checker_below_witnessV0
    (h : usesBip143Segwit tx spentOutputs = true → SameHashedParts tx txTo) :
    ((withDataOf crypto txTo nIn amount tx spentOutputs).checker crypto).Below .witnessV0
      ((withDataOf crypto txTo nIn amount txTo spentOutputs).checker crypto) where
  ecdsa _ _ _ _ := .of_eq (checkECDSASignature_withDataOf (fun _ => h) _ _ _ _)
  schnorr _ _ _ := .error _ _
  lockTime _ h := h
  sequence _ h := h

theorem checker_below_taproot {sigversion : SigVersion}
    (hversion : sigversion = .taproot ∨ sigversion = .tapscript) (hin : nIn < txTo.vin.length)
    (h : usesBip341Taproot tx spentOutputs = true →
      usesBip341Taproot txTo spentOutputs = true ∧ SameHashedParts tx txTo) :
    ((withDataOf crypto txTo nIn amount tx spentOutputs).checker crypto).Below sigversion
      ((withDataOf crypto txTo nIn amount txTo spentOutputs).checker crypto) where
  ecdsa _ _ _ _ := by
    have hne : sigversion ≠ .witnessV0 := by rcases hversion with rfl | rfl <;> decide
    exact .of_eq (checkECDSASignature_withDataOf (fun heq => absurd heq hne) _ _ _ _)
  schnorr := checkSchnorrSignature_withDataOf hversion hin h
  lockTime _ h := h
  sequence _ h := h

end CheckerData

end Precomputed

end BitcoinKernel.Interpreter
