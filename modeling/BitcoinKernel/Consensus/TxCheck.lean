import BitcoinKernel.Primitives.Serialize

/-!
# Validation results and the context-free transaction check

`consensus/validation.h` and `consensus/tx_check.cpp`.  A check that calls
`state.Invalid(result, reason, debug)` and returns false throws the
`Rejection` with these three values here.  The states that the kernel hands to
its checks are fresh, so a rejection says all that is in the state afterwards.
-/

namespace BitcoinKernel.Consensus

open Serialize

/-- `TxValidationResult`. -/
inductive TxValidationResult
  | txResultUnset
  | txConsensus
  | txInputsNotStandard
  | txNotStandard
  | txMissingInputs
  | txPrematureSpend
  | txWitnessMutated
  | txWitnessStripped
  | txConflict
  | txMempoolPolicy
  | txNoMempool
  | txReconsiderable
  | txUnknown
deriving DecidableEq, Repr

/-- `BlockValidationResult`, without `BLOCK_RESULT_UNSET`, which no rejection
carries. -/
inductive BlockValidationResult
  | blockConsensus
  | blockCachedInvalid
  | blockInvalidHeader
  | blockMutated
  | blockMissingPrev
  | blockInvalidPrev
  | blockTimeFuture
  | blockHeaderLowWork
deriving DecidableEq, Repr

/-- The arguments of a call of `ValidationState::Invalid`. -/
structure Rejection (Result : Type) where
  result : Result
  rejectReason : String
  debugMessage : String := ""
deriving DecidableEq, Repr

abbrev TxRejection := Rejection TxValidationResult

abbrev BlockRejection := Rejection BlockValidationResult

/-- `WITNESS_SCALE_FACTOR`. -/
def witnessScaleFactor : Nat := 4

/-- `MAX_BLOCK_WEIGHT`. -/
def maxBlockWeight : Nat := 4000000

/-- `MAX_BLOCK_SIGOPS_COST`. -/
def maxBlockSigopsCost : Nat := 80000

/-- `MAX_MONEY`: 21 million coins of 100 million units each. -/
def maxMoney : Int64 := 2100000000000000

/-- `MoneyRange`. -/
def moneyRange (nValue : Int64) : Bool := 0 ≤ nValue && nValue ≤ maxMoney

end Consensus

/-- `CTransaction::IsCoinBase`. -/
def Transaction.isCoinBase (tx : Transaction) : Bool :=
  match tx.vin with
  | [input] => input.prevout.isNull
  | _ => false

namespace Consensus

open Serialize

/-! ## The parts of `CheckTransaction` -/

/-- A rejection of `CheckTransaction`: they all have the same result and no
debug message. -/
def txConsensus (rejectReason : String) : TxRejection := { result := .txConsensus, rejectReason }

/-- The loop over the outputs, with the sum of the values so far. -/
def checkOutputValues : (nValueOut : Int64) → List TxOut → Except TxRejection Unit
  | _, [] => return
  | nValueOut, txout :: rest => do
      if txout.nValue < 0 then throw (txConsensus "bad-txns-vout-negative")
      if txout.nValue > maxMoney then throw (txConsensus "bad-txns-vout-toolarge")
      let nValueOut := nValueOut + txout.nValue
      if !moneyRange nValueOut then throw (txConsensus "bad-txns-txouttotal-toolarge")
      checkOutputValues nValueOut rest

/-- The loop over the inputs, with the outpoints seen so far. -/
def checkDuplicateInputs : (vInOutPoints : List OutPoint) → List TxIn → Except TxRejection Unit
  | _, [] => return
  | vInOutPoints, txin :: rest => do
      if txin.prevout ∈ vInOutPoints then throw (txConsensus "bad-txns-inputs-duplicate")
      checkDuplicateInputs (txin.prevout :: vInOutPoints) rest

/-- The length of a coinbase script, and no null outpoint elsewhere. -/
def checkPrevouts (tx : Transaction) : Except TxRejection Unit := do
  if tx.isCoinBase then
    let size := (tx.vin.head?.map fun input => input.scriptSig.length).getD 0
    if size < 2 || size > 100 then throw (txConsensus "bad-cb-length")
  else
    if tx.vin.any fun txin => txin.prevout.isNull then throw (txConsensus "bad-txns-prevout-null")

/-- `CheckTransaction`. -/
def checkTransaction (tx : Transaction) : Except TxRejection Unit := do
  if tx.vin.isEmpty then throw (txConsensus "bad-txns-vin-empty")
  if tx.vout.isEmpty then throw (txConsensus "bad-txns-vout-empty")
  if (writeTransaction false tx).length * witnessScaleFactor > maxBlockWeight then
    throw (txConsensus "bad-txns-oversize")
  checkOutputValues 0 tx.vout
  checkDuplicateInputs [] tx.vin
  checkPrevouts tx

end BitcoinKernel.Consensus
