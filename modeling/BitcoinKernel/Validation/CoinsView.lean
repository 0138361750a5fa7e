import BitcoinKernel.Consensus.TxCheck
import BitcoinKernel.Lib.WriteBack
import BitcoinKernel.Script.Interpreter

/-!
# Coins and the transactions that spend them

`CCoinsViewCache` (`coins.cpp`), `UpdateCoins` (`validation.cpp`) and `CheckTxInputs`
(`consensus/tx_verify.cpp`).

A coins view is a write-back cache over another view.  A coin of the source that
`IsSpent` is an entry without a value here: `AddCoin` and `FetchCoin` assert that a
coin they store is not spent, so the only such coins are those that `SpendCoin` has
cleared.  The counters of the cache for its memory are left out.

`none` is a failed assertion or an exception.
-/

namespace BitcoinKernel

/-- `CScript::IsUnspendable`. -/
def Script.isUnspendable (script : Script) : Bool :=
  script.head? == some Opcode.opReturn.code || script.length > Interpreter.maxScriptSize

namespace Coin

/-- `Coin::IsSpent`. -/
def isSpent (coin : Coin) : Bool := coin.out.nValue == -1

/-- A coin after `Clear`, which is also a coin without arguments. -/
def cleared : Coin := ⟨⟨-1, []⟩, false, 0⟩

end Coin

/-- `CTransaction::GetValueOut`, from a sum on. -/
def valueOutFrom : Int64 → List TxOut → Option Int64
  | nValueOut, [] => if Consensus.moneyRange nValueOut then some nValueOut else none
  | nValueOut, txOut :: rest =>
    if !Consensus.moneyRange txOut.nValue || !Consensus.moneyRange (nValueOut + txOut.nValue) then
      none
    else valueOutFrom (nValueOut + txOut.nValue) rest

/-- `CTransaction::GetValueOut`. -/
def Transaction.getValueOut (tx : Transaction) : Option Int64 := valueOutFrom 0 tx.vout

/-- `FormatMoney`: the digits behind the second one are left out if they are zeros. -/
def formatMoney (n : Int64) : String :=
  let coin := 100000000
  let digits := (List.range 8).map fun i =>
    Nat.digitChar (n.toInt.natAbs % coin / 10 ^ (7 - i) % 10)
  let trimmed := ((digits.drop 2).reverse.dropWhile (· == '0')).reverse
  (if n < 0 then "-" else "") ++ toString (n.toInt.natAbs / coin) ++ "." ++
    String.ofList (digits.take 2 ++ trimmed)

namespace Validation.Coins

open Consensus WriteBack

/-- `CCoinsViewCache`. -/
abbrev CoinsViewCache := Cache OutPoint Coin

namespace CoinsViewCache

/-! ## `CCoinsViewCache` -/

/-- `HaveCoin`, behind `FetchCoin`. -/
def haveCoin (view : CoinsViewCache) (outpoint : OutPoint) : Bool := (view.peek outpoint).isSome

/-- `AccessCoin`, behind `FetchCoin`. -/
def accessCoin (view : CoinsViewCache) (outpoint : OutPoint) : Coin :=
  (view.peek outpoint).getD Coin.cleared

/-- `AddCoin`. -/
def addCoin (view : CoinsViewCache) (outpoint : OutPoint) (coin : Coin)
    (possibleOverwrite : Bool) : Option CoinsViewCache :=
  if coin.isSpent then none
  else if coin.out.scriptPubKey.isUnspendable then some view
  else view.put outpoint coin possibleOverwrite

/-- `SpendCoin` with the coin that it moves out, or nothing if it returns false. -/
def spendCoin (view : CoinsViewCache) (outpoint : OutPoint) : Option (Coin × CoinsViewCache) :=
  (view.take outpoint).map fun (coin, view) => (coin.getD Coin.cleared, view)

/-- The loop of `HaveInputs`. -/
def haveInputs : List TxIn → CoinsViewCache → Bool × CoinsViewCache
  | [], view => (true, view)
  | txin :: rest, view =>
    if haveCoin (view.fetch txin.prevout) txin.prevout then
      haveInputs rest (view.fetch txin.prevout)
    else (false, view.fetch txin.prevout)

end CoinsViewCache

open CoinsViewCache

variable (hash256 : List UInt8 → Uint256)

/-! ## `UpdateCoins` -/

/-- The outputs of a transaction as coins, with their outpoints. -/
def outputCoins (tx : Transaction) (nHeight : Nat) : List (OutPoint × Coin) :=
  tx.vout.zipIdx.map fun (out, i) =>
    (⟨tx.getHash hash256, UInt32.ofNat i⟩, ⟨out, tx.isCoinBase, BitVec.ofNat 31 nHeight⟩)

/-- `AddCoins`, without a check for overwrites: those of a coinbase are allowed. -/
def addCoins (tx : Transaction) (nHeight : Nat) (view : CoinsViewCache) : Option CoinsViewCache :=
  (outputCoins hash256 tx nHeight).foldlM
    (fun view (outpoint, coin) => addCoin view outpoint coin tx.isCoinBase) view

/-- The loop of `UpdateCoins` over the inputs, with its assertion. -/
def spendInputs : List TxIn → CoinsViewCache → Option (List Coin × CoinsViewCache)
  | [], view => some ([], view)
  | txin :: rest, view => do
      let (coin, view) ← spendCoin view txin.prevout
      let (coins, view) ← spendInputs rest view
      return (coin :: coins, view)

/-- The first part of `UpdateCoins`, which marks the inputs as spent. -/
def spendTransaction (tx : Transaction) (view : CoinsViewCache) :
    Option (List Coin × CoinsViewCache) :=
  if tx.isCoinBase then some ([], view) else spendInputs tx.vin view

/-- `UpdateCoins` with the undo data that it fills. -/
def updateCoins (tx : Transaction) (nHeight : Nat) (view : CoinsViewCache) :
    Option (TxUndo × CoinsViewCache) := do
  let (vprevout, view) ← spendTransaction tx view
  let view ← addCoins hash256 tx nHeight view
  return (⟨vprevout⟩, view)

/-! ## `CheckTxInputs` -/

/-- The members of `TxValidationResult` that `CheckTxInputs` reports. -/
inductive TxInputsResult
  | txConsensus
  | txMissingInputs
  | txPrematureSpend
deriving DecidableEq, Repr

abbrev TxInputsRejection := Rejection TxInputsResult

/-- `COINBASE_MATURITY`. -/
def coinbaseMaturity : Int := 100

/-- The loop of `CheckTxInputs` over the coins, with the sum of the values so far. -/
def checkInputValues (nSpendHeight : Nat) : Int64 → List Coin →
    Option (Except TxInputsRejection Int64)
  | nValueIn, [] => some (.ok nValueIn)
  | nValueIn, coin :: rest =>
    let depth : Int := nSpendHeight - coin.nHeight.toNat
    if coin.isSpent then none
    else if coin.fCoinBase ∧ depth < coinbaseMaturity then
      some (.error
        { result := .txPrematureSpend, rejectReason := "bad-txns-premature-spend-of-coinbase"
          debugMessage := "tried to spend coinbase at depth " ++ toString depth })
    else if !moneyRange coin.out.nValue || !moneyRange (nValueIn + coin.out.nValue) then
      some (.error
        { result := .txConsensus, rejectReason := "bad-txns-inputvalues-outofrange" })
    else checkInputValues nSpendHeight (nValueIn + coin.out.nValue) rest

/-- The end of `CheckTxInputs`: the fee. -/
def checkFee (nValueIn valueOut : Int64) : Except TxInputsRejection Int64 :=
  if nValueIn < valueOut then
    .error
      { result := .txConsensus, rejectReason := "bad-txns-in-belowout"
        debugMessage := "value in (" ++ formatMoney nValueIn ++ ") < value out (" ++
          formatMoney valueOut ++ ")" }
  else if !moneyRange (nValueIn - valueOut) then
    .error { result := .txConsensus, rejectReason := "bad-txns-fee-outofrange" }
  else .ok (nValueIn - valueOut)

/-- `CheckTxInputs`, for a transaction that is not a coinbase. -/
def checkTxInputs (tx : Transaction) (view : CoinsViewCache) (nSpendHeight : Nat) :
    Option (Except TxInputsRejection Int64 × CoinsViewCache) :=
  match haveInputs tx.vin view with
  | (false, view) =>
    some (.error
      { result := .txMissingInputs, rejectReason := "bad-txns-inputs-missingorspent"
        debugMessage := "CheckTxInputs: inputs missing/spent" }, view)
  | (true, view) => do
      let verdict ←
        checkInputValues nSpendHeight 0 (tx.vin.map fun txin => accessCoin view txin.prevout)
      match verdict with
      | .error rejection => return (.error rejection, view)
      | .ok nValueIn => do
          let valueOut ← tx.getValueOut
          return (checkFee nValueIn valueOut, view)

end Validation.Coins

end BitcoinKernel
