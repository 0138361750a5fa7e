import Mathlib.Algebra.BigOperators.Ring.Finset
import BitcoinKernel.Lib.TotalWeight
import BitcoinKernel.Validation.SpentOutputs

/-!
# The supply of coins

All coins of a chainstate together are worth no more than the subsidies of the blocks
up to its best block, whatever blocks were connected and disconnected before.  With
`GetBlockSubsidy` these are less than 21 million coins, so `MAX_MONEY` is never reached.

* `getBlockSubsidy` (`validation.cpp`), and the sum of all subsidies.
* Transactions.  `CheckTxInputs` gives the fee of a transaction, which is what the coins
  together lose by it.  The sums do not wrap: each is checked with `MoneyRange`.
* Blocks.  The coinbase takes at most the fees and the subsidy (`checkReward`).
* Runs.  Blocks that are connected again spend the same coins, so the bound belongs to
  the node of the tree and not to the moment when it is connected.
-/

namespace BitcoinKernel.Validation.Coins

open Serialize Consensus State WriteBack WriteBack.Cache CoinsViewCache TotalWeight List Option
open Chainman (ChainParams Rooted)

/-! ## `GetBlockSubsidy` -/

/-- `GetBlockSubsidy`.  `COIN` is 100 million. -/
def getBlockSubsidy (nSubsidyHalvingInterval nHeight : Nat) : Int64 :=
  let halvings := nHeight / nSubsidyHalvingInterval
  if halvings ≥ 64 then 0 else (50 * 100000000 : Int64) >>> Int64.ofNat halvings

theorem toInt_getBlockSubsidy (nSubsidyHalvingInterval nHeight : Nat) :
    (getBlockSubsidy nSubsidyHalvingInterval nHeight).toInt =
      (5000000000 / 2 ^ (nHeight / nSubsidyHalvingInterval) : Nat) := by
  have hshift : ∀ halvings < 64, ((50 * 100000000 : Int64) >>> Int64.ofNat halvings).toInt =
      (5000000000 / 2 ^ halvings : Nat) := by decide
  unfold getBlockSubsidy
  dsimp only
  split_ifs with hlarge
  · have hpow : 2 ^ 64 ≤ 2 ^ (nHeight / nSubsidyHalvingInterval) :=
      Nat.pow_le_pow_right (by omega) hlarge
    rw [Nat.div_eq_of_lt (by omega)]
    rfl
  · exact hshift _ (by omega)

/-- The subsidies of one era after another. -/
theorem sum_halvings_le (initial : Nat) (eras : Nat) :
    ∑ era ∈ Finset.range (eras + 1), initial / 2 ^ era + initial / 2 ^ eras ≤ 2 * initial := by
  induction eras with
  | zero =>
    rw [Finset.sum_range_one, Nat.pow_zero, Nat.div_one]
    omega
  | succ eras ih =>
    rw [Finset.sum_range_succ]
    have hhalf : 2 * (initial / 2 ^ (eras + 1)) ≤ initial / 2 ^ eras := by
      rw [Nat.pow_succ, ← Nat.div_div_eq_div_mul]
      omega
    omega

theorem sum_range_div (interval : Nat) (hpos : 0 < interval) (f : Nat → Nat) (eras : Nat) :
    ∑ height ∈ Finset.range (eras * interval), f (height / interval) =
      interval * ∑ era ∈ Finset.range eras, f era := by
  induction eras with
  | zero => simp
  | succ eras ih =>
    have hera : ∀ x ∈ Finset.range interval, f ((eras * interval + x) / interval) = f eras := by
      intro x hx
      rw [Nat.mul_comm, Nat.mul_add_div hpos, Nat.div_eq_of_lt (Finset.mem_range.mp hx),
        Nat.add_zero]
    rw [Nat.add_mul, Nat.one_mul, Finset.sum_range_add, ih, Finset.sum_const_nat hera,
      Finset.card_range, Finset.sum_range_succ, Nat.mul_add]

/-- What may be issued up to a height.  The coins of the genesis block cannot be
spent. -/
def issued (getBlockSubsidy : Nat → Int64) (nHeight : Nat) : Int :=
  ∑ height ∈ Finset.range nHeight, (getBlockSubsidy (height + 1)).toInt

/-- The subsidy halves, so that twice what the first era issues is never reached. -/
theorem issued_le {nSubsidyHalvingInterval : Nat} (hpos : 0 < nSubsidyHalvingInterval)
    (nHeight : Nat) :
    issued (getBlockSubsidy nSubsidyHalvingInterval) nHeight ≤
      10000000000 * nSubsidyHalvingInterval := by
  let value : Nat → Nat := fun height => 5000000000 / 2 ^ (height / nSubsidyHalvingInterval)
  have hcast : issued (getBlockSubsidy nSubsidyHalvingInterval) nHeight =
      (∑ height ∈ Finset.range nHeight, value (height + 1) : Nat) := by
    rw [issued, Nat.cast_sum]
    exact Finset.sum_congr rfl fun height _ => toInt_getBlockSubsidy _ _
  have hshift : ∑ height ∈ Finset.range nHeight, value (height + 1) ≤
      ∑ height ∈ Finset.range (nHeight + 1), value height := by
    rw [Finset.sum_range_succ']
    exact Nat.le_add_right _ _
  -- the last era is counted in full
  have hera : nHeight + 1 ≤ (nHeight / nSubsidyHalvingInterval + 1) * nSubsidyHalvingInterval := by
    have := Nat.lt_div_mul_add hpos (a := nHeight)
    rw [Nat.add_mul]
    omega
  have hall : ∑ height ∈ Finset.range (nHeight + 1), value height ≤
      nSubsidyHalvingInterval * (2 * 5000000000) := by
    calc ∑ height ∈ Finset.range (nHeight + 1), value height
        ≤ ∑ height ∈ Finset.range ((nHeight / nSubsidyHalvingInterval + 1) *
            nSubsidyHalvingInterval), value height :=
          Finset.sum_le_sum_of_subset (Finset.range_subset_range.mpr hera)
      _ = nSubsidyHalvingInterval *
            ∑ era ∈ Finset.range (nHeight / nSubsidyHalvingInterval + 1), 5000000000 / 2 ^ era :=
          sum_range_div _ hpos (fun era => 5000000000 / 2 ^ era) _
      _ ≤ nSubsidyHalvingInterval * (2 * 5000000000) :=
          Nat.mul_le_mul_left _ (Nat.le_of_add_right_le
            (sum_halvings_le 5000000000 (nHeight / nSubsidyHalvingInterval)))
  rw [hcast]
  omega

/-! ## Transactions -/

/-- What a coin is worth. -/
def coinValue (coin : Coin) : Int := coin.out.nValue.toInt

/-- The sum of the outputs. -/
def outputSum (tx : Transaction) : Int := (tx.vout.map fun out => out.nValue.toInt).sum

/-- The sum of some coins. -/
def coinSum (coins : List Coin) : Int := (coins.map coinValue).sum

/-- An amount that passes `MoneyRange`. -/
def Money (nValue : Int64) : Prop := 0 ≤ nValue.toInt ∧ nValue.toInt ≤ maxMoney.toInt

/-- `GetValueOut` adds up the outputs, and throws unless all of them are money. -/
theorem valueOutFrom_spec {vout : List TxOut} {nValueOut valueOut : Int64}
    (hmoney : Money nValueOut) (h : valueOutFrom nValueOut vout = some valueOut) :
    Money valueOut ∧ (∀ out ∈ vout, Money out.nValue) ∧
      valueOut.toInt = nValueOut.toInt + (vout.map fun out => out.nValue.toInt).sum := by
  induction vout generalizing nValueOut valueOut with
  | nil =>
    unfold valueOutFrom at h
    split_ifs at h
    cases h
    exact ⟨hmoney, fun _ hmem => (by cases hmem), by simp⟩
  | cons out vout ih =>
    unfold valueOutFrom at h
    split_ifs at h with hrange
    simp only [Bool.or_eq_true, Bool.not_eq_true', not_or, Bool.not_eq_false] at hrange
    have hout : Money out.nValue := (moneyRange_iff _).mp hrange.1
    have hsum := (toInt_add_of_money hmoney hout).1
    obtain ⟨hvalue, hall, heq⟩ := ih ((moneyRange_iff _).mp hrange.2) h
    refine ⟨hvalue, forall_mem_cons.mpr ⟨hout, hall⟩, ?_⟩
    rw [heq, hsum, map_cons, sum_cons]
    omega

variable {tx : Transaction} {valueOut txfee : Int64} {nSpendHeight nHeight i : Nat}
  {coins : List Coin} {view : CoinsViewCache} {vin : List TxIn} {l : List (OutPoint × Coin)}
  {m m' : CoinMap} {bound : Int} {s s' : ConnectState} {r : ConnectResult} {rest : List Transaction}
  {w w' : CoinsWorld}

theorem getValueOut_spec (h : tx.getValueOut = some valueOut) :
    Money valueOut ∧ (∀ out ∈ tx.vout, Money out.nValue) ∧ valueOut.toInt = outputSum tx := by
  obtain ⟨hmoney, hall, heq⟩ := valueOutFrom_spec ⟨by decide, by decide⟩ h
  refine ⟨hmoney, hall, ?_⟩
  rw [heq, outputSum]
  simp

/-- The loop of `CheckTxInputs` adds up the coins. -/
theorem checkInputValues_spec {start nValueIn : Int64} (hmoney : Money start)
    (h : checkInputValues nSpendHeight start coins = some (.ok nValueIn)) :
    Money nValueIn ∧ nValueIn.toInt = start.toInt + coinSum coins := by
  induction coins generalizing start nValueIn with
  | nil =>
    cases h
    exact ⟨hmoney, by simp [coinSum]⟩
  | cons coin coins ih =>
    unfold checkInputValues at h
    dsimp only at h
    split_ifs at h with hspent hmature hrange
    · cases h
    · cases h
    · simp only [Bool.or_eq_true, Bool.not_eq_true', not_or, Bool.not_eq_false] at hrange
      have hcoin : Money coin.out.nValue := (moneyRange_iff _).mp hrange.1
      have hsum := (toInt_add_of_money hmoney hcoin).1
      obtain ⟨hvalue, heq⟩ := ih ((moneyRange_iff _).mp hrange.2) h
      refine ⟨hvalue, ?_⟩
      rw [heq, hsum]
      simp only [coinSum, coinValue, map_cons, sum_cons]
      omega

theorem checkFee_spec {nValueIn : Int64} (hin : Money nValueIn) (hout : Money valueOut)
    (h : checkFee nValueIn valueOut = .ok txfee) :
    Money txfee ∧ txfee.toInt = nValueIn.toInt - valueOut.toInt := by
  unfold checkFee at h
  split_ifs at h with hbelow hrange
  cases h
  rw [Bool.not_eq_true', Bool.not_eq_false, moneyRange_iff] at hrange
  refine ⟨hrange, ?_⟩
  have hmax : maxMoney.toInt = 2100000000000000 := by decide
  obtain ⟨hin₀, hin₁⟩ := hin
  obtain ⟨hout₀, hout₁⟩ := hout
  rw [Int64.toInt_sub]
  apply Int.bmod_eq_of_le
  · omega
  · omega

theorem Spends.map_accessCoin (h : Spends view.peek vin coins) :
    (vin.map fun txin => accessCoin view txin.prevout) = coins := by
  induction h with
  | nil => rfl
  | cons hhead _ ih => rw [map_cons, ih, accessCoin, hhead, getD_some]

/-- The fee of `CheckTxInputs` is what the inputs are worth more than the outputs. -/
theorem checkTxInputs_fee {view' : CoinsViewCache} (hspends : Spends view.peek tx.vin coins)
    (h : checkTxInputs tx view nSpendHeight = some (.ok txfee, view')) :
    Money txfee ∧ (∀ out ∈ tx.vout, Money out.nValue) ∧
      txfee.toInt = coinSum coins - outputSum tx := by
  unfold checkTxInputs at h
  split at h
  · cases h
  · rename_i view₁ hinputs
    have hpeek := (haveInputs_spec hinputs).1.peek
    rw [← hpeek] at hspends
    rw [hspends.map_accessCoin] at h
    obtain ⟨verdict, hvalues, h⟩ := bind_eq_some_iff.mp h
    cases verdict with
    | error rejection => cases h
    | ok nValueIn =>
      obtain ⟨valueOut, hout, h⟩ := bind_eq_some_iff.mp h
      rw [Option.pure_def, Option.some.injEq, Prod.mk.injEq] at h
      obtain ⟨hin, hsum⟩ := checkInputValues_spec ⟨by decide, by decide⟩ hvalues
      obtain ⟨hmoney, hall, hvalue⟩ := getValueOut_spec hout
      obtain ⟨hfee, heq⟩ := checkFee_spec hin hmoney h.1
      refine ⟨hfee, hall, ?_⟩
      rw [heq, hsum, hvalue]
      simp

/-! ## The coins behind a transaction -/

variable {hash256 : List UInt8 → Uint256}

theorem within_insertAll (hl : ∀ p ∈ l, 0 ≤ coinValue p.2) (h : Within coinValue m bound) :
    Within coinValue (m.insertAll l) (bound + coinSum (l.map Prod.snd)) := by
  induction l generalizing m bound with
  | nil => exact h.mono (Int.le_of_eq (Int.add_zero bound).symm)
  | cons p l ih =>
    obtain ⟨o, coin⟩ := p
    rw [forall_mem_cons] at hl
    have hvalue : 0 ≤ coinValue coin := hl.1
    have hcons : coinSum (((o, coin) :: l).map Prod.snd) =
        coinValue coin + coinSum (l.map Prod.snd) := rfl
    unfold CoinMap.insertAll
    split_ifs
    · exact (ih hl.2 h).mono (by omega)
    · exact (ih hl.2 (h.write hvalue o)).mono (by omega)

theorem nonNeg_insertAll (hl : ∀ p ∈ l, 0 ≤ coinValue p.2) (h : NonNeg coinValue m) :
    NonNeg coinValue (m.insertAll l) := by
  induction l generalizing m with
  | nil => exact h
  | cons p l ih =>
    obtain ⟨o, coin⟩ := p
    rw [forall_mem_cons] at hl
    unfold CoinMap.insertAll
    split_ifs
    · exact ih hl.2 h
    · exact ih hl.2 (h.write hl.1 o)

theorem nonNeg_eraseAll {os : List OutPoint} :
    ∀ {m : CoinMap}, NonNeg coinValue m → NonNeg coinValue (m.eraseAll os) := by
  induction os with
  | nil => exact fun h => h
  | cons o os ih => exact fun h => ih (h.erase o)

/-- The coins of the inputs are gone. -/
theorem within_eraseAll (hnodup : (vin.map TxIn.prevout).Nodup) (hspends : Spends m vin coins)
    (h : Within coinValue m bound) :
    Within coinValue (m.eraseAll (vin.map TxIn.prevout)) (bound - coinSum coins) := by
  induction vin generalizing m coins bound with
  | nil =>
    cases hspends
    exact h.mono (Int.le_of_eq (Int.sub_zero bound).symm)
  | cons txin vin ih =>
    rw [map_cons, nodup_cons] at hnodup
    cases hspends with
    | @cons _ coin _ coins hhead hrest =>
      have hrest' : Spends (Function.update m txin.prevout none) vin coins := by
        refine Spends.congr hrest fun txin' hmem => ?_
        refine (Function.update_of_ne ?_ _ _).symm
        intro heq
        exact hnodup.1 (List.mem_map.mpr ⟨txin', hmem, heq⟩)
      have hcons : coinSum (coin :: coins) = coinValue coin + coinSum coins := rfl
      exact (ih hnodup.2 hrest' (h.erase hhead)).mono (by omega)

theorem coinSum_outputCoins (tx : Transaction) (nHeight : Nat) :
    coinSum ((outputCoins hash256 tx nHeight).map Prod.snd) = outputSum tx := by
  have hvalues : ((outputCoins hash256 tx nHeight).map Prod.snd).map coinValue =
      (tx.vout.zipIdx.map Prod.fst).map fun out => out.nValue.toInt := by
    simp only [outputCoins, List.map_map]
    rfl
  rw [coinSum, hvalues, zipIdx_map_fst, outputSum]

theorem coinValue_outputCoins (h : ∀ out ∈ tx.vout, Money out.nValue) :
    ∀ p ∈ outputCoins hash256 tx nHeight, 0 ≤ coinValue p.2 := by
  intro p hp
  unfold outputCoins at hp
  obtain ⟨⟨out, i⟩, hmem, rfl⟩ := List.mem_map.mp hp
  exact (h out (fst_mem_of_mem_zipIdx hmem)).1

/-- The coins lose what the inputs are worth, and gain what the outputs are worth. -/
theorem within_applyTx (hcoinbase : tx.isCoinBase = false)
    (hnodup : (tx.vin.map TxIn.prevout).Nodup) (hspends : Spends m tx.vin coins)
    (houts : ∀ out ∈ tx.vout, Money out.nValue) (h : Within coinValue m bound) :
    Within coinValue (applyTx hash256 nHeight m tx) (bound - coinSum coins + outputSum tx) := by
  unfold applyTx
  rw [hcoinbase, if_neg Bool.false_ne_true, ← coinSum_outputCoins tx nHeight]
  exact within_insertAll (coinValue_outputCoins houts) (within_eraseAll hnodup hspends h)

/-- A coinbase spends nothing. -/
theorem within_applyTx_coinbase (hcoinbase : tx.isCoinBase = true)
    (houts : ∀ out ∈ tx.vout, Money out.nValue) (h : Within coinValue m bound) :
    Within coinValue (applyTx hash256 nHeight m tx) (bound + outputSum tx) := by
  unfold applyTx
  rw [hcoinbase, if_pos rfl, ← coinSum_outputCoins tx nHeight]
  exact within_insertAll (coinValue_outputCoins houts) h

theorem nonNeg_applyTx (houts : ∀ out ∈ tx.vout, Money out.nValue) (h : NonNeg coinValue m) :
    NonNeg coinValue (applyTx hash256 nHeight m tx) := by
  unfold applyTx
  refine nonNeg_insertAll (coinValue_outputCoins houts) ?_
  split_ifs
  · exact h
  · exact nonNeg_eraseAll h

/-! ## Blocks -/

variable {rules : ConnectRules} {env : ConnectEnv} {e : EntryPtr} {index : BlockIndex}
  {t : BlockTree} {block : Block}

/-- The fees after the checks on a transaction. -/
theorem checkInputs_fees (hcoinbase : tx.isCoinBase = false)
    (hspends : Spends s.view.peek tx.vin coins) (hfees : Money s.nFees)
    (h : checkInputs hash256 rules e index tx s = some s') (hvalid : s'.state.isValid = true) :
    Money s'.nFees ∧ (∀ out ∈ tx.vout, Money out.nValue) ∧
      s'.nFees.toInt = s.nFees.toInt + coinSum coins - outputSum tx := by
  unfold checkInputs at h
  rw [hcoinbase, if_neg Bool.false_ne_true] at h
  obtain ⟨⟨verdict, view⟩, hcheck, h⟩ := bind_eq_some_iff.mp h
  cases verdict with
  | error txState =>
    cases h
    rw [isValid_invalid] at hvalid
    cases hvalid
  | ok txfee =>
    obtain ⟨hfee, houts, heq⟩ := checkTxInputs_fee hspends hcheck
    have hsum := (toInt_add_of_money hfees hfee).1
    dsimp only at h
    split_ifs at h with hrange hlocks
    · cases h
      rw [isValid_invalid] at hvalid
      cases hvalid
    · cases h
      rw [isValid_invalid] at hvalid
      cases hvalid
    · cases h
      rw [Bool.not_eq_true', Bool.not_eq_false, moneyRange_iff] at hrange
      refine ⟨hrange, houts, ?_⟩
      dsimp only
      omega

/-- The turns behind the coinbase take the fees from the coins. -/
theorem connectLoop_fees {txs : List Transaction} {undos : List TxUndo} (hi : 0 < i)
    (htxs : ∀ tx ∈ txs, tx.isCoinBase = false ∧ (tx.vin.map TxIn.prevout).Nodup)
    (h : connectLoop hash256 rules env e index i txs s = some s') (hvalid : s'.state.isValid = true)
    (hview : s.view.Coherent) (hnew : ∀ tx ∈ txs, NoOverwrite hash256 s.view.base tx)
    (hfees : Money s.nFees) (hsub : CoinMap.Sub s.view.peek m)
    (happlies : Applies hash256 index.nHeight m txs undos m') (hnonneg : NonNeg coinValue m)
    (hwithin : Within coinValue m bound) :
    Money s'.nFees ∧ NonNeg coinValue m' ∧
      Within coinValue m' (bound - (s'.nFees.toInt - s.nFees.toInt)) := by
  induction txs generalizing i s s' m m' undos bound with
  | nil =>
    cases h
    cases happlies
    exact ⟨hfees, hnonneg, hwithin.mono (by omega)⟩
  | cons tx rest ih =>
    obtain ⟨-, s₁, hturn, hvalid₁, hrest⟩ := connectLoop_cons h hvalid
    obtain ⟨hcoinbase, hnodup⟩ := htxs tx mem_cons_self
    obtain ⟨undo, -, hspends, hbase, hcoherent⟩ := connectTransaction_spec hnodup hturn hvalid₁
    obtain ⟨sₐ, _, hcheck, hvalidₐ, -, -, hfeesₐ⟩ := connectTransaction_parts hturn hvalid₁
    obtain ⟨hmoney, houts, heq⟩ :=
      checkInputs_fees hcoinbase (hspends hcoinbase) hfees hcheck hvalidₐ
    rw [← hfeesₐ] at hmoney heq
    obtain ⟨hview₁, hpeek₁⟩ := hcoherent hview fun _ => hnew tx mem_cons_self
    have hsub₁ : CoinMap.Sub s₁.view.peek (applyTx hash256 index.nHeight m tx) := by
      rw [hpeek₁]
      exact hsub.applyTx index.nHeight tx
    cases happlies with
    | cons _ hrest' =>
      have hspent : Within coinValue (applyTx hash256 index.nHeight m tx)
          (bound - coinSum undo.vprevout + outputSum tx) :=
        within_applyTx hcoinbase hnodup ((hspends hcoinbase).mono hsub) houts hwithin
      obtain ⟨hmoney', hnonneg', hwithin'⟩ := ih (by omega)
        (forall_mem_cons.mp htxs).2 hrest hvalid hview₁
        (hbase ▸ (forall_mem_cons.mp hnew).2) hmoney hsub₁ hrest'
        (nonNeg_applyTx houts hnonneg) hspent
      exact ⟨hmoney', hnonneg', hwithin'.mono (by omega)⟩

/-- The coinbase of a block that is connected takes at most the fees and the subsidy. -/
theorem connectTransactions_reward {coins : CoinMap}
    (h : connectTransactions hash256 rules t env e index block coins = some r)
    (hconnected : r.connected = true) :
    ∃ s₀ s₁ coinbase valueOut, connectStart hash256 rules t index block coins = some s₀ ∧
      connectLoop hash256 rules env e index 0 block.vtx s₀ = some s₁ ∧
      s₁.state.isValid = true ∧ block.vtx.head? = some coinbase ∧
      coinbase.getValueOut = some valueOut ∧
      ¬valueOut > s₁.nFees + rules.getBlockSubsidy index.nHeight := by
  unfold connectTransactions at h
  obtain ⟨s₀, hstart, h⟩ := bind_eq_some_iff.mp h
  obtain ⟨s₁, hloop, h⟩ := bind_eq_some_iff.mp h
  obtain ⟨s₂, hreward, h⟩ := bind_eq_some_iff.mp h
  obtain ⟨-, -, hvalid₂⟩ := checkReward_spec hreward
  obtain ⟨-, -, hvalid₃⟩ := checkComplete_spec env s₂
  cases h
  have hvalid : s₂.state.isValid = true := hvalid₃ hconnected
  unfold checkReward at hreward
  obtain ⟨coinbase, hcoinbase, hreward⟩ := bind_eq_some_iff.mp hreward
  obtain ⟨valueOut, hvalue, hreward⟩ := bind_eq_some_iff.mp hreward
  refine ⟨s₀, s₁, coinbase, valueOut, hstart, hloop, hvalid₂ hvalid, hcoinbase, hvalue, ?_⟩
  intro hmuch
  dsimp only at hreward
  rw [if_pos ⟨hmuch, hvalid₂ hvalid⟩] at hreward
  cases hreward
  rw [isValid_invalid] at hvalid
  cases hvalid

/-- A coinbase does not pay fees. -/
theorem nFees_connectTransaction_coinbase (hcoinbase : tx.isCoinBase = true)
    (h : connectTransaction hash256 rules env e index i tx s = some s')
    (hvalid : s'.state.isValid = true) : s'.nFees = s.nFees := by
  obtain ⟨s₁, _, hcheck, -, -, -, hfees⟩ := connectTransaction_parts h hvalid
  unfold checkInputs at hcheck
  rw [if_pos hcoinbase] at hcheck
  cases hcheck
  exact hfees

theorem nFees_checkBip30 (outpoints : List OutPoint) :
    ∀ s : ConnectState, (checkBip30 outpoints s).nFees = s.nFees := by
  induction outpoints with
  | nil => exact fun _ => rfl
  | cons o outpoints ih =>
    intro s
    unfold checkBip30
    rw [foldl_cons]
    refine (ih _).trans ?_
    dsimp only
    split_ifs <;> rfl

theorem nFees_connectStart {coins : CoinMap}
    (h : connectStart hash256 rules t index block coins = some s) : s.nFees = 0 := by
  unfold connectStart at h
  obtain ⟨enforce, -, h⟩ := bind_eq_some_iff.mp h
  cases h
  cases enforce with
  | false => rfl
  | true => exact nFees_checkBip30 _ _

/-- A block adds at most its subsidy to the coins. -/
theorem connectTransactions_supply {coins : CoinMap} {coinbase : Transaction} {undo : BlockUndo}
    (hshape : Shaped block coinbase rest)
    (hnew : enforceBip30 rules t index = some false → ∀ tx ∈ rest, NoOverwrite hash256 coins tx)
    (hsubsidy : Money (rules.getBlockSubsidy index.nHeight))
    (h : connectTransactions hash256 rules t env e index block coins = some r)
    (hconnected : r.connected = true) (hsub : CoinMap.Sub coins m)
    (happlies : BlockApplies hash256 index.nHeight block m undo m') (hnonneg : NonNeg coinValue m)
    (hwithin : Within coinValue m bound) :
    NonNeg coinValue m' ∧
      Within coinValue m' (bound + (rules.getBlockSubsidy index.nHeight).toInt) := by
  obtain ⟨s₀, s₁, coinbase', valueOut, hstart, hloop, hvalid, hhead, hvalue, hreward⟩ :=
    connectTransactions_reward h hconnected
  obtain ⟨coinbase'', rest'', hshape'', happlies⟩ := happlies
  have hvtx := hshape.vtx.symm.trans hshape''.vtx
  rw [List.cons.injEq] at hvtx
  obtain ⟨rfl, rfl⟩ := hvtx
  rw [hshape.vtx, head?_cons] at hhead
  cases hhead
  rw [hshape.vtx] at hloop
  obtain ⟨hs₀, sₐ, hturn, hvalidₐ, hloop⟩ := connectLoop_cons hloop hvalid
  obtain ⟨-, hbase, hviewₐ, hpeekₐ⟩ := connectTransaction_coinbase hshape hstart hturn hvalidₐ
  have hoverwrite := noOverwrite_of_start hstart hs₀
    (hshape.vtx ▸ subset_cons_self coinbase rest) hnew
  have hfeesₐ : sₐ.nFees = 0 :=
    (nFees_connectTransaction_coinbase hshape.isCoinBase hturn hvalidₐ).trans
      (nFees_connectStart hstart)
  have hzero : Money sₐ.nFees := by
    rw [hfeesₐ]
    exact ⟨by decide, by decide⟩
  obtain ⟨hmoney, houts, hout⟩ := getValueOut_spec hvalue
  obtain ⟨hfees, hnonneg', hwithin'⟩ := connectLoop_fees Nat.one_pos hshape.others hloop hvalid
    hviewₐ (hbase ▸ hoverwrite) hzero (hpeekₐ ▸ CoinMap.Sub.applyTx hsub index.nHeight coinbase)
    happlies (nonNeg_applyTx houts hnonneg)
    (within_applyTx_coinbase hshape.isCoinBase houts hwithin)
  refine ⟨hnonneg', hwithin'.mono ?_⟩
  have hsum := (toInt_add_of_money hfees hsubsidy).1
  rw [gt_iff_lt, Int64.lt_iff_toInt_lt, hsum, hout] at hreward
  rw [hfeesₐ, Int64.toInt_zero]
  omega

/-! ## Runs -/

variable {params : ChainParams hash256} {blocks : EntryPtr → Block}

variable (hash256 rules t blocks) in
/-- The coins behind every node that was connected are within what may be issued up to
its height.  The connected nodes are closed under parents. -/
structure Supplied (w : CoinsWorld) : Prop where
  best : ∀ e, w.bestBlock = some e → ∃ c ∈ w.connections, c.entry = e
  parents : ∀ c ∈ w.connections, ∀ index prev, t.index? c.entry = some index →
    index.pprev = some prev → ∃ c' ∈ w.connections, c'.entry = prev
  within : ∀ c ∈ w.connections, ∀ index m, t.index? c.entry = some index →
    CoinsAt hash256 t blocks (some c.entry) m →
      NonNeg coinValue m ∧ Within coinValue m (issued rules.getBlockSubsidy index.nHeight)

/-- A step without a new connection. -/
theorem Supplied.frame (h : Supplied hash256 rules t blocks w)
    (hconnections : w'.connections = w.connections)
    (hbest : ∀ e, w'.bestBlock = some e → ∃ c ∈ w.connections, c.entry = e) :
    Supplied hash256 rules t blocks w' := by
  refine ⟨?_, ?_, ?_⟩
  · rw [hconnections]
    exact hbest
  · rw [hconnections]
    exact h.parents
  · rw [hconnections]
    exact h.within

/-- A new connection on top of the best block. -/
theorem Supplied.connect {new : Connection} {index : BlockIndex}
    (h : Supplied hash256 rules t blocks w) (hindex : t.index? new.entry = some index)
    (hprev : index.pprev = w.bestBlock) (hconnections : w'.connections = w.connections ++ [new])
    (hbest : w'.bestBlock = some new.entry)
    (hwithin : ∀ m, CoinsAt hash256 t blocks (some new.entry) m →
      NonNeg coinValue m ∧ Within coinValue m (issued rules.getBlockSubsidy index.nHeight)) :
    Supplied hash256 rules t blocks w' := by
  have hmem : ∀ c, c ∈ w'.connections ↔ c ∈ w.connections ∨ c = new := by
    intro c
    rw [hconnections, mem_append, mem_singleton]
  refine ⟨?_, ?_, ?_⟩
  · intro e he
    rw [hbest, Option.some.injEq] at he
    exact ⟨new, (hmem new).mpr (.inr rfl), he⟩
  · intro c hc index' prev hindex' hprev'
    have hold : ∃ c' ∈ w.connections, c'.entry = prev := by
      rcases (hmem c).mp hc with hc | rfl
      · exact h.parents c hc index' prev hindex' hprev'
      · cases hindex.symm.trans hindex'
        exact h.best prev (hprev.symm.trans hprev')
    obtain ⟨c', hc', hentry⟩ := hold
    exact ⟨c', (hmem c').mpr (.inl hc'), hentry⟩
  · intro c hc index' m hindex' hm
    rcases (hmem c).mp hc with hc | rfl
    · exact h.within c hc index' m hindex' hm
    · cases hindex.symm.trans hindex'
      exact hwithin m hm

/-- A block whose parent has coins within the bound of its height. -/
theorem Supplied.child (ht : Rooted params t) {e prev : EntryPtr} {index : BlockIndex}
    {coinbase : Transaction} (hsubsidy : ∀ nHeight, Money (rules.getBlockSubsidy nHeight))
    (hkept : Kept hash256 params rules t blocks w) (h : Supplied hash256 rules t blocks w)
    (hindex : t.index? e = some index) (hprev : index.pprev = some prev)
    (hbest : w.bestBlock = some prev) (hshape : Shaped (blocks e) coinbase rest)
    (hnew : enforceBip30 rules t index = some false →
      ∀ tx ∈ rest, NoOverwrite hash256 w.coinsTip.peek tx)
    (hconnect : connectTransactions hash256 rules t env e index (blocks e) w.coinsTip.peek = some r)
    (hconnected : r.connected = true) (hm' : CoinsAt hash256 t blocks (some e) m') :
    NonNeg coinValue m' ∧ Within coinValue m' (issued rules.getBlockSubsidy index.nHeight) := by
  obtain ⟨m, undo, hm, happlies⟩ := hm'.cases_child hindex hprev
  obtain ⟨m₁, hm₁, hsub⟩ := hkept.coins
  rw [hbest] at hm₁
  have hsame := hm₁.unique hm
  subst hsame
  obtain ⟨c, hc, rfl⟩ := h.best prev hbest
  obtain ⟨pindex, hpindex, hheight⟩ := ht.index?_pprev hindex hprev
  obtain ⟨hnonneg, hwithin⟩ := h.within c hc pindex m₁ hpindex hm
  have hissued : issued rules.getBlockSubsidy index.nHeight =
      issued rules.getBlockSubsidy pindex.nHeight +
        (rules.getBlockSubsidy index.nHeight).toInt := by
    rw [hheight, issued, issued, Finset.sum_range_succ]
  rw [hissued]
  exact connectTransactions_supply hshape hnew (hsubsidy _) hconnect hconnected hsub happlies
    hnonneg hwithin

theorem Supplied.step (ht : Rooted params t)
    (hsubsidy : ∀ nHeight, Money (rules.getBlockSubsidy nHeight))
    (hkept : Kept hash256 params rules t blocks w) (h : Supplied hash256 rules t blocks w)
    (hspares : ∀ c ∈ w'.connections, c.SparesCoins hash256 rules t blocks)
    (hstep : StepCases hash256 params rules t blocks w w') :
    Supplied hash256 rules t blocks w' := by
  cases hstep with
  | reads hbest _ hconnections => exact h.frame hconnections fun e he => h.best e (hbest ▸ he)
  | wiped hbest _ hconnections =>
    refine h.frame hconnections fun e he => ?_
    rw [hbest] at he
    cases he
  | disconnected e prev index _ _ hindex hprev hbest _ _ _ hbest' _ hconnections =>
    refine h.frame hconnections fun e' he' => ?_
    cases hbest'.symm.trans he'
    obtain ⟨c, hc, rfl⟩ := h.best e hbest
    exact h.parents c hc index prev hindex hprev
  | connected e env index r hindex hconnect hconnected _ hbest _ hconnections =>
    obtain ⟨hprev, -, hcases⟩ := connectBlock_cases hconnect hconnected
    refine h.connect hindex hprev hconnections hbest fun m' hm' => ?_
    rcases hcases with ⟨hgenesis, -, -⟩ | ⟨hgenesis, coinbase, rest, hshape, htransactions⟩
    · obtain ⟨hroot, hheight⟩ := ht.genesis e index hindex hgenesis
      rw [hm'.unique (.genesis hindex hroot), hheight]
      exact ⟨fun _ _ ho => (by cases ho), within_empty⟩
    · obtain ⟨prev, hpprev⟩ := ne_none_iff_exists'.mp fun hroot =>
        hgenesis (ht.hash_of_root hindex hroot)
      have hnew := hspares ⟨e, env, w.coinsTip.peek⟩ (by rw [hconnections]; simp) index hindex
      dsimp only at hnew
      rw [hshape.vtx, tail_cons] at hnew
      exact h.child ht hsubsidy hkept hindex hpprev (hprev.symm.trans hpprev) hshape hnew
        htransactions hconnected hm'

theorem supplied_of_run (ht : Rooted params t)
    (hsubsidy : ∀ nHeight, Money (rules.getBlockSubsidy nHeight)) {ops : List CoinsOp}
    (hrun : Runs.run (CoinsWorld.step hash256 params.toParams rules t blocks) {} ops = some w)
    (hundisturbed : Undisturbed hash256 rules t blocks w) : Supplied hash256 rules t blocks w := by
  refine Runs.run_invariant_of_run (I := fun _ w =>
    Undisturbed hash256 rules t blocks w → Supplied hash256 rules t blocks w) ?_ ?_ hrun
    hundisturbed
  · exact fun _ => ⟨fun _ he => (by cases he), fun _ hc => (by cases hc), fun _ hc => (by cases hc)⟩
  · intro ops op w w' hrun _ h hstep hundisturbed
    have hcases := step_cases hstep
    have hbefore : Undisturbed hash256 rules t blocks w :=
      ⟨hundisturbed.fit, fun c hc => hundisturbed.spares c (hcases.connections_subset hc)⟩
    exact (h hbefore).step ht hsubsidy (kept_of_run ht hrun hbefore) hundisturbed.spares hcases

theorem money_getBlockSubsidy (nSubsidyHalvingInterval nHeight : Nat) :
    Money (getBlockSubsidy nSubsidyHalvingInterval nHeight) := by
  have hmax : maxMoney.toInt = 2100000000000000 := by decide
  have hle := Nat.div_le_self 5000000000 (2 ^ (nHeight / nSubsidyHalvingInterval))
  rw [Money, toInt_getBlockSubsidy, hmax]
  generalize 5000000000 / 2 ^ (nHeight / nSubsidyHalvingInterval) = subsidy at hle ⊢
  omega

/-- After any sequence of operations on the chainstate, any coins together are worth no
more than the subsidies of the blocks up to the best one, and these are less than
twice what is issued before the first halving. -/
theorem supply_bounded (ht : Rooted params t) {nSubsidyHalvingInterval : Nat}
    (hpos : 0 < nSubsidyHalvingInterval)
    (hrules : rules.getBlockSubsidy = getBlockSubsidy nSubsidyHalvingInterval) {ops : List CoinsOp}
    {w : CoinsWorld}
    (hrun : Runs.run (CoinsWorld.step hash256 params.toParams rules t blocks) {} ops = some w)
    (hundisturbed : Undisturbed hash256 rules t blocks w) (outpoints : Finset OutPoint) :
    (∀ e index, w.bestBlock = some e → t.index? e = some index →
      ∑ o ∈ outpoints, weightAt coinValue w.coinsTip.peek o ≤
        issued (getBlockSubsidy nSubsidyHalvingInterval) index.nHeight) ∧
      ∑ o ∈ outpoints, weightAt coinValue w.coinsTip.peek o ≤
        10000000000 * nSubsidyHalvingInterval := by
  have hsubsidy : ∀ nHeight, Money (rules.getBlockSubsidy nHeight) := by
    rw [hrules]
    exact money_getBlockSubsidy nSubsidyHalvingInterval
  have hsupplied := supplied_of_run ht hsubsidy hrun hundisturbed
  obtain ⟨m, hm, hsub⟩ := (kept_of_run ht hrun hundisturbed).coins
  have hbound : ∀ e index, w.bestBlock = some e → t.index? e = some index →
      ∑ o ∈ outpoints, weightAt coinValue w.coinsTip.peek o ≤
        issued (getBlockSubsidy nSubsidyHalvingInterval) index.nHeight := by
    intro e index hbest hindex
    obtain ⟨c, hc, rfl⟩ := hsupplied.best e hbest
    rw [hbest] at hm
    obtain ⟨hnonneg, hwithin⟩ := hsupplied.within c hc index m hindex hm
    rw [← hrules]
    exact hwithin.of_le hnonneg hsub outpoints
  refine ⟨hbound, ?_⟩
  cases hbest : w.bestBlock with
  | none =>
    rw [hbest] at hm
    have hempty := hm.unique .start
    subst hempty
    have hwithin : Within coinValue w.coinsTip.peek 0 :=
      within_empty.of_le (fun _ _ ho => by cases ho) hsub
    exact (hwithin outpoints).trans (by omega)
  | some e =>
    obtain ⟨c, hc, rfl⟩ := hsupplied.best e hbest
    obtain ⟨index, hindex⟩ := (stored_of_run hrun).known c hc
    exact (hbound c.entry index hbest hindex).trans (issued_le hpos index.nHeight)

/-- The interval of the main chain keeps the coins below `MAX_MONEY`. -/
example : (10000000000 * 210000 : Int) = maxMoney.toInt := by decide

namespace Sample

open Chainman.Sample (depthHash chainParams)

/-- The rules of a chain whose subsidy halves every 150 blocks. -/
def halvingRules : ConnectRules := { easyRules with getBlockSubsidy := getBlockSubsidy 150 }

theorem undisturbed_halvingRules (w : CoinsWorld) :
    Undisturbed depthHash halvingRules tree blockAt w :=
  ⟨heightsFit_tree, fun _ _ _ hindex henforce => absurd henforce (enforceBip30_tree hindex)⟩

/-- The coins before the last block, which spends them. -/
theorem peek_halvingRules :
    (Runs.run (CoinsWorld.step depthHash chainParams.toParams halvingRules tree blockAt) {}
      ((List.range 101).map fun e => .connectTip e connectEnv)).map (fun w => (w.bestBlock,
        w.coinsTip.peek ⟨(coinbase []).getHash depthHash, 1⟩)) =
      some (some 100, some ⟨⟨30, []⟩, true, 1⟩) := by
  decide +kernel

end Sample

open Sample
open Chainman.Sample (depthHash chainParams)

theorem supply_bounded_sample : ∃ w,
    Runs.run (CoinsWorld.step depthHash chainParams.toParams halvingRules tree blockAt) {}
        ((List.range 101).map fun e => .connectTip e connectEnv) = some w ∧
      w.coinsTip.peek ⟨(coinbase []).getHash depthHash, 1⟩ = some ⟨⟨30, []⟩, true, 1⟩ ∧
      ∀ outpoints : Finset OutPoint,
        ∑ o ∈ outpoints, weightAt coinValue w.coinsTip.peek o ≤ 10000000000 * (150 : Nat) := by
  obtain ⟨w, hrun, hw⟩ := map_eq_some_iff.mp peek_halvingRules
  rw [Prod.mk.injEq] at hw
  exact ⟨w, hrun, hw.2, fun outpoints => (supply_bounded rooted_tree (by decide) rfl hrun
    (undisturbed_halvingRules w) outpoints).2⟩

end BitcoinKernel.Validation.Coins
