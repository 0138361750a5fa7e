import BitcoinKernel.Storage.UndoFormat
import BitcoinKernel.Validation.TipCoins

/-!
# What a chainstate stores can be read back

`CoinsWorld` has the coins and the undo data of a chainstate as values.  The program
keeps both on disk: the coins in the records of the chainstate database, and the undo
data in the undo files.  This module shows that the two formats lose nothing of what a
run can store.

The formats are not made for every value.  Amounts must be money, scripts that are longer
than `MAX_SCRIPT_SIZE` come back as another script, and a vector that is too long is
refused by the reader.

* Amounts and scripts.  The outputs of a block have passed `CheckTransaction`, and
  `AddCoin` does not store scripts that are too long, so all coins are of the kind that
  comes back (`WriteBack.Cache.Holds`).
* Vectors.  `CheckBlock` bounds the size of a block, and with it the number of its
  transactions and inputs.
* `Storable` is the invariant of a chainstate.  It holds over every run, with no
  assumption on overwritten coins or on the flags of the caches.
-/

namespace BitcoinKernel.Storage

open Serialize Consensus State WriteBack WriteBack.Cache Interpreter Stateful List Option
open Validation Validation.Coins Validation.Coins.CoinsViewCache
open Validation.Chainman (ChainParams)

variable {hash256 : List UInt8 → Uint256}

/-- A coin that comes back from its record. -/
def Keepable (coin : Coin) : Prop := Compressible coin.out

/-! ## Coins that are added and taken -/

variable {view view' : CoinsViewCache} {o : OutPoint} {coin undo : Coin}
  {l : List (OutPoint × Coin)} {tx : Transaction} {fClean : Bool} {index : BlockIndex}
  {w w' : CoinsWorld}

theorem holds_addCoin {possibleOverwrite : Bool} (hview : view.Holds Keepable)
    (hmoney : moneyRange coin.out.nValue = true)
    (h : addCoin view o coin possibleOverwrite = some view') : view'.Holds Keepable := by
  unfold addCoin at h
  split_ifs at h with hspent hunspendable
  · cases h
    exact hview
  · refine hview.put ⟨hmoney, ?_⟩ h
    unfold Script.isUnspendable at hunspendable
    simp only [Bool.or_eq_true, decide_eq_true_eq, not_or, Nat.not_lt] at hunspendable
    exact hunspendable.2

theorem holds_spendCoin (hview : view.Holds Keepable) (h : spendCoin view o = some (coin, view')) :
    view'.Holds Keepable := by
  unfold spendCoin at h
  obtain ⟨⟨value, taken⟩, htake, h⟩ := map_eq_some_iff.mp h
  cases h
  exact hview.take htake

theorem holds_spendInputs {vin : List TxIn} {coins : List Coin} (hview : view.Holds Keepable)
    (h : spendInputs vin view = some (coins, view')) : view'.Holds Keepable := by
  induction vin generalizing view view' coins with
  | nil =>
    cases h
    exact hview
  | cons txin vin ih =>
    unfold spendInputs at h
    obtain ⟨⟨coin, view₁⟩, hspend, h⟩ := bind_eq_some_iff.mp h
    obtain ⟨⟨rest, view₂⟩, hrest, h⟩ := bind_eq_some_iff.mp h
    cases h
    exact ih (holds_spendCoin hview hspend) hrest

theorem holds_addAll {overwrite : Bool} (hmoney : ∀ p ∈ l, moneyRange p.2.out.nValue = true)
    (hview : view.Holds Keepable)
    (h : l.foldlM (fun view (outpoint, coin) => addCoin view outpoint coin overwrite) view =
      some view') :
    view'.Holds Keepable := by
  induction l generalizing view view' with
  | nil =>
    cases h
    exact hview
  | cons p l ih =>
    rw [forall_mem_cons] at hmoney
    rw [foldlM_cons] at h
    obtain ⟨view₁, hadd, h⟩ := bind_eq_some_iff.mp h
    exact ih hmoney.2 (holds_addCoin hview hmoney.1 hadd) h

theorem holds_updateCoins {nHeight : Nat} {undo : TxUndo} (htx : ValidTransaction tx)
    (hview : view.Holds Keepable) (h : updateCoins hash256 tx nHeight view = some (undo, view')) :
    view'.Holds Keepable := by
  unfold updateCoins at h
  obtain ⟨⟨vprevout, view₁⟩, hspend, h⟩ := bind_eq_some_iff.mp h
  obtain ⟨view₂, hadd, h⟩ := bind_eq_some_iff.mp h
  cases h
  have hview₁ : view₁.Holds Keepable := by
    unfold spendTransaction at hspend
    split_ifs at hspend
    · cases hspend
      exact hview
    · exact holds_spendInputs hview hspend
  refine holds_addAll (fun p hp => ?_) hview₁ hadd
  unfold outputCoins at hp
  obtain ⟨⟨out, i⟩, hmem, rfl⟩ := mem_map.mp hp
  exact (moneyRange_iff _).mpr (htx.values out (fst_mem_of_mem_zipIdx hmem))

/-! ## Connecting -/

section Connecting

variable {rules : ConnectRules} {t : BlockTree} {env : ConnectEnv} {e : EntryPtr}
  {index : BlockIndex} {block : Block}

/-- A transaction has fewer inputs than bytes. -/
theorem length_vin_le (tx : Transaction) : tx.vin.length ≤ (writeTransaction false tx).length := by
  have hinputs : tx.vin.length ≤ (tx.vin.flatMap writeTxIn).length := by
    rw [length_flatMap]
    calc tx.vin.length
      _ = (tx.vin.map fun input => (writeTxIn input).length).length := by rw [length_map]
      _ ≤ _ := by
          apply length_le_sum_of_one_le
          intro n hn
          obtain ⟨input, -, rfl⟩ := mem_map.mp hn
          rw [writeTxIn, writeOutPoint, length_append, length_append, length_append,
            input.prevout.hash.length_eq]
          omega
  unfold writeTransaction writeVector
  simp only [length_append]
  omega

variable {tx : Transaction} {coins : CoinMap} {r : ConnectResult}

/-- The inputs of a transaction that is valid fit in a vector. -/
theorem length_vin_le_maxSize (htx : ValidTransaction tx) : tx.vin.length ≤ maxSize := by
  have hsize := htx.size
  have hle := length_vin_le tx
  rw [maxBlockWeight] at hsize
  rw [maxSize]
  omega

theorem txUndoStorable_of_spends {undo : TxUndo} {m : CoinMap} (htx : ValidTransaction tx)
    (hm : ∀ o coin, m o = some coin → Keepable coin) (h : Spends m tx.vin undo.vprevout) :
    TxUndoStorable undo := by
  refine ⟨?_, fun coin hcoin => ?_⟩
  · rw [← List.Forall₂.length_eq h]
    exact length_vin_le_maxSize htx
  · obtain ⟨n, hn⟩ := mem_iff_getElem?.mp hcoin
    obtain ⟨hlength, hcoins⟩ := h.getElem?
    have hlt : n < tx.vin.length := by
      rw [← hlength]
      exact (List.getElem?_eq_some_iff.mp hn).1
    obtain ⟨coin', hcoin', hpeek⟩ := hcoins n _ (getElem?_eq_getElem hlt)
    rw [hn] at hcoin'
    cases hcoin'
    exact hm _ coin hpeek

/-- The variables of the loop of `ConnectBlock`, as far as they are stored. -/
structure LoopStorable (s : ConnectState) : Prop where
  coins : s.view.Holds Keepable
  undo : ∀ undo ∈ s.vtxundo, TxUndoStorable undo

/-- One turn of the loop.  The coinbase comes first. -/
theorem LoopStorable.turn {i : Nat} {s s' : ConnectState} (htx : ValidTransaction tx)
    (hfirst : tx.isCoinBase = true → i = 0) (hs : LoopStorable s)
    (h : connectTransaction hash256 rules env e index i tx s = some s')
    (hvalid : s'.state.isValid = true) : LoopStorable s' := by
  obtain ⟨view, _, hread, -, hupdate⟩ := connectTransaction_updates h hvalid
  obtain ⟨undo, hundo, hspends, -⟩ := connectTransaction_spec htx.distinct h hvalid
  refine ⟨holds_updateCoins htx (hs.coins.congr hread.base hread.peek) hupdate, ?_⟩
  rw [hundo]
  split_ifs with hi
  · intro undo' hmem
    rcases mem_append.mp hmem with hmem | hmem
    · exact hs.undo undo' hmem
    · rw [mem_singleton] at hmem
      subst hmem
      have hcoinbase : tx.isCoinBase = false := by
        cases hkind : tx.isCoinBase with
        | false => rfl
        | true => exact absurd (hfirst hkind) (by omega)
      exact txUndoStorable_of_spends htx hs.coins.peek (hspends hcoinbase)
  · exact hs.undo

theorem LoopStorable.loop {txs : List Transaction} {i : Nat} {s s' : ConnectState}
    (htxs : ∀ tx ∈ txs, ValidTransaction tx ∧ tx.isCoinBase = false) (hs : LoopStorable s)
    (h : connectLoop hash256 rules env e index i txs s = some s')
    (hvalid : s'.state.isValid = true) : LoopStorable s' := by
  induction txs generalizing i s s' with
  | nil =>
    cases h
    exact hs
  | cons tx txs ih =>
    rw [forall_mem_cons] at htxs
    obtain ⟨-, s₁, hturn, hvalid₁, hrest⟩ := connectLoop_cons h hvalid
    refine ih htxs.2 (hs.turn htxs.1.1 (fun hcoinbase => ?_) hturn hvalid₁) hrest hvalid
    rw [htxs.1.2] at hcoinbase
    cases hcoinbase

/-- What `CheckBlock` says about the sizes and the transactions of a block. -/
theorem valid_of_checkStructure (h : checkStructure hash256 block = .ok ()) :
    block.vtx.length ≤ maxSize ∧ ∀ tx ∈ block.vtx, ValidTransaction tx := by
  unfold checkStructure at h
  dsimp only at h
  obtain ⟨hsize, h⟩ := throwIf_bind_eq_ok_iff.mp h
  obtain ⟨-, h⟩ := throwIf_bind_eq_ok_iff.mp h
  obtain ⟨-, h⟩ := throwIf_bind_eq_ok_iff.mp h
  obtain ⟨htxs, -⟩ := bind_eq_ok_iff.mp h
  constructor
  · have hcount : ¬block.vtx.length * witnessScaleFactor > maxBlockWeight :=
      fun hlarge => hsize (by simp [hlarge])
    rw [witnessScaleFactor, maxBlockWeight] at hcount
    rw [maxSize]
    omega
  · exact fun tx hmem => (checkTransaction_eq_ok_iff tx).mp (checkTransaction_of_mem htxs tx hmem)

/-- The view and the undo data of a block that is connected. -/
theorem connectTransactions_storable (hcheck : checkStructure hash256 block = .ok ())
    (hcoins : ∀ o coin, coins o = some coin → Keepable coin)
    (h : connectTransactions hash256 rules t env e index block coins = some r)
    (hconnected : r.connected = true) :
    r.view.Holds Keepable ∧ ∀ undo, r.undo = some undo → BlockUndoStorable undo := by
  obtain ⟨hsize, htxs⟩ := valid_of_checkStructure hcheck
  obtain ⟨coinbase, rest, hshape⟩ := shaped_of_checkStructure hcheck
  obtain ⟨s₀, s₁, hstart, hloop, hvalid, hview, hundo⟩ := connectTransactions_cases h hconnected
  obtain ⟨_, -, hread, hundo₀, -⟩ := connectStart_spec hstart
  obtain ⟨undo, hundo', hlines, -⟩ := connectTransactions_spec hshape h hconnected
  have hs₀ : LoopStorable s₀ := by
    refine ⟨(holds_above hcoins).congr hread.base hread.peek, ?_⟩
    rw [hundo₀]
    exact fun _ hmem => by cases hmem
  rw [hshape.vtx, forall_mem_cons] at htxs
  rw [hshape.vtx] at hloop
  obtain ⟨-, sₐ, hturn, hvalidₐ, hloop⟩ := connectLoop_cons hloop hvalid
  have hs₁ : LoopStorable s₁ :=
    LoopStorable.loop (fun tx hmem => ⟨htxs.2 tx hmem, (hshape.others tx hmem).1⟩)
      (hs₀.turn htxs.1 (fun _ => rfl) hturn hvalidₐ) hloop hvalid
  rw [hview]
  refine ⟨hs₁.coins, fun undo'' hsome => ?_⟩
  have hlength : undo''.vtxundo.length + 1 = block.vtx.length := by
    rw [hundo'] at hsome
    cases hsome
    exact hlines.count
  rw [hundo] at hsome
  cases hsome
  exact ⟨by omega, hs₁.undo⟩

/-- A block that `ConnectBlock` connects is the genesis block, or has passed the loop. -/
theorem connectBlock_storable {params : Chainman.Params} {bestBlock : Option EntryPtr}
    (hcoins : ∀ o coin, coins o = some coin → Keepable coin)
    (h : connectBlock hash256 params rules t env e index block bestBlock coins = some r)
    (hconnected : r.connected = true) :
    r.view.Holds Keepable ∧ ∀ undo, r.undo = some undo → BlockUndoStorable undo := by
  obtain ⟨-, hchecked, ⟨-, hundo, hview⟩ | ⟨-, -, -, -, hconnect⟩⟩ :=
    connectBlock_cases h hconnected
  · rw [hview, hundo]
    exact ⟨holds_above hcoins, fun _ hsome => by cases hsome⟩
  · exact connectTransactions_storable hchecked hcoins hconnect hconnected

end Connecting

/-! ## Disconnecting -/

theorem holds_removeOutputs {isException : Bool} (hview : view.Holds Keepable) :
    (removeOutputs isException l view).2.Holds Keepable := by
  induction l generalizing view with
  | nil => exact hview
  | cons p l ih =>
    obtain ⟨o, expected⟩ := p
    unfold removeOutputs
    split_ifs
    · exact ih hview
    · split
      · exact ih hview
      · rename_i hspend
        exact ih (holds_spendCoin hview hspend)

theorem undoMetadata_out {txid : Uint256} (h : undoMetadata undo view txid = .ok coin) :
    coin.out = undo.out := by
  unfold undoMetadata at h
  dsimp only at h
  split_ifs at h
  · cases h
    rfl
  · cases h
    rfl

theorem holds_applyTxInUndo {out : OutPoint} (hview : view.Holds Keepable) (hundo : Keepable undo)
    (h : applyTxInUndo undo view out = .ok (fClean, view')) : view'.Holds Keepable := by
  obtain ⟨coin, _, hcoin, hadd⟩ := applyTxInUndo_parts h
  refine holds_addCoin (hview.fetch out) ?_ hadd
  rw [undoMetadata_out hcoin]
  exact hundo.money

theorem holds_restoreInputs {l : List (TxIn × Coin)} (hl : ∀ p ∈ l, Keepable p.2)
    (hview : view.Holds Keepable) (h : restoreInputs l view = .ok (fClean, view')) :
    view'.Holds Keepable := by
  induction l generalizing view view' fClean with
  | nil =>
    cases h
    exact hview
  | cons p l ih =>
    rw [forall_mem_cons] at hl
    obtain ⟨txin, undo⟩ := p
    unfold restoreInputs at h
    obtain ⟨⟨clean₁, view₁⟩, happly, h⟩ := Outcome.bind_eq_ok_iff.mp h
    obtain ⟨⟨clean₂, view₂⟩, hrest, h⟩ := Outcome.bind_eq_ok_iff.mp h
    cases h
    exact ih hl.2 (holds_applyTxInUndo hview hl.1 happly) hrest

theorem holds_disconnectTransaction {undo : Option TxUndo}
    (hundo : ∀ txundo, undo = some txundo → TxUndoStorable txundo) (hview : view.Holds Keepable)
    (h : disconnectTransaction hash256 index tx undo view = .ok (fClean, view')) :
    view'.Holds Keepable := by
  unfold disconnectTransaction at h
  dsimp only at h
  have hremoved : (removeOutputs (tx.isCoinBase && isBip30Unspendable index)
      (outputCoins hash256 tx index.nHeight) view).2.Holds Keepable := holds_removeOutputs hview
  cases undo with
  | none =>
    cases h
    exact hremoved
  | some txundo =>
    dsimp only at h
    split_ifs at h
    obtain ⟨⟨restored, view₁⟩, hrestore, h⟩ := Outcome.bind_eq_ok_iff.mp h
    cases h
    refine holds_restoreInputs (fun p hp => ?_) hremoved hrestore
    exact (hundo txundo rfl).2 p.2 (of_mem_zip (mem_reverse.mp hp)).2

theorem holds_disconnectLoop {l : List (Transaction × Option TxUndo)}
    (hl : ∀ p ∈ l, ∀ txundo, p.2 = some txundo → TxUndoStorable txundo)
    (hview : view.Holds Keepable) (h : disconnectLoop hash256 index l view = .ok (fClean, view')) :
    view'.Holds Keepable := by
  induction l generalizing view view' fClean with
  | nil =>
    cases h
    exact hview
  | cons p l ih =>
    rw [forall_mem_cons] at hl
    obtain ⟨tx, undo⟩ := p
    unfold disconnectLoop at h
    obtain ⟨⟨clean₁, view₁⟩, hturn, h⟩ := Outcome.bind_eq_ok_iff.mp h
    obtain ⟨⟨clean₂, view₂⟩, hrest, h⟩ := Outcome.bind_eq_ok_iff.mp h
    cases h
    exact ih hl.2 (holds_disconnectTransaction hl.1 hview hturn) hrest

/-- `DisconnectBlock` brings back coins of the undo data only. -/
theorem holds_disconnectBlock {block : Block} {undo : Option BlockUndo} {coins : CoinMap}
    (hundo : ∀ blockUndo, undo = some blockUndo → BlockUndoStorable blockUndo)
    (hcoins : ∀ o coin, coins o = some coin → Keepable coin)
    (h : disconnectBlock hash256 index block undo coins = .ok (fClean, view)) :
    view.Holds Keepable := by
  unfold disconnectBlock disconnectOn at h
  cases undo with
  | none => cases h
  | some blockUndo =>
    dsimp only at h
    split_ifs at h
    refine holds_disconnectLoop (fun p hp txundo htxundo => ?_) (holds_above hcoins) h
    have hmem := (of_mem_zip (mem_reverse.mp hp)).2
    rw [htxundo, mem_cons] at hmem
    rcases hmem with hnone | hmem
    · cases hnone
    · obtain ⟨txundo', hmem, heq⟩ := mem_map.mp hmem
      cases heq
      exact (hundo blockUndo rfl).2 txundo hmem

/-! ## Runs -/

variable {params : ChainParams hash256} {rules : ConnectRules} {t : BlockTree}
  {blocks : EntryPtr → Block}

/-- Everything that a chainstate stores comes back from its format. -/
structure Storable (w : CoinsWorld) : Prop where
  coins : w.coinsTip.Holds Keepable
  undo : ∀ e undo, w.undo e = some undo → BlockUndoStorable undo

theorem Storable.connectTip {e : EntryPtr} {env : ConnectEnv} (hw : Storable w)
    (h : w.connectTip hash256 params.toParams rules t blocks e env = some w') : Storable w' := by
  rcases connectTip_eq_or h with rfl | ⟨index, r, -, hconnect, hconnected, h⟩
  · exact hw
  · obtain ⟨hview, hundo⟩ := connectBlock_storable hw.coins.peek hconnect hconnected
    obtain ⟨coinsTip, hwrite, h⟩ := bind_eq_some_iff.mp h
    cases h
    refine ⟨hw.coins.batchWrite hview hwrite, ?_⟩
    dsimp only
    cases hr : r.undo with
    | none => exact hw.undo
    | some blockundo =>
      intro e' undo hstored
      dsimp only at hstored
      unfold Coins.writeBlockUndo at hstored
      split_ifs at hstored
      · cases hold : w.undo e with
        | none =>
          rw [hold] at hstored
          cases hstored
          exact hundo blockundo hr
        | some old =>
          rw [hold] at hstored
          cases hstored
          exact hw.undo e old hold
      · exact hw.undo e' undo hstored

theorem Storable.disconnectTip {env : DisconnectEnv} (hw : Storable w)
    (h : w.disconnectTip hash256 t blocks env = some w') : Storable w' := by
  rcases disconnectTip_eq_or h with rfl | ⟨e, _, _, undo, view, -, -, -, hstored, hdisconnect,
    hwrite, -, hundo, -⟩
  · exact hw
  · refine ⟨hw.coins.batchWrite ?_ hwrite, hundo ▸ hw.undo⟩
    refine holds_disconnectBlock (fun undo' hundo' => ?_) hw.coins.peek hdisconnect
    cases hundo'
    exact hw.undo e undo hstored

theorem Storable.step {op : CoinsOp} (hw : Storable w)
    (h : w.step hash256 params.toParams rules t blocks op = some w') : Storable w' := by
  cases op with
  | connectTip e env => exact hw.connectTip h
  | disconnectTip env => exact hw.disconnectTip h
  | fetchCoin outpoint =>
    cases h
    exact ⟨hw.coins.fetch outpoint, hw.undo⟩
  | flush =>
    cases h
    exact ⟨hw.coins.flush, hw.undo⟩
  | restart wipeChainstate =>
    cases h
    unfold CoinsWorld.restart
    split_ifs
    · exact ⟨holds_above fun _ _ hnone => (by cases hnone), hw.undo⟩
    · exact ⟨hw.coins.flush, hw.undo⟩

theorem storable_of_run {ops : List CoinsOp}
    (hrun : Runs.run (CoinsWorld.step hash256 params.toParams rules t blocks) {} ops = some w) :
    Storable w := by
  refine Runs.run_invariant (I := fun _ w => Storable w) ?_ ?_ hrun
  · exact ⟨holds_above fun _ _ hnone => (by cases hnone), fun _ _ hnone => (by cases hnone)⟩
  · exact fun _ _ _ _ hw hstep => hw.step hstep

/-- The undo data that `ConnectBlock` has made for a block is what `ReadBlockUndo` gives,
in every chainstate that a run leads to, whatever stands behind the record in the
file. -/
theorem undo_restored (keys : PubKeys) {ops : List CoinsOp} {w : CoinsWorld}
    (hrun : Runs.run (CoinsWorld.step hash256 params.toParams rules t blocks) {} ops = some w)
    {e : EntryPtr} {undo : BlockUndo} (hundo : w.undo e = some undo) (prevHash : Uint256)
    (rest : List UInt8) :
    readBlockUndo keys hash256 prevHash (undoRecord keys hash256 prevHash undo ++ rest) =
      some undo :=
  readBlockUndo_record keys hash256 prevHash ((storable_of_run hrun).undo e undo hundo) rest

/-- A coin of a chainstate that a run leads to, in the cache or in the database, passes
the assertion of `Coin::Serialize`, and its record is read back. -/
theorem coin_restored (keys : PubKeys) {ops : List CoinsOp} {w : CoinsWorld}
    (hrun : Runs.run (CoinsWorld.step hash256 params.toParams rules t blocks) {} ops = some w)
    {o : OutPoint} {coin : Coin}
    (hcoin : w.coinsTip.peek o = some coin ∨ w.coinsTip.base o = some coin) (rest : List UInt8) :
    coin.isSpent = false ∧
      (readCoin keys).run (writeCoin keys coin ++ rest) = .ok (coin, rest) := by
  have hcoins := (storable_of_run hrun).coins
  have hkeep : Keepable coin := by
    rcases hcoin with hpeek | hbase
    · exact hcoins.peek o coin hpeek
    · exact hcoins.base o coin hbase
  refine ⟨?_, restores_coin keys coin rest hkeep⟩
  cases hspent : coin.isSpent with
  | false => rfl
  | true =>
    -- the value of a spent coin is not money
    have hvalue : coin.out.nValue = -1 := by simpa [Coin.isSpent] using hspent
    have hmoney := hkeep.money
    rw [hvalue] at hmoney
    exact absurd hmoney (by decide)

namespace Sample

open Coins.Sample Chainman.Sample

/-- The coins of the first block, before the block that spends them. -/
theorem peek_first :
    (Runs.run (CoinsWorld.step depthHash chainParams.toParams easyRules tree blockAt) {}
      ((List.range 101).map fun e => .connectTip e connectEnv)).map (fun w =>
        w.coinsTip.peek ⟨(coinbase []).getHash depthHash, 1⟩) =
      some (some ⟨⟨30, []⟩, true, 1⟩) := by
  decide +kernel

end Sample

open Sample Coins.Sample Chainman.Sample

theorem undo_restored_sample : ∃ w,
    Runs.run (CoinsWorld.step depthHash chainParams.toParams easyRules tree blockAt) {} ops =
        some w ∧
      w.undo 101 = some spent ∧
      readBlockUndo generatorKeys depthHash (hashAt 101)
        (undoRecord generatorKeys depthHash (hashAt 101) spent ++ [1, 2, 3]) = some spent := by
  obtain ⟨w, hrun, hundo, -⟩ := exists_run
  exact ⟨w, hrun, hundo, undo_restored generatorKeys hrun hundo _ _⟩

theorem coin_restored_sample : ∃ w,
    Runs.run (CoinsWorld.step depthHash chainParams.toParams easyRules tree blockAt) {}
        ((List.range 101).map fun e => .connectTip e connectEnv) = some w ∧
      w.coinsTip.peek ⟨(coinbase []).getHash depthHash, 1⟩ = some ⟨⟨30, []⟩, true, 1⟩ ∧
      Coin.isSpent ⟨⟨30, []⟩, true, 1⟩ = false ∧
      (readCoin generatorKeys).run (writeCoin generatorKeys ⟨⟨30, []⟩, true, 1⟩ ++ []) =
        .ok (⟨⟨30, []⟩, true, 1⟩, []) := by
  obtain ⟨w, hrun, hpeek⟩ := map_eq_some_iff.mp peek_first
  exact ⟨w, hrun, hpeek, coin_restored generatorKeys hrun (Or.inl hpeek) []⟩

end BitcoinKernel.Storage
