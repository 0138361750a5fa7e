import BitcoinKernel.Validation.SpentOutputs

/-!
# The coins depend on the tip alone

`DisconnectBlock` takes back what `ConnectBlock` did, so the coins of a chainstate are
those that the ancestors of its best block determine.  `Kept` says that there are no
others.  This module shows that none is missing.

* `Fresh`: the outputs of a transaction have no coins before it.  `UpdateCoins` makes
  sure of it: a transaction that is not a coinbase cannot overwrite a coin that the
  cache has, and `ConnectBlock` looks for coins below the cache.
* `disconnectBlock_exact`: with the undo data of the block, `DisconnectBlock` leads back
  to the coins before it.
* `coins_eq_of_bestBlock`: two chainstates with the same best block have the same coins,
  whatever blocks were connected and disconnected on the way, and wherever the caches
  were flushed or the manager was restarted.

Where `ConnectBlock` does not look for coins that would be overwritten, the result needs
that there are none (`Connection.CreatesNew`).
-/

namespace BitcoinKernel.Validation.Coins

open Serialize Consensus State WriteBack WriteBack.Cache CoinsViewCache List
open Chainman (ChainParams Rooted)

variable {hash256 : List UInt8 → Uint256}

/-! ## Outputs that are new -/

/-- The coins behind the inputs of a transaction. -/
def spentMap (m : CoinMap) (tx : Transaction) : CoinMap :=
  if tx.isCoinBase then m else m.eraseAll (tx.vin.map TxIn.prevout)

variable (hash256) in
/-- The outpoints of the outputs that can be spent. -/
def Creates (nHeight : Nat) (tx : Transaction) (o : OutPoint) : Prop :=
  ∃ coin, (o, coin) ∈ outputCoins hash256 tx nHeight ∧ coin.out.scriptPubKey.isUnspendable = false

variable (hash256) in
/-- No output of a transaction has a coin behind its inputs. -/
def Fresh (nHeight : Nat) (m : CoinMap) (tx : Transaction) : Prop :=
  ∀ o, Creates hash256 nHeight tx o → spentMap m tx o = none

variable (hash256) in
/-- The outputs of transactions are new, one transaction after another. -/
def FreshAll (nHeight : Nat) : CoinMap → List Transaction → Prop
  | _, [] => True
  | m, tx :: rest =>
    Fresh hash256 nHeight m tx ∧ FreshAll nHeight (applyTx hash256 nHeight m tx) rest

/-- Only coins that can be spent are stored. -/
def Spendable (m : CoinMap) : Prop :=
  ∀ o coin, m o = some coin → coin.out.scriptPubKey.isUnspendable = false

variable {m m' coins : CoinMap} {nHeight i : Nat} {txs : List Transaction} {undos : List TxUndo}
  {tx : Transaction} {o : OutPoint} {view view' : CoinsViewCache} {l : List (OutPoint × Coin)}
  {fClean : Bool} {s s' : ConnectState} {w w' : CoinsWorld}

theorem Spendable.applyTx (h : Spendable m) (nHeight : Nat) (tx : Transaction) :
    Spendable (applyTx hash256 nHeight m tx) := by
  intro o coin ho
  rcases applyTx_cases ho with ho | ⟨-, hspendable⟩
  · exact h o coin ho
  · exact hspendable

theorem Spendable.applies (happlies : Applies hash256 nHeight m txs undos m') (h : Spendable m) :
    Spendable m' := by
  induction happlies with
  | nil m => exact h
  | cons _ _ ih => exact ih (h.applyTx nHeight _)

theorem NoOverwrite.outputCoins (nHeight : Nat) (h : NoOverwrite hash256 coins tx) :
    ∀ o ∈ (outputCoins hash256 tx nHeight).map Prod.fst, coins o = none := by
  intro o ho
  simp only [Coins.outputCoins, map_map, mem_map, Function.comp_apply] at ho
  obtain ⟨⟨out, i⟩, hmem, rfl⟩ := ho
  have hi := mem_zipIdx hmem
  exact h i (by omega)

theorem Creates.mem (h : Creates hash256 nHeight tx o) :
    o ∈ (outputCoins hash256 tx nHeight).map Prod.fst := by
  obtain ⟨coin, hmem, -⟩ := h
  exact mem_map.mpr ⟨(o, coin), hmem, rfl⟩

/-- A key that counts as new has no value if the base has none. -/
theorem peek_eq_none_of_put {coin : Coin} (h : view.put o coin false = some view')
    (hbase : view.base o = none) : view.peek o = none := by
  unfold put at h
  split at h
  · rename_i hentry
    rw [peek_of_entryAt_none hentry, hbase]
  · rename_i e hentry
    rw [peek_of_entryAt hentry]
    split_ifs at h with hvalue
    simpa using hvalue

/-- `AddCoin` without overwriting finds no coin. -/
theorem addCoins_fresh : ∀ {view view' : CoinsViewCache},
      l.foldlM (fun view (outpoint, coin) => addCoin view outpoint coin false) view = some view' →
      (∀ o ∈ l.map Prod.fst, view.base o = none) →
      ∀ o coin, (o, coin) ∈ l → coin.out.scriptPubKey.isUnspendable = false →
        view.peek o = none := by
  induction l with
  | nil => exact fun _ _ o coin hmem => by cases hmem
  | cons p l ih =>
    intro view view' h hbase o coin hmem hspendable
    obtain ⟨o₁, coin₁⟩ := p
    rw [map_cons, forall_mem_cons] at hbase
    rw [foldlM_cons] at h
    obtain ⟨view₁, hadd, h⟩ := Option.bind_eq_some_iff.mp h
    dsimp only at hadd
    unfold addCoin at hadd
    split_ifs at hadd with hspent hunspendable
    · cases hadd
      rcases mem_cons.mp hmem with heq | hmem
      · cases heq
        rw [hspendable] at hunspendable
        cases hunspendable
      · exact ih h hbase.2 o coin hmem hspendable
    · have hnone := peek_eq_none_of_put hadd hbase.1
      obtain ⟨hbase₁, hpeek₁⟩ := peek_put hadd
      rcases mem_cons.mp hmem with heq | hmem
      · cases heq
        exact hnone
      · have hrest := ih h (hbase₁ ▸ hbase.2) o coin hmem hspendable
        rw [hpeek₁] at hrest
        by_cases heq : o = o₁
        · rw [heq]
          exact hnone
        · rwa [Function.update_of_ne heq] at hrest

/-- The outputs of a transaction that `UpdateCoins` lets pass are new. -/
theorem updateCoins_fresh {undo : TxUndo} (hnodup : (tx.vin.map TxIn.prevout).Nodup)
    (hcoins : tx.isCoinBase = false →
      ∀ txin ∈ tx.vin, ∃ coin, view.peek txin.prevout = some coin) (hview : view.Coherent)
    (hbase : tx.isCoinBase = false → NoOverwrite hash256 view.base tx)
    (hpeek : tx.isCoinBase = true → NoOverwrite hash256 view.peek tx)
    (h : updateCoins hash256 tx nHeight view = some (undo, view')) :
    Fresh hash256 nHeight view.peek tx := by
  unfold updateCoins at h
  obtain ⟨⟨vprevout, view₁⟩, hspend, h⟩ := Option.bind_eq_some_iff.mp h
  obtain ⟨view₂, hadd, h⟩ := Option.bind_eq_some_iff.mp h
  intro o ho
  cases hcoinbase : tx.isCoinBase with
  | true =>
    rw [spentMap, hcoinbase, if_pos rfl]
    exact (hpeek hcoinbase).outputCoins nHeight o ho.mem
  | false =>
    rw [spentMap, hcoinbase, if_neg Bool.false_ne_true]
    unfold spendTransaction at hspend
    rw [hcoinbase, if_neg Bool.false_ne_true] at hspend
    obtain ⟨-, hbase₁, hcoherent₁⟩ := spendInputs_spec hnodup (hcoins hcoinbase) hspend
    unfold addCoins at hadd
    rw [hcoinbase] at hadd
    obtain ⟨coin, hmem, hspendable⟩ := ho
    rw [← (hcoherent₁ hview).2]
    refine addCoins_fresh hadd ?_ o coin hmem hspendable
    show ∀ o ∈ (outputCoins hash256 tx nHeight).map Prod.fst, view₁.base o = none
    rw [hbase₁]
    exact (hbase hcoinbase).outputCoins nHeight

/-! ## Disconnecting -/

variable {index : BlockIndex} {block : Block}

theorem CoinMap.insertAll_of_not (m : CoinMap)
    (h : ¬∃ coin, (o, coin) ∈ l ∧ coin.out.scriptPubKey.isUnspendable = false) :
    m.insertAll l o = m o := by
  rcases CoinMap.insertAll_cases m l o with hsame | ⟨coin, hmem, hspendable, -⟩
  · exact hsame
  · exact absurd ⟨coin, hmem, hspendable⟩ h

/-- The outputs that are not removed stay as they are. -/
theorem peek_removeOutputs_of_not {isException : Bool} (hview : view.Coherent)
    (hnot : ¬∃ coin, (o, coin) ∈ l ∧ coin.out.scriptPubKey.isUnspendable = false) :
    (removeOutputs isException l view).2.peek o = view.peek o := by
  induction l generalizing view with
  | nil => rfl
  | cons p l ih =>
    obtain ⟨out, expected⟩ := p
    have hrest : ¬∃ coin, (o, coin) ∈ l ∧ coin.out.scriptPubKey.isUnspendable = false := by
      rintro ⟨coin, hmem, hspendable⟩
      exact hnot ⟨coin, mem_cons_of_mem _ hmem, hspendable⟩
    unfold removeOutputs
    by_cases hunspendable : expected.out.scriptPubKey.isUnspendable = true
    · rw [if_pos hunspendable]
      exact ih hview hrest
    rw [if_neg hunspendable]
    have hne : o ≠ out := by
      rintro rfl
      exact hnot ⟨expected, mem_cons_self, by simpa using hunspendable⟩
    unfold spendCoin
    cases htake : view.take out with
    | none => exact ih hview hrest
    | some taken =>
      obtain ⟨_, view₁⟩ := taken
      show (removeOutputs isException l view₁).2.peek o = view.peek o
      rw [ih (hview.take htake) hrest, hview.peek_take htake, Function.update_of_ne hne]

/-- `removeOutputs` takes back the outputs of a transaction. -/
theorem peek_removeOutputs (isException : Bool) (hview : view.Coherent)
    (hfresh : Fresh hash256 nHeight m tx) (hpeek : view.peek = applyTx hash256 nHeight m tx) :
    (removeOutputs isException (outputCoins hash256 tx nHeight) view).2.peek = spentMap m tx := by
  funext o
  by_cases hcreates : Creates hash256 nHeight tx o
  · rw [hfresh o hcreates]
    obtain ⟨coin, hmem, hspendable⟩ := hcreates
    exact (removeOutputs_spec hview rfl).2.2.2 o coin hmem hspendable
  · rw [peek_removeOutputs_of_not hview hcreates, hpeek]
    exact CoinMap.insertAll_of_not _ hcreates

/-- `ApplyTxInUndo` for a coin that can be spent, with its height. -/
theorem peek_applyTxInUndo {undo : Coin} {out : OutPoint} (hheight : undo.nHeight ≠ 0)
    (hspendable : undo.out.scriptPubKey.isUnspendable = false)
    (h : applyTxInUndo undo view out = .ok (fClean, view')) :
    view'.peek = Function.update view.peek out (some undo) := by
  obtain ⟨coin, _, hmetadata, hadd⟩ := applyTxInUndo_parts h
  cases undoMetadata_of_height hheight hmetadata
  unfold addCoin at hadd
  rw [hspendable, if_neg Bool.false_ne_true] at hadd
  split_ifs at hadd
  rw [(peek_put hadd).2, peek_fetch]

/-- `restoreInputs` puts back the coins of a map `m`. -/
theorem peek_restoreInputs (hconfirmed : Confirmed m) (hspendable : Spendable m)
    {l : List (TxIn × Coin)} :
    ∀ {view view' : CoinsViewCache} {fClean : Bool}, (∀ p ∈ l, m p.1.prevout = some p.2) →
      restoreInputs l view = .ok (fClean, view') →
      ∀ o, view'.peek o = if o ∈ l.map (fun p => p.1.prevout) then m o else view.peek o := by
  induction l with
  | nil =>
    intro view view' fClean _ h o
    cases h
    rfl
  | cons p l ih =>
    intro view view' fClean hm h o
    obtain ⟨txin, undo⟩ := p
    rw [forall_mem_cons] at hm
    unfold restoreInputs at h
    obtain ⟨⟨clean, view₁⟩, happly, h⟩ := Outcome.bind_eq_ok_iff.mp h
    obtain ⟨⟨restClean, view₂⟩, hrest, h⟩ := Outcome.bind_eq_ok_iff.mp h
    cases h
    have hfirst := peek_applyTxInUndo (hconfirmed _ _ hm.1) (hspendable _ _ hm.1) happly
    rw [ih hm.2 hrest o, hfirst, map_cons]
    by_cases hmem : o ∈ l.map (fun p => p.1.prevout)
    · rw [if_pos hmem, if_pos (mem_cons_of_mem _ hmem)]
    · rw [if_neg hmem]
      by_cases heq : o = txin.prevout
      · rw [heq, Function.update_self, if_pos mem_cons_self]
        exact hm.1.symm
      · rw [Function.update_of_ne heq, if_neg]
        exact fun h => (mem_cons.mp h).elim heq hmem

/-- The outpoints that are restored are those that are spent. -/
theorem mem_zip_prevouts {α : Type} {vin : List TxIn} {l : List α} (hlength : vin.length = l.length)
    (o : OutPoint) :
    o ∈ (vin.zip l).reverse.map (fun p => p.1.prevout) ↔ o ∈ vin.map TxIn.prevout := by
  have hfst : (vin.zip l).map Prod.fst = vin := map_fst_zip (Nat.le_of_eq hlength)
  conv_rhs => rw [← hfst, map_map]
  rw [map_reverse, mem_reverse]
  rfl

/-- Disconnecting a transaction whose outputs were new leads back to the coins before
it. -/
theorem disconnectTransaction_exact {undo : Option TxUndo} (hview : view.Coherent)
    (hpeek : view.peek = applyTx hash256 index.nHeight m tx)
    (hfresh : Fresh hash256 index.nHeight m tx) (hundo : UndoOf m tx undo)
    (hconfirmed : Confirmed m) (hspendable : Spendable m)
    (h : disconnectTransaction hash256 index tx undo view = .ok (fClean, view')) :
    view'.peek = m := by
  unfold disconnectTransaction at h
  dsimp only at h
  have hremoved := peek_removeOutputs (tx.isCoinBase && isBip30Unspendable index) hview hfresh
    hpeek
  generalize removeOutputs (tx.isCoinBase && isBip30Unspendable index)
    (outputCoins hash256 tx index.nHeight) view = removed at h hremoved
  cases hundo with
  | coinbase hcoinbase =>
    cases h
    rw [hremoved, spentMap, if_pos hcoinbase]
  | spends hcoinbase undo hspends =>
    dsimp only at h
    split_ifs at h
    obtain ⟨⟨restored, view₂⟩, hrestore, h⟩ := Outcome.bind_eq_ok_iff.mp h
    cases h
    obtain ⟨hlength, hzip⟩ := forall₂_iff_zip.mp hspends
    have hrestored := peek_restoreInputs hconfirmed hspendable
      (fun p hmem => hzip (mem_reverse.mp hmem)) hrestore
    have hprevouts := mem_zip_prevouts hlength
    funext o
    rw [hrestored o, hremoved, spentMap, hcoinbase, if_neg Bool.false_ne_true]
    by_cases hmem : o ∈ tx.vin.map TxIn.prevout
    · rw [if_pos ((hprevouts o).mpr hmem)]
    · rw [if_neg fun h => hmem ((hprevouts o).mp h), CoinMap.eraseAll_of_notMem hmem]

/-- The loop of `DisconnectBlock` leads back over transactions whose outputs were
new. -/
theorem disconnectLoop_exact (happlies : Applies hash256 index.nHeight m txs undos m')
    (hfresh : FreshAll hash256 index.nHeight m txs) (htxs : ∀ tx ∈ txs, tx.isCoinBase = false)
    (hconfirmed : Confirmed m) (hspendable : Spendable m)
    (hheight : BitVec.ofNat 31 index.nHeight ≠ 0) (hview : view.Coherent) (hpeek : view.peek = m')
    (h : disconnectLoop hash256 index (txs.zip (undos.map some)).reverse view =
      .ok (fClean, view')) :
    view'.peek = m := by
  induction happlies generalizing view view' fClean with
  | nil m =>
    cases h
    exact hpeek
  | @cons m m' tx rest undo undos hspends happlies ih =>
    have hothers : ∀ tx' ∈ rest, tx'.isCoinBase = false := (forall_mem_cons.mp htxs).2
    have hconfirmed' : Confirmed (applyTx hash256 index.nHeight m tx) :=
      hconfirmed.applyTx hheight tx
    rw [map_cons, zip_cons_cons, reverse_cons] at h
    obtain ⟨_, view₁, _, hrest, hturn⟩ := disconnectLoop_snoc h
    have hpeek₁ := ih hfresh.2 hothers hconfirmed' (hspendable.applyTx index.nHeight tx) hview
      hpeek hrest
    have hview₁ := (disconnectLoop_sub happlies hothers hconfirmed' hheight hview
      (hpeek ▸ CoinMap.Sub.refl _) hrest).1
    exact disconnectTransaction_exact hview₁ hpeek₁ hfresh.1
      (.spends (htxs tx mem_cons_self) undo hspends) hconfirmed hspendable hturn

/-- `DisconnectBlock` with the undo data of a block whose outputs were new leads back to
the coins before the block. -/
theorem disconnectBlock_exact {undo : BlockUndo}
    (happlies : BlockApplies hash256 index.nHeight block m undo m')
    (hfresh : FreshAll hash256 index.nHeight m block.vtx) (hconfirmed : Confirmed m)
    (hspendable : Spendable m) (hheight : BitVec.ofNat 31 index.nHeight ≠ 0)
    (h : disconnectBlock hash256 index block (some undo) m' = .ok (fClean, view)) :
    view.peek = m := by
  obtain ⟨coinbase, rest, hshape, happlies⟩ := happlies
  have hothers : ∀ tx ∈ rest, tx.isCoinBase = false := fun tx hmem => (hshape.others tx hmem).1
  have hconfirmed' : Confirmed (applyTx hash256 index.nHeight m coinbase) :=
    hconfirmed.applyTx hheight coinbase
  rw [hshape.vtx] at hfresh
  unfold disconnectBlock disconnectOn at h
  dsimp only at h
  split_ifs at h
  rw [hshape.vtx, zip_cons_cons, reverse_cons] at h
  obtain ⟨_, view₁, _, hrest, hturn⟩ := disconnectLoop_snoc h
  have hpeek₁ := disconnectLoop_exact happlies hfresh.2 hothers hconfirmed'
    (hspendable.applyTx index.nHeight coinbase) hheight (coherent_above m') rfl hrest
  have hview₁ := (disconnectLoop_sub happlies hothers hconfirmed' hheight (coherent_above m')
    (CoinMap.Sub.refl _) hrest).1
  exact disconnectTransaction_exact hview₁ hpeek₁ hfresh.1 (.coinbase hshape.isCoinBase)
    hconfirmed hspendable hturn

/-! ## Connecting -/

variable {rules : ConnectRules} {env : ConnectEnv} {e : EntryPtr} {t : BlockTree}

/-- A turn that leaves the state valid has updated the coins of a view that was only
read. -/
theorem connectTransaction_updates
    (h : connectTransaction hash256 rules env e index i tx s = some s')
    (hvalid : s'.state.isValid = true) :
    ∃ view undo, Reads s.view view ∧
      (tx.isCoinBase = false → ∀ txin ∈ tx.vin, ∃ coin, view.peek txin.prevout = some coin) ∧
      updateCoins hash256 tx index.nHeight view = some (undo, s'.view) := by
  obtain ⟨s₁, undo, hinputs, hvalid₁, hupdate, -⟩ := connectTransaction_parts h hvalid
  obtain ⟨hread, -, hcoins⟩ := checkInputs_spec hinputs
  exact ⟨s₁.view, undo, hread, hread.peek ▸ hcoins hvalid₁, hupdate⟩

/-- A turn for a transaction that overwrites no coin. -/
theorem connectTransaction_fresh (hnodup : (tx.vin.map TxIn.prevout).Nodup)
    (hview : s.view.Coherent) (hbase : tx.isCoinBase = false → NoOverwrite hash256 s.view.base tx)
    (hpeek : tx.isCoinBase = true → NoOverwrite hash256 s.view.peek tx)
    (h : connectTransaction hash256 rules env e index i tx s = some s')
    (hvalid : s'.state.isValid = true) : Fresh hash256 index.nHeight s.view.peek tx := by
  obtain ⟨view, undo, hread, hcoins, hupdate⟩ := connectTransaction_updates h hvalid
  rw [← hread.peek]
  rw [← hread.base] at hbase
  rw [← hread.peek] at hpeek
  exact updateCoins_fresh hnodup hcoins (hread.coherent hview) hbase hpeek hupdate

/-- The turns behind the coinbase change the coins as the transactions say. -/
theorem connectLoop_exact (hi : 0 < i)
    (htxs : ∀ tx ∈ txs, tx.isCoinBase = false ∧ (tx.vin.map TxIn.prevout).Nodup)
    (h : connectLoop hash256 rules env e index i txs s = some s') (hvalid : s'.state.isValid = true)
    (hview : s.view.Coherent) (hnew : ∀ tx ∈ txs, NoOverwrite hash256 s.view.base tx) :
    ∃ undos, s'.vtxundo = s.vtxundo ++ undos ∧
      Applies hash256 index.nHeight s.view.peek txs undos s'.view.peek ∧
      FreshAll hash256 index.nHeight s.view.peek txs := by
  induction txs generalizing i s s' with
  | nil =>
    cases h
    exact ⟨[], by rw [append_nil], .nil _, trivial⟩
  | cons tx rest ih =>
    obtain ⟨-, s₁, hturn, hvalid₁, hrest⟩ := connectLoop_cons h hvalid
    obtain ⟨hcoinbase, hnodup⟩ := htxs tx mem_cons_self
    obtain ⟨undo, hundo, hspends, hbase, hcoherent⟩ :=
      connectTransaction_spec hnodup hturn hvalid₁
    have hfresh : Fresh hash256 index.nHeight s.view.peek tx := by
      refine connectTransaction_fresh hnodup hview (fun _ => hnew tx mem_cons_self) ?_ hturn
        hvalid₁
      rw [hcoinbase]
      exact fun h => by cases h
    obtain ⟨hview₁, hpeek₁⟩ := hcoherent hview fun _ => hnew tx mem_cons_self
    obtain ⟨undos, hundos, happlies, hfreshAll⟩ := ih (by omega)
      (forall_mem_cons.mp htxs).2 hrest hvalid hview₁
      (hbase ▸ (forall_mem_cons.mp hnew).2)
    rw [hpeek₁] at happlies hfreshAll
    rw [if_pos hi] at hundo
    refine ⟨undo :: undos, ?_, .cons (hspends hcoinbase) happlies, hfresh, hfreshAll⟩
    rw [hundos, hundo, append_assoc, singleton_append]

/-- A block that overwrites no coin changes the coins as it says, and its outputs are
new. -/
theorem connectTransactions_exact {r : ConnectResult} {coinbase : Transaction}
    {rest : List Transaction} (hshape : Shaped block coinbase rest)
    (hnew : enforceBip30 rules t index = some false →
      ∀ tx ∈ block.vtx, NoOverwrite hash256 coins tx)
    (h : connectTransactions hash256 rules t env e index block coins = some r)
    (hconnected : r.connected = true) :
    ∃ undo, r.undo = some undo ∧ BlockApplies hash256 index.nHeight block coins undo r.view.peek ∧
      FreshAll hash256 index.nHeight coins block.vtx := by
  obtain ⟨s₀, s₁, hstart, hloop, hvalid, hview, hundo⟩ := connectTransactions_cases h hconnected
  obtain ⟨_, -, hread, -, -⟩ := connectStart_spec hstart
  rw [hshape.vtx] at hloop
  obtain ⟨hs₀, sₐ, hturn, hvalidₐ, hloop⟩ := connectLoop_cons hloop hvalid
  have hoverwrite := noOverwrite_of_start hstart hs₀ (List.Subset.refl _) hnew
  have hpeek₀ : s₀.view.peek = coins := hread.peek
  have hbase₀ : s₀.view.base = coins := hread.base
  have hview₀ := hread.coherent (coherent_above coins)
  have hcoinbase : coinbase ∈ block.vtx := hshape.vtx ▸ mem_cons_self
  have hfresh := connectTransaction_fresh hshape.nodup hview₀
    (fun _ => hbase₀ ▸ hoverwrite coinbase hcoinbase)
    (fun _ => hpeek₀ ▸ hoverwrite coinbase hcoinbase) hturn hvalidₐ
  obtain ⟨hundoₐ, hbaseₐ, hviewₐ, hpeekₐ⟩ :=
    connectTransaction_coinbase hshape hstart hturn hvalidₐ
  have hrest : ∀ tx ∈ rest, NoOverwrite hash256 sₐ.view.base tx := by
    rw [hbaseₐ]
    exact fun tx hmem => hoverwrite tx (hshape.vtx ▸ mem_cons_of_mem _ hmem)
  obtain ⟨undos, hundos, happlies, hfreshAll⟩ :=
    connectLoop_exact Nat.one_pos hshape.others hloop hvalid hviewₐ hrest
  rw [hundoₐ, nil_append] at hundos
  rw [hpeekₐ] at happlies hfreshAll
  rw [hpeek₀] at hfresh
  refine ⟨⟨undos⟩, hundos ▸ hundo, ⟨coinbase, rest, hshape, hview ▸ happlies⟩, ?_⟩
  rw [hshape.vtx]
  exact ⟨hfresh, hfreshAll⟩

/-! ## Chainstates -/

variable {params : ChainParams hash256} {blocks : EntryPtr → Block}

theorem CoinsAt.spendable {p : Option EntryPtr} (h : CoinsAt hash256 t blocks p m) :
    Spendable m := by
  induction h with
  | start => exact fun _ _ ho => by cases ho
  | genesis => exact fun _ _ ho => by cases ho
  | child _ _ _ happlies ih =>
    obtain ⟨coinbase, rest, -, happlies⟩ := happlies
    exact Spendable.applies happlies (ih.applyTx _ coinbase)

variable (hash256 rules t blocks) in
/-- A block whose coins `ConnectBlock` does not check overwrites none. -/
def Connection.CreatesNew (c : Connection) : Prop :=
  ∀ index, t.index? c.entry = some index → enforceBip30 rules t index = some false →
    ∀ tx ∈ (blocks c.entry).vtx, NoOverwrite hash256 c.coins tx

theorem Connection.CreatesNew.sparesCoins {c : Connection}
    (h : c.CreatesNew hash256 rules t blocks) : c.SparesCoins hash256 rules t blocks :=
  fun index hindex henforce tx hmem => h index hindex henforce tx (mem_of_mem_tail hmem)

variable (hash256 t blocks) in
/-- The chainstate has the coins that the ancestors of its best block determine, and
the outputs of every block with undo data were new. -/
structure Exact (w : CoinsWorld) : Prop where
  coins : CoinsAt hash256 t blocks w.bestBlock w.coinsTip.peek
  fresh : ∀ e undo index prev m, w.undo e = some undo → t.index? e = some index →
    index.pprev = some prev → CoinsAt hash256 t blocks (some prev) m →
      FreshAll hash256 index.nHeight m (blocks e).vtx

/-- A step that leads to the coins of its best block, and writes no undo data. -/
theorem Exact.frame (h : Exact hash256 t blocks w) (hundo : w'.undo = w.undo)
    (hcoins : CoinsAt hash256 t blocks w'.bestBlock w'.coinsTip.peek) :
    Exact hash256 t blocks w' := by
  refine ⟨hcoins, ?_⟩
  rw [hundo]
  exact h.fresh

theorem Exact.step (ht : Rooted params t) (hfit : t.HeightsFit)
    (hkept : Kept hash256 params rules t blocks w) (h : Exact hash256 t blocks w)
    (hnew : ∀ c ∈ w'.connections, c.CreatesNew hash256 rules t blocks)
    (hstep : StepCases hash256 params rules t blocks w w') : Exact hash256 t blocks w' := by
  cases hstep with
  | reads hbest hundo hconnections hcoins =>
    obtain ⟨-, hpeek⟩ := hcoins hkept.coherent
    refine h.frame hundo ?_
    rw [hbest, hpeek]
    exact h.coins
  | wiped hbest hundo hconnections hcoins =>
    refine h.frame hundo ?_
    rw [hbest, hcoins, peek_above]
    exact .start
  | disconnected e prev index undo view hindex hprev hbest hstored hdisconnect hcoins hbest' hundo
      hconnections =>
    have hat := h.coins
    rw [hbest] at hat
    obtain ⟨m, undo', hm, happlies⟩ := hat.cases_child hindex hprev
    have hsame := hkept.undo_eq hstored hindex hprev hm happlies
    subst hsame
    have hconfirmed := hm.confirmed ht hfit
    have hheight := ofNat_height_ne_zero ht hfit hindex hprev
    have hpeek := disconnectBlock_exact happlies
      (h.fresh e undo index prev m hstored hindex hprev hm) hconfirmed hm.spendable hheight
      hdisconnect
    obtain ⟨hview, hbase, -⟩ :=
      disconnectBlock_sub happlies hconfirmed hheight (CoinMap.Sub.refl _) hdisconnect
    refine h.frame hundo ?_
    rw [hbest', (hkept.coherent.batchWrite hview hbase hcoins).2, hpeek]
    exact hm
  | connected e env index r hindex hconnect hconnected hcoins hbest hundo hconnections =>
    obtain ⟨hprev, -, ⟨hgenesis, hnone, hview⟩ |
        ⟨hgenesis, coinbase, rest, hshape, htransactions⟩⟩ := connectBlock_cases hconnect hconnected
    · rw [hnone] at hundo
      rw [hview] at hcoins
      have hroot := (ht.genesis e index hindex hgenesis).1
      have hat := h.coins
      rw [← hprev, hroot] at hat
      have hpeek : w'.coinsTip.peek = fun _ => none :=
        (hkept.coherent.batchWrite (coherent_above _) rfl hcoins).2.trans (hat.unique .start)
      refine h.frame hundo ?_
      rw [hbest, hpeek]
      exact .genesis hindex hroot
    · have hcreates := hnew ⟨e, env, w.coinsTip.peek⟩ (by rw [hconnections]; simp) index hindex
      obtain ⟨undo, hr, happlies, hfresh⟩ :=
        connectTransactions_exact hshape hcreates htransactions hconnected
      obtain ⟨_, -, -, hrest⟩ := connectTransactions_spec hshape htransactions hconnected
      obtain ⟨_, -, hbase, hview, -⟩ := hrest
        (fun henforce tx hmem => hcreates henforce tx (hshape.vtx ▸ mem_cons_of_mem _ hmem))
        _ (CoinMap.Sub.refl _)
      obtain ⟨prev, hpprev⟩ := Option.ne_none_iff_exists'.mp fun hroot =>
        hgenesis (ht.hash_of_root hindex hroot)
      have hat := h.coins
      rw [← hprev, hpprev] at hat
      rw [hr] at hundo
      dsimp only at hundo
      obtain ⟨-, hfrom, -⟩ := writeBlockUndo_spec w.undo e undo
      rw [← hundo] at hfrom
      refine ⟨?_, ?_⟩
      · rw [hbest, (hkept.coherent.batchWrite hview hbase hcoins).2]
        exact .child hindex hpprev hat happlies
      · intro e' undo' index' prev' m' hundo' hindex' hpprev' hm'
        rcases hfrom e' undo' hundo' with hundo' | ⟨rfl, -⟩
        · exact h.fresh e' undo' index' prev' m' hundo' hindex' hpprev' hm'
        · cases hindex.symm.trans hindex'
          cases hpprev.symm.trans hpprev'
          rw [hm'.unique hat]
          exact hfresh

variable (hash256 rules t blocks) in
/-- Heights are `int`s, and no block that was connected overwrote an unspent coin where
`ConnectBlock` does not look for that. -/
structure Unrepeated (w : CoinsWorld) : Prop where
  fit : t.HeightsFit
  new : ∀ c ∈ w.connections, c.CreatesNew hash256 rules t blocks

theorem Unrepeated.undisturbed (h : Unrepeated hash256 rules t blocks w) :
    Undisturbed hash256 rules t blocks w :=
  ⟨h.fit, fun c hc => (h.new c hc).sparesCoins⟩

theorem exact_of_run (ht : Rooted params t) {ops : List CoinsOp}
    (hrun : Runs.run (CoinsWorld.step hash256 params.toParams rules t blocks) {} ops = some w)
    (hunrepeated : Unrepeated hash256 rules t blocks w) : Exact hash256 t blocks w := by
  refine Runs.run_invariant_of_run (I := fun _ w =>
    Unrepeated hash256 rules t blocks w → Exact hash256 t blocks w) ?_ ?_ hrun hunrepeated
  · exact fun _ => ⟨.start, fun _ _ _ _ _ hundo => by cases hundo⟩
  · intro ops op w w' hrun _ h hstep hunrepeated
    have hcases := step_cases hstep
    have hbefore : Unrepeated hash256 rules t blocks w :=
      ⟨hunrepeated.fit, fun c hc => hunrepeated.new c (hcases.connections_subset hc)⟩
    exact (h hbefore).step ht hunrepeated.fit (kept_of_run ht hrun hbefore.undisturbed)
      hunrepeated.new hcases

/-- Two chainstates with the same best block have the same coins, whatever operations
led to them. -/
theorem coins_eq_of_bestBlock (ht : Rooted params t) {ops₁ ops₂ : List CoinsOp} {w₁ w₂ : CoinsWorld}
    (hrun₁ : Runs.run (CoinsWorld.step hash256 params.toParams rules t blocks) {} ops₁ = some w₁)
    (hrun₂ : Runs.run (CoinsWorld.step hash256 params.toParams rules t blocks) {} ops₂ = some w₂)
    (hunrepeated₁ : Unrepeated hash256 rules t blocks w₁)
    (hunrepeated₂ : Unrepeated hash256 rules t blocks w₂)
    (hbest : w₁.bestBlock = w₂.bestBlock) : w₁.coinsTip.peek = w₂.coinsTip.peek := by
  have hcoins₁ := (exact_of_run ht hrun₁ hunrepeated₁).coins
  have hcoins₂ := (exact_of_run ht hrun₂ hunrepeated₂).coins
  rw [hbest] at hcoins₁
  exact hcoins₁.unique hcoins₂

namespace Sample

open Chainman.Sample (depthHash chainParams)

theorem unrepeated_tree (w : CoinsWorld) : Unrepeated depthHash easyRules tree blockAt w :=
  ⟨heightsFit_tree, fun _ _ _ hindex henforce => absurd henforce (enforceBip30_tree hindex)⟩

/-- All blocks are connected in one go. -/
def directOps : List CoinsOp := (List.range 102).map fun e => .connectTip e connectEnv

theorem bestBlock_ops :
    (Runs.run (CoinsWorld.step depthHash chainParams.toParams easyRules tree blockAt) {} ops).map
      CoinsWorld.bestBlock = some (some 101) := by
  decide +kernel

theorem bestBlock_directOps :
    (Runs.run (CoinsWorld.step depthHash chainParams.toParams easyRules tree blockAt) {}
      directOps).map CoinsWorld.bestBlock = some (some 101) := by
  decide +kernel

end Sample

open Sample
open Chainman.Sample (depthHash chainParams)

/-- A chainstate where the last block was disconnected and connected again, and one
where it was connected once. -/
theorem coins_eq_of_bestBlock_reconnected : ∃ w₁ w₂,
    Runs.run (CoinsWorld.step depthHash chainParams.toParams easyRules tree blockAt) {} ops =
        some w₁ ∧
      Runs.run (CoinsWorld.step depthHash chainParams.toParams easyRules tree blockAt) {}
        directOps = some w₂ ∧
      w₁.coinsTip.peek = w₂.coinsTip.peek := by
  obtain ⟨w₁, hrun₁, hbest₁⟩ := Option.map_eq_some_iff.mp bestBlock_ops
  obtain ⟨w₂, hrun₂, hbest₂⟩ := Option.map_eq_some_iff.mp bestBlock_directOps
  exact ⟨w₁, w₂, hrun₁, hrun₂, coins_eq_of_bestBlock rooted_tree hrun₁ hrun₂
    (unrepeated_tree w₁) (unrepeated_tree w₂) (hbest₁.trans hbest₂.symm)⟩

end BitcoinKernel.Validation.Coins
