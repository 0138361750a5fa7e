import BitcoinKernel.Lib.Rebuild
import BitcoinKernel.Validation.CoinsDB

/-!
# Replaying blocks on coins that were written in part

`RollforwardBlock` and `DisconnectBlock` work on a view whose coins may be those before a
block, those behind it, or any mixture.  Each coin that the block creates or spends is set
to what it has to be, whatever it was, so both lead from the coins of one block to those of
the other in the sense of `Rebuild.Leads`.

* One transaction: `rollforwardTx_leads`, `disconnectTransaction_leads`.
* One block: `rollforwardBlock_leads`, `disconnectOn_leads`.
* A branch: `rollback_leads`, `rollforward_leads`.

All of them return, so no assertion of `AddCoin` fails.  They need that the outputs of the
blocks have values (`Pays`), and that the undo data of the old branch is there (`Walked`).
-/

namespace BitcoinKernel.Validation.Coins

open Serialize Consensus State WriteBack WriteBack.Cache CoinsViewCache Rebuild List Option
open Chainman (ChainParams Rooted)

variable {hash256 : List UInt8 → Uint256}

/-! ## Views -/

/-- The flags of a view are right, and it is over some coins. -/
structure Over (base : CoinMap) (view : CoinsViewCache) : Prop where
  coherent : view.Coherent
  base_eq : view.base = base

variable {base : CoinMap} {view : CoinsViewCache}

theorem over_above (base : CoinMap) : Over base (Cache.above base) := ⟨coherent_above base, rfl⟩

theorem Over.fetch (h : Over base view) (o : OutPoint) : Over base (view.fetch o) :=
  ⟨h.coherent.fetch o, (base_fetch view o).trans h.base_eq⟩

/-- `SpendCoin` leaves no coin. -/
theorem Over.spendInput (h : Over base view) (o : OutPoint) : Over base (spendInput view o) ∧
      (spendInput view o).peek = Function.update view.peek o none := by
  unfold Coins.spendInput
  cases htake : view.take o with
  | none =>
    refine ⟨h, ?_⟩
    have hnone := peek_of_take_eq_none htake
    funext o'
    by_cases heq : o' = o
    · rw [heq, Function.update_self]
      exact hnone
    · rw [Function.update_of_ne heq]
  | some taken =>
    obtain ⟨coin, view'⟩ := taken
    exact ⟨⟨h.coherent.take htake, (base_take htake).trans h.base_eq⟩, h.coherent.peek_take htake⟩

theorem Over.spendInputs (h : Over base view) (os : List OutPoint) :
    Over base (os.foldl Coins.spendInput view) ∧
      (os.foldl Coins.spendInput view).peek = CoinMap.eraseAll view.peek os := by
  induction os generalizing view with
  | nil => exact ⟨h, rfl⟩
  | cons o os ih =>
    obtain ⟨hspent, hpeek⟩ := h.spendInput o
    obtain ⟨hall, hpeeks⟩ := ih hspent
    rw [hpeek] at hpeeks
    exact ⟨hall, hpeeks⟩

/-- A value can be put over one that is there, and where there is none as a new one. -/
theorem put_total (view : CoinsViewCache) (o : OutPoint) (coin : Coin) :
    ∃ view', (view.fetch o).put o coin (haveCoin (view.fetch o) o) = some view' := by
  unfold Cache.put
  cases hentry : (view.fetch o).entryAt o with
  | none => exact ⟨_, rfl⟩
  | some entry =>
    have hvalue : haveCoin (view.fetch o) o = entry.value.isSome := by
      rw [haveCoin, peek_of_entryAt hentry]
    refine ⟨_, if_neg ?_⟩
    rw [hvalue]
    simp

variable {coin : Coin} {tx : Transaction} {nHeight : Nat} {m m' : CoinMap} {txs : List Transaction}
  {undos : List TxUndo} {block : Block} {e prev : EntryPtr}

/-- `AddCoin`, told whether there is a coin. -/
theorem Over.addCoin (h : Over base view) (o : OutPoint) (hvalue : coin.isSpent = false) :
    ∃ view', addCoin (view.fetch o) o coin (haveCoin (view.fetch o) o) = some view' ∧
      Over base view' ∧ view'.peek = if coin.out.scriptPubKey.isUnspendable then view.peek
        else Function.update view.peek o (some coin) := by
  have hfetched := h.fetch o
  unfold CoinsViewCache.addCoin
  rw [hvalue, if_neg Bool.false_ne_true]
  split_ifs with hunspendable
  · exact ⟨_, rfl, hfetched, peek_fetch view o⟩
  · obtain ⟨view', hput⟩ := put_total view o coin
    obtain ⟨hbase, hpeek⟩ := peek_put hput
    refine ⟨view', hput, ⟨?_, hbase.trans hfetched.base_eq⟩, ?_⟩
    · refine hfetched.coherent.put hput fun _ hentry => ?_
      rw [base_fetch]
      exact base_of_entryAt_fetch hentry
    · rw [hpeek, peek_fetch]

/-! ## Rolling forward -/

/-- The outputs of a transaction have values. -/
def PaysTx (tx : Transaction) : Prop := ∀ out ∈ tx.vout, out.nValue ≠ -1

/-- The outputs of a block have values. -/
def Pays (block : Block) : Prop := ∀ tx ∈ block.vtx, PaysTx tx

theorem PaysTx.isSpent (h : PaysTx tx) {o : OutPoint}
    (hmem : (o, coin) ∈ outputCoins hash256 tx nHeight) : coin.isSpent = false := by
  unfold outputCoins at hmem
  obtain ⟨⟨out, i⟩, hout, heq⟩ := mem_map.mp hmem
  cases heq
  have hvout : out ∈ tx.vout := (mem_zipIdx_iff_getElem?.mp hout) |> mem_of_getElem?
  exact beq_false_of_ne (h out hvout)

theorem addCoins_checked {l : List (OutPoint × Coin)} (hl : ∀ p ∈ l, p.2.isSpent = false)
    (h : Over base view) :
    ∃ view', l.foldlM (fun view (outpoint, coin) => CoinsViewCache.addCoin (view.fetch outpoint)
        outpoint coin (haveCoin (view.fetch outpoint) outpoint)) view = some view' ∧
      Over base view' ∧ view'.peek = CoinMap.insertAll view.peek l := by
  induction l generalizing view with
  | nil => exact ⟨_, rfl, h, rfl⟩
  | cons p l ih =>
    obtain ⟨o, coin⟩ := p
    obtain ⟨view₁, hadd, hover, hpeek⟩ := h.addCoin o (hl (o, coin) mem_cons_self)
    obtain ⟨view', hrest, hover', hpeek'⟩ := ih (forall_mem_cons.mp hl).2 hover
    refine ⟨view', ?_, hover', ?_⟩
    · rw [foldlM_cons]
      dsimp only
      rw [hadd]
      exact hrest
    · rw [hpeek', hpeek, CoinMap.insertAll]
      split_ifs <;> rfl

/-- `RollforwardBlock` does to any coins what the transaction does. -/
theorem rollforwardTx_spec (hpays : PaysTx tx) (nHeight : Nat) (h : Over base view) :
    ∃ view', rollforwardTx hash256 nHeight view tx = some view' ∧
      Over base view' ∧ view'.peek = applyTx hash256 nHeight view.peek tx := by
  have hspent : Over base (if tx.isCoinBase then view
        else (tx.vin.map TxIn.prevout).foldl Coins.spendInput view) ∧
      (if tx.isCoinBase then view
        else (tx.vin.map TxIn.prevout).foldl Coins.spendInput view).peek =
        if tx.isCoinBase then view.peek
        else CoinMap.eraseAll view.peek (tx.vin.map TxIn.prevout) := by
    split_ifs
    · exact ⟨h, rfl⟩
    · exact h.spendInputs _
  obtain ⟨hover, hpeek⟩ := hspent
  obtain ⟨view', hadd, hover', hpeek'⟩ := addCoins_checked
    (l := outputCoins hash256 tx nHeight) (fun p hp => hpays.isSpent hp) hover
  refine ⟨view', hadd, hover', ?_⟩
  rw [hpeek', hpeek]
  rfl

theorem eraseAll_leads (m x : CoinMap) (os : List OutPoint) :
    Leads m (m.eraseAll os) x (x.eraseAll os) := by
  induction os generalizing m x with
  | nil => exact .refl m x
  | cons o os ih => exact (leads_update m x o none).trans (ih _ _)

theorem insertAll_leads (m x : CoinMap) (l : List (OutPoint × Coin)) :
    Leads m (m.insertAll l) x (x.insertAll l) := by
  induction l generalizing m x with
  | nil => exact .refl m x
  | cons p l ih =>
    obtain ⟨o, coin⟩ := p
    unfold CoinMap.insertAll
    split_ifs
    · exact ih m x
    · exact (leads_update m x o (some coin)).trans (ih _ _)

/-- A transaction sets the coins that it touches, whatever they were. -/
theorem applyTx_leads (nHeight : Nat) (m x : CoinMap) (tx : Transaction) :
    Leads m (applyTx hash256 nHeight m tx) x (applyTx hash256 nHeight x tx) := by
  unfold applyTx
  split_ifs
  · exact insertAll_leads m x _
  · exact (eraseAll_leads m x _).trans (insertAll_leads _ _ _)

theorem rollforwardTxs_leads (happlies : Applies hash256 nHeight m txs undos m')
    (hpays : ∀ tx ∈ txs, PaysTx tx) (h : Over base view) :
    ∃ view', txs.foldlM (rollforwardTx hash256 nHeight) view = some view' ∧
      Over base view' ∧ Leads m m' view.peek view'.peek := by
  induction happlies generalizing view with
  | nil m => exact ⟨_, rfl, h, .refl _ _⟩
  | @cons m m' tx rest undo undos hspends _ ih =>
    obtain ⟨view₁, htx, hover, hpeek⟩ := rollforwardTx_spec (hpays tx mem_cons_self) nHeight h
    obtain ⟨view', hrest, hover', hleads⟩ := ih (forall_mem_cons.mp hpays).2 hover
    rw [hpeek] at hleads
    refine ⟨view', ?_, hover', (applyTx_leads nHeight m view.peek tx).trans hleads⟩
    rw [foldlM_cons, htx]
    exact hrest

/-- `RollforwardBlock` leads from the coins before the block to those behind it. -/
theorem rollforwardBlock_leads {index : BlockIndex} {undo : BlockUndo}
    (happlies : BlockApplies hash256 index.nHeight block m undo m') (hpays : Pays block)
    (h : Over base view) :
    ∃ view', rollforwardBlock hash256 index block view = some view' ∧ Over base view' ∧
      Leads m m' view.peek view'.peek := by
  obtain ⟨coinbase, rest, hshape, happlies⟩ := happlies
  unfold Pays at hpays
  rw [hshape.vtx] at hpays
  obtain ⟨view₁, htx, hover, hpeek⟩ :=
    rollforwardTx_spec (hpays coinbase mem_cons_self) index.nHeight h
  obtain ⟨view', hrest, hover', hleads⟩ := rollforwardTxs_leads happlies
    (forall_mem_cons.mp hpays).2 hover
  rw [hpeek] at hleads
  refine ⟨view', ?_, hover', (applyTx_leads index.nHeight m view.peek coinbase).trans hleads⟩
  rw [rollforwardBlock, hshape.vtx, foldlM_cons, htx]
  exact hrest

/-! ## Rolling back -/

/-- What undo data can put back: coins that can be spent, with a height and a value. -/
structure Restorable (m : CoinMap) : Prop where
  confirmed : Confirmed m
  spendable : Spendable m
  unspent : ∀ o coin, m o = some coin → coin.isSpent = false

theorem Restorable.applyTx (h : Restorable m) (hheight : BitVec.ofNat 31 nHeight ≠ 0)
    (hpays : PaysTx tx) : Restorable (applyTx hash256 nHeight m tx) := by
  refine ⟨h.confirmed.applyTx hheight tx, h.spendable.applyTx nHeight tx, fun o coin ho => ?_⟩
  rcases applyTx_cases ho with ho | ⟨hmem, -⟩
  · exact h.unspent o coin ho
  · exact hpays.isSpent hmem

theorem restorable_applies (happlies : Applies hash256 nHeight m txs undos m')
    (hheight : BitVec.ofNat 31 nHeight ≠ 0) (hpays : ∀ tx ∈ txs, PaysTx tx) (h : Restorable m) :
    Restorable m' := by
  induction happlies with
  | nil m => exact h
  | cons _ _ ih =>
    exact ih (forall_mem_cons.mp hpays).2
      (h.applyTx hheight (hpays _ mem_cons_self))

theorem BlockApplies.restorable {undo : BlockUndo}
    (happlies : BlockApplies hash256 nHeight block m undo m')
    (hheight : BitVec.ofNat 31 nHeight ≠ 0) (hpays : Pays block) (h : Restorable m) :
    Restorable m' := by
  obtain ⟨coinbase, rest, hshape, happlies⟩ := happlies
  unfold Pays at hpays
  rw [hshape.vtx] at hpays
  exact restorable_applies happlies hheight
    (forall_mem_cons.mp hpays).2
    (h.applyTx hheight (hpays coinbase mem_cons_self))

/-- `ApplyTxInUndo` puts a coin back, whether there is one or not. -/
theorem applyTxInUndo_total {undo : Coin} (hheight : undo.nHeight ≠ 0)
    (hspendable : undo.out.scriptPubKey.isUnspendable = false) (hvalue : undo.isSpent = false)
    (h : Over base view) (o : OutPoint) :
    ∃ fClean view', applyTxInUndo undo view o = .ok (fClean, view') ∧ Over base view' ∧
      view'.peek = Function.update view.peek o (some undo) := by
  obtain ⟨view', hadd, hover, hpeek⟩ := h.addCoin o hvalue
  rw [hspendable, if_neg Bool.false_ne_true] at hpeek
  refine ⟨!haveCoin (view.fetch o) o, view', ?_, hover, hpeek⟩
  unfold applyTxInUndo undoMetadata
  rw [if_neg hheight, Outcome.ok_bind, Bool.not_not, hadd]
  rfl

theorem restoreInputs_total (hm : Restorable m) {l : List (TxIn × Coin)}
    (hl : ∀ p ∈ l, m p.1.prevout = some p.2) (h : Over base view) :
    ∃ fClean view', restoreInputs l view = .ok (fClean, view') ∧ Over base view' := by
  induction l generalizing view with
  | nil => exact ⟨true, _, rfl, h⟩
  | cons p l ih =>
    obtain ⟨txin, undo⟩ := p
    have hcoin : m txin.prevout = some undo := hl (txin, undo) mem_cons_self
    obtain ⟨clean, view₁, happly, hover, -⟩ := applyTxInUndo_total
      (hm.confirmed _ _ hcoin) (hm.spendable _ _ hcoin) (hm.unspent _ _ hcoin) h txin.prevout
    obtain ⟨restClean, view', hrest, hover'⟩ := ih (forall_mem_cons.mp hl).2 hover
    refine ⟨clean && restClean, view', ?_, hover'⟩
    unfold restoreInputs
    rw [happly, Outcome.ok_bind]
    dsimp only
    rw [hrest]
    rfl

variable {index : BlockIndex}

/-- Disconnecting a transaction sets the coins that it touches to what they were before it,
whatever they are now. -/
theorem disconnectTransaction_leads {undo : Option TxUndo} (hm : Restorable m)
    (hfresh : Fresh hash256 index.nHeight m tx) (hundo : UndoOf m tx undo) (h : Over base view) :
    ∃ fClean view', disconnectTransaction hash256 index tx undo view = .ok (fClean, view') ∧
      Over base view' ∧
      Leads (applyTx hash256 index.nHeight m tx) m view.peek view'.peek := by
  unfold disconnectTransaction
  dsimp only
  obtain ⟨hcoherent, hbase, -, hnone⟩ := removeOutputs_spec h.coherent
    (rfl : (removeOutputs (tx.isCoinBase && isBip30Unspendable index)
      (outputCoins hash256 tx index.nHeight) view).2 = _)
  have hkept : ∀ o, ¬ Creates hash256 index.nHeight tx o →
      (removeOutputs (tx.isCoinBase && isBip30Unspendable index)
        (outputCoins hash256 tx index.nHeight) view).2.peek o = view.peek o := fun o ho =>
    peek_removeOutputs_of_not h.coherent ho
  generalize removeOutputs (tx.isCoinBase && isBip30Unspendable index)
    (outputCoins hash256 tx index.nHeight) view = removed at *
  have hover : Over base removed.2 := ⟨hcoherent, hbase.trans h.base_eq⟩
  -- the outputs are gone, and the other coins are as they were
  have hremoved : ∀ o, (Creates hash256 index.nHeight tx o ∧ removed.2.peek o = none ∧
      spentMap m tx o = none) ∨
      (removed.2.peek o = view.peek o ∧
        applyTx hash256 index.nHeight m tx o = spentMap m tx o) := by
    intro o
    by_cases hcreates : Creates hash256 index.nHeight tx o
    · obtain ⟨coin, hmem, hspendable⟩ := id hcreates
      exact Or.inl ⟨hcreates, hnone o coin hmem hspendable, hfresh o hcreates⟩
    · exact Or.inr ⟨hkept o hcreates, CoinMap.insertAll_of_not _ hcreates⟩
  cases hundo with
  | coinbase hcoinbase =>
    refine ⟨_, _, rfl, hover, fun o => ?_⟩
    have hsame : spentMap m tx = m := by rw [spentMap, if_pos hcoinbase]
    rw [hsame] at hremoved
    rcases hremoved o with ⟨-, hgone, hold⟩ | ⟨hsame', hagree⟩
    · exact Or.inl (hgone.trans hold.symm)
    · exact Or.inr ⟨hsame', hagree⟩
  | spends hcoinbase undo hspends =>
    obtain ⟨hlength, hzip⟩ := forall₂_iff_zip.mp hspends
    have hcoins : ∀ p ∈ (tx.vin.zip undo.vprevout).reverse, m p.1.prevout = some p.2 :=
      fun p hmem => hzip (mem_reverse.mp hmem)
    obtain ⟨restored, view', hrestore, hover'⟩ := restoreInputs_total hm hcoins hover
    have hpeek := peek_restoreInputs hm.confirmed hm.spendable hcoins hrestore
    have hprevouts := mem_zip_prevouts hlength
    refine ⟨removed.1 && restored, view', ?_, hover', fun o => ?_⟩
    · dsimp only
      rw [if_neg (not_not.mpr hlength.symm), hrestore]
      rfl
    · rw [hpeek o]
      by_cases hmem : o ∈ tx.vin.map TxIn.prevout
      · rw [if_pos ((hprevouts o).mpr hmem)]
        exact Or.inl rfl
      · rw [if_neg fun h => hmem ((hprevouts o).mp h)]
        have hsame : spentMap m tx o = m o := by
          rw [spentMap, hcoinbase, if_neg Bool.false_ne_true, CoinMap.eraseAll_of_notMem hmem]
        rcases hremoved o with ⟨-, hgone, hold⟩ | ⟨hsame', hagree⟩
        · exact Or.inl (by rw [hgone, ← hsame, hold])
        · exact Or.inr ⟨hsame', hagree.trans hsame⟩

/-- The loop over two parts of a list. -/
theorem disconnectLoop_of_append {l l' : List (Transaction × Option TxUndo)}
    {view₁ view' : CoinsViewCache} {clean clean' : Bool}
    (h : disconnectLoop hash256 index l view = .ok (clean, view₁))
    (h' : disconnectLoop hash256 index l' view₁ = .ok (clean', view')) :
    ∃ fClean, disconnectLoop hash256 index (l ++ l') view = .ok (fClean, view') := by
  induction l generalizing view view₁ view' clean clean' with
  | nil =>
    cases h
    exact ⟨clean', h'⟩
  | cons p l ih =>
    obtain ⟨tx, undo⟩ := p
    unfold disconnectLoop at h
    obtain ⟨⟨first, view₂⟩, hfirst, h⟩ := Outcome.bind_eq_ok_iff.mp h
    obtain ⟨⟨rest, view₃⟩, hrest, h⟩ := Outcome.bind_eq_ok_iff.mp h
    cases h
    obtain ⟨fClean, hall⟩ := ih hrest h'
    refine ⟨first && fClean, ?_⟩
    rw [cons_append]
    unfold disconnectLoop
    rw [hfirst, Outcome.ok_bind]
    dsimp only
    rw [hall]
    rfl

theorem disconnectLoop_single {undo : Option TxUndo} {view' : CoinsViewCache} {fClean : Bool}
    (h : disconnectTransaction hash256 index tx undo view = .ok (fClean, view')) :
    disconnectLoop hash256 index [(tx, undo)] view = .ok (fClean && true, view') := by
  unfold disconnectLoop
  rw [h]
  rfl

theorem disconnectLoop_leads (happlies : Applies hash256 index.nHeight m txs undos m')
    (hfresh : FreshAll hash256 index.nHeight m txs)
    (htxs : ∀ tx ∈ txs, tx.isCoinBase = false ∧ PaysTx tx) (hm : Restorable m)
    (hheight : BitVec.ofNat 31 index.nHeight ≠ 0) (h : Over base view) :
    ∃ fClean view', disconnectLoop hash256 index (txs.zip (undos.map some)).reverse view =
        .ok (fClean, view') ∧ Over base view' ∧ Leads m' m view.peek view'.peek := by
  induction happlies generalizing view with
  | nil m => exact ⟨true, _, rfl, h, .refl _ _⟩
  | @cons m m' tx rest undo undos hspends happlies ih =>
    obtain ⟨hcoinbase, hpays⟩ := htxs tx mem_cons_self
    obtain ⟨clean, view₁, hrest, hover, hleads⟩ := ih hfresh.2
      (forall_mem_cons.mp htxs).2 (hm.applyTx hheight hpays) h
    obtain ⟨clean', view', hturn, hover', hleads'⟩ := disconnectTransaction_leads hm hfresh.1
      (.spends hcoinbase undo hspends) hover
    obtain ⟨fClean, hall⟩ := disconnectLoop_of_append hrest (disconnectLoop_single hturn)
    refine ⟨fClean, view', ?_, hover', hleads.trans hleads'⟩
    rw [map_cons, zip_cons_cons, reverse_cons]
    exact hall

theorem Applies.length_eq (h : Applies hash256 nHeight m txs undos m') :
    undos.length = txs.length := by
  induction h with
  | nil => rfl
  | cons _ _ ih => rw [length_cons, length_cons, ih]

/-- `DisconnectBlock` leads from the coins behind the block to those before it, on any
coins. -/
theorem disconnectOn_leads {undo : BlockUndo}
    (happlies : BlockApplies hash256 index.nHeight block m undo m')
    (hfresh : FreshAll hash256 index.nHeight m block.vtx) (hpays : Pays block) (hm : Restorable m)
    (hheight : BitVec.ofNat 31 index.nHeight ≠ 0) (h : Over base view) :
    ∃ fClean view', disconnectOn hash256 index block (some undo) view = .ok (fClean, view') ∧
      Over base view' ∧ Leads m' m view.peek view'.peek := by
  obtain ⟨coinbase, rest, hshape, happlies⟩ := happlies
  unfold Pays at hpays
  rw [hshape.vtx] at hpays hfresh
  obtain ⟨clean, view₁, hrest, hover, hleads⟩ := disconnectLoop_leads happlies hfresh.2
    (fun tx hmem => ⟨(hshape.others tx hmem).1, hpays tx (mem_cons_of_mem _ hmem)⟩)
    (hm.applyTx hheight (hpays coinbase mem_cons_self)) hheight h
  obtain ⟨clean', view', hturn, hover', hleads'⟩ := disconnectTransaction_leads hm hfresh.1
    (.coinbase hshape.isCoinBase) hover
  obtain ⟨fClean, hall⟩ := disconnectLoop_of_append hrest (disconnectLoop_single hturn)
  have hlength : ¬ undo.vtxundo.length + 1 ≠ block.vtx.length := by
    rw [hshape.vtx, length_cons, happlies.length_eq]
    simp
  refine ⟨fClean, view', ?_, hover', hleads.trans hleads'⟩
  unfold disconnectOn
  dsimp only
  rw [if_neg hlength, hshape.vtx, zip_cons_cons, reverse_cons]
  exact hall

/-! ## Branches -/

variable {params : ChainParams hash256} {t : BlockTree} {blocks : EntryPtr → Block}
  {undo : EntryPtr → Option BlockUndo}

variable (hash256 t blocks undo) in
/-- A block can be taken back and connected again: its outputs have values, and there is the
undo data that belongs to it. -/
structure Replays (e : EntryPtr) : Prop where
  pays : Pays (blocks e)
  back : ∀ index prev m, t.index? e = some index → index.pprev = some prev →
    CoinsAt hash256 t blocks (some prev) m → ∃ u m', undo e = some u ∧
      BlockApplies hash256 index.nHeight (blocks e) m u m' ∧
      FreshAll hash256 index.nHeight m (blocks e).vtx

variable (hash256 t blocks undo) in
/-- All blocks behind the genesis block on the way to a node can be replayed. -/
def Walked (e : EntryPtr) : Prop :=
  ∀ x index prev, t.IsAncestor e x → t.index? x = some index → index.pprev = some prev →
    Replays hash256 t blocks undo x

theorem isAncestor_self (t : BlockTree) (e : EntryPtr) : t.IsAncestor e e := ⟨0, rfl⟩

theorem IsAncestor.of_parent {x : EntryPtr} {index : BlockIndex} (hindex : t.index? e = some index)
    (hprev : index.pprev = some prev) (h : t.IsAncestor prev x) : t.IsAncestor e x := by
  obtain ⟨n, hn⟩ := h
  refine ⟨n + 1, ?_⟩
  rw [RootPath.climb, BlockTree.parent_eq hindex, hprev]
  exact hn

theorem Walked.parent {index : BlockIndex} (h : Walked hash256 t blocks undo e)
    (hindex : t.index? e = some index) (hprev : index.pprev = some prev) :
    Walked hash256 t blocks undo prev :=
  fun x index' prev' hx => h x index' prev' (IsAncestor.of_parent hindex hprev hx)

/-- The coins behind a node can be put back from undo data. -/
theorem Walked.restorable (ht : Rooted params t) (hfit : t.HeightsFit)
    (h : CoinsAt hash256 t blocks (some e) m) (hwalked : Walked hash256 t blocks undo e) :
    Restorable m := by
  refine ⟨h.confirmed ht hfit, h.spendable, ?_⟩
  generalize hp : some e = p at h
  induction h generalizing e with
  | start => cases hp
  | genesis => exact fun _ _ ho => by cases ho
  | @child e' prev index m m' u hindex hprev hcoins happlies ih =>
    cases hp
    have hrest : Restorable m := ⟨hcoins.confirmed ht hfit, hcoins.spendable,
      ih (hwalked.parent hindex hprev) rfl⟩
    have hreplays := hwalked e' index prev (isAncestor_self t e') hindex hprev
    exact (happlies.restorable (ofNat_height_ne_zero ht hfit hindex hprev) hreplays.pays
      hrest).unspent

/-- The reads give the blocks and the undo data. -/
structure ReadsAll (reads : ReplayReads) (blocks : EntryPtr → Block)
    (undo : EntryPtr → Option BlockUndo) : Prop where
  block : ∀ e, reads.block e = some (blocks e)
  undo : ∀ e, reads.undo e = undo e

variable {reads : ReplayReads}

theorem rollback_self (reads : ReplayReads) (p : Option EntryPtr) (turns : Nat)
    (view : CoinsViewCache) : rollback hash256 t reads p turns p view = some (some view) := by
  unfold rollback
  rw [if_pos rfl]

/-- The rollback leads from the coins of the old tip to those of the fork. -/
theorem rollback_leads (ht : Rooted params t) (hfit : t.HeightsFit)
    (hreads : ReadsAll reads blocks undo) {fork : EntryPtr} {n turns : Nat} {old : EntryPtr}
    {mOld : CoinMap} (hturns : n ≤ turns) (hclimb : RootPath.climb t.parent n old = some fork)
    (hwalked : Walked hash256 t blocks undo old) (hcoins : CoinsAt hash256 t blocks (some old) mOld)
    (hold : ∃ index, t.index? old = some index) (hover : Over base view) :
    ∃ view' mFork, rollback hash256 t reads (some fork) turns (some old) view =
        some (some view') ∧ CoinsAt hash256 t blocks (some fork) mFork ∧ Over base view' ∧
      Leads mOld mFork view.peek view'.peek := by
  induction n generalizing turns old mOld view with
  | zero =>
    cases hclimb
    exact ⟨view, mOld, rollback_self reads _ _ _, hcoins, hover, .refl _ _⟩
  | succ n ih =>
    obtain ⟨index, hindex⟩ := hold
    obtain ⟨turns, rfl⟩ := Nat.exists_eq_add_of_le' (Nat.le_trans (Nat.le_add_left 1 n) hturns)
    have hheight : t.height? old = some index.nHeight := by
      rw [BlockTree.height?, hindex, map_some]
    obtain ⟨heightFork, hforkHeight, hsum⟩ := ht.linked.height?_climb hheight hclimb
    have hne : ¬ (some old : Option EntryPtr) = some fork := by
      intro heq
      cases heq
      rw [hheight, Option.some.injEq] at hforkHeight
      omega
    obtain ⟨prev, hparent, hclimb⟩ := bind_eq_some_iff.mp hclimb
    have hprev : index.pprev = some prev := (BlockTree.parent_eq hindex).symm.trans hparent
    obtain ⟨pindex, hpindex, -⟩ := ht.index?_pprev hindex hprev
    obtain ⟨m, u, hm, happlies⟩ := hcoins.cases_child hindex hprev
    have hreplays := hwalked old index prev (isAncestor_self t old) hindex hprev
    obtain ⟨u', m', hu', happlies', hfresh⟩ := hreplays.back index prev m hindex hprev hm
    obtain ⟨rfl, rfl⟩ := happlies.unique happlies'
    have hwalkedPrev := hwalked.parent hindex hprev
    obtain ⟨fClean, view₁, hdisconnect, hover₁, hleads₁⟩ := disconnectOn_leads happlies hfresh
      hreplays.pays (hwalkedPrev.restorable ht hfit hm)
      (ofNat_height_ne_zero ht hfit hindex hprev) hover
    obtain ⟨view', mFork, hrest, hfork, hover', hleads⟩ :=
      ih (by omega : n ≤ turns) hclimb hwalkedPrev hm ⟨pindex, hpindex⟩ hover₁
    refine ⟨view', mFork, ?_, hfork, hover', hleads₁.trans hleads⟩
    unfold rollback
    rw [if_neg hne]
    dsimp only
    have hpos : index.nHeight > 0 := by omega
    simp only [bind_eq_bind, bind_some, hindex, if_pos hpos, hreads.block,
      hreads.undo, hu', hdisconnect, hprev]
    exact hrest

/-- The coins of an ancestor. -/
theorem CoinsAt.of_climb {n : Nat} {x : EntryPtr} (h : CoinsAt hash256 t blocks (some e) m)
    (hclimb : RootPath.climb t.parent n e = some x) :
    ∃ mx, CoinsAt hash256 t blocks (some x) mx := by
  induction n generalizing e x m with
  | zero =>
    cases hclimb
    exact ⟨m, h⟩
  | succ n ih =>
    obtain ⟨prev, hparent, hclimb⟩ := bind_eq_some_iff.mp hclimb
    obtain ⟨index, hindex, hprev⟩ := bind_eq_some_iff.mp hparent
    obtain ⟨m', -, hm', -⟩ := h.cases_child hindex hprev
    exact ih hm' hclimb

/-- The roll forward leads from the coins of an ancestor to those of the new tip. -/
theorem rollforward_leads (hs : t.Searchable) (hreads : ReadsAll reads blocks undo) {new : EntryPtr}
    {newIndex : BlockIndex} (hnew : t.index? new = some newIndex) {mNew : CoinMap}
    (hcoins : CoinsAt hash256 t blocks (some new) mNew) (hwalked : Walked hash256 t blocks undo new)
    {n : Nat} (hclimb : RootPath.climb t.parent n new = some e)
    (hheight : t.height? e = some nHeight) (hm : CoinsAt hash256 t blocks (some e) m)
    (hover : Over base view) :
    ∃ view', rollforward hash256 t reads new (List.range' (nHeight + 1) n) view =
        some (some view') ∧ Over base view' ∧ Leads m mNew view.peek view'.peek := by
  induction n generalizing nHeight e m view with
  | zero =>
    cases hclimb
    rw [hm.unique hcoins]
    exact ⟨view, rfl, hover, .refl _ _⟩
  | succ n ih =>
    have hnewHeight : t.height? new = some newIndex.nHeight := by
      rw [BlockTree.height?, hnew, map_some]
    -- the node one above on the way to the new tip
    rw [RootPath.climb_add] at hclimb
    obtain ⟨x, hx, hparent⟩ := bind_eq_some_iff.mp hclimb
    rw [RootPath.climb_one] at hparent
    obtain ⟨index, hindex, hprev⟩ := bind_eq_some_iff.mp hparent
    obtain ⟨heightX, hheightX, hsum⟩ := hs.linked.height?_climb hnewHeight hx
    have hxHeight : index.nHeight = heightX := by
      rw [BlockTree.height?, hindex, map_some, Option.some.injEq] at hheightX
      exact hheightX
    have hlinked := hs.linked x heightX hheightX
    rw [hparent] at hlinked
    obtain ⟨heightE, hheightE, hsucc⟩ := hlinked
    obtain rfl : heightE = nHeight := Option.some.inj (hheightE.symm.trans hheight)
    obtain ⟨found, hfound, hclimbFound⟩ := BlockTree.getAncestor_climb hs.skipLinked hs.skipExact
      hnew (by omega : heightE + 1 ≤ newIndex.nHeight)
    have hn : newIndex.nHeight - (heightE + 1) = n := by omega
    rw [hn, hx] at hclimbFound
    cases hclimbFound
    obtain ⟨mx, hmx⟩ := hcoins.of_climb hx
    obtain ⟨m₀, u, hm₀, happlies⟩ := hmx.cases_child hindex hprev
    rw [hm₀.unique hm] at happlies
    have hreplays := hwalked x index e ⟨n, hx⟩ hindex hprev
    obtain ⟨view₁, hroll, hover₁, hleads₁⟩ :=
      rollforwardBlock_leads happlies hreplays.pays hover
    rw [← hsucc] at hfound
    obtain ⟨view', hrest, hover', hleads⟩ := ih hx hheightX hmx hover₁
    refine ⟨view', ?_, hover', hleads₁.trans hleads⟩
    rw [range'_succ]
    unfold rollforward
    simp only [← hsucc, BlockTree.btckGetAncestor, hfound, bind_eq_bind,
      bind_some, hindex, hreads.block, hroll]
    exact hrest

end BitcoinKernel.Validation.Coins
