import BitcoinKernel.Validation.ConnectBlock

/-!
# What connecting a block does to the coins

The coins as a map, without caches: a transaction takes the coins of its inputs out of
the map and puts its outputs in (`applyTx`).  `Applies` is the effect of a list of
transactions, with the coins that each of them takes.  It determines the coins
(`Applies.unique`).

There are three groups.

* Maps.  `applyTx` is monotone for the order of partial maps.
* The turns of `ConnectBlock`.  What a turn does is said once, in
  `connectTransaction_spec`.  The undo data that it adds has the coins that the inputs
  refer to before the turn.  This needs no assumption on the flags of the cache.  If
  the flags are right and no coin is overwritten, the view afterwards is that of
  `applyTx`.
* The loop.  `connectLoop_spec` has the undo data of all turns, and the map at the
  end.
-/

namespace BitcoinKernel.Validation.Coins

open Serialize Consensus State WriteBack WriteBack.Cache CoinsViewCache List Function Option
open Chainman (BlockValidationState Params runCheckBlock)

/-! ## Maps of coins -/

/-- The coins that can be spent. -/
abbrev CoinMap := OutPoint → Option Coin

namespace CoinMap

/-- The second map has all coins of the first. -/
def Sub (m m' : CoinMap) : Prop := ∀ o coin, m o = some coin → m' o = some coin

protected theorem Sub.refl (m : CoinMap) : Sub m m := fun _ _ h => h

protected theorem Sub.trans {m m' m'' : CoinMap} (h : Sub m m') (h' : Sub m' m'') : Sub m m'' :=
  fun o coin ho => h' o coin (h o coin ho)

variable {m m' : CoinMap} {o : OutPoint}

theorem Sub.update (h : Sub m m') (o : OutPoint) (coin : Option Coin) :
    Sub (Function.update m o coin) (Function.update m' o coin) := by
  intro o' coin' ho'
  by_cases heq : o' = o
  · subst heq
    rw [update_self] at ho' ⊢
    exact ho'
  · rw [update_of_ne heq] at ho' ⊢
    exact h o' coin' ho'

theorem Sub.eq_none (h : Sub m m') (ho : m' o = none) : m o = none := by
  cases hcoin : m o with
  | none => rfl
  | some coin =>
    rw [h o coin hcoin] at ho
    cases ho

theorem sub_update_none (m : CoinMap) (o : OutPoint) : Sub (Function.update m o none) m := by
  intro o' coin ho'
  by_cases heq : o' = o
  · subst heq
    rw [update_self] at ho'
    cases ho'
  · rw [update_of_ne heq] at ho'
    exact ho'

/-- The coins without those of some outpoints. -/
def eraseAll (m : CoinMap) : List OutPoint → CoinMap
  | [] => m
  | o :: rest => eraseAll (Function.update m o none) rest

/-- The coins with new ones.  An output that nobody can spend is left out. -/
def insertAll (m : CoinMap) : List (OutPoint × Coin) → CoinMap
  | [] => m
  | (o, coin) :: rest =>
    if coin.out.scriptPubKey.isUnspendable then insertAll m rest
    else insertAll (Function.update m o (some coin)) rest

theorem Sub.eraseAll (h : Sub m m') (os : List OutPoint) :
    Sub (m.eraseAll os) (m'.eraseAll os) := by
  induction os generalizing m m' with
  | nil => exact h
  | cons o os ih => exact ih (h.update o none)

theorem Sub.insertAll (h : Sub m m') (l : List (OutPoint × Coin)) :
    Sub (m.insertAll l) (m'.insertAll l) := by
  induction l generalizing m m' with
  | nil => exact h
  | cons p l ih =>
    obtain ⟨o, coin⟩ := p
    unfold CoinMap.insertAll
    split_ifs
    · exact ih h
    · exact ih (h.update o (some coin))

theorem eraseAll_of_notMem {os : List OutPoint} (h : o ∉ os) : m.eraseAll os o = m o := by
  induction os generalizing m with
  | nil => rfl
  | cons o' os ih =>
    rw [mem_cons, not_or] at h
    show (CoinMap.eraseAll (Function.update m o' none) os) o = m o
    rw [ih h.2, update_of_ne h.1]

end CoinMap

variable (hash256 : List UInt8 → Uint256)

/-- The coins after a transaction in a block at a height. -/
def applyTx (nHeight : Nat) (m : CoinMap) (tx : Transaction) : CoinMap :=
  CoinMap.insertAll
    (if tx.isCoinBase then m else m.eraseAll (tx.vin.map TxIn.prevout))
    (outputCoins hash256 tx nHeight)

variable {hash256}

variable {m m' : CoinMap} {vin : List TxIn} {coins : List Coin} {nHeight i : Nat}
  {txs rest : List Transaction} {view view' : CoinsViewCache} {tx : Transaction}
  {s s' : ConnectState}

theorem CoinMap.Sub.applyTx (h : CoinMap.Sub m m') (nHeight : Nat) (tx : Transaction) :
    CoinMap.Sub (applyTx hash256 nHeight m tx) (applyTx hash256 nHeight m' tx) := by
  apply CoinMap.Sub.insertAll
  split_ifs
  · exact h
  · exact h.eraseAll _

/-- The coins of a map that the inputs of a transaction refer to, in their order. -/
def Spends (m : CoinMap) (vin : List TxIn) (coins : List Coin) : Prop :=
  List.Forall₂ (fun txin coin => m txin.prevout = some coin) vin coins

theorem Spends.mono (hsub : CoinMap.Sub m m') (h : Spends m vin coins) : Spends m' vin coins :=
  List.Forall₂.imp (fun _ _ ho => hsub _ _ ho) h

theorem Spends.congr (h : Spends m vin coins)
    (heq : ∀ txin ∈ vin, m txin.prevout = m' txin.prevout) : Spends m' vin coins := by
  induction h with
  | nil => exact List.Forall₂.nil
  | cons hhead _ ih =>
    refine List.Forall₂.cons ?_ (ih (forall_mem_cons.mp heq).2)
    rw [← heq _ mem_cons_self]
    exact hhead

theorem Spends.unique {coins' : List Coin} (h : Spends m vin coins) (h' : Spends m vin coins') :
    coins = coins' := by
  induction h generalizing coins' with
  | nil =>
    cases h'
    rfl
  | cons hhead _ ih =>
    cases h' with
    | cons hhead' htail' =>
      cases hhead.symm.trans hhead'
      rw [ih htail']

variable (hash256) in
/-- The effect of transactions on the coins, with the coins that they spend. -/
inductive Applies (nHeight : Nat) : CoinMap → List Transaction → List TxUndo → CoinMap → Prop
  | nil (m : CoinMap) : Applies nHeight m [] [] m
  | cons {m m' : CoinMap} {tx : Transaction} {rest : List Transaction} {undo : TxUndo}
      {undos : List TxUndo} (hspends : Spends m tx.vin undo.vprevout)
      (hrest : Applies nHeight (applyTx hash256 nHeight m tx) rest undos m') :
      Applies nHeight m (tx :: rest) (undo :: undos) m'

/-- The coins before determine the undo data and the coins after. -/
theorem Applies.unique {m₁ m₂ : CoinMap} {undos₁ undos₂ : List TxUndo}
    (h₁ : Applies hash256 nHeight m txs undos₁ m₁) (h₂ : Applies hash256 nHeight m txs undos₂ m₂) :
    undos₁ = undos₂ ∧ m₁ = m₂ := by
  induction h₁ generalizing undos₂ with
  | nil m =>
    cases h₂
    exact ⟨rfl, rfl⟩
  | @cons m m' tx rest undo undos hspends _ ih =>
    cases h₂ with
    | @cons _ _ _ _ undo' undos' hspends' hrest' =>
      obtain ⟨rfl, rfl⟩ := ih hrest'
      have hundo : undo = undo' := by
        cases undo
        cases undo'
        exact congrArg TxUndo.mk (hspends.unique hspends')
      exact ⟨by rw [hundo], rfl⟩

/-! ## `UpdateCoins` -/

/-- The order in which a view is changed, without what its flags say: the base stays,
and the flags stay right. -/
structure Reads (view view' : CoinsViewCache) : Prop where
  base : view'.base = view.base
  peek : view'.peek = view.peek
  coherent : view.Coherent → view'.Coherent

protected theorem Reads.refl (view : CoinsViewCache) : Reads view view := ⟨rfl, rfl, id⟩

theorem Reads.trans {view'' : CoinsViewCache} (h : Reads view view') (h' : Reads view' view'') :
    Reads view view'' :=
  ⟨h'.base.trans h.base, h'.peek.trans h.peek, h'.coherent ∘ h.coherent⟩

theorem reads_fetch (view : CoinsViewCache) (o : OutPoint) : Reads view (view.fetch o) :=
  ⟨base_fetch view o, peek_fetch view o, fun h => h.fetch o⟩

/-- `HaveInputs` reads, and finds the coins of all inputs. -/
theorem haveInputs_spec {ok : Bool} (h : haveInputs vin view = (ok, view')) :
    Reads view view' ∧ (ok = true → ∀ txin ∈ vin, ∃ coin, view.peek txin.prevout = some coin) := by
  induction vin generalizing view view' ok with
  | nil =>
    cases h
    exact ⟨Reads.refl view, fun _ _ hmem => by cases hmem⟩
  | cons txin vin ih =>
    have hread := reads_fetch view txin.prevout
    unfold haveInputs at h
    split_ifs at h with hcoin
    · obtain ⟨hrest, hcoins⟩ := ih h
      refine ⟨hread.trans hrest, fun hok txin' hmem => ?_⟩
      rw [hread.peek] at hcoins
      rcases mem_cons.mp hmem with rfl | hmem
      · unfold haveCoin at hcoin
        rw [hread.peek] at hcoin
        exact isSome_iff_exists.mp hcoin
      · exact hcoins hok txin' hmem
    · cases h
      exact ⟨hread, fun hok => by cases hok⟩

/-- The inputs of a transaction are spent one after another.  They are different, so
each coin is the one before the transaction. -/
theorem spendInputs_spec (hnodup : (vin.map TxIn.prevout).Nodup)
    (hcoins : ∀ txin ∈ vin, ∃ coin, view.peek txin.prevout = some coin)
    (h : spendInputs vin view = some (coins, view')) :
    Spends view.peek vin coins ∧ view'.base = view.base ∧ (view.Coherent → view'.Coherent ∧
        view'.peek = CoinMap.eraseAll view.peek (vin.map TxIn.prevout)) := by
  induction vin generalizing view view' coins with
  | nil =>
    cases h
    exact ⟨List.Forall₂.nil, rfl, fun h => ⟨h, rfl⟩⟩
  | cons txin vin ih =>
    obtain ⟨hnew, hnodup⟩ := nodup_cons.mp hnodup
    obtain ⟨coin, hcoin⟩ := hcoins txin mem_cons_self
    obtain ⟨view₁, htake⟩ := take_eq_some hcoin
    unfold spendInputs at h
    obtain ⟨⟨spent, view₂⟩, hspend, h⟩ := bind_eq_some_iff.mp h
    obtain ⟨⟨rest, view₃⟩, hrest, h⟩ := bind_eq_some_iff.mp h
    have hspent : spent = coin ∧ view₂ = view₁ := by
      unfold spendCoin at hspend
      rw [htake] at hspend
      cases hspend
      exact ⟨rfl, rfl⟩
    obtain ⟨rfl, rfl⟩ := hspent
    cases h
    have hother : ∀ txin' ∈ vin, view₂.peek txin'.prevout = view.peek txin'.prevout := by
      intro txin' hmem
      apply peek_take_of_ne htake
      intro heq
      exact hnew (List.mem_map.mpr ⟨txin', hmem, heq⟩)
    have hcoins' : ∀ txin' ∈ vin, ∃ coin, view₂.peek txin'.prevout = some coin := by
      intro txin' hmem
      rw [hother txin' hmem]
      exact hcoins txin' (mem_cons_of_mem _ hmem)
    obtain ⟨hspends, hbase, hcoherent⟩ := ih hnodup hcoins' hrest
    refine ⟨List.Forall₂.cons hcoin (hspends.congr hother), hbase.trans (base_take htake), ?_⟩
    intro h
    obtain ⟨h', hpeek⟩ := hcoherent (h.take htake)
    refine ⟨h', ?_⟩
    rw [hpeek, h.peek_take htake]
    rfl

/-- `AddCoin` for the outputs of a transaction.  The flags stay right if the outpoints
have no coin below the view, or if they may be overwritten. -/
theorem addCoins_spec {overwrite : Bool} {l : List (OutPoint × Coin)}
    (h : l.foldlM (fun view (outpoint, coin) => addCoin view outpoint coin overwrite) view =
      some view') :
    view'.base = view.base ∧ view'.peek = CoinMap.insertAll view.peek l ∧
      (view.Coherent → (overwrite = false → ∀ o ∈ l.map Prod.fst, view.base o = none) →
        view'.Coherent) := by
  induction l generalizing view view' with
  | nil =>
    cases h
    exact ⟨rfl, rfl, fun h _ => h⟩
  | cons p l ih =>
    obtain ⟨o, coin⟩ := p
    rw [foldlM_cons] at h
    obtain ⟨view₁, hadd, h⟩ := bind_eq_some_iff.mp h
    obtain ⟨hbase, hpeek, hcoherent⟩ := ih h
    dsimp only at hadd
    unfold addCoin at hadd
    split_ifs at hadd with hspent hunspendable
    · cases hadd
      refine ⟨hbase, ?_, fun hview hnew => hcoherent hview fun hover o' ho' => ?_⟩
      · rw [hpeek, CoinMap.insertAll, if_pos hunspendable]
      · exact hnew hover o' (mem_cons_of_mem _ ho')
    · obtain ⟨hbase₁, hpeek₁⟩ := peek_put hadd
      refine ⟨hbase.trans hbase₁, ?_, fun hview hnew => ?_⟩
      · rw [hpeek, hpeek₁, CoinMap.insertAll, if_neg hunspendable]
      · apply hcoherent
        · exact hview.put hadd fun hover _ => hnew hover o mem_cons_self
        · intro hover o' ho'
          rw [hbase₁]
          exact hnew hover o' (mem_cons_of_mem _ ho')

/-- No output of a transaction has an unspent coin among `coins`. -/
def NoOverwrite (hash256 : List UInt8 → Uint256) (coins : CoinMap) (tx : Transaction) : Prop :=
  ∀ o < tx.vout.length, coins ⟨tx.getHash hash256, UInt32.ofNat o⟩ = none

/-- `UpdateCoins` on a transaction whose inputs have coins. -/
theorem updateCoins_spec {undo : TxUndo} (hnodup : (tx.vin.map TxIn.prevout).Nodup)
    (hcoins : tx.isCoinBase = false → ∀ txin ∈ tx.vin, ∃ coin, view.peek txin.prevout = some coin)
    (h : updateCoins hash256 tx nHeight view = some (undo, view')) :
    (tx.isCoinBase = false → Spends view.peek tx.vin undo.vprevout) ∧ view'.base = view.base ∧
      (view.Coherent → (tx.isCoinBase = false → NoOverwrite hash256 view.base tx) →
        view'.Coherent ∧ view'.peek = applyTx hash256 nHeight view.peek tx) := by
  unfold updateCoins at h
  obtain ⟨⟨vprevout, view₁⟩, hspend, h⟩ := bind_eq_some_iff.mp h
  obtain ⟨view₂, hadd, h⟩ := bind_eq_some_iff.mp h
  cases h
  obtain ⟨hbase₂, hpeek₂, hcoherent₂⟩ := addCoins_spec hadd
  have hspent : (tx.isCoinBase = false → Spends view.peek tx.vin vprevout) ∧
      view₁.base = view.base ∧ (view.Coherent → view₁.Coherent ∧ view₁.peek =
        if tx.isCoinBase then view.peek
        else CoinMap.eraseAll view.peek (tx.vin.map TxIn.prevout)) := by
    unfold spendTransaction at hspend
    cases hcoinbase : tx.isCoinBase with
    | true =>
      rw [hcoinbase, if_pos rfl] at hspend
      cases hspend
      exact ⟨fun h => (by cases h), rfl, fun h => ⟨h, rfl⟩⟩
    | false =>
      rw [hcoinbase, if_neg Bool.false_ne_true] at hspend
      obtain ⟨hspends, hbase, hcoherent⟩ := spendInputs_spec hnodup (hcoins hcoinbase) hspend
      exact ⟨fun _ => hspends, hbase, hcoherent⟩
  obtain ⟨hspends, hbase₁, hcoherent₁⟩ := hspent
  refine ⟨hspends, hbase₂.trans hbase₁, fun hview hnew => ?_⟩
  obtain ⟨hview₁, hpeek₁⟩ := hcoherent₁ hview
  refine ⟨hcoherent₂ hview₁ fun hcoinbase o ho => ?_, ?_⟩
  · rw [hbase₁]
    unfold outputCoins at ho
    simp only [List.map_map, List.mem_map, comp_apply] at ho
    obtain ⟨⟨out, i⟩, hmem, rfl⟩ := ho
    refine hnew hcoinbase i ?_
    have hi := mem_zipIdx hmem
    omega
  · rw [hpeek₂, hpeek₁]
    rfl

/-! ## One turn of the loop -/

variable {rules : ConnectRules} {env : ConnectEnv} {e : EntryPtr} {index : BlockIndex}

/-- `CheckTxInputs` reads, and lets a transaction pass only if its inputs have
coins. -/
theorem checkTxInputs_spec {nSpendHeight : Nat} {verdict : Except TxInputsRejection Int64}
    (h : checkTxInputs tx view nSpendHeight = some (verdict, view')) :
    Reads view view' ∧ ∀ txfee, verdict = .ok txfee →
      ∀ txin ∈ tx.vin, ∃ coin, view.peek txin.prevout = some coin := by
  unfold checkTxInputs at h
  split at h
  · rename_i view₁ hinputs
    cases h
    exact ⟨(haveInputs_spec hinputs).1, fun txfee hfee => by cases hfee⟩
  · rename_i view₁ hinputs
    obtain ⟨hread, hcoins⟩ := haveInputs_spec hinputs
    obtain ⟨values, -, h⟩ := bind_eq_some_iff.mp h
    cases values with
    | error rejection =>
      cases h
      exact ⟨hread, fun _ _ => hcoins rfl⟩
    | ok nValueIn =>
      obtain ⟨valueOut, -, h⟩ := bind_eq_some_iff.mp h
      cases h
      exact ⟨hread, fun _ _ => hcoins rfl⟩

/-- A rejection makes the state invalid. -/
theorem isValid_invalid (s : ConnectState) (rejectReason debugMessage : String) :
    (s.invalid rejectReason debugMessage).state.isValid = false := by
  show (ite (s.state.mode ≠ .error) _ _ == Chainman.ModeState.valid) = false
  split_ifs with hmode
  · rfl
  · rw [not_not.mp hmode]
    rfl

theorem checkInputs_spec (h : checkInputs hash256 rules e index tx s = some s') :
    Reads s.view s'.view ∧ s'.vtxundo = s.vtxundo ∧
      (s'.state.isValid = true → tx.isCoinBase = false →
        ∀ txin ∈ tx.vin, ∃ coin, s.view.peek txin.prevout = some coin) := by
  unfold checkInputs at h
  split_ifs at h with hcoinbase
  · cases h
    refine ⟨Reads.refl _, rfl, fun _ hnot => ?_⟩
    rw [hcoinbase] at hnot
    cases hnot
  · obtain ⟨⟨verdict, view⟩, hcheck, h⟩ := bind_eq_some_iff.mp h
    obtain ⟨hread, hcoins⟩ := checkTxInputs_spec hcheck
    cases verdict with
    | error txState =>
      cases h
      refine ⟨hread, rfl, fun hvalid => ?_⟩
      rw [isValid_invalid] at hvalid
      cases hvalid
    | ok txfee =>
      dsimp only at h
      split_ifs at h
      all_goals
        cases h
        exact ⟨hread, rfl, fun _ _ => hcoins txfee rfl⟩

theorem checkScripts_spec (rules : ConnectRules) (env : ConnectEnv) (e : EntryPtr) (i : Nat)
    (tx : Transaction) (s : ConnectState) :
    (checkScripts rules env e i tx s).view = s.view ∧
      (checkScripts rules env e i tx s).vtxundo = s.vtxundo ∧
      (checkScripts rules env e i tx s).nFees = s.nFees := by
  unfold checkScripts
  dsimp only
  split_ifs
  · exact ⟨rfl, rfl, rfl⟩
  · split <;> exact ⟨rfl, rfl, rfl⟩
  · exact ⟨rfl, rfl, rfl⟩

/-- The parts of a turn that leaves the state valid. -/
theorem connectTransaction_parts (h : connectTransaction hash256 rules env e index i tx s = some s')
    (hvalid : s'.state.isValid = true) :
    ∃ s₁ undo, checkInputs hash256 rules e index tx s = some s₁ ∧ s₁.state.isValid = true ∧
      updateCoins hash256 tx index.nHeight s₁.view = some (undo, s'.view) ∧
      s'.vtxundo = (if i > 0 then s₁.vtxundo ++ [undo] else s₁.vtxundo) ∧
      s'.nFees = s₁.nFees := by
  unfold connectTransaction at h
  obtain ⟨s₁, hinputs, h⟩ := bind_eq_some_iff.mp h
  obtain ⟨hview, hundo, hfees⟩ := checkScripts_spec rules env e i tx s₁
  have hnot : ∀ {s₂ : ConnectState}, (!s₂.state.isValid) = true → some s₂ ≠ some s' := by
    rintro s₂ hinvalid ⟨⟩
    rw [hvalid] at hinvalid
    cases hinvalid
  by_cases hinvalid₁ : (!s₁.state.isValid) = true
  · rw [if_pos hinvalid₁] at h
    exact (hnot hinvalid₁ h).elim
  rw [if_neg hinvalid₁] at h
  dsimp only at h
  by_cases hinvalid₂ : (!(checkScripts rules env e i tx s₁).state.isValid) = true
  · rw [if_pos hinvalid₂] at h
    exact (hnot hinvalid₂ h).elim
  rw [if_neg hinvalid₂] at h
  obtain ⟨⟨undo, view⟩, hupdate, h⟩ := bind_eq_some_iff.mp h
  cases h
  refine ⟨s₁, undo, hinputs, by simpa using hinvalid₁, hview ▸ hupdate, ?_, hfees⟩
  rw [hundo]

/-- A turn that leaves the state valid has spent the inputs and added the outputs.  The
undo data has the coins of the inputs before the turn. -/
theorem connectTransaction_spec (hnodup : (tx.vin.map TxIn.prevout).Nodup)
    (h : connectTransaction hash256 rules env e index i tx s = some s')
    (hvalid : s'.state.isValid = true) :
    ∃ undo : TxUndo, s'.vtxundo = (if i > 0 then s.vtxundo ++ [undo] else s.vtxundo) ∧
      (tx.isCoinBase = false → Spends s.view.peek tx.vin undo.vprevout) ∧
      s'.view.base = s.view.base ∧
      (s.view.Coherent → (tx.isCoinBase = false → NoOverwrite hash256 s.view.base tx) →
        s'.view.Coherent ∧ s'.view.peek = applyTx hash256 index.nHeight s.view.peek tx) := by
  obtain ⟨s₁, undo, hinputs, hvalid₁, hupdate, hundo, -⟩ := connectTransaction_parts h hvalid
  obtain ⟨hread, hundo₁, hcoins⟩ := checkInputs_spec hinputs
  obtain ⟨hspends, hbase, hcoherent⟩ := updateCoins_spec hnodup
    (fun hcoinbase => hread.peek ▸ hcoins hvalid₁ hcoinbase) hupdate
  rw [hread.peek, hread.base] at hcoherent
  refine ⟨undo, ?_, hread.peek ▸ hspends, hbase.trans hread.base, fun hview hnew => ?_⟩
  · rw [hundo, hundo₁]
  · exact hcoherent (hread.coherent hview) hnew

/-! ## The loop -/

/-- A loop that ends in a valid state has made its first turn, and goes on from
there. -/
theorem connectLoop_cons (h : connectLoop hash256 rules env e index i (tx :: rest) s = some s')
    (hvalid : s'.state.isValid = true) :
    s.state.isValid = true ∧ ∃ s₁, connectTransaction hash256 rules env e index i tx s = some s₁ ∧
      s₁.state.isValid = true ∧
      connectLoop hash256 rules env e index (i + 1) rest s₁ = some s' := by
  have hstart : ∀ {i : Nat} {txs : List Transaction} {s : ConnectState},
      connectLoop hash256 rules env e index i txs s = some s' → s.state.isValid = true := by
    intro i txs s h
    cases hs : s.state.isValid with
    | true => rfl
    | false =>
      cases txs with
      | nil =>
        cases h
        rw [hs] at hvalid
        cases hvalid
      | cons tx rest =>
        unfold connectLoop at h
        rw [hs, Bool.not_false, if_pos rfl] at h
        cases h
        rw [hs] at hvalid
        cases hvalid
  have hs := hstart h
  refine ⟨hs, ?_⟩
  unfold connectLoop at h
  rw [hs, Bool.not_true, if_neg Bool.false_ne_true] at h
  obtain ⟨s₁, hturn, h⟩ := bind_eq_some_iff.mp h
  exact ⟨s₁, hturn, hstart h, h⟩

/-- A loop that goes on from its first turn. -/
theorem connectLoop_of_turn {s₁ : ConnectState} (hs : s.state.isValid = true)
    (hturn : connectTransaction hash256 rules env e index i tx s = some s₁) :
    connectLoop hash256 rules env e index i (tx :: rest) s =
      connectLoop hash256 rules env e index (i + 1) rest s₁ := by
  conv_lhs => unfold connectLoop
  rw [hs, Bool.not_true, if_neg Bool.false_ne_true, hturn]
  rfl

/-- What the turns behind the coinbase leave behind.  Each adds undo data with the
coins that its inputs refer to in the view before it.  If the flags are right and
nothing is overwritten, the coins change as the transactions say. -/
theorem connectLoop_spec (hi : 0 < i)
    (htxs : ∀ tx ∈ txs, tx.isCoinBase = false ∧ (tx.vin.map TxIn.prevout).Nodup)
    (h : connectLoop hash256 rules env e index i txs s = some s')
    (hvalid : s'.state.isValid = true) :
    ∃ undos : List TxUndo, s'.vtxundo = s.vtxundo ++ undos ∧ undos.length = txs.length ∧
      (∀ n tx, txs[n]? = some tx → ∃ undo sₙ, undos[n]? = some undo ∧
        connectLoop hash256 rules env e index i (txs.take n) s = some sₙ ∧
        Spends sₙ.view.peek tx.vin undo.vprevout) ∧
      s'.view.base = s.view.base ∧
      (s.view.Coherent → (∀ tx ∈ txs, NoOverwrite hash256 s.view.base tx) →
        ∀ m : CoinMap, CoinMap.Sub s.view.peek m → ∃ m',
          Applies hash256 index.nHeight m txs undos m' ∧ s'.view.Coherent ∧
            CoinMap.Sub s'.view.peek m') := by
  induction txs generalizing i s s' with
  | nil =>
    cases h
    refine ⟨[], by rw [append_nil], rfl, ?_, rfl, ?_⟩
    · intro n tx htx
      cases htx
    · intro hview _ m hsub
      exact ⟨m, Applies.nil m, hview, hsub⟩
  | cons tx rest ih =>
    obtain ⟨hs, s₁, hturn, hvalid₁, hrest⟩ := connectLoop_cons h hvalid
    obtain ⟨hcoinbase, hnodup⟩ := htxs tx mem_cons_self
    obtain ⟨undo, hundo, hspends, hbase, hcoherent⟩ :=
      connectTransaction_spec hnodup hturn hvalid₁
    obtain ⟨undos, hundos, hlength, hturns, hbase', happlies⟩ := ih (by omega)
      (forall_mem_cons.mp htxs).2 hrest hvalid
    rw [if_pos hi] at hundo
    refine ⟨undo :: undos, ?_, ?_, ?_, hbase'.trans hbase, ?_⟩
    · rw [hundos, hundo, append_assoc, singleton_append]
    · rw [length_cons, length_cons, hlength]
    · intro n tx' htx'
      cases n with
      | zero =>
        cases htx'
        exact ⟨undo, s, rfl, rfl, hspends hcoinbase⟩
      | succ n =>
        obtain ⟨undo', sₙ, hundo', hloop, hspends'⟩ := hturns n tx' htx'
        refine ⟨undo', sₙ, hundo', ?_, hspends'⟩
        rw [take_succ_cons, connectLoop_of_turn hs hturn]
        exact hloop
    · intro hview hnew m hsub
      obtain ⟨hview₁, hpeek₁⟩ := hcoherent hview fun _ => hnew tx mem_cons_self
      have hsub₁ : CoinMap.Sub s₁.view.peek (applyTx hash256 index.nHeight m tx) := by
        rw [hpeek₁]
        exact hsub.applyTx index.nHeight tx
      obtain ⟨m', hm', hview', hsub'⟩ := happlies hview₁
        (hbase ▸ (forall_mem_cons.mp hnew).2) _ hsub₁
      exact ⟨m', Applies.cons ((hspends hcoinbase).mono hsub) hm', hview', hsub'⟩

end BitcoinKernel.Validation.Coins
