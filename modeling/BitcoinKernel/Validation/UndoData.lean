import BitcoinKernel.Core.TransactionCheck
import BitcoinKernel.Validation.CoinMap

/-!
# The undo data of a block

What `ConnectBlock` writes into the undo data of a block, and what `DisconnectBlock`
makes of it.

There are three groups.

* Blocks.  A block that passes `CheckBlock` starts with its only coinbase, and no
  transaction has an input twice (`Shaped`).
* Connecting.  `connectTransactions_spec` says that the undo data has the coins of the
  inputs, each as it was before its transaction (`LinesUp`).
* Disconnecting.  `disconnectBlock_sub` says that the coins afterwards are among those
  before the block, if the undo data is that of the block.  Coins can be lost: a
  coinbase that overwrites another is removed, and the other does not come back.
-/

namespace BitcoinKernel.Validation.Coins

open Serialize Consensus State WriteBack WriteBack.Cache CoinsViewCache Stateful List Function
open Outcome
open Option
open Chainman (BlockValidationState Params runCheckBlock runCheckBlock_of_exec)

variable {hash256 : List UInt8 → Uint256}

/-! ## Blocks that pass `CheckBlock` -/

/-- A block of a coinbase and other transactions, none of which has an input twice. -/
structure Shaped (block : Block) (coinbase : Transaction) (rest : List Transaction) : Prop where
  vtx : block.vtx = coinbase :: rest
  isCoinBase : coinbase.isCoinBase = true
  nodup : (coinbase.vin.map TxIn.prevout).Nodup
  others : ∀ tx ∈ rest, tx.isCoinBase = false ∧ (tx.vin.map TxIn.prevout).Nodup

variable {txs rest : List Transaction} {params : Params} {history : List Call}
  {state : BlockValidationState} {cache : BlockCache} {m coins m' : CoinMap} {s s₀ : ConnectState}
  {nHeight : Nat} {r : ConnectResult} {tx coinbase : Transaction} {o : OutPoint}
  {view view' : CoinsViewCache} {fClean : Bool} {undo : BlockUndo}

theorem checkTransaction_of_mem (h : checkTransactions hash256 txs = .ok ()) :
    ∀ tx ∈ txs, checkTransaction tx = .ok () := by
  induction txs with
  | nil => exact fun _ hmem => by cases hmem
  | cons tx txs ih =>
    intro tx' hmem
    unfold checkTransactions at h
    cases hcheck : checkTransaction tx with
    | error rejection =>
      rw [hcheck] at h
      cases h
    | ok _ =>
      rw [hcheck] at h
      rcases mem_cons.mp hmem with rfl | hmem
      · exact hcheck
      · exact ih h tx' hmem

theorem shaped_of_checkStructure {block : Block} (h : checkStructure hash256 block = .ok ()) :
    ∃ coinbase rest, Shaped block coinbase rest := by
  unfold checkStructure at h
  dsimp only at h
  obtain ⟨-, h⟩ := throwIf_bind_eq_ok_iff.mp h
  obtain ⟨hfirst, h⟩ := throwIf_bind_eq_ok_iff.mp h
  obtain ⟨hothers, h⟩ := throwIf_bind_eq_ok_iff.mp h
  obtain ⟨_, htxs, -⟩ := Outcome.bind_eq_ok_iff.mp h
  have hnodup : ∀ tx ∈ block.vtx, (tx.vin.map TxIn.prevout).Nodup := fun tx hmem =>
    ((checkTransaction_eq_ok_iff tx).mp (checkTransaction_of_mem htxs tx hmem)).distinct
  cases hvtx : block.vtx with
  | nil =>
    rw [hvtx] at hfirst
    exact absurd rfl hfirst
  | cons coinbase rest =>
    rw [hvtx] at hfirst hothers hnodup
    refine ⟨coinbase, rest, hvtx, by simpa using hfirst, hnodup _ mem_cons_self, ?_⟩
    intro tx hmem
    refine ⟨?_, hnodup tx (mem_cons_of_mem _ hmem)⟩
    simpa using fun htx => hothers (any_eq_true.mpr ⟨tx, hmem, htx⟩)

/-- A block object that passes `CheckBlock` has passed the checks of its contents, now or
in an earlier call. -/
theorem checkStructure_of_runCheckBlock {block : Block}
    (h : runCheckBlock hash256 params (BlockObject.after hash256 { block } history) {} =
      (true, state, cache)) : checkStructure hash256 block = .ok () := by
  obtain ⟨hblock, hmarks⟩ := marks_after hash256 block history
  generalize BlockObject.after hash256 { block } history = object at hblock hmarks h
  have hok : (exec (checkBlock hash256 params.toConsensusParams block true true)
      object.cache).1 = .ok () := by
    cases hexec : exec (checkBlock hash256 params.toConsensusParams block true true)
      object.cache with
    | mk verdict cache' =>
      rw [← hblock] at hexec
      rw [runCheckBlock_of_exec hash256 params {} hexec] at h
      cases verdict with
      | ok _ => rfl
      | error rejection => cases h
  by_cases hchecked : object.cache.fChecked = true
  · obtain ⟨call, -, -, -, -, hcontent⟩ := hmarks.fChecked.mp hchecked
    exact hcontent.2
  · have hunchecked := hmarks.unchecked hash256 hchecked
    rw [(exec_checkBlock_of_unchecked hash256 params.toConsensusParams true true
      hunchecked).1, freshVerdict_eq_ok_iff] at hok
    exact hok.2.2

/-! ## Connecting -/

variable {rules : ConnectRules} {t : BlockTree} {env : ConnectEnv} {e : EntryPtr}
  {index : BlockIndex} {block : Block}

variable (hash256 rules t) in
/-- The coins in the view of `ConnectBlock` before the transaction at a position. -/
def Connection.coinsBefore (index : BlockIndex) (block : Block) (c : Connection) (position : Nat) :
    CoinMap := fun outpoint => do
  let s ← connectStart hash256 rules t index block c.coins
  let s ← connectLoop hash256 rules c.env c.entry index 0 (block.vtx.take position) s
  s.view.peek outpoint

/-- The spent outputs of a block are those that its inputs refer to, where `before` has
the coins before the transaction at a position. -/
structure LinesUp (block : Block) (before : Nat → CoinMap) (spent : BlockUndo) : Prop where
  count : spentCount spent + 1 = block.vtx.length
  coins : ∀ i tx, block.vtx[i + 1]? = some tx → ∃ txSpent,
    transactionSpentOutputs spent i = .ok txSpent ∧ coinCount txSpent = tx.vin.length ∧
      ∀ j txin, tx.vin[j]? = some txin → ∃ coin,
        spentCoin txSpent j = .ok coin ∧ before (i + 1) txin.prevout = some coin

theorem checkedGet_of_getElem? {α : Type} {v : List α} {i : Nat} {item : α}
    (h : v[i]? = some item) : checkedGet v i = .ok item := by
  have hlt : i < v.length := (List.getElem?_eq_some_iff.mp h).1
  unfold checkedGet Core.getAt
  rw [if_neg (by omega), h]

theorem Spends.getElem? {vin : List TxIn} {coins : List Coin} (h : Spends m vin coins) :
    coins.length = vin.length ∧ ∀ (j : Nat) (txin : TxIn), vin[j]? = some txin →
        ∃ coin : Coin, coins[j]? = some coin ∧ m txin.prevout = some coin := by
  induction h with
  | nil => exact ⟨rfl, fun _ _ htxin => by cases htxin⟩
  | cons hhead _ ih =>
    obtain ⟨hlength, hcoins⟩ := ih
    refine ⟨by rw [length_cons, length_cons, hlength], fun j txin htxin => ?_⟩
    cases j with
    | zero =>
      cases htxin
      exact ⟨_, rfl, hhead⟩
    | succ j => exact hcoins j txin htxin

/-- The loop that looks for coins that would be overwritten only reads, and the state
stays valid only if there are none. -/
theorem checkBip30_spec {outpoints : List OutPoint} :
    ∀ {s : ConnectState}, Reads s.view (checkBip30 outpoints s).view ∧
      (checkBip30 outpoints s).vtxundo = s.vtxundo ∧
      ((checkBip30 outpoints s).state.isValid = true →
        s.state.isValid = true ∧ ∀ o ∈ outpoints, s.view.peek o = none) := by
  induction outpoints with
  | nil => exact ⟨Reads.refl _, rfl, fun h => ⟨h, fun _ hmem => by cases hmem⟩⟩
  | cons o outpoints ih =>
    intro s
    have hread := reads_fetch s.view o
    by_cases hcoin : haveCoin (s.view.fetch o) o = true
    · have hturn : checkBip30 (o :: outpoints) s = checkBip30 outpoints
          (({ s with view := s.view.fetch o } : ConnectState).invalid "bad-txns-BIP30"
            "tried to overwrite transaction") := by
        unfold checkBip30
        rw [foldl_cons]
        dsimp only
        rw [if_pos hcoin]
      rw [hturn]
      obtain ⟨hread', hundo, hvalid⟩ := @ih
        (({ s with view := s.view.fetch o } : ConnectState).invalid "bad-txns-BIP30"
          "tried to overwrite transaction")
      refine ⟨hread.trans hread', hundo, fun h => ?_⟩
      have hinvalid := (hvalid h).1
      rw [isValid_invalid] at hinvalid
      cases hinvalid
    · have hturn : checkBip30 (o :: outpoints) s =
          checkBip30 outpoints { s with view := s.view.fetch o } := by
        unfold checkBip30
        rw [foldl_cons]
        dsimp only
        rw [if_neg hcoin]
      rw [hturn]
      obtain ⟨hread', hundo, hvalid⟩ := @ih { s with view := s.view.fetch o }
      refine ⟨hread.trans hread', hundo, fun h => ?_⟩
      obtain ⟨hs, hnone⟩ := hvalid h
      refine ⟨hs, fun o' hmem => ?_⟩
      rcases mem_cons.mp hmem with rfl | hmem
      · unfold haveCoin at hcoin
        rw [hread.peek] at hcoin
        simpa using hcoin
      · rw [← hread.peek]
        exact hnone o' hmem

theorem connectStart_spec (h : connectStart hash256 rules t index block coins = some s) :
    ∃ enforce, enforceBip30 rules t index = some enforce ∧ Reads (Cache.above coins) s.view ∧
      s.vtxundo = [] ∧ (s.state.isValid = true → enforce = true →
        ∀ o ∈ createdOutPoints hash256 block, coins o = none) := by
  unfold connectStart at h
  obtain ⟨enforce, henforce, h⟩ := bind_eq_some_iff.mp h
  refine ⟨enforce, henforce, ?_⟩
  cases h
  cases enforce with
  | false => exact ⟨Reads.refl _, rfl, fun _ h => by cases h⟩
  | true =>
    obtain ⟨hread, hundo, hvalid⟩ := @checkBip30_spec (createdOutPoints hash256 block)
      { view := Cache.above coins }
    exact ⟨hread, hundo, fun h _ => (hvalid h).2⟩

variable (hash256) in
/-- The effect of a block on the coins, with its undo data. -/
def BlockApplies (nHeight : Nat) (block : Block) (m : CoinMap) (undo : BlockUndo) (m' : CoinMap) :
    Prop :=
  ∃ coinbase rest, Shaped block coinbase rest ∧
    Applies hash256 nHeight (applyTx hash256 nHeight m coinbase) rest undo.vtxundo m'

theorem BlockApplies.unique {m₁ m₂ : CoinMap} {undo₁ undo₂ : BlockUndo}
    (h₁ : BlockApplies hash256 nHeight block m undo₁ m₁)
    (h₂ : BlockApplies hash256 nHeight block m undo₂ m₂) : undo₁ = undo₂ ∧ m₁ = m₂ := by
  obtain ⟨coinbase, rest, hshape, h₁⟩ := h₁
  obtain ⟨coinbase', rest', hshape', h₂⟩ := h₂
  have hvtx := hshape.vtx.symm.trans hshape'.vtx
  rw [List.cons.injEq] at hvtx
  obtain ⟨rfl, rfl⟩ := hvtx
  obtain ⟨hundo, hm⟩ := h₁.unique h₂
  cases undo₁
  cases undo₂
  exact ⟨congrArg BlockUndo.mk hundo, hm⟩

theorem checkReward_spec {s' : ConnectState} (h : checkReward rules index block s = some s') :
    s'.view = s.view ∧ s'.vtxundo = s.vtxundo ∧
      (s'.state.isValid = true → s.state.isValid = true) := by
  unfold checkReward at h
  obtain ⟨coinbase, -, h⟩ := bind_eq_some_iff.mp h
  obtain ⟨valueOut, -, h⟩ := bind_eq_some_iff.mp h
  dsimp only at h
  split_ifs at h with hmuch
  · cases h
    exact ⟨rfl, rfl, fun _ => hmuch.2⟩
  · cases h
    exact ⟨rfl, rfl, id⟩

theorem checkComplete_spec (env : ConnectEnv) (s : ConnectState) :
    (checkComplete env s).view = s.view ∧ (checkComplete env s).vtxundo = s.vtxundo ∧
      ((checkComplete env s).state.isValid = true → s.state.isValid = true) := by
  unfold checkComplete
  split
  · split_ifs with hvalid
    · exact ⟨rfl, rfl, fun _ => hvalid⟩
    · exact ⟨rfl, rfl, id⟩
  · exact ⟨rfl, rfl, id⟩

/-- The checks behind the loop leave the coins and the undo data of the loop. -/
theorem connectTransactions_cases
    (h : connectTransactions hash256 rules t env e index block coins = some r)
    (hconnected : r.connected = true) :
    ∃ s₀ s₁, connectStart hash256 rules t index block coins = some s₀ ∧
      connectLoop hash256 rules env e index 0 block.vtx s₀ = some s₁ ∧
      s₁.state.isValid = true ∧ r.view = s₁.view ∧ r.undo = some ⟨s₁.vtxundo⟩ := by
  unfold connectTransactions at h
  obtain ⟨s₀, hstart, h⟩ := bind_eq_some_iff.mp h
  obtain ⟨s₁, hloop, h⟩ := bind_eq_some_iff.mp h
  obtain ⟨s₂, hreward, h⟩ := bind_eq_some_iff.mp h
  obtain ⟨hview₂, hundo₂, hvalid₂⟩ := checkReward_spec hreward
  obtain ⟨hview₃, hundo₃, hvalid₃⟩ := checkComplete_spec env s₂
  cases h
  have hvalid : (checkComplete env s₂).state.isValid = true := hconnected
  refine ⟨s₀, s₁, hstart, hloop, hvalid₂ (hvalid₃ hvalid), hview₃.trans hview₂, ?_⟩
  dsimp only
  rw [if_pos hvalid, hundo₃, hundo₂]

/-- No coin is overwritten if `ConnectBlock` has looked for that. -/
theorem noOverwrite_of_created (hmem : tx ∈ block.vtx)
    (hnone : ∀ o ∈ createdOutPoints hash256 block, coins o = none) :
    NoOverwrite hash256 coins tx := by
  intro o ho
  apply hnone
  unfold createdOutPoints
  rw [mem_flatMap]
  exact ⟨tx, hmem, mem_map.mpr ⟨o, mem_range.mpr ho, rfl⟩⟩

theorem noOverwrite_of_start (hstart : connectStart hash256 rules t index block coins = some s₀)
    (hvalid : s₀.state.isValid = true) (htxs : txs ⊆ block.vtx)
    (hnew : enforceBip30 rules t index = some false → ∀ tx ∈ txs, NoOverwrite hash256 coins tx) :
    ∀ tx ∈ txs, NoOverwrite hash256 coins tx := by
  obtain ⟨enforce, henforce, -, -, hnone⟩ := connectStart_spec hstart
  cases enforce with
  | false => exact hnew henforce
  | true => exact fun tx hmem => noOverwrite_of_created (htxs hmem) (hnone hvalid rfl)

/-- The turn of the coinbase. -/
theorem connectTransaction_coinbase {sₐ : ConnectState} (hshape : Shaped block coinbase rest)
    (hstart : connectStart hash256 rules t index block coins = some s₀)
    (hturn : connectTransaction hash256 rules env e index 0 coinbase s₀ = some sₐ)
    (hvalid : sₐ.state.isValid = true) :
    sₐ.vtxundo = [] ∧ sₐ.view.base = coins ∧ sₐ.view.Coherent ∧
      sₐ.view.peek = applyTx hash256 index.nHeight coins coinbase := by
  obtain ⟨_, -, hread, hundo₀, -⟩ := connectStart_spec hstart
  obtain ⟨_, hundo, -, hbase, hcoherent⟩ := connectTransaction_spec hshape.nodup hturn hvalid
  obtain ⟨hview, hpeek⟩ := hcoherent (hread.coherent (coherent_above coins)) fun hnot => by
    rw [hshape.isCoinBase] at hnot
    cases hnot
  rw [hread.peek] at hpeek
  exact ⟨hundo.trans hundo₀, hbase.trans hread.base, hview, hpeek⟩

/-- The undo data of a block that is connected lines up with its inputs.  If no coin is
overwritten, the coins change as the block says. -/
theorem connectTransactions_spec (hshape : Shaped block coinbase rest)
    (h : connectTransactions hash256 rules t env e index block coins = some r)
    (hconnected : r.connected = true) :
    ∃ undo, r.undo = some undo ∧
      LinesUp block (Connection.coinsBefore hash256 rules t index block ⟨e, env, coins⟩) undo ∧
      ((enforceBip30 rules t index = some false → ∀ tx ∈ rest, NoOverwrite hash256 coins tx) →
        ∀ m : CoinMap, CoinMap.Sub coins m → ∃ m',
          BlockApplies hash256 index.nHeight block m undo m' ∧ r.view.base = coins ∧
            r.view.Coherent ∧ CoinMap.Sub r.view.peek m') := by
  obtain ⟨s₀, s₁, hstart, hloop, hvalid, hview, hundo⟩ := connectTransactions_cases h hconnected
  -- the turn of the coinbase, and those of the other transactions
  rw [hshape.vtx] at hloop
  obtain ⟨hs₀, sₐ, hturn, hvalidₐ, hloop⟩ := connectLoop_cons hloop hvalid
  obtain ⟨hundoₐ, hbase, hviewₐ, hpeekₐ⟩ :=
    connectTransaction_coinbase hshape hstart hturn hvalidₐ
  obtain ⟨undos, hundos, hlength, hturns, hbase₁, happlies⟩ :=
    connectLoop_spec Nat.one_pos hshape.others hloop hvalid
  rw [hundoₐ, nil_append] at hundos
  refine ⟨⟨undos⟩, hundos ▸ hundo, ⟨?_, ?_⟩, ?_⟩
  · show undos.length + 1 = block.vtx.length
    rw [hshape.vtx, length_cons, hlength]
  · intro i tx htx
    rw [hshape.vtx, getElem?_cons_succ] at htx
    obtain ⟨undo, sₙ, hundo, hloopₙ, hspends⟩ := hturns i tx htx
    obtain ⟨hcount, hcoins⟩ := hspends.getElem?
    refine ⟨undo, checkedGet_of_getElem? hundo, hcount, fun j txin htxin => ?_⟩
    obtain ⟨coin, hcoin, hbefore⟩ := hcoins j txin htxin
    refine ⟨coin, checkedGet_of_getElem? hcoin, ?_⟩
    unfold Connection.coinsBefore
    rw [hstart, bind_eq_bind, bind_some, hshape.vtx, take_succ_cons,
      connectLoop_of_turn hs₀ hturn, hloopₙ]
    exact hbefore
  · intro hnew m hsub
    have hoverwrite := noOverwrite_of_start hstart hs₀
      (hshape.vtx ▸ subset_cons_self coinbase rest) hnew
    obtain ⟨m', hm', hview', hsub'⟩ := happlies hviewₐ (hbase ▸ hoverwrite) _
      (hpeekₐ ▸ CoinMap.Sub.applyTx hsub index.nHeight coinbase)
    rw [hview]
    exact ⟨m', ⟨coinbase, rest, hshape, hm'⟩, hbase₁.trans hbase, hview', hsub'⟩

/-- A block that `ConnectBlock` connects has right contents.  It is the genesis block, or
has the right shape and passes the loop. -/
theorem connectBlock_cases {bestBlock : Option EntryPtr}
    (h : connectBlock hash256 params rules t env e index block bestBlock coins = some r)
    (hconnected : r.connected = true) :
    index.pprev = bestBlock ∧ checkStructure hash256 block = .ok () ∧
      ((index.hash = params.hashGenesisBlock ∧ r.undo = none ∧ r.view = Cache.above coins) ∨
        (index.hash ≠ params.hashGenesisBlock ∧ ∃ coinbase rest, Shaped block coinbase rest ∧
          connectTransactions hash256 rules t env e index block coins = some r)) := by
  unfold connectBlock at h
  dsimp only at h
  by_cases hhash : index.hash ≠ block.getHash hash256
  · rw [if_pos hhash] at h
    cases h
  rw [if_neg hhash] at h
  split at h
  · split_ifs at h
    · cases h
      cases hconnected
    · cases h
      cases hconnected
  · rename_i hcheck
    by_cases hbest : index.pprev ≠ bestBlock
    · rw [if_pos hbest] at h
      cases h
    rw [if_neg hbest] at h
    have hchecked := checkStructure_of_runCheckBlock hcheck
    refine ⟨not_not.mp hbest, hchecked, ?_⟩
    by_cases hgenesis : index.hash = params.hashGenesisBlock
    · rw [if_pos hgenesis] at h
      cases h
      exact Or.inl ⟨hgenesis, rfl, rfl⟩
    · rw [if_neg hgenesis] at h
      obtain ⟨coinbase, rest, hshape⟩ := shaped_of_checkStructure hchecked
      exact Or.inr ⟨hgenesis, coinbase, rest, hshape, h⟩

/-! ## Disconnecting -/

theorem CoinMap.eraseAll_of_mem {os : List OutPoint} (h : o ∈ os) : m.eraseAll os o = none := by
  induction os generalizing m with
  | nil => cases h
  | cons o' os ih =>
    show CoinMap.eraseAll (Function.update m o' none) os o = none
    by_cases hmem : o ∈ os
    · exact ih hmem
    · rcases mem_cons.mp h with rfl | h
      · rw [CoinMap.eraseAll_of_notMem hmem, update_self]
      · exact absurd h hmem

/-- A coin that was added is one of the new coins, and the others are as before. -/
theorem CoinMap.insertAll_cases (m : CoinMap) (l : List (OutPoint × Coin)) (o : OutPoint) :
    m.insertAll l o = m o ∨ ∃ coin, (o, coin) ∈ l ∧ coin.out.scriptPubKey.isUnspendable = false ∧
        m.insertAll l o = some coin := by
  induction l generalizing m with
  | nil => exact Or.inl rfl
  | cons p l ih =>
    obtain ⟨o', coin'⟩ := p
    unfold CoinMap.insertAll
    split_ifs with hunspendable
    · rcases ih m with hsame | ⟨coin, hmem, hspendable, heq⟩
      · exact Or.inl hsame
      · exact Or.inr ⟨coin, mem_cons_of_mem _ hmem, hspendable, heq⟩
    · rcases ih (Function.update m o' (some coin')) with hsame | ⟨coin, hmem, hspendable, heq⟩
      · by_cases ho : o = o'
        · subst ho
          rw [update_self] at hsame
          exact Or.inr ⟨coin', mem_cons_self, by simpa using hunspendable, hsame⟩
        · rw [update_of_ne ho] at hsame
          exact Or.inl hsame
      · exact Or.inr ⟨coin, mem_cons_of_mem _ hmem, hspendable, heq⟩

/-- The outputs of a transaction are gone afterwards, and nothing is new. -/
theorem removeOutputs_spec {isException : Bool} {l : List (OutPoint × Coin)} (hview : view.Coherent)
    (h : (removeOutputs isException l view).2 = view') :
    view'.Coherent ∧ view'.base = view.base ∧ CoinMap.Sub view'.peek view.peek ∧
      ∀ o coin, (o, coin) ∈ l → coin.out.scriptPubKey.isUnspendable = false →
        view'.peek o = none := by
  induction l generalizing view view' with
  | nil =>
    cases h
    exact ⟨hview, rfl, CoinMap.Sub.refl _, fun _ _ hmem => by cases hmem⟩
  | cons p l ih =>
    obtain ⟨out, expected⟩ := p
    -- the view behind the first output, where the output has no coin
    have hfirst : ∃ view₁, view₁.Coherent ∧ view₁.base = view.base ∧
        CoinMap.Sub view₁.peek view.peek ∧
        (expected.out.scriptPubKey.isUnspendable = false → view₁.peek out = none) ∧
        (removeOutputs isException l view₁).2 = view' := by
      unfold removeOutputs at h
      by_cases hunspendable : expected.out.scriptPubKey.isUnspendable = true
      · rw [if_pos hunspendable] at h
        refine ⟨view, hview, rfl, CoinMap.Sub.refl _, fun hspendable => ?_, h⟩
        rw [hunspendable] at hspendable
        cases hspendable
      rw [if_neg hunspendable] at h
      cases htake : view.take out with
      | none =>
        unfold spendCoin at h
        rw [htake] at h
        exact ⟨view, hview, rfl, CoinMap.Sub.refl _, fun _ => peek_of_take_eq_none htake, h⟩
      | some taken =>
        obtain ⟨o, view₁⟩ := taken
        unfold spendCoin at h
        rw [htake] at h
        have hpeek := hview.peek_take htake
        refine ⟨view₁, hview.take htake, base_take htake, ?_, fun _ => ?_, h⟩
        · rw [hpeek]
          exact CoinMap.sub_update_none view.peek out
        · rw [hpeek, update_self]
    obtain ⟨view₁, hview₁, hbase₁, hsub₁, hnone₁, hrest⟩ := hfirst
    obtain ⟨hview', hbase, hsub, hnone⟩ := ih hview₁ hrest
    refine ⟨hview', hbase.trans hbase₁, hsub.trans hsub₁, fun o coin hmem hspendable => ?_⟩
    rcases mem_cons.mp hmem with hhead | hmem
    · cases hhead
      exact hsub.eq_none (hnone₁ hspendable)
    · exact hnone o coin hmem hspendable

/-- `ApplyTxInUndo` adds a coin to a view that was only read. -/
theorem applyTxInUndo_parts {undo : Coin} {out : OutPoint}
    (h : applyTxInUndo undo view out = .ok (fClean, view')) :
    ∃ coin possibleOverwrite, undoMetadata undo (view.fetch out) out.hash = .ok coin ∧
      addCoin (view.fetch out) out coin possibleOverwrite = some view' := by
  unfold applyTxInUndo at h
  dsimp only at h
  obtain ⟨coin, hmetadata, h⟩ := bind_eq_ok_iff.mp h
  obtain ⟨view₁, hadd, h⟩ := bind_eq_ok_iff.mp h
  cases h
  exact ⟨coin, _, hmetadata, ofOption_eq_ok_iff.mp hadd⟩

theorem undoMetadata_of_height {undo coin : Coin} {txid : Uint256} (hheight : undo.nHeight ≠ 0)
    (h : undoMetadata undo view txid = .ok coin) : coin = undo := by
  unfold undoMetadata at h
  rw [if_neg hheight] at h
  cases h
  rfl

/-- `ApplyTxInUndo` for a coin with its height: a coin that is there afterwards was
there before, or is that of the undo data. -/
theorem applyTxInUndo_spec {undo : Coin} {out : OutPoint} (hview : view.Coherent)
    (hheight : undo.nHeight ≠ 0) (h : applyTxInUndo undo view out = .ok (fClean, view')) :
    view'.Coherent ∧ view'.base = view.base ∧ ∀ o coin, view'.peek o = some coin →
      view.peek o = some coin ∨ (coin = undo ∧ out = o) := by
  have hread := reads_fetch view out
  have hfetched := hread.coherent hview
  obtain ⟨coin, _, hmetadata, hadd⟩ := applyTxInUndo_parts h
  cases undoMetadata_of_height hheight hmetadata
  unfold addCoin at hadd
  split_ifs at hadd with hspent hunspendable
  · cases hadd
    refine ⟨hfetched, hread.base, fun o coin ho => Or.inl ?_⟩
    rw [← hread.peek]
    exact ho
  · obtain ⟨hbase, hpeek⟩ := peek_put hadd
    refine ⟨hfetched.put hadd fun _ hentry => ?_, hbase.trans hread.base, fun o coin ho => ?_⟩
    · rw [hread.base]
      exact base_of_entryAt_fetch hentry
    · rw [hpeek, hread.peek] at ho
      by_cases heq : o = out
      · subst heq
        rw [update_self, Option.some.injEq] at ho
        exact Or.inr ⟨ho.symm, rfl⟩
      · rw [update_of_ne heq] at ho
        exact Or.inl ho

/-- A coin that is there after `restoreInputs` was there before, or is from the undo
data. -/
theorem restoreInputs_spec {l : List (TxIn × Coin)} (hview : view.Coherent)
    (hheights : ∀ p ∈ l, p.2.nHeight ≠ 0) (h : restoreInputs l view = .ok (fClean, view')) :
    view'.Coherent ∧ view'.base = view.base ∧ ∀ o coin, view'.peek o = some coin →
        view.peek o = some coin ∨ ∃ txin, (txin, coin) ∈ l ∧ txin.prevout = o := by
  induction l generalizing view view' fClean with
  | nil =>
    cases h
    exact ⟨hview, rfl, fun _ _ ho => Or.inl ho⟩
  | cons p l ih =>
    obtain ⟨txin, undo⟩ := p
    unfold restoreInputs at h
    obtain ⟨⟨clean, view₁⟩, happly, h⟩ := bind_eq_ok_iff.mp h
    obtain ⟨⟨restClean, view₂⟩, hrest, h⟩ := bind_eq_ok_iff.mp h
    cases h
    have hfirst : view₁.Coherent ∧ view₁.base = view.base ∧ ∀ o coin, view₁.peek o = some coin →
        view.peek o = some coin ∨ (coin = undo ∧ txin.prevout = o) :=
      applyTxInUndo_spec hview (hheights _ mem_cons_self) happly
    obtain ⟨hview₁, hbase₁, hcoins₁⟩ := hfirst
    obtain ⟨hview', hbase, hcoins⟩ := ih hview₁ (forall_mem_cons.mp hheights).2 hrest
    refine ⟨hview', hbase.trans hbase₁, fun o coin ho => ?_⟩
    rcases hcoins o coin ho with ho | ⟨txin', hmem, hprevout⟩
    · rcases hcoins₁ o coin ho with ho | ⟨rfl, hprevout⟩
      · exact Or.inl ho
      · exact Or.inr ⟨txin, mem_cons_self, hprevout⟩
    · exact Or.inr ⟨txin', mem_cons_of_mem _ hmem, hprevout⟩

/-- Coins of blocks behind the genesis block. -/
def Confirmed (m : CoinMap) : Prop := ∀ o coin, m o = some coin → coin.nHeight ≠ 0

/-- A coin behind a transaction was there before, or is one of its outputs. -/
theorem applyTx_cases {coin : Coin} (h : applyTx hash256 nHeight m tx o = some coin) :
    m o = some coin ∨ ((o, coin) ∈ outputCoins hash256 tx nHeight ∧
      coin.out.scriptPubKey.isUnspendable = false) := by
  unfold applyTx at h
  rcases CoinMap.insertAll_cases
    (if tx.isCoinBase then m else m.eraseAll (tx.vin.map TxIn.prevout))
    (outputCoins hash256 tx nHeight) o with hsame | ⟨coin', hmem, hspendable, heq⟩
  · rw [hsame] at h
    split_ifs at h
    · exact Or.inl h
    · by_cases hinput : o ∈ tx.vin.map TxIn.prevout
      · rw [CoinMap.eraseAll_of_mem hinput] at h
        cases h
      · rw [CoinMap.eraseAll_of_notMem hinput] at h
        exact Or.inl h
  · cases heq.symm.trans h
    exact Or.inr ⟨hmem, hspendable⟩

theorem Confirmed.applyTx (h : Confirmed m) (hheight : BitVec.ofNat 31 nHeight ≠ 0)
    (tx : Transaction) : Confirmed (applyTx hash256 nHeight m tx) := by
  intro o coin ho
  rcases applyTx_cases ho with ho | ⟨hmem, -⟩
  · exact h o coin ho
  · unfold outputCoins at hmem
    obtain ⟨out, -, hcoin⟩ := mem_map.mp hmem
    rw [Prod.mk.injEq] at hcoin
    rw [← hcoin.2]
    exact hheight

/-- The undo data that belongs to a transaction: none for the coinbase, and else the
coins of the inputs. -/
inductive UndoOf (m : CoinMap) (tx : Transaction) : Option TxUndo → Prop
  | coinbase (h : tx.isCoinBase = true) : UndoOf m tx none
  | spends (h : tx.isCoinBase = false) (undo : TxUndo)
      (hspends : Spends m tx.vin undo.vprevout) : UndoOf m tx (some undo)

/-- Disconnecting a transaction leaves only coins from before it. -/
theorem disconnectTransaction_sub {undo : Option TxUndo} (hview : view.Coherent)
    (hsub : CoinMap.Sub view.peek (applyTx hash256 index.nHeight m tx)) (hundo : UndoOf m tx undo)
    (hconfirmed : Confirmed m)
    (h : disconnectTransaction hash256 index tx undo view = .ok (fClean, view')) :
    view'.Coherent ∧ view'.base = view.base ∧ CoinMap.Sub view'.peek m := by
  unfold disconnectTransaction at h
  dsimp only at h
  generalize hremove : removeOutputs (tx.isCoinBase && isBip30Unspendable index)
    (outputCoins hash256 tx index.nHeight) view = removed at h
  obtain ⟨hview₁, hbase₁, hsub₁, hnone₁⟩ := removeOutputs_spec hview (congrArg Prod.snd hremove)
  have hm : CoinMap.Sub removed.2.peek m := by
    intro o coin ho
    rcases applyTx_cases (hsub o coin (hsub₁ o coin ho)) with hm | ⟨hmem, hspendable⟩
    · exact hm
    · rw [hnone₁ o coin hmem hspendable] at ho
      cases ho
  cases hundo with
  | coinbase =>
    cases h
    exact ⟨hview₁, hbase₁, hm⟩
  | spends _ undo hspends =>
    dsimp only at h
    split_ifs at h
    obtain ⟨⟨restored, view₂⟩, hrestore, h⟩ := bind_eq_ok_iff.mp h
    cases h
    have hzip : ∀ p ∈ (tx.vin.zip undo.vprevout).reverse, m p.1.prevout = some p.2 := by
      intro p hmem
      exact (forall₂_iff_zip.mp hspends).2 (mem_reverse.mp hmem)
    obtain ⟨hview₂, hbase₂, hcoins⟩ := restoreInputs_spec hview₁
      (fun p hmem => hconfirmed _ _ (hzip p hmem)) hrestore
    refine ⟨hview₂, hbase₂.trans hbase₁, fun o coin ho => ?_⟩
    rcases hcoins o coin ho with ho | ⟨txin, hmem, rfl⟩
    · exact hm o coin ho
    · exact hzip _ hmem

/-- The last turn of the loop of `DisconnectBlock`. -/
theorem disconnectLoop_snoc {undo : Option TxUndo} {l : List (Transaction × Option TxUndo)}
    (h : disconnectLoop hash256 index (l ++ [(tx, undo)]) view = .ok (fClean, view')) :
    ∃ clean view₁ clean', disconnectLoop hash256 index l view = .ok (clean, view₁) ∧
      disconnectTransaction hash256 index tx undo view₁ = .ok (clean', view') := by
  induction l generalizing view view' fClean with
  | nil =>
    rw [nil_append] at h
    unfold disconnectLoop at h
    obtain ⟨⟨clean, view₁⟩, hturn, h⟩ := bind_eq_ok_iff.mp h
    cases h
    exact ⟨true, view, clean, rfl, hturn⟩
  | cons p l ih =>
    obtain ⟨tx', undo'⟩ := p
    rw [cons_append] at h
    unfold disconnectLoop at h
    obtain ⟨⟨clean, view₁⟩, hfirst, h⟩ := bind_eq_ok_iff.mp h
    obtain ⟨⟨restClean, view₂⟩, hrest, h⟩ := bind_eq_ok_iff.mp h
    cases h
    obtain ⟨clean', view₃, clean'', hl, hl'⟩ := ih hrest
    refine ⟨clean && clean', view₃, clean'', ?_, hl'⟩
    conv_lhs => unfold disconnectLoop
    rw [hfirst, ok_bind]
    dsimp only
    rw [hl]
    rfl

/-- The loop of `DisconnectBlock` goes back over the transactions. -/
theorem disconnectLoop_sub {undos : List TxUndo}
    (happlies : Applies hash256 index.nHeight m txs undos m')
    (htxs : ∀ tx ∈ txs, tx.isCoinBase = false) (hconfirmed : Confirmed m)
    (hheight : BitVec.ofNat 31 index.nHeight ≠ 0) (hview : view.Coherent)
    (hsub : CoinMap.Sub view.peek m')
    (h : disconnectLoop hash256 index (txs.zip (undos.map some)).reverse view =
      .ok (fClean, view')) :
    view'.Coherent ∧ view'.base = view.base ∧ CoinMap.Sub view'.peek m := by
  induction happlies generalizing view view' fClean with
  | nil m =>
    cases h
    exact ⟨hview, rfl, hsub⟩
  | @cons m m' tx rest undo undos hspends _ ih =>
    rw [map_cons, zip_cons_cons, reverse_cons] at h
    obtain ⟨_, view₁, _, hrest, hturn⟩ := disconnectLoop_snoc h
    obtain ⟨hview₁, hbase₁, hsub₁⟩ := ih (forall_mem_cons.mp htxs).2
      (hconfirmed.applyTx hheight tx) hview hsub hrest
    have hundo : UndoOf m tx (some undo) := .spends (htxs tx mem_cons_self) undo hspends
    obtain ⟨hview₂, hbase₂, hsub₂⟩ :=
      disconnectTransaction_sub hview₁ hsub₁ hundo hconfirmed hturn
    exact ⟨hview₂, hbase₂.trans hbase₁, hsub₂⟩

/-- Disconnecting a block with its undo data leaves only coins from before it. -/
theorem disconnectBlock_sub (happlies : BlockApplies hash256 index.nHeight block m undo m')
    (hconfirmed : Confirmed m) (hheight : BitVec.ofNat 31 index.nHeight ≠ 0)
    (hsub : CoinMap.Sub coins m')
    (h : disconnectBlock hash256 index block (some undo) coins = .ok (fClean, view)) :
    view.Coherent ∧ view.base = coins ∧ CoinMap.Sub view.peek m := by
  obtain ⟨coinbase, rest, hshape, happlies⟩ := happlies
  unfold disconnectBlock disconnectOn at h
  dsimp only at h
  split_ifs at h
  rw [hshape.vtx, zip_cons_cons, reverse_cons] at h
  obtain ⟨_, view₁, _, hrest, hturn⟩ := disconnectLoop_snoc h
  obtain ⟨hview₁, hbase₁, hsub₁⟩ := disconnectLoop_sub happlies
    (fun tx hmem => (hshape.others tx hmem).1) (hconfirmed.applyTx hheight coinbase) hheight
    (coherent_above coins) hsub hrest
  obtain ⟨hview₂, hbase₂, hsub₂⟩ := disconnectTransaction_sub hview₁ hsub₁
    (.coinbase hshape.isCoinBase) hconfirmed hturn
  exact ⟨hview₂, hbase₂.trans hbase₁, hsub₂⟩

/-- The coins behind a block are confirmed if those before it are. -/
theorem BlockApplies.confirmed (h : BlockApplies hash256 nHeight block m undo m')
    (hconfirmed : Confirmed m) (hheight : BitVec.ofNat 31 nHeight ≠ 0) : Confirmed m' := by
  obtain ⟨coinbase, rest, -, happlies⟩ := h
  have hfirst : Confirmed (applyTx hash256 nHeight m coinbase) :=
    hconfirmed.applyTx hheight coinbase
  generalize applyTx hash256 nHeight m coinbase = m₁ at happlies hfirst
  generalize undo.vtxundo = undos at happlies
  induction happlies with
  | nil m => exact hfirst
  | cons _ _ ih => exact ih (hfirst.applyTx hheight _)

end BitcoinKernel.Validation.Coins
