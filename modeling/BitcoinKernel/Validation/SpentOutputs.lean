import BitcoinKernel.State.ChainAtHeight
import BitcoinKernel.Validation.GenesisPresent
import BitcoinKernel.Validation.UndoData

/-!
# Spent outputs line up with inputs

What `read_spent_outputs` returns for a block that was connected, after any sequence of
operations on the chainstate.

There are three groups.

* Steps.  `StepCases` says once what an operation can do to the coins, the undo data and
  the list of connections.
* The first connection.  It writes the undo data, and nothing changes it later
  (`Stored`).
* Later connections.  The ancestors of a node determine the coins behind it
  (`CoinsAt`).  A chainstate has only such coins, though it may lack some (`Kept`), so a
  block that is connected again spends the same coins.  This needs that no coin is
  overwritten by a transaction that is not a coinbase, which `ConnectBlock` checks
  except for blocks above the height of BIP34 on the known chain.

`spent_outputs_line_up` is the result.  The chain at the end has a block that spends
coins of an old coinbase and of its own, and is connected twice.
-/

namespace BitcoinKernel.Validation.Coins

open Serialize Consensus State WriteBack WriteBack.Cache CoinsViewCache List Option
open Chainman (ChainParams Rooted)

variable {hash256 : List UInt8 → Uint256} {params : ChainParams hash256} {rules : ConnectRules}
  {t : BlockTree} {blocks : EntryPtr → Block}

/-! ## Steps -/

variable (hash256 params rules t blocks) in
/-- What an operation can do. -/
inductive StepCases (w w' : CoinsWorld) : Prop
  | reads (hbest : w'.bestBlock = w.bestBlock) (hundo : w'.undo = w.undo)
      (hconnections : w'.connections = w.connections)
      (hcoins : w.coinsTip.Coherent → w'.coinsTip.Coherent ∧ w'.coinsTip.peek = w.coinsTip.peek)
  | wiped (hbest : w'.bestBlock = none) (hundo : w'.undo = w.undo)
      (hconnections : w'.connections = w.connections)
      (hcoins : w'.coinsTip = Cache.above fun _ => none)
  | connected (e : EntryPtr) (env : ConnectEnv) (index : BlockIndex) (r : ConnectResult)
      (hindex : t.index? e = some index)
      (hconnect : connectBlock hash256 params.toParams rules t env e index (blocks e) w.bestBlock
        w.coinsTip.peek = some r) (hconnected : r.connected = true)
      (hcoins : w.coinsTip.batchWrite r.view = some w'.coinsTip) (hbest : w'.bestBlock = some e)
      (hundo : w'.undo = match r.undo with
        | none => w.undo
        | some blockundo => writeBlockUndo w.undo e blockundo)
      (hconnections : w'.connections = w.connections ++ [⟨e, env, w.coinsTip.peek⟩])
  | disconnected (e prev : EntryPtr) (index : BlockIndex) (undo : BlockUndo)
      (view : CoinsViewCache) (hindex : t.index? e = some index)
      (hprev : index.pprev = some prev) (hbest : w.bestBlock = some e)
      (hstored : w.undo e = some undo)
      (hdisconnect : disconnectBlock hash256 index (blocks e) (some undo) w.coinsTip.peek =
        .ok (true, view))
      (hcoins : w.coinsTip.batchWrite view = some w'.coinsTip) (hbest' : w'.bestBlock = some prev)
      (hundo : w'.undo = w.undo) (hconnections : w'.connections = w.connections)

/-- An operation that changes nothing. -/
theorem StepCases.same (w : CoinsWorld) : StepCases hash256 params rules t blocks w w :=
  .reads rfl rfl rfl fun h => ⟨h, rfl⟩

variable {e prev : EntryPtr} {env : ConnectEnv} {w w' : CoinsWorld} {new : Connection}
  {m' m : CoinMap} {p : Option EntryPtr} {undo : BlockUndo} {view : CoinsViewCache}

/-- `ConnectTip` changes nothing, or the block is connected. -/
theorem connectTip_eq_or (h : w.connectTip hash256 params.toParams rules t blocks e env = some w') :
    w' = w ∨ ∃ index r, t.index? e = some index ∧
      connectBlock hash256 params.toParams rules t env e index (blocks e) w.bestBlock
        w.coinsTip.peek = some r ∧ r.connected = true ∧ w.connected e env r = some w' := by
  unfold CoinsWorld.connectTip at h
  obtain ⟨index, hindex, h⟩ := bind_eq_some_iff.mp h
  split_ifs at h
  · exact Or.inl (Option.some.inj h).symm
  · obtain ⟨r, hconnect, h⟩ := bind_eq_some_iff.mp h
    split_ifs at h with hfailed
    · exact Or.inl (Option.some.inj h).symm
    · exact Or.inl (Option.some.inj h).symm
    · exact Or.inr ⟨index, r, hindex, hconnect, by simpa using hfailed, h⟩

theorem connectTip_cases (h : w.connectTip hash256 params.toParams rules t blocks e env = some w') :
    StepCases hash256 params rules t blocks w w' := by
  rcases connectTip_eq_or h with rfl | ⟨index, r, hindex, hconnect, hconnected, h⟩
  · exact .same w'
  · obtain ⟨coinsTip, hcoins, h⟩ := bind_eq_some_iff.mp h
    cases h
    exact .connected e env index r hindex hconnect hconnected hcoins rfl rfl rfl

/-- `DisconnectTip` changes nothing, or the best block is disconnected. -/
theorem disconnectTip_eq_or {env : DisconnectEnv}
    (h : w.disconnectTip hash256 t blocks env = some w') :
    w' = w ∨ ∃ e prev index undo view, t.index? e = some index ∧ index.pprev = some prev ∧
      w.bestBlock = some e ∧ w.undo e = some undo ∧
      disconnectBlock hash256 index (blocks e) (some undo) w.coinsTip.peek = .ok (true, view) ∧
      w.coinsTip.batchWrite view = some w'.coinsTip ∧ w'.bestBlock = some prev ∧
      w'.undo = w.undo ∧ w'.connections = w.connections := by
  unfold CoinsWorld.disconnectTip at h
  obtain ⟨e, -, h⟩ := bind_eq_some_iff.mp h
  obtain ⟨index, hindex, h⟩ := bind_eq_some_iff.mp h
  obtain ⟨prev, hprev, h⟩ := bind_eq_some_iff.mp h
  by_cases hread : (!env.readBlock) = true
  · rw [if_pos hread] at h
    exact Or.inl (Option.some.inj h).symm
  rw [if_neg hread] at h
  by_cases hbest : w.bestBlock ≠ some e
  · rw [if_pos hbest] at h
    cases h
  rw [if_neg hbest] at h
  split at h
  · cases h
  · exact Or.inl (Option.some.inj h).symm
  · exact Or.inl (Option.some.inj h).symm
  · rename_i view hdisconnect
    obtain ⟨coinsTip, hcoins, h⟩ := bind_eq_some_iff.mp h
    cases h
    -- without undo data `DisconnectBlock` fails
    cases hstored : (if env.readUndo then w.undo e else none) with
    | none =>
      rw [hstored] at hdisconnect
      cases hdisconnect
    | some undo =>
      rw [hstored] at hdisconnect
      split_ifs at hstored
      exact Or.inr ⟨e, prev, index, undo, view, hindex, hprev, not_not.mp hbest, hstored,
        hdisconnect, hcoins, rfl, rfl, rfl⟩

theorem disconnectTip_cases {env : DisconnectEnv}
    (h : w.disconnectTip hash256 t blocks env = some w') :
    StepCases hash256 params rules t blocks w w' := by
  rcases disconnectTip_eq_or h with rfl | ⟨e, prev, index, undo, view, hindex, hprev, hbest,
    hstored, hdisconnect, hcoins, hbest', hundo, hconnections⟩
  · exact .same w'
  · exact .disconnected e prev index undo view hindex hprev hbest hstored hdisconnect hcoins
      hbest' hundo hconnections

theorem step_cases {op : CoinsOp} (h : w.step hash256 params.toParams rules t blocks op = some w') :
    StepCases hash256 params rules t blocks w w' := by
  cases op with
  | connectTip e env => exact connectTip_cases h
  | disconnectTip env => exact disconnectTip_cases h
  | fetchCoin outpoint =>
    cases h
    exact .reads rfl rfl rfl fun hcoins => ⟨hcoins.fetch outpoint, peek_fetch _ outpoint⟩
  | flush =>
    cases h
    exact .reads rfl rfl rfl fun hcoins => ⟨coherent_above _, hcoins.peek_flush⟩
  | restart wipeChainstate =>
    cases h
    unfold CoinsWorld.restart
    cases wipeChainstate with
    | true => exact .wiped rfl rfl rfl rfl
    | false => exact .reads rfl rfl rfl fun hcoins => ⟨coherent_above _, hcoins.peek_flush⟩

/-! ## The first connection -/

variable (hash256 rules t blocks) in
/-- The undo data of a node lines up with the inputs of its block, for the coins of a
connection. -/
def LinesUpFor (index : BlockIndex) (c : Connection) (undo : BlockUndo) : Prop :=
  LinesUp (blocks c.entry) (c.coinsBefore hash256 rules t index (blocks c.entry)) undo

/-- The first connection of a node. -/
def CoinsWorld.first? (w : CoinsWorld) (e : EntryPtr) : Option Connection :=
  w.connections.find? (·.entry = e)

/-- A new connection is the first one of its node if there was none before. -/
theorem first?_append (h : w'.connections = w.connections ++ [new]) (e : EntryPtr) :
    (w.first? e ≠ none → w'.first? e = w.first? e) ∧
      (w.first? e = none → w'.first? e = if new.entry = e then some new else none) := by
  unfold CoinsWorld.first?
  rw [h, find?_append, find?_singleton]
  constructor
  · intro hne
    cases hfind : w.connections.find? (·.entry = e) with
    | none => exact absurd hfind hne
    | some c => rfl
  · intro hnone
    rw [hnone, none_or]
    simp only [decide_eq_true_eq]

variable (hash256 params rules t blocks) in
/-- The undo data of a node is that of its first connection. -/
structure Stored (w : CoinsWorld) : Prop where
  known : ∀ c ∈ w.connections, ∃ index, t.index? c.entry = some index
  lines : ∀ e index c, t.index? e = some index → index.hash ≠ params.hashGenesisBlock →
    w.first? e = some c →
      ∃ undo, w.undo e = some undo ∧ LinesUpFor hash256 rules t blocks index c undo
  connected : ∀ e, w.undo e ≠ none → w.first? e ≠ none

/-- A step that only adds connections with their undo data. -/
theorem Stored.connect {index : BlockIndex} (h : Stored hash256 params rules t blocks w)
    (hentry : new.entry = e) (hindex : t.index? e = some index)
    (hconnections : w'.connections = w.connections ++ [new])
    (hold : ∀ e' undo, w.undo e' = some undo → w'.undo e' = some undo)
    (hfrom : ∀ e' undo, w'.undo e' = some undo → w.undo e' = some undo ∨ e' = e)
    (hnew : index.hash ≠ params.hashGenesisBlock → w.undo e = none →
      ∃ undo, w'.undo e = some undo ∧ LinesUpFor hash256 rules t blocks index new undo) :
    Stored hash256 params rules t blocks w' := by
  have hfirst := first?_append hconnections
  constructor
  · intro c hc
    rw [hconnections] at hc
    rcases mem_append.mp hc with hc | hc
    · exact h.known c hc
    · rw [mem_singleton.mp hc, hentry]
      exact ⟨index, hindex⟩
  · intro e' index' c hindex' hgenesis hc
    cases hfind : w.first? e' with
    | some c' =>
      rw [(hfirst e').1 (by rw [hfind]; exact nofun)] at hc
      obtain ⟨undo, hundo, hlines⟩ := h.lines e' index' c hindex' hgenesis hc
      exact ⟨undo, hold e' undo hundo, hlines⟩
    | none =>
      rw [(hfirst e').2 hfind, hentry] at hc
      split_ifs at hc with heq
      subst heq
      cases hc
      cases hindex.symm.trans hindex'
      apply hnew hgenesis
      by_contra hne
      exact h.connected e hne hfind
  · intro e' hne
    by_cases hfind : w.first? e' = none
    · obtain ⟨undo, hundo⟩ := ne_none_iff_exists'.mp hne
      rcases hfrom e' undo hundo with hold | rfl
      · exact absurd hfind (h.connected e' (by rw [hold]; exact nofun))
      · rw [(hfirst e').2 hfind, if_pos hentry]
        exact nofun
    · rw [(hfirst e').1 hfind]
      exact hfind

/-- A node that has undo data keeps it, and the new data is stored for a node that has
none. -/
theorem writeBlockUndo_spec (stored : EntryPtr → Option BlockUndo) (e : EntryPtr)
    (undo : BlockUndo) :
    (∀ e' undo', stored e' = some undo' → writeBlockUndo stored e undo e' = some undo') ∧
      (∀ e' undo', writeBlockUndo stored e undo e' = some undo' →
        stored e' = some undo' ∨ e' = e ∧ undo' = undo) ∧
      (stored e = none → writeBlockUndo stored e undo e = some undo) := by
  unfold writeBlockUndo
  refine ⟨fun e' undo' h => ?_, fun e' undo' h => ?_, fun h => ?_⟩
  · by_cases heq : e' = e
    · rw [if_pos heq, ← heq, h, getD_some]
    · rw [if_neg heq, h]
  · by_cases heq : e' = e
    · rw [if_pos heq, Option.some.injEq] at h
      cases hstored : stored e with
      | none =>
        rw [hstored, getD_none] at h
        exact Or.inr ⟨heq, h.symm⟩
      | some old =>
        rw [hstored, getD_some] at h
        rw [heq, hstored, h]
        exact Or.inl rfl
    · rw [if_neg heq] at h
      exact Or.inl h
  · rw [if_pos rfl, h, getD_none]

theorem Stored.step (h : Stored hash256 params rules t blocks w)
    (hstep : StepCases hash256 params rules t blocks w w') :
    Stored hash256 params rules t blocks w' := by
  have hsame : w'.undo = w.undo → w'.connections = w.connections →
      Stored hash256 params rules t blocks w' := by
    intro hundo hconnections
    have hfirst : ∀ e, w'.first? e = w.first? e := by
      intro e
      unfold CoinsWorld.first?
      rw [hconnections]
    refine ⟨hconnections ▸ h.known, fun e index c hindex hgenesis hc => ?_, fun e he => ?_⟩
    · rw [hfirst] at hc
      rw [hundo]
      exact h.lines e index c hindex hgenesis hc
    · rw [hundo] at he
      rw [hfirst]
      exact h.connected e he
  cases hstep with
  | reads _ hundo hconnections => exact hsame hundo hconnections
  | wiped _ hundo hconnections => exact hsame hundo hconnections
  | disconnected _ _ _ _ _ _ _ _ _ _ _ _ hundo hconnections => exact hsame hundo hconnections
  | connected e env index r hindex hconnect hconnected _ _ hundo hconnections =>
    obtain ⟨-, -, ⟨hgenesis, hnone, -⟩ | ⟨-, coinbase, rest, hshape, htransactions⟩⟩ :=
      connectBlock_cases hconnect hconnected
    · rw [hnone] at hundo
      dsimp only at hundo
      refine h.connect rfl hindex hconnections ?_ ?_ fun hnot => absurd hgenesis hnot
      · rw [hundo]
        exact fun _ _ h => h
      · rw [hundo]
        exact fun _ _ h => Or.inl h
    · obtain ⟨undo, hr, hlines, -⟩ := connectTransactions_spec hshape htransactions hconnected
      rw [hr] at hundo
      dsimp only at hundo
      obtain ⟨hold, hfrom, hnew⟩ := writeBlockUndo_spec w.undo e undo
      rw [← hundo] at hold hfrom hnew
      refine h.connect rfl hindex hconnections hold ?_ fun _ hnone => ⟨undo, hnew hnone, hlines⟩
      intro e' undo' hundo'
      exact (hfrom e' undo' hundo').imp_right And.left

/-! ## Later connections -/

variable (hash256 t blocks) in
/-- The coins behind a node, as its ancestors determine them.  The genesis block has
none that can be spent. -/
inductive CoinsAt : Option EntryPtr → CoinMap → Prop
  | start : CoinsAt none fun _ => none
  | genesis {e : EntryPtr} {index : BlockIndex} (hindex : t.index? e = some index)
      (hprev : index.pprev = none) : CoinsAt (some e) fun _ => none
  | child {e prev : EntryPtr} {index : BlockIndex} {m m' : CoinMap} {undo : BlockUndo}
      (hindex : t.index? e = some index) (hprev : index.pprev = some prev)
      (hcoins : CoinsAt (some prev) m)
      (happlies : BlockApplies hash256 index.nHeight (blocks e) m undo m') : CoinsAt (some e) m'

/-- The coins behind a node, from those behind its parent. -/
theorem CoinsAt.cases_child {index : BlockIndex} (h : CoinsAt hash256 t blocks (some e) m')
    (hindex : t.index? e = some index) (hprev : index.pprev = some prev) :
    ∃ m undo, CoinsAt hash256 t blocks (some prev) m ∧
      BlockApplies hash256 index.nHeight (blocks e) m undo m' := by
  cases h with
  | genesis hindex' hprev' =>
    cases hindex.symm.trans hindex'
    rw [hprev] at hprev'
    cases hprev'
  | child hindex' hprev' hcoins happlies =>
    cases hindex.symm.trans hindex'
    cases hprev.symm.trans hprev'
    exact ⟨_, _, hcoins, happlies⟩

theorem CoinsAt.unique {m₁ m₂ : CoinMap} (h₁ : CoinsAt hash256 t blocks p m₁)
    (h₂ : CoinsAt hash256 t blocks p m₂) : m₁ = m₂ := by
  induction h₁ generalizing m₂ with
  | start =>
    cases h₂
    rfl
  | genesis hindex hprev =>
    cases h₂ with
    | genesis => rfl
    | child hindex' hprev' =>
      cases hindex.symm.trans hindex'
      rw [hprev] at hprev'
      cases hprev'
  | child hindex hprev _ happlies ih =>
    obtain ⟨m, undo, hm, happlies'⟩ := h₂.cases_child hindex hprev
    have hsame := ih hm
    subst hsame
    exact (happlies.unique happlies').2

/-- A node behind the genesis block has a height that coins can store. -/
theorem ofNat_height_ne_zero (ht : Rooted params t) (hfit : t.HeightsFit) {index : BlockIndex}
    (hindex : t.index? e = some index) (hprev : index.pprev = some prev) :
    BitVec.ofNat 31 index.nHeight ≠ 0 := by
  obtain ⟨pindex, -, hheight⟩ := ht.index?_pprev hindex hprev
  have hlt := hfit e index.nHeight (by rw [BlockTree.height?, hindex, map_some])
  intro hzero
  have hnat := congrArg BitVec.toNat hzero
  rw [BitVec.toNat_ofNat, Nat.mod_eq_of_lt hlt] at hnat
  have hnat : index.nHeight = 0 := hnat
  omega

theorem CoinsAt.confirmed (ht : Rooted params t) (hfit : t.HeightsFit)
    (h : CoinsAt hash256 t blocks p m) : Confirmed m := by
  induction h with
  | start => exact fun _ _ ho => by cases ho
  | genesis => exact fun _ _ ho => by cases ho
  | child hindex hprev _ happlies ih =>
    exact happlies.confirmed ih (ofNat_height_ne_zero ht hfit hindex hprev)

variable (hash256 rules t blocks) in
/-- A block whose coins `ConnectBlock` does not check overwrites none with a
transaction that is not a coinbase. -/
def Connection.SparesCoins (c : Connection) : Prop :=
  ∀ index, t.index? c.entry = some index → enforceBip30 rules t index = some false →
    ∀ tx ∈ (blocks c.entry).vtx.tail, NoOverwrite hash256 c.coins tx

variable (hash256 params rules t blocks) in
/-- The chainstate has only coins that the ancestors of its best block determine, and
the undo data of every node is what they determine. -/
structure Kept (w : CoinsWorld) : Prop where
  coherent : w.coinsTip.Coherent
  coins : ∃ m, CoinsAt hash256 t blocks w.bestBlock m ∧ CoinMap.Sub w.coinsTip.peek m
  undo : ∀ e undo, w.undo e = some undo → ∃ index prev m m', t.index? e = some index ∧
    index.pprev = some prev ∧ CoinsAt hash256 t blocks (some prev) m ∧
      BlockApplies hash256 index.nHeight (blocks e) m undo m'
  lines : ∀ c ∈ w.connections, ∀ index, t.index? c.entry = some index →
    index.hash ≠ params.hashGenesisBlock →
      ∃ undo, w.undo c.entry = some undo ∧ LinesUpFor hash256 rules t blocks index c undo

/-- The stored undo data of a node is what its ancestors determine. -/
theorem Kept.undo_eq (h : Kept hash256 params rules t blocks w) {index : BlockIndex}
    {stored : BlockUndo} (hstored : w.undo e = some stored) (hindex : t.index? e = some index)
    (hprev : index.pprev = some prev) (hm : CoinsAt hash256 t blocks (some prev) m)
    (happlies : BlockApplies hash256 index.nHeight (blocks e) m undo m') : stored = undo := by
  obtain ⟨index', prev', m₁, m₁', hindex', hprev', hm₁, happlies₁⟩ := h.undo e stored hstored
  cases hindex.symm.trans hindex'
  cases hprev.symm.trans hprev'
  have hsame := hm₁.unique hm
  subst hsame
  exact (happlies₁.unique happlies).1

/-- A step that changes the coins only. -/
theorem Kept.frame (h : Kept hash256 params rules t blocks w) (hundo : w'.undo = w.undo)
    (hconnections : w'.connections = w.connections) (hcoherent : w'.coinsTip.Coherent)
    (hcoins : ∃ m, CoinsAt hash256 t blocks w'.bestBlock m ∧ CoinMap.Sub w'.coinsTip.peek m) :
    Kept hash256 params rules t blocks w' := by
  refine ⟨hcoherent, hcoins, ?_, ?_⟩
  · rw [hundo]
    exact h.undo
  · rw [hundo, hconnections]
    exact h.lines

/-- `DisconnectBlock` leads back to coins of the parent. -/
theorem Kept.disconnect (ht : Rooted params t) (hfit : t.HeightsFit) {index : BlockIndex}
    (h : Kept hash256 params rules t blocks w) (hindex : t.index? e = some index)
    (hprev : index.pprev = some prev) (hbest : w.bestBlock = some e)
    (hstored : w.undo e = some undo)
    (hdisconnect : disconnectBlock hash256 index (blocks e) (some undo) w.coinsTip.peek =
      .ok (true, view)) (hcoins : w.coinsTip.batchWrite view = some w'.coinsTip)
    (hbest' : w'.bestBlock = some prev) (hundo : w'.undo = w.undo)
    (hconnections : w'.connections = w.connections) : Kept hash256 params rules t blocks w' := by
  obtain ⟨m', hat, hsub⟩ := h.coins
  rw [hbest] at hat
  obtain ⟨m, undo', hm, happlies⟩ := hat.cases_child hindex hprev
  have hsame := h.undo_eq hstored hindex hprev hm happlies
  subst hsame
  obtain ⟨hview, hbase, hsub'⟩ := disconnectBlock_sub happlies (hm.confirmed ht hfit)
    (ofNat_height_ne_zero ht hfit hindex hprev) hsub hdisconnect
  obtain ⟨hcoherent, hpeek⟩ := h.coherent.batchWrite hview hbase hcoins
  refine h.frame hundo hconnections hcoherent ⟨m, ?_, ?_⟩
  · rw [hbest']
    exact hm
  · rw [hpeek]
    exact hsub'

/-- Connecting the genesis block adds no coins. -/
theorem Kept.connectGenesis (ht : Rooted params t) {index : BlockIndex}
    (h : Kept hash256 params rules t blocks w) (hindex : t.index? e = some index)
    (hgenesis : index.hash = params.hashGenesisBlock) (hprev : index.pprev = w.bestBlock)
    (hcoins : w.coinsTip.batchWrite (Cache.above w.coinsTip.peek) = some w'.coinsTip)
    (hbest : w'.bestBlock = some e) (hundo : w'.undo = w.undo) (hentry : new.entry = e)
    (hconnections : w'.connections = w.connections ++ [new]) :
    Kept hash256 params rules t blocks w' := by
  have hroot := (ht.genesis e index hindex hgenesis).1
  obtain ⟨hcoherent, hpeek⟩ := h.coherent.batchWrite (coherent_above _) rfl hcoins
  obtain ⟨m, hat, hsub⟩ := h.coins
  rw [← hprev, hroot] at hat
  cases hat
  refine ⟨hcoherent, ⟨fun _ => none, ?_, ?_⟩, ?_, ?_⟩
  · rw [hbest]
    exact .genesis hindex hroot
  · rw [hpeek, peek_above]
    exact hsub
  · rw [hundo]
    exact h.undo
  · intro c hc index' hindex' hnot
    rw [hconnections] at hc
    rcases mem_append.mp hc with hc | hc
    · rw [hundo]
      exact h.lines c hc index' hindex' hnot
    · rw [mem_singleton.mp hc, hentry, hindex] at hindex'
      cases hindex'
      exact absurd hgenesis hnot

/-- `ConnectBlock` leads to coins of the node, and the undo data of its first
connection is that of every later one. -/
theorem Kept.connect {index : BlockIndex} (h : Kept hash256 params rules t blocks w)
    (hindex : t.index? e = some index) (hprev : index.pprev = some prev)
    (hm : CoinsAt hash256 t blocks (some prev) m)
    (happlies : BlockApplies hash256 index.nHeight (blocks e) m undo m')
    (hbase : view.base = w.coinsTip.peek) (hview : view.Coherent) (hsub : CoinMap.Sub view.peek m')
    (hcoins : w.coinsTip.batchWrite view = some w'.coinsTip) (hbest : w'.bestBlock = some e)
    (hundo : w'.undo = writeBlockUndo w.undo e undo) (hentry : new.entry = e)
    (hconnections : w'.connections = w.connections ++ [new])
    (hlines : LinesUpFor hash256 rules t blocks index new undo) :
    Kept hash256 params rules t blocks w' := by
  obtain ⟨hold, hfrom, hnew⟩ := writeBlockUndo_spec w.undo e undo
  rw [← hundo] at hold hfrom hnew
  have hstored : w'.undo e = some undo := by
    cases hstored : w.undo e with
    | none => exact hnew hstored
    | some old =>
      rw [← h.undo_eq hstored hindex hprev hm happlies]
      exact hold e old hstored
  obtain ⟨hcoherent, hpeek⟩ := h.coherent.batchWrite hview hbase hcoins
  refine ⟨hcoherent, ⟨m', ?_, ?_⟩, ?_, ?_⟩
  · rw [hbest]
    exact .child hindex hprev hm happlies
  · rw [hpeek]
    exact hsub
  · intro e' undo' hundo'
    rcases hfrom e' undo' hundo' with hundo' | ⟨rfl, rfl⟩
    · exact h.undo e' undo' hundo'
    · exact ⟨index, prev, m, m', hindex, hprev, hm, happlies⟩
  · intro c hc index' hindex' hnot
    rw [hconnections] at hc
    rcases mem_append.mp hc with hc | hc
    · obtain ⟨undo', hundo', hlines'⟩ := h.lines c hc index' hindex' hnot
      exact ⟨undo', hold c.entry undo' hundo', hlines'⟩
    · have hc := mem_singleton.mp hc
      subst hc
      rw [hentry, hindex] at hindex'
      cases hindex'
      exact ⟨undo, hentry ▸ hstored, hlines⟩

theorem Kept.step (ht : Rooted params t) (hfit : t.HeightsFit)
    (h : Kept hash256 params rules t blocks w)
    (hspares : ∀ c ∈ w'.connections, c.SparesCoins hash256 rules t blocks)
    (hstep : StepCases hash256 params rules t blocks w w') :
    Kept hash256 params rules t blocks w' := by
  cases hstep with
  | reads hbest hundo hconnections hcoins =>
    obtain ⟨hcoherent, hpeek⟩ := hcoins h.coherent
    refine h.frame hundo hconnections hcoherent ?_
    rw [hbest, hpeek]
    exact h.coins
  | wiped hbest hundo hconnections hcoins =>
    refine h.frame hundo hconnections ?_ ⟨fun _ => none, ?_, ?_⟩
    · rw [hcoins]
      exact coherent_above _
    · rw [hbest]
      exact .start
    · rw [hcoins, peek_above]
      exact .refl _
  | disconnected e prev index undo view hindex hprev hbest hstored hdisconnect hcoins hbest' hundo
      hconnections =>
    exact h.disconnect ht hfit hindex hprev hbest hstored hdisconnect hcoins hbest' hundo
      hconnections
  | connected e env index r hindex hconnect hconnected hcoins hbest hundo hconnections =>
    obtain ⟨hprev, -, ⟨hgenesis, hnone, hview⟩ |
        ⟨hgenesis, coinbase, rest, hshape, htransactions⟩⟩ := connectBlock_cases hconnect hconnected
    · rw [hnone] at hundo
      rw [hview] at hcoins
      exact h.connectGenesis ht hindex hgenesis hprev hcoins hbest hundo rfl hconnections
    · obtain ⟨undo, hr, hlines, happlies⟩ :=
        connectTransactions_spec hshape htransactions hconnected
      rw [hr] at hundo
      obtain ⟨prev, hpprev⟩ := ne_none_iff_exists'.mp fun hroot =>
        hgenesis (ht.hash_of_root hindex hroot)
      obtain ⟨m, hm, hsub⟩ := h.coins
      rw [← hprev, hpprev] at hm
      have hnew := hspares ⟨e, env, w.coinsTip.peek⟩ (by rw [hconnections]; simp) index hindex
      dsimp only at hnew
      rw [hshape.vtx, tail_cons] at hnew
      obtain ⟨m', happlies, hbase, hview, hsub'⟩ := happlies hnew m hsub
      exact h.connect hindex hpprev hm happlies hbase hview hsub' hcoins hbest hundo rfl
        hconnections hlines

/-! ## The result -/

variable (hash256 rules t blocks) in
/-- Heights are `int`s, and no block that was connected overwrote an unspent coin, its
coinbase apart, where `ConnectBlock` does not look for that. -/
structure Undisturbed (w : CoinsWorld) : Prop where
  fit : t.HeightsFit
  spares : ∀ c ∈ w.connections, c.SparesCoins hash256 rules t blocks

/-- Connections are never removed. -/
theorem StepCases.connections_subset (h : StepCases hash256 params rules t blocks w w') :
    w.connections ⊆ w'.connections := by
  cases h with
  | reads _ _ hconnections => rw [hconnections]; exact List.Subset.refl _
  | wiped _ _ hconnections => rw [hconnections]; exact List.Subset.refl _
  | disconnected _ _ _ _ _ _ _ _ _ _ _ _ _ hconnections =>
    rw [hconnections]
    exact List.Subset.refl _
  | connected _ _ _ _ _ _ _ _ _ _ hconnections =>
    rw [hconnections]
    exact subset_append_left _ _

theorem stored_of_run {ops : List CoinsOp}
    (hrun : Runs.run (CoinsWorld.step hash256 params.toParams rules t blocks) {} ops = some w) :
    Stored hash256 params rules t blocks w := by
  refine Runs.run_invariant (I := fun _ w => Stored hash256 params rules t blocks w) ?_ ?_ hrun
  · exact ⟨fun _ hc => (by cases hc), fun _ _ _ _ _ hc => (by cases hc),
      fun _ hne => (hne rfl).elim⟩
  · exact fun _ _ _ _ h hstep => h.step (step_cases hstep)

theorem kept_of_run (ht : Rooted params t) {ops : List CoinsOp}
    (hrun : Runs.run (CoinsWorld.step hash256 params.toParams rules t blocks) {} ops = some w)
    (hundisturbed : Undisturbed hash256 rules t blocks w) :
    Kept hash256 params rules t blocks w := by
  refine Runs.run_invariant (I := fun _ w => Undisturbed hash256 rules t blocks w →
    Kept hash256 params rules t blocks w) ?_ ?_ hrun hundisturbed
  · intro _
    exact ⟨coherent_above _, ⟨fun _ => none, .start, .refl _⟩, fun _ _ hundo => (by cases hundo),
      fun _ hc => (by cases hc)⟩
  · intro _ _ w w' h hstep hundisturbed
    have hcases := step_cases hstep
    have hbefore : Undisturbed hash256 rules t blocks w :=
      ⟨hundisturbed.fit, fun c hc => hundisturbed.spares c (hcases.connections_subset hc)⟩
    exact (h hbefore).step ht hundisturbed.fit hundisturbed.spares hcases

/-- For a block that was connected in any sequence of operations on the chainstate,
`read_spent_outputs` returns spent outputs that line up with its inputs.  For the
genesis block there are none.  The coins are those of the first connection, which
wrote the undo data, and also those of every other connection if the coins were not
disturbed. -/
theorem spent_outputs_line_up (ht : Rooted params t) {ops : List CoinsOp} {w : CoinsWorld}
    (hrun : Runs.run (CoinsWorld.step hash256 params.toParams rules t blocks) {} ops = some w)
    {e : EntryPtr} (he : ∃ c ∈ w.connections, c.entry = e) :
    ∃ index spent, t.index? e = some index ∧ readSpentOutputs index (w.undo e) = .ok spent ∧
      (index.hash = params.hashGenesisBlock → spentCount spent = 0) ∧
      (index.hash ≠ params.hashGenesisBlock → ∀ c, w.first? e = some c ∨
            c ∈ w.connections ∧ c.entry = e ∧ Undisturbed hash256 rules t blocks w →
          LinesUp (blocks e) (c.coinsBefore hash256 rules t index (blocks e)) spent) := by
  have hstored := stored_of_run hrun
  obtain ⟨c₀, hc₀, rfl⟩ := he
  obtain ⟨index, hindex⟩ := hstored.known c₀ hc₀
  by_cases hgenesis : index.hash = params.hashGenesisBlock
  · have hheight := (ht.genesis _ index hindex hgenesis).2
    refine ⟨index, ⟨[]⟩, hindex, ?_, fun _ => rfl, fun hnot => absurd hgenesis hnot⟩
    unfold readSpentOutputs
    rw [if_pos (by omega)]
  · obtain ⟨c₁, hfirst⟩ : ∃ c₁, w.first? c₀.entry = some c₁ := by
      apply isSome_iff_exists.mp
      exact find?_isSome.mpr ⟨c₀, hc₀, by simp⟩
    obtain ⟨spent, hundo, hlines⟩ := hstored.lines _ index c₁ hindex hgenesis hfirst
    have hread : readSpentOutputs index (w.undo c₀.entry) = .ok spent := by
      obtain ⟨prev, hprev⟩ := ne_none_iff_exists'.mp fun hroot =>
        hgenesis (ht.hash_of_root hindex hroot)
      obtain ⟨pindex, -, hheight⟩ := ht.index?_pprev hindex hprev
      unfold readSpentOutputs
      rw [if_neg (by omega), hundo]
    refine ⟨index, spent, hindex, hread, fun hnot => absurd hnot hgenesis, fun _ c hc => ?_⟩
    rcases hc with hc | ⟨hc, hentry, hundisturbed⟩
    · cases hfirst.symm.trans hc
      have hentry : c₁.entry = c₀.entry := by simpa using find?_some hfirst
      rw [LinesUpFor, hentry] at hlines
      exact hlines
    · -- the undo data is the same for both connections
      obtain ⟨undo, hundo', hlines'⟩ :=
        (kept_of_run ht hrun hundisturbed).lines c hc index (hentry ▸ hindex) hgenesis
      rw [hentry, hundo] at hundo'
      cases hundo'
      rw [LinesUpFor, hentry] at hlines'
      exact hlines'

/-! ## A chain whose last block spends coins -/

namespace Sample

open Chainman.Sample (depthHash chainParams genesis)

/-- The hash of the block below a height. -/
def hashAt (height : Nat) : Uint256 :=
  ⟨UInt8.ofNat height :: List.replicate 31 0, by rw [length_cons, length_replicate]⟩

theorem hashAt_inj {a b : Nat} (ha : a < 256) (hb : b < 256) (h : hashAt a = hashAt b) : a = b := by
  have hbyte : UInt8.ofNat a = UInt8.ofNat b := (List.cons.inj (congrArg Uint256.bytes h)).1
  have hnat := congrArg UInt8.toNat hbyte
  rw [UInt8.toNat_ofNat', UInt8.toNat_ofNat'] at hnat
  omega

def unspendable : TxOut := ⟨0, [Opcode.opReturn.code]⟩

def input (hash : Uint256) (n : UInt32) (scriptSig : Script) : TxIn :=
  { prevout := ⟨hash, n⟩, scriptSig, nSequence := 0 }

/-- A coinbase whose first output is no coin. -/
def coinbase (vout : List TxOut) : Transaction :=
  ⟨1, [input Uint256.null OutPoint.nullIndex [0, 0]], unspendable :: vout, 0⟩

/-- Spends two coins of the first block. -/
def spend : Transaction :=
  let hash := (coinbase []).getHash depthHash
  ⟨1, [input hash 1 [], input hash 2 []], [⟨70, []⟩], 0⟩

/-- Spends the coin of `spend`, in the same block. -/
def respend : Transaction := ⟨1, [input (spend.getHash depthHash) 0 []], [unspendable], 0⟩

def mine (height : Nat) (vtx : List Transaction) : Block :=
  let block : Block := { genesis with hashPrevBlock := hashAt height, vtx }
  { block with hashMerkleRoot := (blockMerkleRoot depthHash block).1 }

/-- The first block makes two coins, which can be spent 100 blocks later. -/
def blockAt (e : Nat) : Block :=
  if e = 1 then mine e [coinbase [⟨30, []⟩, ⟨40, []⟩]]
  else if e = 101 then mine e [coinbase [], spend, respend]
  else mine e [coinbase []]

def node (e : Nat) : BlockIndex :=
  { BlockIndex.ofHeader (hashAt (e + 1)) (blockAt e).toBlockHeader with
    pprev := if e = 0 then none else some (e - 1)
    nHeight := e }

def tree : BlockTree where
  entries := (List.range 102).map node
  nodup := by
    rw [List.map_map]
    refine List.Nodup.map_on ?_ nodup_range
    intro a ha b hb h
    have ha := mem_range.mp ha
    have hb := mem_range.mp hb
    exact Nat.succ.inj (hashAt_inj (by omega) (by omega) h)

theorem index?_tree {e : Nat} {index : BlockIndex} :
    tree.index? e = some index ↔ e < 102 ∧ index = node e := by
  have hget : tree.index? e = ((List.range 102)[e]?).map node := getElem?_map ..
  rw [hget]
  by_cases hlt : e < 102
  · rw [getElem?_range hlt, map_some, Option.some.injEq]
    exact ⟨fun h => ⟨hlt, h.symm⟩, fun h => h.2.symm⟩
  · rw [getElem?_eq_none (by rw [length_range]; omega)]
    exact ⟨fun h => (by cases h), fun h => absurd h.1 hlt⟩

theorem index?_tree_of_lt {e : Nat} (h : e < 102) : tree.index? e = some (node e) :=
  index?_tree.mpr ⟨h, rfl⟩

theorem heightsFit_tree : tree.HeightsFit := by
  intro e height he
  obtain ⟨index, hindex, rfl⟩ := map_eq_some_iff.mp he
  obtain ⟨hlt, rfl⟩ := index?_tree.mp hindex
  have hheight : (node e).nHeight = e := rfl
  omega

/-- Only the first node has the hash of the genesis block. -/
theorem eq_zero_of_hash {e : Nat} (h : e < 102)
    (hhash : (node e).hash = chainParams.hashGenesisBlock) : e = 0 :=
  Nat.succ.inj (hashAt_inj (b := 1) (by omega) (by omega) hhash)

theorem getHash_node (e : Nat) :
    ((node e).getBlockHeader (hashAt e)).getHash depthHash = hashAt (e + 1) := by
  have hbyte : UInt8.ofNat e + 1 = UInt8.ofNat (e + 1) := (UInt8.ofNat_add e 1).symm
  unfold hashAt
  rw [← hbyte]
  rfl

theorem rooted_tree : Rooted chainParams tree := by
  refine ⟨⟨?_, ?_⟩, ?_⟩
  · intro e index hindex
    obtain ⟨hlt, rfl⟩ := index?_tree.mp hindex
    refine ⟨?_, fun skip hskip => by cases hskip⟩
    by_cases hzero : e = 0
    · exact Or.inl hzero
    · exact Or.inr ⟨e - 1, if_neg hzero, node (e - 1), index?_tree_of_lt (by omega), Or.inl rfl⟩
  · intro e index hindex hgenesis
    obtain ⟨hlt, rfl⟩ := index?_tree.mp hindex
    have hzero : e ≠ 0 := by
      rintro rfl
      exact hgenesis rfl
    have hpred : e - 1 + 1 = e := Nat.succ_pred hzero
    refine ⟨e - 1, node (e - 1), if_neg hzero, index?_tree_of_lt (by omega), hpred.symm, ?_⟩
    show ((node e).getBlockHeader (hashAt (e - 1 + 1))).getHash depthHash = hashAt (e + 1)
    rw [hpred]
    exact getHash_node e
  · intro e index hindex hhash
    obtain ⟨hlt, rfl⟩ := index?_tree.mp hindex
    have hzero := eq_zero_of_hash hlt hhash
    subst hzero
    exact ⟨rfl, rfl⟩

/-- Rules that any block meets. -/
def easyRules : ConnectRules where
  bip34Height := -1
  bip34Hash := Uint256.null
  getBlockSubsidy _ := 100
  sequenceLocks _ _ _ := true
  getTransactionSigOpCost _ _ _ := 0

def connectEnv : ConnectEnv where
  history := []
  readBlock := true
  fScriptChecks := true
  checkInputScripts _ := none
  complete := none
  writeUndo := true
  flushStateToDisk := true

/-- All blocks are connected, and the last one is disconnected and connected again. -/
def ops : List CoinsOp :=
  (List.range 102).map (fun e => .connectTip e connectEnv) ++
    [.disconnectTip ⟨true, true, true⟩, .flush, .connectTip 101 connectEnv]

/-- The undo data of the last block. -/
def spent : BlockUndo :=
  ⟨[⟨[⟨⟨30, []⟩, true, 1⟩, ⟨⟨40, []⟩, true, 1⟩]⟩, ⟨[⟨⟨70, []⟩, false, 101⟩]⟩]⟩

theorem exists_run : ∃ w,
    Runs.run (CoinsWorld.step depthHash chainParams.toParams easyRules tree blockAt) {} ops =
        some w ∧
      w.undo 101 = some spent ∧ (w.connections.map Connection.entry).count 101 = 2 := by
  have hrun : (Runs.run (CoinsWorld.step depthHash chainParams.toParams easyRules tree blockAt) {}
      ops).map (fun w => (w.undo 101, (w.connections.map Connection.entry).count 101)) =
        some (some spent, 2) := by
    decide +kernel
  obtain ⟨w, hw, hpair⟩ := map_eq_some_iff.mp hrun
  rw [Prod.mk.injEq] at hpair
  exact ⟨w, hw, hpair.1, hpair.2⟩

/-- `ConnectBlock` looks for coins that a block would overwrite. -/
theorem enforceBip30_tree {e : Nat} {index : BlockIndex} (he : tree.index? e = some index) :
    enforceBip30 easyRules tree index ≠ some false := by
  have hall : ∀ e < 102, enforceBip30 easyRules tree (node e) ≠ some false := by decide +kernel
  obtain ⟨hlt, rfl⟩ := index?_tree.mp he
  exact hall e hlt

theorem undisturbed_tree (w : CoinsWorld) : Undisturbed depthHash easyRules tree blockAt w :=
  ⟨heightsFit_tree, fun _ _ _ hindex henforce => absurd henforce (enforceBip30_tree hindex)⟩

end Sample

open Sample
open Chainman.Sample (depthHash chainParams)

/-- The last block spends two coins of the first one, and a coin that it makes itself.
It is connected twice. -/
theorem spent_outputs_line_up_reconnected : Rooted chainParams tree ∧
    ∃ w, Runs.run (CoinsWorld.step depthHash chainParams.toParams easyRules tree blockAt) {} ops =
        some w ∧
      (w.connections.map Connection.entry).count 101 = 2 ∧
      readSpentOutputs (node 101) (w.undo 101) = .ok spent ∧
      ∀ c ∈ w.connections, c.entry = 101 → LinesUp (blockAt 101)
        (c.coinsBefore depthHash easyRules tree (node 101) (blockAt 101)) spent := by
  obtain ⟨w, hrun, hundo, hcount⟩ := exists_run
  have hread : readSpentOutputs (node 101) (w.undo 101) = .ok spent := by
    rw [hundo]
    rfl
  refine ⟨rooted_tree, w, hrun, hcount, hread, fun c hc hentry => ?_⟩
  obtain ⟨index, spent, hindex, hspent, -, hlines⟩ :=
    spent_outputs_line_up rooted_tree hrun ⟨c, hc, hentry⟩
  obtain ⟨-, rfl⟩ := index?_tree.mp hindex
  rw [hread, Except.ok.injEq] at hspent
  subst hspent
  refine hlines (fun hhash => ?_) c (Or.inr ⟨hc, hentry, undisturbed_tree w⟩)
  cases eq_zero_of_hash (by decide) hhash

end BitcoinKernel.Validation.Coins
