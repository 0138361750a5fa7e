import BitcoinKernel.Validation.DatabaseTips

/-!
# A flush that was interrupted loses no coins

The coins of a chainstate over whole runs with its database: blocks are connected and
disconnected, the cache is flushed, and the process ends at any point, also between two
batches of a flush, and also while it replays the blocks of a flush that was interrupted
before.  What was not on disk is gone then.

* `Recoverable` is the invariant: the cache is over the coins of the database, the database
  is at a tip or on the way to one, and the undo data on disk is enough to replay what it
  misses.  `FlushStateToDisk` writes the undo data first, which is what this rests on.
* `Recoverable.step`: every operation keeps it, wherever it is interrupted.
* `interrupted_flush_recovers`: a process that runs has the coins of its tip.  One that does
  not run can be started if blocks and undo data can be read, and then it has the coins of
  the tip that the last flush was for.
-/

namespace BitcoinKernel.Validation.Coins

open Serialize Consensus State WriteBack WriteBack.Cache CoinsViewCache Rebuild Option List
open Chainman (ChainParams Rooted)

variable {hash256 : List UInt8 → Uint256} {params : ChainParams hash256} {rules : ConnectRules}
  {t : BlockTree} {blocks : EntryPtr → Block}

/-! ## Blocks that were connected can be replayed -/

theorem addCoins_unspent {l : List (OutPoint × Coin)} {overwrite : Bool} :
    ∀ {view view' : CoinsViewCache},
      l.foldlM (fun view (outpoint, coin) => addCoin view outpoint coin overwrite) view =
        some view' → ∀ p ∈ l, p.2.isSpent = false := by
  induction l with
  | nil => exact fun _ _ hp => by cases hp
  | cons p l ih =>
    intro view view' h
    rw [foldlM_cons] at h
    obtain ⟨view₁, hadd, h⟩ := bind_eq_some_iff.mp h
    refine forall_mem_cons.mpr ⟨?_, ih h⟩
    cases hspent : p.2.isSpent with
    | false => rfl
    | true =>
      dsimp only at hadd
      rw [addCoin, if_pos hspent] at hadd
      cases hadd

/-- `UpdateCoins` asserts that outputs have values. -/
theorem updateCoins_pays {tx : Transaction} {nHeight : Nat} {view view' : CoinsViewCache}
    {undo : TxUndo} (h : updateCoins hash256 tx nHeight view = some (undo, view')) :
    PaysTx tx := by
  unfold updateCoins at h
  obtain ⟨spent, -, h⟩ := bind_eq_some_iff.mp h
  obtain ⟨view₂, hadd, -⟩ := bind_eq_some_iff.mp h
  intro out hout
  obtain ⟨i, hi⟩ := getElem?_of_mem hout
  have hmem : ((⟨tx.getHash hash256, UInt32.ofNat i⟩,
      ⟨out, tx.isCoinBase, BitVec.ofNat 31 nHeight⟩) : OutPoint × Coin) ∈
      outputCoins hash256 tx nHeight := by
    unfold outputCoins
    exact mem_map.mpr ⟨(out, i), mem_zipIdx_iff_getElem?.mpr hi, rfl⟩
  have hspent := addCoins_unspent hadd _ hmem
  exact ne_of_beq_false hspent

variable {env : ConnectEnv} {e : EntryPtr} {w w' : CoinsWorld} {u : BlockUndo} {s : DiskWorld}

theorem connectLoop_pays {index : BlockIndex} {txs : List Transaction} :
    ∀ {i : Nat} {s s' : ConnectState}, connectLoop hash256 rules env e index i txs s = some s' →
      s'.state.isValid = true → ∀ tx ∈ txs, PaysTx tx := by
  induction txs with
  | nil => exact fun _ _ _ hmem => by cases hmem
  | cons tx rest ih =>
    intro i s s' h hvalid
    obtain ⟨-, s₁, hturn, hvalid₁, hrest⟩ := connectLoop_cons h hvalid
    obtain ⟨_, _, -, -, hupdate⟩ := connectTransaction_updates hturn hvalid₁
    exact forall_mem_cons.mpr ⟨updateCoins_pays hupdate, ih hrest hvalid⟩

variable {undo : EntryPtr → Option BlockUndo}

theorem Walked.of_root {index : BlockIndex} (hindex : t.index? e = some index)
    (hprev : index.pprev = none) : Walked hash256 t blocks undo e := by
  rintro x xIndex xPrev ⟨n, hn⟩ hx hxPrev
  cases n with
  | zero =>
    cases hn
    cases hindex.symm.trans hx
    rw [hprev] at hxPrev
    cases hxPrev
  | succ n =>
    rw [RootPath.climb, BlockTree.parent_eq hindex, hprev] at hn
    cases hn

theorem Walked.child {prev : EntryPtr} {index : BlockIndex} (hindex : t.index? e = some index)
    (hprev : index.pprev = some prev) (h : Walked hash256 t blocks undo prev)
    (he : Replays hash256 t blocks undo e) : Walked hash256 t blocks undo e := by
  rintro x xIndex xPrev ⟨n, hn⟩ hx hxPrev
  cases n with
  | zero =>
    cases hn
    exact he
  | succ n =>
    rw [RootPath.climb, BlockTree.parent_eq hindex, hprev] at hn
    exact h x xIndex xPrev ⟨n, hn⟩ hx hxPrev

/-- Undo data that is stored is what replaying needs. -/
theorem Replays.of_undo (hkept : Kept hash256 params rules t blocks w)
    (hexact : Exact hash256 t blocks w) (hu : w.undo e = some u) (hpays : Pays (blocks e)) :
    Replays hash256 t blocks w.undo e := by
  refine ⟨hpays, fun index prev m hindex hprev hm => ?_⟩
  obtain ⟨index', prev', m₁, m', hindex', hprev', hm₁, happlies⟩ := hkept.undo e u hu
  cases hindex.symm.trans hindex'
  cases hprev.symm.trans hprev'
  rw [hm₁.unique hm] at happlies
  exact ⟨u, m', hu, happlies, hexact.fresh e u index prev m hu hindex hprev hm⟩

/-- Undo data is not removed. -/
theorem StepCases.undo_mono (h : StepCases hash256 params rules t blocks w w')
    (hu : w.undo e = some u) : w'.undo e = some u := by
  cases h with
  | reads _ hundo => rwa [hundo]
  | wiped _ hundo => rwa [hundo]
  | disconnected _ _ _ _ _ _ _ _ _ _ _ _ hundo => rwa [hundo]
  | connected e' _ _ r _ _ _ _ _ hundo =>
    cases hr : r.undo with
    | none => rwa [hundo, hr]
    | some new =>
      rw [hundo, hr]
      exact (writeBlockUndo_spec w.undo e' new).1 e u hu

/-- All blocks of the best chain can be replayed. -/
theorem walked_step (ht : Rooted params t) (hkept : Kept hash256 params rules t blocks w')
    (hexact : Exact hash256 t blocks w')
    (h : ∀ e, w.bestBlock = some e → Walked hash256 t blocks w.undo e)
    (hstep : StepCases hash256 params rules t blocks w w') :
    ∀ e, w'.bestBlock = some e → Walked hash256 t blocks w'.undo e := by
  intro e he
  have hmono : ∀ e u, w.undo e = some u → w'.undo e = some u := fun _ _ => hstep.undo_mono
  cases hstep with
  | reads hbest => exact (h e (hbest ▸ he)).mono hmono
  | wiped hbest =>
    rw [hbest] at he
    cases he
  | disconnected e' prev index undo view hindex hprev hbest hstored hdisconnect hcoins hbest' =>
    cases hbest'.symm.trans he
    exact ((h e' hbest).parent hindex hprev).mono hmono
  | connected e' env index r hindex hconnect hconnected hcoins hbest hundo hconnections =>
    obtain rfl : e' = e := Option.some.inj (hbest.symm.trans he)
    obtain ⟨hprev, -, ⟨hgenesis, -, -⟩ | ⟨hgenesis, coinbase, rest, -, htransactions⟩⟩ :=
      connectBlock_cases hconnect hconnected
    · exact .of_root hindex (ht.genesis e' index hindex hgenesis).1
    · obtain ⟨prev, hpprev⟩ := ne_none_iff_exists'.mp fun hroot =>
        hgenesis (ht.hash_of_root hindex hroot)
      obtain ⟨s₀, s₁, -, hloop, hvalid, -, hr⟩ :=
        connectTransactions_cases htransactions hconnected
      rw [hr] at hundo
      dsimp only at hundo
      have hstored : w'.undo e' = some ((w.undo e').getD ⟨s₁.vtxundo⟩) := by
        rw [hundo, writeBlockUndo, if_pos rfl]
      have hwalked := (h prev (hprev ▸ hpprev)).mono hmono
      exact hwalked.child hindex hpprev
        (.of_undo hkept hexact hstored (connectLoop_pays hloop hvalid))

/-! ## Operations on the coins -/

/-- `ConnectTip` writes to the cache only. -/
theorem base_connectTip (h : w.connectTip hash256 params.toParams rules t blocks e env = some w') :
    w'.coinsTip.base = w.coinsTip.base := by
  rcases connectTip_eq_or h with rfl | ⟨_, r, -, -, -, h⟩
  · rfl
  · obtain ⟨coinsTip, hcoins, h⟩ := bind_eq_some_iff.mp h
    cases h
    exact (batchWrite_cases hcoins).1

/-- `DisconnectTip` writes to the cache only. -/
theorem base_disconnectTip {env : DisconnectEnv}
    (h : w.disconnectTip hash256 t blocks env = some w') : w'.coinsTip.base = w.coinsTip.base := by
  rcases disconnectTip_eq_or h with rfl | ⟨_, _, _, _, _, -, -, -, -, -, hcoins, -⟩
  · rfl
  · exact (batchWrite_cases hcoins).1

/-! ## The invariant -/

variable (hash256 params rules t blocks) in
/-- The chainstate has the coins of its best block, and what is on disk is enough to start
again. -/
structure Recoverable (s : DiskWorld) : Prop where
  kept : Kept hash256 params rules t blocks s.world
  exact : Exact hash256 t blocks s.world
  walked : ∀ e, s.world.bestBlock = some e → Walked hash256 t blocks s.world.undo e
  disk : ∀ e u, s.disk e = some u → s.world.undo e = some u
  db : DbAt hash256 t blocks s.disk s.db
  up : s.up = true → s.world.coinsTip.base = s.db.coins ∧ s.db.headBlocks = none
  down : s.up = false → s.world.undo = s.disk

namespace Recoverable

variable {s s' : DiskWorld} {db : CoinsDB}

theorem empty : Recoverable hash256 params rules t blocks {} where
  kept := ⟨coherent_above _, ⟨fun _ => none, .start, .refl _⟩, fun _ _ hundo => (by cases hundo),
    fun _ hc => (by cases hc)⟩
  exact := ⟨.start, fun _ _ _ _ _ hundo => by cases hundo⟩
  walked := fun _ he => by cases he
  disk := fun _ _ hu => hu
  db := .consistent none rfl .start
  up := fun h => by cases h
  down := fun _ => rfl

section

variable (h : Recoverable hash256 params rules t blocks s)

include h

/-- While the process runs, the database is at a tip. -/
theorem tip (hup : s.up = true) :
    ∃ p, TipAt hash256 t blocks s.disk p s.db.getBestBlock s.db.coins := by
  cases h.db with
  | consistent p _ htip => exact ⟨p, htip⟩
  | between _ _ _ _ _ _ _ hheads =>
    rw [(h.up hup).2] at hheads
    cases hheads

/-- The process ends. -/
theorem lost (hdb : DbAt hash256 t blocks s.disk db) :
    Recoverable hash256 params rules t blocks (s.lost db) where
  kept := by
    refine ⟨coherent_above _, ⟨fun _ => none, .start, .refl _⟩,
      fun e u hu => h.kept.undo e u (h.disk e u hu), ?_⟩
    intro c hc index hindex hgenesis
    obtain ⟨hc, hsome⟩ := mem_filter.mp hc
    obtain ⟨u, hu, hlines⟩ := h.kept.lines c hc index hindex hgenesis
    obtain ⟨u', hu'⟩ := isSome_iff_exists.mp hsome
    obtain rfl : u' = u := Option.some.inj ((h.disk _ _ hu').symm.trans hu)
    exact ⟨u', hu', hlines⟩
  exact := ⟨.start, fun e u index prev m hu => h.exact.fresh e u index prev m (h.disk e u hu)⟩
  walked := fun _ he => by cases he
  disk := fun _ _ hu => hu
  db := hdb
  up := fun hup => by cases hup
  down := fun _ => rfl

/-- The undo data goes to disk. -/
theorem writeBlockIndexDB : Recoverable hash256 params rules t blocks s.writeBlockIndexDB where
  kept := h.kept
  exact := h.exact
  walked := h.walked
  disk := fun _ _ hu => hu
  db := h.db.mono h.disk
  up := h.up
  down := fun _ => rfl

end

/-- An operation on the coins. -/
theorem onCoins (ht : Rooted params t) (h : Recoverable hash256 params rules t blocks s)
    {w : CoinsWorld} (hunrepeated : Unrepeated hash256 rules t blocks w)
    (hstep : StepCases hash256 params rules t blocks s.world w)
    (hbase : w.coinsTip.base = s.world.coinsTip.base) (hup : s.up = true) :
    Recoverable hash256 params rules t blocks { s with world := w } := by
  have hkept := h.kept.step ht hunrepeated.fit hunrepeated.undisturbed.spares hstep
  have hexact := h.exact.step ht hunrepeated.fit h.kept hunrepeated.new hstep
  exact {
    kept := hkept
    exact := hexact
    walked := walked_step ht hkept hexact h.walked hstep
    disk := fun e u hu => hstep.undo_mono (h.disk e u hu)
    db := h.db
    up := fun _ => ⟨hbase.trans (h.up hup).1, (h.up hup).2⟩
    down := fun hdown => by
      rw [show s.up = false from hdown] at hup
      cases hup }

section

variable (h : Recoverable hash256 params rules t blocks s)

include h

/-- The tip of a database is loaded. -/
theorem loadChainTip (hheads : db.headBlocks = none) {p : Option EntryPtr}
    (htip : TipAt hash256 t blocks s.disk p db.getBestBlock db.coins) :
    s.loadChainTip t db = { s with
          world := { s.world with coinsTip := Cache.above db.coins, bestBlock := p, tip := p }
          db, up := true } ∧
      Recoverable hash256 params rules t blocks (s.loadChainTip t db) := by
  have heq : s.loadChainTip t db = { s with
        world := { s.world with coinsTip := Cache.above db.coins, bestBlock := p, tip := p }
        db, up := true } := by
    unfold DiskWorld.loadChainTip
    cases p with
    | none =>
      generalize db.getBestBlock = hash at htip
      generalize db.coins = m at htip
      cases htip
      rw [if_pos (by decide : Uint256.null.isNull = true)]
    | some e =>
      obtain ⟨hnull, hlookup⟩ := htip.lookup
      rw [hnull, if_neg Bool.false_ne_true, hlookup]
  refine ⟨heq, ?_⟩
  rw [heq]
  exact {
    kept := h.kept.frame rfl rfl (coherent_above _) ⟨db.coins, htip.coins, .refl _⟩
    exact := h.exact.frame rfl htip.coins
    walked := fun e he => by
      obtain rfl : p = some e := he
      exact htip.walked.mono h.disk
    disk := h.disk
    db := .consistent p hheads htip
    up := fun _ => ⟨rfl, hheads⟩
    down := fun hup => by cases hup }

theorem covers (hup : s.up = true) : Over s.db.coins s.world.coinsTip :=
  ⟨h.kept.coherent, (h.up hup).1⟩

/-- The best block of the cache as the tip of a flush. -/
theorem flushAt (hup : s.up = true) (hdisk : s.disk = s.world.undo) {e : EntryPtr}
    {index : BlockIndex} (hbest : s.world.bestBlock = some e) (hindex : t.index? e = some index)
    (hnull : index.hash ≠ Uint256.null) :
    FlushAt hash256 t blocks s.disk s.db s.world.coinsTip e index.hash := by
  obtain ⟨p, htip⟩ := h.tip hup
  refine .of_consistent (h.up hup).2 htip (h.covers hup) (.node hindex hnull ?_ ?_)
  · rw [hdisk]
    exact h.walked e hbest
  · rw [← hbest]
    exact h.exact.coins

end

end Recoverable

/-- What can be read when the process starts. -/
theorem readsSome_start (s : DiskWorld) (blocks : EntryPtr → Block) (reads : StartEnv) : ReadsSome
      { block := fun e => if reads.readBlock e then some (blocks e) else none
        undo := fun e => if reads.readUndo e then s.world.undo e else none }
      ⟨fun e => some (blocks e), s.world.undo⟩ := by
  refine ⟨fun e => ?_, fun e => ?_⟩
  · dsimp only
    split_ifs
    · exact Or.inr rfl
    · exact Or.inl rfl
  · dsimp only
    split_ifs
    · exact Or.inr rfl
    · exact Or.inl rfl

theorem onCoins_eq_some {s' : DiskWorld} {op : CoinsOp}
    (h : s.onCoins hash256 params.toParams rules t blocks op = some s') :
    s.up = true ∧ ∃ w, s.world.step hash256 params.toParams rules t blocks op = some w ∧
      s' = { s with world := w } := by
  unfold DiskWorld.onCoins at h
  split_ifs at h with hup
  obtain ⟨w, hw, rfl⟩ := map_eq_some_iff.mp h
  exact ⟨by simpa using hup, w, hw, rfl⟩

/-- `ReplayBlocks` on a database that was left on the way: it fails, or it makes the cache
with the coins of the new tip. -/
theorem DbAt.replay (ht : Rooted params t) (hs : t.Searchable) (hfit : t.HeightsFit)
    {reads : ReplayReads} {db : CoinsDB} (hreads : ReadsSome reads ⟨fun e => some (blocks e), undo⟩)
    (hdb : DbAt hash256 t blocks undo db) :
    (∃ p, replayBlocks hash256 t reads db = some .consistent ∧ db.headBlocks = none ∧
        TipAt hash256 t blocks undo p db.getBestBlock db.coins) ∨
      replayBlocks hash256 t reads db = some .failed ∨
      ∃ e hash cache, replayBlocks hash256 t reads db = some (.rebuilt hash cache) ∧
        FlushAt hash256 t blocks undo db cache e hash := by
  cases hdb with
  | consistent p hheads htip =>
    refine Or.inl ⟨p, ?_, hheads, htip⟩
    rw [replayBlocks, CoinsDB.getHeadBlocks, hheads, getD_none]
  | between old new hashOld hashNew mOld mNew hbest hheads hold hnew hmixed =>
    obtain ⟨cache, hall, hover, rfl⟩ := replayBlocks_between ht hs hfit
      (⟨fun _ => rfl, fun _ => rfl⟩ : ReadsAll ⟨fun e => some (blocks e), undo⟩ blocks undo)
      hheads hold hnew hmixed
    rcases replayBlocks_of_reads hreads db with hfailed | hsame
    · exact Or.inr (Or.inl hfailed)
    · exact Or.inr (Or.inr ⟨new, hashNew, cache, hsame.trans hall,
        .of_between hbest hheads hold hnew hmixed hover⟩)

/-- Reading coins again changes nothing. -/
theorem Over.refetch {base : CoinMap} (keys : List OutPoint) :
    ∀ {view : CoinsViewCache}, Over base view →
      Over base (refetch keys view) ∧ (refetch keys view).peek = view.peek := by
  induction keys with
  | nil => exact fun h => ⟨h, rfl⟩
  | cons key keys ih =>
    intro view h
    obtain ⟨hover, hpeek⟩ := ih (h.fetch key)
    exact ⟨hover, hpeek.trans (peek_fetch view key)⟩

namespace Recoverable

variable {s s' : DiskWorld} {db : CoinsDB}

/-- The cache and the database after a flush. -/
theorem flushed (h : Recoverable hash256 params rules t blocks s) (hup : s.up = true) {e : EntryPtr}
    {coinsTip : CoinsViewCache} (hheads : db.headBlocks = none)
    (htip : TipAt hash256 t blocks s.disk (some e) db.getBestBlock db.coins)
    (hover : Over db.coins coinsTip) (hpeek : coinsTip.peek = db.coins) :
    Recoverable hash256 params rules t blocks
      { s with db, world := { s.world with coinsTip, bestBlock := some e } } where
  kept := h.kept.frame rfl rfl hover.coherent ⟨db.coins, htip.coins, hpeek ▸ .refl _⟩
  exact := h.exact.frame rfl (hpeek ▸ htip.coins)
  walked := fun e' he => by
    cases he
    exact htip.walked.mono h.disk
  disk := h.disk
  db := .consistent (some e) hheads htip
  up := fun _ => ⟨hover.base_eq, hheads⟩
  down := fun hdown => by
    rw [show s.up = false from hdown] at hup
    cases hup

/-- `FlushStateToDisk`, wherever it is interrupted. -/
theorem flush (hnull : ∀ e index, t.index? e = some index → index.hash ≠ Uint256.null)
    (h : Recoverable hash256 params rules t blocks s) {env : FlushEnv} {emptyCache : Bool}
    {written : Option Nat} (hflush : s.flush t env emptyCache written = some s') :
    Recoverable hash256 params rules t blocks s' := by
  unfold DiskWorld.flush at hflush
  cases hup : s.up with
  | false =>
    rw [hup] at hflush
    cases hflush
  | true =>
    rw [hup, if_neg (by decide : ¬ (!true) = true)] at hflush
    have hindexed := h.writeBlockIndexDB
    have hup : s.writeBlockIndexDB.up = true := hup
    have hdisk : s.writeBlockIndexDB.disk = s.writeBlockIndexDB.world.undo := rfl
    generalize s.writeBlockIndexDB = s₁ at hflush hindexed hup hdisk
    dsimp only at hflush
    cases hbest : s₁.world.bestBlock with
    | none =>
      rw [hbest] at hflush
      cases hflush
      exact hindexed
    | some e =>
      rw [hbest] at hflush
      obtain ⟨index, hindex, hflush⟩ := bind_eq_some_iff.mp hflush
      obtain ⟨batches, hbatches, hflush⟩ := bind_eq_some_iff.mp hflush
      have hat := hindexed.flushAt hup hdisk hbest hindex (hnull e index hindex)
      cases written with
      | some count =>
        cases hflush
        exact hindexed.lost (hat.interrupted hbatches count)
      | none =>
        cases hflush
        obtain ⟨hheads, hcoins, -, htip⟩ := hat.completed hbatches
        have hwritten : s₁.world.coinsTip.written = (s₁.db.writeBatches batches).coins :=
          hindexed.kept.coherent.peek_flush.trans hcoins.symm
        have hempty : Over (s₁.db.writeBatches batches).coins s₁.world.coinsTip.flush :=
          ⟨coherent_above _, hwritten⟩
        obtain ⟨hover, hpeek⟩ := hempty.refetch
          (if emptyCache = true then [] else s₁.world.coinsTip.entries.keys)
        exact hindexed.flushed hup hheads htip hover (hpeek.trans hwritten)

/-- `CompleteChainstateInitialization`, wherever it is interrupted. -/
theorem start (ht : Rooted params t) (hs : t.Searchable) (hfit : t.HeightsFit)
    (h : Recoverable hash256 params rules t blocks s) {wipeChainstate : Bool} {reads : StartEnv}
    {env : FlushEnv} {written : Option Nat}
    (hstart : s.start hash256 t blocks wipeChainstate reads env written = some s') :
    Recoverable hash256 params rules t blocks s' := by
  unfold DiskWorld.start at hstart
  cases hup : s.up with
  | true =>
    rw [hup, if_pos rfl] at hstart
    cases hstart
  | false =>
    rw [hup, if_neg Bool.false_ne_true] at hstart
    have hdb : DbAt hash256 t blocks s.disk (if wipeChainstate = true then {} else s.db) := by
      split_ifs
      · exact .consistent none rfl .start
      · exact h.db
    have hsome := readsSome_start s blocks reads
    rw [h.down hup] at hsome hstart
    generalize (if wipeChainstate = true then {} else s.db) = db at hdb hstart
    obtain ⟨replayed, hreplay, hstart⟩ := bind_eq_some_iff.mp hstart
    rcases hdb.replay ht hs hfit hsome with ⟨p, hconsistent, hheads, htip⟩ | hfailed |
      ⟨e, hash, cache, hrebuilt, hat⟩
    · cases hreplay.symm.trans hconsistent
      cases hstart
      exact (h.loadChainTip hheads htip).2
    · cases hreplay.symm.trans hfailed
      cases hstart
      exact h.lost hdb
    · cases hreplay.symm.trans hrebuilt
      obtain ⟨batches, hbatches, hstart⟩ := bind_eq_some_iff.mp hstart
      cases written with
      | some count =>
        cases hstart
        exact h.lost (hat.interrupted hbatches count)
      | none =>
        cases hstart
        obtain ⟨hheads, -, -, htip⟩ := hat.completed hbatches
        exact (h.loadChainTip hheads htip).2

/-- Every operation keeps the invariant, wherever it is interrupted. -/
theorem step (ht : Rooted params t) (hs : t.Searchable)
    (hnull : ∀ e index, t.index? e = some index → index.hash ≠ Uint256.null)
    (h : Recoverable hash256 params rules t blocks s) {op : DiskOp}
    (hstep : s.step hash256 params.toParams rules t blocks op = some s')
    (hunrepeated : Unrepeated hash256 rules t blocks s'.world) :
    Recoverable hash256 params rules t blocks s' := by
  cases op with
  | connectTip e env =>
    obtain ⟨hup, w, hw, rfl⟩ := onCoins_eq_some hstep
    exact h.onCoins ht hunrepeated (step_cases hw) (base_connectTip hw) hup
  | disconnectTip env =>
    obtain ⟨hup, w, hw, rfl⟩ := onCoins_eq_some hstep
    exact h.onCoins ht hunrepeated (step_cases hw) (base_disconnectTip hw) hup
  | fetchCoin outpoint =>
    obtain ⟨hup, w, hw, rfl⟩ := onCoins_eq_some hstep
    refine h.onCoins ht hunrepeated (step_cases hw) ?_ hup
    cases hw
    exact base_fetch _ outpoint
  | flush env emptyCache written => exact h.flush hnull hstep
  | stop =>
    cases hstep
    exact h.lost h.db
  | start wipeChainstate reads env written => exact h.start ht hs hunrepeated.fit hstep

end Recoverable

/-! ## The result -/

variable (hash256 params rules t blocks) in
/-- At every point of a run, heights are `int`s, and no block that was connected overwrote
an unspent coin where `ConnectBlock` does not look for that. -/
def UnrepeatedRun (ops : List DiskOp) : Prop :=
  ∀ ops' s, ops' <+: ops →
    Runs.run (DiskWorld.step hash256 params.toParams rules t blocks) {} ops' = some s →
    Unrepeated hash256 rules t blocks s.world

theorem recoverable_of_run (ht : Rooted params t) (hs : t.Searchable)
    (hnull : ∀ e index, t.index? e = some index → index.hash ≠ Uint256.null) {ops : List DiskOp}
    (hrun : Runs.run (DiskWorld.step hash256 params.toParams rules t blocks) {} ops = some s)
    (hunrepeated : UnrepeatedRun hash256 params rules t blocks ops) :
    Recoverable hash256 params rules t blocks s := by
  refine Runs.run_invariant_of_run (I := fun ops s =>
    UnrepeatedRun hash256 params rules t blocks ops →
      Recoverable hash256 params rules t blocks s) (fun _ => .empty) ?_ hrun hunrepeated
  · intro ops op s s' _ hrun' h hstep hunrepeated
    have hbefore : UnrepeatedRun hash256 params rules t blocks ops := fun ops' s' hle =>
      hunrepeated ops' s' (hle.trans (prefix_append ops [op]))
    exact (h hbefore).step ht hs hnull hstep (hunrepeated _ s' prefix_rfl hrun')

/-- The block that a database is at, or was on its way to. -/
def CoinsDB.target (db : CoinsDB) : Uint256 := db.getHeadBlocks.headD db.getBestBlock

/-- Everything can be read. -/
def StartEnv.all : StartEnv := ⟨fun _ => true, fun _ => true⟩

/-- After every run, a process that is up has the coins of its best block.  One that ended,
at whatever point of a flush or of replaying blocks, can be started if blocks and undo data
can be read.  Its best block is then the one that the last flush was for, and it has the
coins of that block. -/
theorem interrupted_flush_recovers (ht : Rooted params t) (hs : t.Searchable)
    (hnull : ∀ e index, t.index? e = some index → index.hash ≠ Uint256.null) {ops : List DiskOp}
    {s : DiskWorld}
    (hrun : Runs.run (DiskWorld.step hash256 params.toParams rules t blocks) {} ops = some s)
    (hunrepeated : UnrepeatedRun hash256 params rules t blocks ops) :
    (s.up = true → CoinsAt hash256 t blocks s.world.bestBlock s.world.coinsTip.peek) ∧
      (s.up = false → ∀ env, ∃ s', s.start hash256 t blocks false .all env none = some s' ∧
        s'.up = true ∧ s'.world.bestBlock = t.lookupBlockIndex s.db.target ∧
        CoinsAt hash256 t blocks s'.world.bestBlock s'.world.coinsTip.peek) := by
  have h := recoverable_of_run ht hs hnull hrun hunrepeated
  have hfit := (hunrepeated ops s prefix_rfl hrun).fit
  refine ⟨fun _ => h.exact.coins, fun hdown env => ?_⟩
  -- it is enough that the process loads a tip that the target leads to
  suffices hload : ∃ db p, s.start hash256 t blocks false .all env none =
        some (s.loadChainTip t db) ∧ db.headBlocks = none ∧
      TipAt hash256 t blocks s.disk p db.getBestBlock db.coins ∧
      t.lookupBlockIndex s.db.target = p by
    obtain ⟨db, p, hstart, hheads, htip, hlookup⟩ := hload
    obtain ⟨heq, hrecoverable⟩ := h.loadChainTip hheads htip
    refine ⟨_, hstart, ?_, ?_, hrecoverable.exact.coins⟩
    · rw [heq]
    · rw [heq, hlookup]
  have hreads : ReadsAll ⟨fun e => some (blocks e), s.world.undo⟩ blocks s.disk :=
    ⟨fun _ => rfl, fun e => congrFun (h.down hdown) e⟩
  unfold DiskWorld.start
  rw [hdown, if_neg Bool.false_ne_true]
  simp only [StartEnv.all, if_true, Bool.false_eq_true, if_false]
  cases h.db with
  | consistent p hheads htip =>
    have hgetHeads : s.db.getHeadBlocks = [] := by
      rw [CoinsDB.getHeadBlocks, hheads, getD_none]
    refine ⟨s.db, p, ?_, hheads, htip, ?_⟩
    · rw [replayBlocks, hgetHeads]
      rfl
    · rw [CoinsDB.target, hgetHeads]
      exact htip.lookup_eq hnull
  | between old new hashOld hashNew mOld mNew hbest hheads hold hnew hmixed =>
    obtain ⟨cache, hreplay, hover, rfl⟩ :=
      replayBlocks_between ht hs hfit hreads hheads hold hnew hmixed
    have hat : FlushAt hash256 t blocks s.disk s.db cache new hashNew :=
      .of_between hbest hheads hold hnew hmixed hover
    obtain ⟨batches, hbatches⟩ := hat.exists_batches env
    obtain ⟨hheads', -, -, htip⟩ := hat.completed hbatches
    refine ⟨s.db.writeBatches batches, some new, ?_, hheads', htip, ?_⟩
    · rw [hreplay, bind_eq_bind, bind_some]
      dsimp only
      rw [hbatches]
      rfl
    · rw [CoinsDB.target, CoinsDB.getHeadBlocks, hheads]
      exact hnew.lookup.2

/-! ## A chain of two blocks -/

namespace Sample

open Chainman.Sample (depthHash chainParams)

/-- The first blocks of the sample chain, with skip pointers. -/
def shortTree : BlockTree where
  entries := [node 0, { node 1 with pskip := some 0 }]
  nodup := by decide

theorem index?_shortTree {e : Nat} {index : BlockIndex} (h : shortTree.index? e = some index) :
    (e = 0 ∧ index = node 0) ∨ (e = 1 ∧ index = { node 1 with pskip := some 0 }) := by
  rcases e with _ | _ | e
  · cases h
    exact Or.inl ⟨rfl, rfl⟩
  · cases h
    exact Or.inr ⟨rfl, rfl⟩
  · cases h

theorem skipLinked_shortTree : shortTree.SkipLinked := by
  intro e index h
  rcases index?_shortTree h with ⟨rfl, rfl⟩ | ⟨rfl, rfl⟩
  · exact ⟨Or.inl rfl, fun skip hskip => by cases hskip⟩
  · refine ⟨Or.inr ⟨0, rfl, node 0, rfl, Or.inl rfl⟩, fun skip hskip => ?_⟩
    cases hskip
    exact ⟨node 0, rfl, Or.inl rfl⟩

theorem searchable_shortTree : shortTree.Searchable where
  skipLinked := skipLinked_shortTree
  skipExact := by
    intro e index skip h hskip
    rcases index?_shortTree h with ⟨rfl, rfl⟩ | ⟨rfl, rfl⟩
    · cases hskip
    · cases hskip
      rfl
  linked := by
    intro e height h
    obtain ⟨index, hindex, rfl⟩ := map_eq_some_iff.mp h
    rcases index?_shortTree hindex with ⟨rfl, rfl⟩ | ⟨rfl, rfl⟩
    · rfl
    · exact ⟨0, rfl, rfl⟩
  hasSkips := by
    intro e index h hpos
    rcases index?_shortTree h with ⟨rfl, rfl⟩ | ⟨rfl, rfl⟩
    · cases hpos
    · exact ⟨0, rfl⟩
  rootsPlain := by
    intro e index h hzero
    rcases index?_shortTree h with ⟨rfl, rfl⟩ | ⟨rfl, rfl⟩
    · rfl
    · cases hzero

theorem rooted_shortTree : Rooted chainParams shortTree := by
  refine ⟨⟨skipLinked_shortTree, ?_⟩, ?_⟩
  · intro e index h hgenesis
    rcases index?_shortTree h with ⟨rfl, rfl⟩ | ⟨rfl, rfl⟩
    · exact absurd rfl hgenesis
    · exact ⟨0, node 0, rfl, rfl, rfl, getHash_node 1⟩
  · intro e index h hhash
    rcases index?_shortTree h with ⟨rfl, rfl⟩ | ⟨rfl, rfl⟩
    · exact ⟨rfl, rfl⟩
    · exact absurd (eq_zero_of_hash (by decide : 1 < 102) hhash) (by decide)

theorem hash_shortTree (e : Nat) (index : BlockIndex) (h : shortTree.index? e = some index) :
    index.hash ≠ Uint256.null := by
  rcases index?_shortTree h with ⟨rfl, rfl⟩ | ⟨rfl, rfl⟩ <;> decide

theorem unrepeated_shortTree (w : CoinsWorld) :
    Unrepeated depthHash easyRules shortTree blockAt w := by
  refine ⟨?_, fun c _ index hindex henforce => ?_⟩
  · intro e height h
    obtain ⟨index, hindex, rfl⟩ := map_eq_some_iff.mp h
    rcases index?_shortTree hindex with ⟨rfl, rfl⟩ | ⟨rfl, rfl⟩ <;> decide
  · have hnot : ∀ e < 2, (shortTree.index? e).bind (enforceBip30 easyRules shortTree) ≠
        some false := by
      decide +kernel
    refine absurd ?_ (hnot c.entry ?_)
    · rw [hindex, bind_some, henforce]
    · rcases index?_shortTree hindex with ⟨he, -⟩ | ⟨he, -⟩ <;> rw [he] <;> decide

/-- A batch for each coin. -/
def flushEnv : FlushEnv := ⟨fun _ => true, id, fun _ => List.Perm.refl _⟩

/-- The second block is flushed and disconnected again, and the process ends after the first
batch of the next flush. -/
def crashOps : List DiskOp :=
  [.start false .all flushEnv none, .connectTip 0 connectEnv, .connectTip 1 connectEnv,
    .flush flushEnv true none, .disconnectTip ⟨true, true, true⟩,
    .flush flushEnv true (some 1)]

/-- The outputs of the second block that can be spent. -/
def minted (n : UInt32) : OutPoint := ⟨(coinbase [⟨30, []⟩, ⟨40, []⟩]).getHash depthHash, n⟩

theorem exists_crash : ∃ s,
    Runs.run (DiskWorld.step depthHash chainParams.toParams easyRules shortTree blockAt) {}
        crashOps = some s ∧
      s.up = false ∧ s.db.headBlocks = some [(node 0).hash, (node 1).hash] ∧
      (s.db.coins (minted 1)).isSome ≠ (s.db.coins (minted 2)).isSome := by
  have hrun : (Runs.run (DiskWorld.step depthHash chainParams.toParams easyRules shortTree
      blockAt) {} crashOps).map (fun s => (s.up, s.db.headBlocks,
        (s.db.coins (minted 1)).isSome ^^ (s.db.coins (minted 2)).isSome)) =
      some (false, some [(node 0).hash, (node 1).hash], true) := by
    decide +kernel
  obtain ⟨s, hs, htriple⟩ := map_eq_some_iff.mp hrun
  obtain ⟨hup, hpair⟩ := Prod.mk.inj htriple
  obtain ⟨hheads, hxor⟩ := Prod.mk.inj hpair
  exact ⟨s, hs, hup, hheads, by simpa using hxor⟩

end Sample

open Sample in
/-- One of the two coins of the disconnected block is in the database when the process ends,
and none when it has started. -/
theorem interrupted_flush_recovers_rollback : ∃ s s',
    Runs.run (DiskWorld.step Chainman.Sample.depthHash Chainman.Sample.chainParams.toParams
        easyRules shortTree blockAt) {} crashOps = some s ∧
      (s.db.coins (minted 1)).isSome ≠ (s.db.coins (minted 2)).isSome ∧
      s.start Chainman.Sample.depthHash shortTree blockAt false .all flushEnv none = some s' ∧
      s'.up = true ∧ s'.world.bestBlock = some 0 ∧ s'.world.coinsTip.peek = fun _ => none := by
  obtain ⟨s, hs, hup, hheads, hone⟩ := exists_crash
  obtain ⟨-, hdown⟩ := interrupted_flush_recovers rooted_shortTree searchable_shortTree
    hash_shortTree hs fun _ s _ _ => unrepeated_shortTree s.world
  obtain ⟨s', hstart, hup', hbest, hcoins⟩ := hdown hup flushEnv
  have htarget : s.db.target = (node 0).hash := by
    rw [CoinsDB.target, CoinsDB.getHeadBlocks, hheads]
    rfl
  rw [htarget, (by decide +kernel : shortTree.lookupBlockIndex (node 0).hash = some 0)] at hbest
  rw [hbest] at hcoins
  exact ⟨s, s', hs, hone, hstart, hup', hbest, hcoins.root rfl rfl⟩

end BitcoinKernel.Validation.Coins
