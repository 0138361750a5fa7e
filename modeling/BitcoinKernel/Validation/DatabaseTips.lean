import BitcoinKernel.Validation.FlushBatches

/-!
# The tips of a coins database

A database is at a tip, or it was left on the way from one tip to another.

* `TipAt`: a tip, its hash and its coins, with all that is needed to replay its blocks.
* `replayBlocks_between`: from a database that was left on the way, `ReplayBlocks` makes a
  cache with the coins of the new tip.  With reads that fail it returns false or makes the
  same cache (`replayBlocks_of_reads`).
* `DbAt` is what a database can be.  However many batches of a flush are written, it stays
  so (`FlushAt.interrupted`).
-/

namespace BitcoinKernel.Validation.Coins

open Serialize Consensus State WriteBack WriteBack.Cache CoinsViewCache Rebuild Option
open Chainman (ChainParams Rooted)

variable {hash256 : List UInt8 → Uint256} {params : ChainParams hash256} {t : BlockTree}
  {blocks : EntryPtr → Block} {undo undo' : EntryPtr → Option BlockUndo}

/-! ## Tips -/

variable (hash256 t blocks undo) in
/-- A tip, its hash and its coins.  Without a tip the hash is null. -/
inductive TipAt : Option EntryPtr → Uint256 → CoinMap → Prop
  | start : TipAt none Uint256.null fun _ => none
  | node {e : EntryPtr} {index : BlockIndex} {m : CoinMap} (hindex : t.index? e = some index)
      (hnull : index.hash ≠ Uint256.null) (hwalked : Walked hash256 t blocks undo e)
      (hcoins : CoinsAt hash256 t blocks (some e) m) : TipAt (some e) index.hash m

variable {e : EntryPtr} {index : BlockIndex} {db : CoinsDB}

theorem Walked.mono (hundo : ∀ e u, undo e = some u → undo' e = some u)
    (h : Walked hash256 t blocks undo e) : Walked hash256 t blocks undo' e := by
  intro x index prev hx hindex hprev
  obtain ⟨hpays, hback⟩ := h x index prev hx hindex hprev
  refine ⟨hpays, fun index' prev' m hindex' hprev' hm => ?_⟩
  obtain ⟨u, m', hu, happlies⟩ := hback index' prev' m hindex' hprev' hm
  exact ⟨u, m', hundo x u hu, happlies⟩

section TipAt

variable {p : Option EntryPtr} {e : EntryPtr} {hash : Uint256} {m : CoinMap}

theorem TipAt.mono (hundo : ∀ e u, undo e = some u → undo' e = some u)
    (h : TipAt hash256 t blocks undo p hash m) : TipAt hash256 t blocks undo' p hash m := by
  cases h with
  | start => exact .start
  | node hindex hnull hwalked hcoins => exact .node hindex hnull (hwalked.mono hundo) hcoins

theorem TipAt.coins (h : TipAt hash256 t blocks undo p hash m) : CoinsAt hash256 t blocks p m := by
  cases h with
  | start => exact .start
  | node _ _ _ hcoins => exact hcoins

theorem TipAt.walked (h : TipAt hash256 t blocks undo (some e) hash m) :
    Walked hash256 t blocks undo e := by
  cases h with
  | node _ _ hwalked _ => exact hwalked

theorem hasHash_of_index? {index : BlockIndex} (h : t.index? e = some index) :
    t.HasHash e index.hash := by
  rw [BlockTree.HasHash, BlockTree.hashes, List.getElem?_map]
  exact congrArg (Option.map BlockIndex.hash) h

/-- What `LookupBlockIndex` finds for the hash of a tip. -/
theorem TipAt.lookup (h : TipAt hash256 t blocks undo (some e) hash m) :
    hash.isNull = false ∧ t.lookupBlockIndex hash = some e := by
  cases h with
  | node hindex hnull =>
    exact ⟨beq_false_of_ne hnull,
      BlockTree.lookupBlockIndex_eq_some_iff.mpr (hasHash_of_index? hindex)⟩

/-- The same where no block has the null hash. -/
theorem TipAt.lookup_eq (hnull : ∀ e index, t.index? e = some index → index.hash ≠ Uint256.null)
    (h : TipAt hash256 t blocks undo p hash m) : t.lookupBlockIndex hash = p := by
  cases h with
  | start =>
    refine BlockTree.lookupBlockIndex_eq_none_iff.mpr fun hmem => ?_
    obtain ⟨e, he⟩ := List.getElem?_of_mem hmem
    rw [BlockTree.hashes, List.getElem?_map] at he
    obtain ⟨index, hindex, hhash⟩ := map_eq_some_iff.mp he
    exact hnull e index hindex hhash
  | node hindex hne hwalked hcoins => exact (TipAt.node hindex hne hwalked hcoins).lookup.2

end TipAt

/-! ## Replaying all blocks -/

theorem CoinsAt.root {m : CoinMap} (h : CoinsAt hash256 t blocks (some e) m)
    (hindex : t.index? e = some index) (hprev : index.pprev = none) : m = fun _ => none :=
  h.unique (.genesis hindex hprev)

/-- The way to the root. -/
theorem exists_root (ht : Rooted params t) (hs : t.Searchable) (hindex : t.index? e = some index) :
    ∃ root rootIndex, RootPath.climb t.parent index.nHeight e = some root ∧
      t.index? root = some rootIndex ∧ rootIndex.nHeight = 0 ∧ rootIndex.pprev = none := by
  have hheight : t.height? e = some index.nHeight := by
    rw [BlockTree.height?, hindex, map_some]
  obtain ⟨root, -, hclimb⟩ := BlockTree.getAncestor_climb hs.skipLinked hs.skipExact hindex
    (Nat.zero_le index.nHeight)
  rw [Nat.sub_zero] at hclimb
  obtain ⟨rootHeight, hroot, hsum⟩ := hs.linked.height?_climb hheight hclimb
  obtain ⟨rootIndex, hrootIndex, rfl⟩ := map_eq_some_iff.mp hroot
  refine ⟨root, rootIndex, hclimb, hrootIndex, by omega, ?_⟩
  cases hprev : rootIndex.pprev with
  | none => rfl
  | some prev =>
    obtain ⟨_, -, hsucc⟩ := ht.index?_pprev hrootIndex hprev
    omega

/-- Two nodes have a common ancestor, the genesis block. -/
theorem lastCommonAncestor_some (ht : Rooted params t) (hs : t.Searchable) {a b : EntryPtr}
    {indexA indexB : BlockIndex} (ha : t.index? a = some indexA) (hb : t.index? b = some indexB) :
    ∃ fork, t.lastCommonAncestor a b = some (some fork) ∧ t.IsAncestor a fork ∧
      t.IsAncestor b fork := by
  obtain ⟨rootA, rootIndexA, hclimbA, hrootA, -, hprevA⟩ := exists_root ht hs ha
  obtain ⟨rootB, rootIndexB, hclimbB, hrootB, -, hprevB⟩ := exists_root ht hs hb
  have hhash : rootIndexA.hash = rootIndexB.hash :=
    (ht.hash_of_root hrootA hprevA).trans (ht.hash_of_root hrootB hprevB).symm
  have hsame : rootA = rootB :=
    (hasHash_of_index? hrootA).unique (hhash ▸ hasHash_of_index? hrootB)
  obtain ⟨r, hr, hcommon⟩ := BlockTree.lastCommonAncestor_spec hs ha hb
  obtain ⟨fork, rfl, -⟩ :=
    (hcommon rootA).mp ⟨⟨_, hclimbA⟩, ⟨_, hsame ▸ hclimbB⟩⟩
  obtain ⟨hforkA, hforkB⟩ := (hcommon fork).mpr ⟨fork, rfl, isAncestor_self t fork⟩
  exact ⟨fork, hr, hforkA, hforkB⟩

variable {reads : ReplayReads} {base : CoinMap} {view : CoinsViewCache}

section Replay

variable {new : EntryPtr} {newIndex : BlockIndex} {mOld mNew : CoinMap}

/-- From the old tip over the fork to the new tip. -/
theorem replayFrom_fork (ht : Rooted params t) (hs : t.Searchable) (hfit : t.HeightsFit)
    (hreads : ReadsAll reads blocks undo) {old fork : EntryPtr} {oldIndex : BlockIndex}
    (hold : t.index? old = some oldIndex) (hnew : t.index? new = some newIndex)
    (hforkOld : t.IsAncestor old fork) (hforkNew : t.IsAncestor new fork)
    (hwalkedOld : Walked hash256 t blocks undo old) (hwalkedNew : Walked hash256 t blocks undo new)
    (hcoinsOld : CoinsAt hash256 t blocks (some old) mOld)
    (hcoinsNew : CoinsAt hash256 t blocks (some new) mNew) (hover : Over base view)
    (hmixed : Mixed mOld mNew view.peek) :
    ∃ cache, replayFrom hash256 t reads (some old) (some fork) new view =
      some (.rebuilt newIndex.hash cache) ∧ Over base cache ∧ cache.peek = mNew := by
  have hheightOld : t.height? old = some oldIndex.nHeight := by
    rw [BlockTree.height?, hold, map_some]
  have hheightNew : t.height? new = some newIndex.nHeight := by
    rw [BlockTree.height?, hnew, map_some]
  obtain ⟨n, hn⟩ := hforkOld
  obtain ⟨k, hk⟩ := hforkNew
  obtain ⟨forkHeight, hfork, hsumOld⟩ := hs.linked.height?_climb hheightOld hn
  obtain ⟨forkHeight', hfork', hsumNew⟩ := hs.linked.height?_climb hheightNew hk
  cases hfork.symm.trans hfork'
  obtain ⟨view₁, mFork, hback, hcoinsFork, hover₁, hleads₁⟩ := rollback_leads ht hfit hreads
    (by omega : n ≤ oldIndex.nHeight + 1) hn hwalkedOld hcoinsOld ⟨oldIndex, hold⟩ hover
  obtain ⟨cache, hforward, hover₂, hleads₂⟩ := rollforward_leads hs hreads hnew hcoinsNew
    hwalkedNew hk hfork hcoinsFork hover₁
  refine ⟨cache, ?_, hover₂, (hleads₁.trans hleads₂).eq_of_mixed hmixed⟩
  have hcount : newIndex.nHeight - forkHeight = k := by omega
  unfold replayFrom
  simp only [bind_eq_bind, bind_some, hnew, hheightOld, hfork, getD_some, hback, hcount, hforward]
  rfl

/-- From nothing to the first tip. -/
theorem replayFrom_start (ht : Rooted params t) (hs : t.Searchable)
    (hreads : ReadsAll reads blocks undo) (hnew : t.index? new = some newIndex)
    (hwalked : Walked hash256 t blocks undo new) (hcoins : CoinsAt hash256 t blocks (some new) mNew)
    (hover : Over base view) (hmixed : Mixed (fun _ => none) mNew view.peek) :
    ∃ cache, replayFrom hash256 t reads none none new view =
      some (.rebuilt newIndex.hash cache) ∧ Over base cache ∧ cache.peek = mNew := by
  obtain ⟨root, rootIndex, hclimb, hroot, hzero, hprev⟩ := exists_root ht hs hnew
  have hheight : t.height? root = some 0 := by
    rw [BlockTree.height?, hroot, map_some, hzero]
  obtain ⟨m, hm⟩ := hcoins.of_climb hclimb
  rw [hm.root hroot hprev] at hm
  obtain ⟨cache, hforward, hover', hleads⟩ :=
    rollforward_leads hs hreads hnew hcoins hwalked hclimb hheight hm hover
  refine ⟨cache, ?_, hover', hleads.eq_of_mixed hmixed⟩
  unfold replayFrom
  simp only [bind_eq_bind, bind_some, bind_none, hnew, getD_none,
    rollback_self, Nat.sub_zero, hforward]
  rfl

end Replay

/-- A database that was left on the way from one tip to another. -/
theorem replayBlocks_between (ht : Rooted params t) (hs : t.Searchable) (hfit : t.HeightsFit)
    (hreads : ReadsAll reads blocks undo) {old : Option EntryPtr} {new : EntryPtr}
    {hashOld hashNew : Uint256} {mOld mNew : CoinMap}
    (hheads : db.headBlocks = some [hashNew, hashOld])
    (hold : TipAt hash256 t blocks undo old hashOld mOld)
    (hnew : TipAt hash256 t blocks undo (some new) hashNew mNew)
    (hmixed : Mixed mOld mNew db.coins) :
    ∃ cache, replayBlocks hash256 t reads db = some (.rebuilt hashNew cache) ∧
      Over db.coins cache ∧ cache.peek = mNew := by
  obtain ⟨-, hlookup⟩ := hnew.lookup
  have hgetHeads : db.getHeadBlocks = [hashNew, hashOld] := by
    rw [CoinsDB.getHeadBlocks, hheads, getD_some]
  unfold replayBlocks
  rw [hgetHeads]
  dsimp only
  rw [hlookup]
  dsimp only
  cases hnew with
  | node hindex hnull hwalked hcoins =>
    cases hold with
    | start =>
      rw [if_pos (by decide : Uint256.null.isNull = true)]
      exact replayFrom_start ht hs hreads hindex hwalked hcoins (over_above db.coins) hmixed
    | @node old oldIndex mOld hindexOld hnullOld hwalkedOld hcoinsOld =>
      have hlookupOld := (TipAt.node hindexOld hnullOld hwalkedOld hcoinsOld).lookup
      rw [hlookupOld.1, if_neg Bool.false_ne_true, hlookupOld.2]
      dsimp only
      obtain ⟨fork, hfork, hforkOld, hforkNew⟩ :=
        lastCommonAncestor_some ht hs hindexOld hindex
      rw [hfork, bind_eq_bind, bind_some, isNone_some, if_neg Bool.false_ne_true]
      exact replayFrom_fork ht hs hfit hreads hindexOld hindex hforkOld hforkNew hwalkedOld
        hwalked hcoinsOld hcoins (over_above db.coins) hmixed

/-! ## Reads that fail -/

/-- What is read is what is there. -/
structure ReadsSome (reads all : ReplayReads) : Prop where
  block : ∀ e, reads.block e = none ∨ reads.block e = all.block e
  undo : ∀ e, reads.undo e = none ∨ reads.undo e = all.undo e

variable {all : ReplayReads}

theorem rollback_of_reads (h : ReadsSome reads all) (pindexFork : Option EntryPtr) (turns : Nat)
    (p : Option EntryPtr) (view : CoinsViewCache) :
    rollback hash256 t reads pindexFork turns p view = some none ∨
      rollback hash256 t reads pindexFork turns p view =
        rollback hash256 t all pindexFork turns p view := by
  induction turns generalizing p view with
  | zero =>
    right
    unfold rollback
    rfl
  | succ turns ih =>
    unfold rollback
    by_cases hfork : p = pindexFork
    · rw [if_pos hfork, if_pos hfork]
      exact Or.inr rfl
    rw [if_neg hfork, if_neg hfork]
    dsimp only
    cases p with
    | none => exact Or.inr rfl
    | some old =>
      cases hindex : t.index? old with
      | none =>
        simp only [bind_eq_bind, bind_some, hindex, bind_none]
        exact Or.inr trivial
      | some index =>
        simp only [bind_eq_bind, bind_some, hindex]
        split_ifs
        · rcases h.block old with hblock | hblock
          · rw [hblock]
            exact Or.inl rfl
          rw [hblock]
          cases all.block old with
          | none => exact Or.inl rfl
          | some block =>
            rcases h.undo old with hundo | hundo
            · rw [hundo]
              exact Or.inl rfl
            rw [hundo]
            dsimp only
            cases disconnectOn hash256 index block (all.undo old) view with
            | error failure => cases failure <;> exact Or.inr rfl
            | ok r => exact ih index.pprev r.2
        · exact ih index.pprev view

theorem rollforward_of_reads (h : ReadsSome reads all) (pindexNew : EntryPtr) :
    ∀ (heights : List Nat) (view : CoinsViewCache),
      rollforward hash256 t reads pindexNew heights view = some none ∨
        rollforward hash256 t reads pindexNew heights view =
          rollforward hash256 t all pindexNew heights view := by
  intro heights
  induction heights with
  | nil => exact fun _ => Or.inr rfl
  | cons nHeight rest ih =>
    intro view
    unfold rollforward
    cases t.btckGetAncestor pindexNew nHeight with
    | none => exact Or.inr rfl
    | some pindex =>
      cases hindex : t.index? pindex with
      | none =>
        simp only [bind_eq_bind, bind_some, hindex, bind_none]
        exact Or.inr trivial
      | some index =>
        simp only [bind_eq_bind, bind_some, hindex]
        rcases h.block pindex with hblock | hblock
        · rw [hblock]
          exact Or.inl rfl
        rw [hblock]
        cases all.block pindex with
        | none => exact Or.inl rfl
        | some block =>
          dsimp only
          cases rollforwardBlock hash256 index block view with
          | none => exact Or.inr rfl
          | some view => exact ih view

theorem replayFrom_of_reads (h : ReadsSome reads all) (old fork : Option EntryPtr) (new : EntryPtr)
    (view : CoinsViewCache) :
    replayFrom hash256 t reads old fork new view = some .failed ∨
      replayFrom hash256 t reads old fork new view =
        replayFrom hash256 t all old fork new view := by
  unfold replayFrom
  cases t.index? new with
  | none => exact Or.inr rfl
  | some index =>
    simp only [bind_eq_bind, bind_some]
    rcases rollback_of_reads h fork (((old.bind t.height?).getD 0) + 1) old view with
      hback | hback
    · rw [hback]
      exact Or.inl rfl
    rw [hback]
    cases rollback hash256 t all fork (((old.bind t.height?).getD 0) + 1) old view with
    | none => exact Or.inr rfl
    | some r =>
      cases r with
      | none => exact Or.inl rfl
      | some view =>
        simp only [bind_some]
        rcases rollforward_of_reads h new (List.range' (((fork.bind t.height?).getD 0) + 1)
          (index.nHeight - (fork.bind t.height?).getD 0)) view with hforward | hforward
        · rw [hforward]
          exact Or.inl rfl
        · rw [hforward]
          exact Or.inr rfl

/-- Where a read fails, `ReplayBlocks` returns false or does not need it. -/
theorem replayBlocks_of_reads (h : ReadsSome reads all) (db : CoinsDB) :
    replayBlocks hash256 t reads db = some .failed ∨
      replayBlocks hash256 t reads db = replayBlocks hash256 t all db := by
  unfold replayBlocks
  split
  · exact Or.inr rfl
  · split
    · exact Or.inr rfl
    · split_ifs
      · exact replayFrom_of_reads h _ _ _ _
      · split
        · exact Or.inr rfl
        · rename_i old _
          cases t.lastCommonAncestor old _ with
          | none => exact Or.inr rfl
          | some fork =>
            simp only [bind_eq_bind, bind_some]
            split_ifs
            · exact Or.inr rfl
            · exact replayFrom_of_reads h _ _ _ _
  · exact Or.inr rfl

/-! ## Databases -/

variable (hash256 t blocks undo) in
/-- What a database can be: at a tip, or left on the way from one tip to another. -/
inductive DbAt (db : CoinsDB) : Prop
  | consistent (p : Option EntryPtr) (hheads : db.headBlocks = none)
      (htip : TipAt hash256 t blocks undo p db.getBestBlock db.coins)
  | between (old : Option EntryPtr) (new : EntryPtr) (hashOld hashNew : Uint256)
      (mOld mNew : CoinMap) (hbest : db.bestBlock = none)
      (hheads : db.headBlocks = some [hashNew, hashOld])
      (hold : TipAt hash256 t blocks undo old hashOld mOld)
      (hnew : TipAt hash256 t blocks undo (some new) hashNew mNew)
      (hmixed : Mixed mOld mNew db.coins)

theorem DbAt.mono (hundo : ∀ e u, undo e = some u → undo' e = some u)
    (h : DbAt hash256 t blocks undo db) : DbAt hash256 t blocks undo' db := by
  cases h with
  | consistent p hheads htip => exact .consistent p hheads (htip.mono hundo)
  | between old new hashOld hashNew mOld mNew hbest hheads hold hnew hmixed =>
    exact .between old new hashOld hashNew mOld mNew hbest hheads (hold.mono hundo)
      (hnew.mono hundo) hmixed

variable (hash256 t blocks undo) in
/-- What a flush to a new tip starts from: the database is at the old tip, or it was left
on the way from there to the same new tip. -/
structure FlushAt (db : CoinsDB) (cache : CoinsViewCache) (e : EntryPtr) (blockHash : Uint256) :
    Prop where
  before : DbAt hash256 t blocks undo db
  covers : Over db.coins cache
  tip : TipAt hash256 t blocks undo (some e) blockHash cache.peek
  old : ∃ p hashOld mOld, db.oldTip blockHash = some hashOld ∧
    TipAt hash256 t blocks undo p hashOld mOld ∧ Mixed mOld cache.peek db.coins

section FlushAt

variable {db : CoinsDB} {cache : CoinsViewCache} {e : EntryPtr} {blockHash : Uint256}
  {env : FlushEnv} {batches : List (List DbWrite)}

/-- A flush from the tip of the database. -/
theorem FlushAt.of_consistent {p : Option EntryPtr} (hheads : db.headBlocks = none)
    (hdb : TipAt hash256 t blocks undo p db.getBestBlock db.coins) (hover : Over db.coins cache)
    (htip : TipAt hash256 t blocks undo (some e) blockHash cache.peek) :
    FlushAt hash256 t blocks undo db cache e blockHash := by
  refine ⟨.consistent p hheads hdb, hover, htip, p, _, _, ?_, hdb, Mixed.left _ _⟩
  unfold CoinsDB.oldTip
  rw [CoinsDB.getHeadBlocks, hheads, getD_none]
  split_ifs <;> rfl

/-- A flush that completes one that was interrupted. -/
theorem FlushAt.of_between {p : Option EntryPtr} {hashOld : Uint256} {mOld : CoinMap}
    (hbest : db.bestBlock = none) (hheads : db.headBlocks = some [blockHash, hashOld])
    (hold : TipAt hash256 t blocks undo p hashOld mOld)
    (htip : TipAt hash256 t blocks undo (some e) blockHash cache.peek)
    (hmixed : Mixed mOld cache.peek db.coins) (hover : Over db.coins cache) :
    FlushAt hash256 t blocks undo db cache e blockHash := by
  refine ⟨.between p e hashOld blockHash mOld _ hbest hheads hold htip hmixed, hover, htip, p,
    hashOld, mOld, ?_, hold, hmixed⟩
  unfold CoinsDB.oldTip
  rw [CoinsDB.getHeadBlocks, hheads, getD_some, CoinsDB.getBestBlock, hbest,
    getD_none, if_pos (by decide : Uint256.null.isNull = true)]
  dsimp only
  rw [if_neg (not_not.mpr rfl)]

section

variable (h : FlushAt hash256 t blocks undo db cache e blockHash)

include h

theorem FlushAt.exists_batches
    (env : FlushEnv) : ∃ batches, db.batches env cache blockHash = some batches := by
  obtain ⟨_, hashOld, _, htip, -⟩ := h.old
  unfold CoinsDB.batches
  rw [h.tip.lookup.1, if_neg Bool.false_ne_true, htip]
  exact ⟨_, rfl⟩

/-- A flush that was completed. -/
theorem FlushAt.completed (hbatches : db.batches env cache blockHash = some batches) :
    (db.writeBatches batches).headBlocks = none ∧ (db.writeBatches batches).coins = cache.peek ∧
      (db.writeBatches batches).getBestBlock = blockHash ∧
      TipAt hash256 t blocks undo (some e) (db.writeBatches batches).getBestBlock
        (db.writeBatches batches).coins := by
  obtain ⟨hbest, hheads, hcoins⟩ := CoinsDB.batches_all h.covers hbatches
  have hgetBest : (db.writeBatches batches).getBestBlock = blockHash := by
    rw [CoinsDB.getBestBlock, hbest, getD_some]
  refine ⟨hheads, hcoins, hgetBest, ?_⟩
  rw [hgetBest, hcoins]
  exact h.tip

/-- A flush that ends after any number of batches. -/
theorem FlushAt.interrupted (hbatches : db.batches env cache blockHash = some batches)
    (count : Nat) :
    DbAt hash256 t blocks undo (db.writeBatches (batches.take count)) := by
  rcases Nat.eq_zero_or_pos count with rfl | hpos
  · exact h.before
  rcases Nat.lt_or_ge count batches.length with hlt | hge
  · obtain ⟨p, hashOld, mOld, htip, hold, hmixed⟩ := h.old
    obtain ⟨hbest, hheads, hmixed'⟩ := CoinsDB.batches_take htip hmixed hbatches hpos hlt
    exact .between p e hashOld blockHash mOld _ hbest hheads hold h.tip hmixed'
  · rw [List.take_of_length_le hge]
    obtain ⟨hheads, -, -, htip⟩ := h.completed hbatches
    exact .consistent (some e) hheads htip

end

end FlushAt

end BitcoinKernel.Validation.Coins
