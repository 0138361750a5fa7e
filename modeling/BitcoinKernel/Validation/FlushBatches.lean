import BitcoinKernel.Validation.ReplayBlocks

/-!
# The batches of a flush

`CCoinsViewDB::BatchWrite` cuts the writes of a flush into batches.  Wherever they are cut,
and in whatever order the cursor meets the entries, the database takes one of three forms.

* Before the first batch it is as it was.
* Before the last batch it has two head blocks, and every coin has its old or its new value
  (`batches_take`).
* Behind the last batch it has the coins of the cache (`batches_all`).
-/

namespace BitcoinKernel.Validation.Coins

open Serialize Consensus State WriteBack WriteBack.Cache CoinsViewCache Rebuild List

namespace CoinsDB

variable {isFull : List DbWrite → Bool} {blockHash : Uint256} {db : CoinsDB}

theorem writeBatches_eq (db : CoinsDB) (batches : List (List DbWrite)) :
    db.writeBatches batches = batches.flatten.foldl write db := by
  rw [foldl_flatten]
  rfl

/-- All writes of a flush, in their order. -/
theorem flatten_batchLoop (entries : List CacheEntry) (batch : List DbWrite) :
    (batchLoop isFull blockHash entries batch).flatten =
      batch ++ (entries.flatMap entryWrite ++ [.headBlocks none, .bestBlock (some blockHash)]) := by
  induction entries generalizing batch with
  | nil => simp [batchLoop]
  | cons x rest ih =>
    unfold batchLoop
    split_ifs
    · rw [flatten_cons, ih, flatMap_cons]
      simp
    · rw [ih, flatMap_cons]
      simp

variable {count : Nat} {entries : List CacheEntry} {old : CoinMap} {env : FlushEnv}
  {batches : List (List DbWrite)}

/-- The writes that were made before the last batch. -/
theorem flatten_take_batchLoop (entries : List CacheEntry) (batch : List DbWrite) (hpos : 0 < count)
    (hlt : count < (batchLoop isFull blockHash entries batch).length) :
    ∃ j, ((batchLoop isFull blockHash entries batch).take count).flatten =
      batch ++ (entries.take j).flatMap entryWrite := by
  induction entries generalizing batch count with
  | nil =>
    simp [batchLoop] at hlt
    omega
  | cons x rest ih =>
    unfold batchLoop at hlt ⊢
    split_ifs at hlt ⊢ with hfull
    · obtain ⟨count, rfl⟩ := Nat.exists_eq_add_of_lt hpos
      rw [Nat.zero_add] at hlt ⊢
      rw [length_cons] at hlt
      rw [take_succ_cons, flatten_cons]
      by_cases hzero : count = 0
      · refine ⟨1, ?_⟩
        rw [hzero]
        simp
      · obtain ⟨j, hj⟩ := ih [] (Nat.pos_of_ne_zero hzero) (by omega)
        refine ⟨j + 1, ?_⟩
        rw [hj, take_succ_cons, flatMap_cons]
        simp
    · obtain ⟨j, hj⟩ := ih (batch ++ entryWrite x) hpos hlt
      refine ⟨j + 1, ?_⟩
      rw [hj, take_succ_cons, flatMap_cons]
      simp

/-- The writes of entries change the coins only. -/
theorem foldl_entryWrite (entries : List CacheEntry) (db : CoinsDB) :
    ((entries.flatMap entryWrite).foldl write db).bestBlock = db.bestBlock ∧
      ((entries.flatMap entryWrite).foldl write db).headBlocks = db.headBlocks := by
  induction entries generalizing db with
  | nil => exact ⟨rfl, rfl⟩
  | cons x rest ih =>
    rw [flatMap_cons, foldl_append]
    unfold entryWrite
    split_ifs
    · exact ih _
    · exact ih db

variable {cache : CoinsViewCache}

/-- What the cursor meets is in the cache. -/
theorem entryAt_of_mem {x : CacheEntry} (h : x ∈ flagged cache) : cache.entryAt x.1 = some x.2 :=
  AList.mem_lookup_iff.mpr (mem_of_mem_filter h)

/-- The values that are written are those of the cache. -/
def Shows (cache : CoinsViewCache) (entries : List CacheEntry) : Prop :=
  ∀ x ∈ entries, x.2.value = cache.peek x.1

theorem shows_flagged (cache : CoinsViewCache) (env : FlushEnv) :
    Shows cache (env.order (flagged cache)) := fun _ hx =>
  (peek_of_entryAt (entryAt_of_mem ((env.perm _).mem_iff.mp hx))).symm

theorem Shows.take (h : Shows cache entries) (j : Nat) :
    Shows cache (entries.take j) := fun x hx => h x (mem_of_mem_take hx)

/-- Some of the entries are written. -/
theorem mixed_foldl (h : Shows cache entries) (hdb : Mixed old cache.peek db.coins) :
    Mixed old cache.peek ((entries.flatMap entryWrite).foldl write db).coins := by
  induction entries generalizing db with
  | nil => exact hdb
  | cons x rest ih =>
    have hrest : Shows cache rest := (forall_mem_cons.mp h).2
    rw [flatMap_cons, foldl_append]
    unfold entryWrite
    split_ifs
    · exact ih hrest (hdb.update (h x mem_cons_self))
    · exact ih hrest hdb

/-- A key keeps its value, or it gets that of the cache, and it gets it if it is dirty. -/
theorem coins_foldl (h : Shows cache entries) (o : OutPoint) : ∀ db : CoinsDB,
      ((entries.flatMap entryWrite).foldl write db).coins o = cache.peek o ∨
        (((entries.flatMap entryWrite).foldl write db).coins o = db.coins o ∧
          ∀ x ∈ entries, x.1 = o → x.2.dirty = false) := by
  induction entries with
  | nil => exact fun _ => Or.inr ⟨rfl, fun _ hx => by cases hx⟩
  | cons x rest ih =>
    intro db
    have hrest : Shows cache rest := (forall_mem_cons.mp h).2
    rw [flatMap_cons, foldl_append]
    unfold entryWrite
    split_ifs with hdirty
    · rcases ih hrest (db.write (.coin x.1 x.2.value)) with hset | ⟨hkept, hclean⟩
      · exact Or.inl hset
      · by_cases ho : x.1 = o
        · refine Or.inl (hkept.trans ?_)
          subst ho
          exact (Function.update_self ..).trans (h x mem_cons_self)
        · refine Or.inr ⟨hkept.trans (Function.update_of_ne (fun heq => ho heq.symm) ..), ?_⟩
          intro y hy hyo
          rcases mem_cons.mp hy with rfl | hy
          · exact absurd hyo ho
          · exact hclean y hy hyo
    · rcases ih hrest db with hset | ⟨hkept, hclean⟩
      · exact Or.inl hset
      · refine Or.inr ⟨hkept, fun y hy hyo => ?_⟩
        rcases mem_cons.mp hy with rfl | hy
        · simpa using hdirty
        · exact hclean y hy hyo

/-- All entries are written. -/
theorem leads_foldl (env : FlushEnv) (h : Over db.coins cache) {db' : CoinsDB}
    (hdb' : db'.coins = db.coins) :
    (((env.order (flagged cache)).flatMap entryWrite).foldl write db').coins = cache.peek := by
  have hleads : Leads db.coins cache.peek db.coins
      (((env.order (flagged cache)).flatMap entryWrite).foldl write db').coins := by
    intro o
    rcases coins_foldl (shows_flagged cache env) o db' with hset | ⟨hkept, hclean⟩
    · exact Or.inl hset
    · rw [hdb'] at hkept
      refine Or.inr ⟨hkept, ?_⟩
      cases hentry : cache.entryAt o with
      | none => rw [peek_of_entryAt_none hentry, h.base_eq]
      | some entry =>
        rw [peek_of_entryAt hentry]
        cases hdirty : entry.dirty with
        | false => rw [(h.coherent.clean o entry hentry hdirty).1, h.base_eq]
        | true =>
          have hmem : (⟨o, entry⟩ : CacheEntry) ∈ env.order (flagged cache) := by
            refine (env.perm _).mem_iff.mpr (mem_filter.mpr
              ⟨AList.mem_lookup_iff.mp hentry, ?_⟩)
            rw [hdirty, Bool.true_or]
          have hfalse := hclean _ hmem rfl
          rw [hdirty] at hfalse
          cases hfalse
  exact hleads.eq_of_mixed (Mixed.left _ _)

/-- What a flush begins with. -/
theorem batches_cases (h : db.batches env cache blockHash = some batches) :
    ∃ tip, db.oldTip blockHash = some tip ∧
      batches = batchLoop env.isFull blockHash (env.order (flagged cache))
        [.bestBlock none, .headBlocks (some [blockHash, tip])] := by
  unfold CoinsDB.batches at h
  split_ifs at h
  obtain ⟨tip, htip, h⟩ := Option.bind_eq_some_iff.mp h
  exact ⟨tip, htip, (Option.some.inj h).symm⟩

/-- A flush that was interrupted between its first and its last batch. -/
theorem batches_take {tip : Uint256} (htip : db.oldTip blockHash = some tip)
    (hmixed : Mixed old cache.peek db.coins) (h : db.batches env cache blockHash = some batches)
    (hpos : 0 < count) (hlt : count < batches.length) :
    (db.writeBatches (batches.take count)).bestBlock = none ∧
      (db.writeBatches (batches.take count)).headBlocks = some [blockHash, tip] ∧
      Mixed old cache.peek (db.writeBatches (batches.take count)).coins := by
  obtain ⟨tip', htip', rfl⟩ := batches_cases h
  cases htip.symm.trans htip'
  obtain ⟨j, hj⟩ := flatten_take_batchLoop _ _ hpos hlt
  rw [writeBatches_eq, hj, foldl_append]
  obtain ⟨hbest, hheads⟩ := foldl_entryWrite ((env.order (flagged cache)).take j)
    ([DbWrite.bestBlock none, .headBlocks (some [blockHash, tip])].foldl write db)
  exact ⟨hbest, hheads, mixed_foldl ((shows_flagged cache env).take j) hmixed⟩

/-- A flush that was completed. -/
theorem batches_all (hover : Over db.coins cache)
    (h : db.batches env cache blockHash = some batches) :
    (db.writeBatches batches).bestBlock = some blockHash ∧
      (db.writeBatches batches).headBlocks = none ∧
      (db.writeBatches batches).coins = cache.peek := by
  obtain ⟨tip, -, rfl⟩ := batches_cases h
  rw [writeBatches_eq, flatten_batchLoop, foldl_append, foldl_append]
  exact ⟨rfl, rfl, leads_foldl env hover rfl⟩

end CoinsDB

end BitcoinKernel.Validation.Coins
