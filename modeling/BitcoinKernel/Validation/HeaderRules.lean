import BitcoinKernel.Lib.Median
import BitcoinKernel.State.CommonAncestor
import BitcoinKernel.Validation.GenesisPresent

/-!
# The rules that every header of the tree has met

`ContextualCheckBlockHeader` looks at a header once, when it is added.  What it found stays
true as the tree grows, since it reads the ancestors of the header only.

* `Checked`: every node but the genesis block has passed `ContextualCheckBlockHeader` on an
  earlier tree.  `Checked.step` is the step lemma over the sections of all calls, and
  `checked_of_run` the run lemma.
* `getMedianTimePast_of_grows`: the median time past of a node never changes.
* `median_time_past_monotone`: along every branch of every tree that a run reaches, the
  median time past never goes down, and the time of a block is later than the median time
  past of each of its ancestors.
-/

namespace BitcoinKernel.State

open RootPath

namespace BlockTree

variable {t t' : BlockTree} {e prev : EntryPtr} {index : BlockIndex}

/-! ## The window of `GetMedianTimePast` -/

theorem medianTimes_succ (he : t.index? e = some index) (n : Nat) :
    t.medianTimes (n + 1) (some e) = (index.nTime.toNat : Int) :: t.medianTimes n index.pprev := by
  rw [medianTimes, he]

theorem length_medianTimes_le (t : BlockTree) (n : Nat) (p : Option EntryPtr) :
    (t.medianTimes n p).length ≤ n := by
  induction n generalizing p with
  | zero => simp [medianTimes]
  | succ n ih =>
    cases p with
    | none => simp [medianTimes]
    | some e =>
      unfold medianTimes
      cases t.index? e with
      | none => simp
      | some index => simpa using ih index.pprev

/-- A smaller window is the newer part of a larger one. -/
theorem medianTimes_eq_take (t : BlockTree) (n : Nat) (p : Option EntryPtr) :
    t.medianTimes n p = (t.medianTimes (n + 1) p).take n := by
  induction n generalizing p with
  | zero => simp [medianTimes]
  | succ n ih =>
    cases p with
    | none => simp [medianTimes]
    | some e =>
      cases he : t.index? e with
      | none => simp [medianTimes, he]
      | some index =>
        rw [medianTimes_succ he, medianTimes_succ he, List.take_succ_cons, ← ih]

theorem getMedianTimePast_eq (t : BlockTree) (e : EntryPtr) :
    t.getMedianTimePast e = Median.median (t.medianTimes medianTimeSpan (some e)) 0 := by
  simp only [getMedianTimePast, Median.median, List.length_mergeSort]

/-- A block whose time is later than the median time past of its parent does not lower the
median time past. -/
theorem getMedianTimePast_le_of_time {pindex : BlockIndex} (he : t.index? e = some index)
    (hprev : index.pprev = some prev) (hpindex : t.index? prev = some pindex)
    (htime : t.getMedianTimePast prev < index.nTime.toNat) :
    t.getMedianTimePast prev ≤ t.getMedianTimePast e := by
  rw [getMedianTimePast_eq] at htime
  rw [getMedianTimePast_eq, getMedianTimePast_eq]
  have hwindow : t.medianTimes medianTimeSpan (some prev) ≠ [] := by
    rw [medianTimeSpan, medianTimes_succ hpindex]
    exact List.cons_ne_nil _ _
  have hpush := Median.median_le_median_push hwindow
    (t.length_medianTimes_le medianTimeSpan (some prev)) htime.le
  have htake : (t.medianTimes medianTimeSpan (some prev)).take (medianTimeSpan - 1) =
      t.medianTimes (medianTimeSpan - 1) (some prev) :=
    (t.medianTimes_eq_take (medianTimeSpan - 1) (some prev)).symm
  rw [htake, ← hprev, ← medianTimes_succ he] at hpush
  rw [hprev] at hpush
  exact hpush

end BlockTree

end BitcoinKernel.State

namespace BitcoinKernel.Validation.Chainman

open Serialize Consensus State State.BlockTree

variable {hash256 : List UInt8 → Uint256} {params : ChainParams hash256} {t t' t'' : BlockTree}
  {e prev : EntryPtr} {index : BlockIndex}

/-! ## Trees that grow -/

variable {a b : BlockIndex} {now : Int} {block : BlockHeader} {state : BlockValidationState}
  {m : ChainstateManager} {r : AcceptedHeader} {w : World}

theorem SameNode.trans {c : BlockIndex} (h : SameNode a b) (h' : SameNode b c) : SameNode a c :=
  ⟨h.hash.trans h'.hash, h.pprev.trans h'.pprev, h.pskip.trans h'.pskip,
    h.nHeight.trans h'.nHeight, fun hash => (h.header hash).trans (h'.header hash)⟩

theorem Grows.trans (h : Grows t t') (h' : Grows t' t'') : Grows t t'' := by
  intro e index he
  obtain ⟨index', he', hsame⟩ := h e index he
  obtain ⟨index'', he'', hsame'⟩ := h' e index' he'
  exact ⟨index'', he'', hsame.trans hsame'⟩

theorem SameNode.nTime_eq (h : SameNode a b) : a.nTime = b.nTime :=
  congrArg BlockHeader.nTime (h.header Uint256.null)

theorem SameNode.nBits_eq (h : SameNode a b) : a.nBits = b.nBits :=
  congrArg BlockHeader.nBits (h.header Uint256.null)

/-- The times before a node are read off its ancestors. -/
theorem medianTimes_of_grows (ht : Rooted params t) (h : Grows t t') (n : Nat)
    (he : t.index? e = some index) : t'.medianTimes n (some e) = t.medianTimes n (some e) := by
  induction n generalizing e index with
  | zero => rfl
  | succ n ih =>
    obtain ⟨index', he', hsame⟩ := h e index he
    rw [medianTimes_succ he, medianTimes_succ he', hsame.nTime_eq, ← hsame.pprev]
    cases hprev : index.pprev with
    | none => cases n <;> rfl
    | some prev =>
      obtain ⟨pindex, hpindex, -⟩ := ht.index?_pprev he hprev
      rw [ih hpindex]

/-- The median time past of a node never changes. -/
theorem getMedianTimePast_of_grows (ht : Rooted params t) (h : Grows t t')
    (he : t.index? e = some index) : t'.getMedianTimePast e = t.getMedianTimePast e := by
  rw [getMedianTimePast_eq, getMedianTimePast_eq, medianTimes_of_grows ht h _ he]

/-! ## Headers that were checked -/

/-- The header at a node has passed `ContextualCheckBlockHeader`, on a tree that has grown
since. -/
structure CheckedAt (params : ChainParams hash256) (t : BlockTree) (index : BlockIndex)
    (prev : EntryPtr) : Prop where
  check : ∃ t₀ now state pindex, Rooted params t₀ ∧ Grows t₀ t ∧ t₀.index? prev = some pindex ∧
    contextualCheckBlockHeader params.toParams now t₀ (index.getBlockHeader pindex.hash) state
      prev = some (true, state)

/-- Every header but that of the genesis block was checked. -/
structure Checked (params : ChainParams hash256) (t : BlockTree) : Prop extends
    Rooted params t where
  checked : ∀ e index prev, t.index? e = some index → index.pprev = some prev →
    CheckedAt params t index prev

theorem checked_empty : Checked params BlockTree.empty where
  toRooted := rooted_empty
  checked _ _ _ he := by cases he

theorem CheckedAt.mono {index' : BlockIndex} (h : CheckedAt params t index prev)
    (hgrows : Grows t t') (hsame : SameNode index index') : CheckedAt params t' index' prev := by
  obtain ⟨t₀, now, state, pindex, hrooted, hgrows₀, hpindex, hcheck⟩ := h.check
  rw [hsame.header] at hcheck
  exact ⟨t₀, now, state, pindex, hrooted, hgrows₀.trans hgrows, hpindex, hcheck⟩

theorem Checked.relabel (h : Checked params t) (hlabel : Relabeled t t') : Checked params t' where
  toRooted := h.toRooted.relabel hlabel
  checked := by
    intro e index' prev he' hprev
    obtain ⟨index, he, hsame⟩ := hlabel.exists_index? he'
    exact (h.checked e index prev he (hsame.pprev.trans hprev)).mono hlabel.grows hsame

/-- A check that passes leaves its state alone. -/
theorem contextualCheckBlockHeader_passed {params : Params} {state' : BlockValidationState}
    (h : contextualCheckBlockHeader params now t block state prev = some (true, state')) :
    state' = state ∧ t.getMedianTimePast prev < block.nTime.toNat ∧
      block.nBits = params.getNextWorkRequired t prev block := by
  unfold contextualCheckBlockHeader at h
  obtain ⟨pindexPrev, -, h⟩ := Option.bind_eq_some_iff.mp h
  dsimp only at h
  split_ifs at h with hbits htime
  all_goals first
    | cases h; exact ⟨rfl, not_le.mp htime, not_not.mp hbits⟩
    | cases h

/-- What `AcceptBlockHeader` has checked of a header that it adds. -/
theorem acceptBlockHeader_checked {params : Params}
    (h : acceptBlockHeader hash256 params now m block state true = some r)
    (haccepted : r.accepted = true) (hnew : block.getHash hash256 ∉ m.tree.hashes)
    (hgenesis : block.getHash hash256 ≠ params.hashGenesisBlock) :
    ∃ prev state', m.tree.HasHash prev block.hashPrevBlock ∧
      contextualCheckBlockHeader params now m.tree block state' prev = some (true, state') := by
  unfold acceptBlockHeader at h
  dsimp only at h
  rw [if_pos hgenesis, lookupBlockIndex_eq_none_iff.mpr hnew] at h
  dsimp only at h
  obtain ⟨⟨ok, state'⟩, hcheck, h⟩ := Option.bind_eq_some_iff.mp h
  cases ok with
  | false =>
    cases h
    cases haccepted
  | true =>
    unfold checkNewHeader at hcheck
    generalize state.check _ = result at hcheck
    obtain ⟨ok, state₁⟩ := result
    cases ok with
    | false => cases hcheck
    | true =>
      dsimp only at hcheck
      cases hprev : m.tree.lookupBlockIndex block.hashPrevBlock with
      | none =>
        rw [hprev] at hcheck
        cases hcheck
      | some prev =>
        rw [hprev] at hcheck
        obtain ⟨pindexPrev, -, hcheck⟩ := Option.bind_eq_some_iff.mp hcheck
        split_ifs at hcheck
        · cases hcheck
        · obtain ⟨rfl, -, -⟩ := contextualCheckBlockHeader_passed hcheck
          exact ⟨prev, state', hasHash_of_lookupBlockIndex hprev, hcheck⟩

/-- `AcceptBlockHeader` adds only headers that it has checked. -/
theorem Checked.acceptBlockHeader (h : Checked params m.tree) (hstate : state.mode = .valid)
    (hr : acceptBlockHeader hash256 params.toParams now m block state true = some r) :
    Checked params r.manager.tree := by
  obtain ⟨r', hr', hverdict⟩ := acceptBlockHeader_spec hash256 params.toParams
    h.sound.skipLinked now block state hstate
  cases hr.symm.trans hr'
  cases hverdict with
  | rejected => exact h
  | accepted m' e hadded =>
    have hrooted := h.toRooted.added hadded
    have hgrows := hadded.grows
    cases hadded with
    | known => exact h
    | inserted t' node hnew happend hnode hprev =>
      refine ⟨hrooted, fun e index prev he hpprev => ?_⟩
      rcases happend.cases he with hold | ⟨-, rfl⟩
      · exact (h.checked e index prev hold hpprev).mono hgrows
          ⟨rfl, rfl, rfl, rfl, fun _ => rfl⟩
      · have hgenesis : block.getHash hash256 ≠ params.hashGenesisBlock := by
          intro hgenesis
          rw [(hrooted.genesis e index he (hnode.hash_eq.trans hgenesis)).1] at hpprev
          cases hpprev
        obtain ⟨prev', state', hprev', hcheck⟩ :=
          acceptBlockHeader_checked hr rfl hnew hgenesis
        obtain ⟨pindex, hpindex, hhash⟩ := exists_index?_of_hasHash hprev'
        have hsame : prev' = prev := by
          cases hnode.links with
          | root hnot => exact absurd (List.mem_of_getElem? hprev') hnot
          | child parent skip _ hparent _ hlink =>
            rw [hlink, Option.some.injEq] at hpprev
            exact hpprev ▸ hprev'.unique hparent
          | itself hnot => exact absurd (List.mem_of_getElem? hprev') hnot
        subst hsame
        refine ⟨m.tree, now, state', pindex, h.toRooted, hgrows, hpindex, ?_⟩
        rw [hnode.header, hhash]
        exact hcheck

/-! ## Runs -/

/-- `AcceptBlock` calls `AcceptBlockHeader`, and changes only statuses behind it. -/
theorem Checked.acceptBlock {env : Surroundings} {object : BlockObject} {r : AcceptedBlock}
    (h : Checked params m.tree) (hstate : state.mode = .valid)
    (hr : acceptBlock hash256 params.toParams env m object state = some r) :
    Checked params r.manager.tree := by
  obtain ⟨header, hheader, hcases⟩ := acceptBlock_cases hr
  have hchecked := h.acceptBlockHeader hstate hheader
  rcases hcases with ⟨-, hm, -⟩ | ⟨-, _, _, -, -, -, hstore⟩
  · rw [hm]
    exact hchecked
  · exact hchecked.relabel (relabeled_storeBlock hstore)

/-- The step lemma: no section of a call adds a header that was not checked. -/
theorem Checked.step {w' : World} {op : Op} (h : Checked params w.manager.tree)
    (hstep : w.step hash256 params.toParams op = some w') : Checked params w'.manager.tree := by
  cases World.step_cases hstep with
  | skip | blockCreate | processBlockReturn => exact h
  | processBlockHeader hheader =>
    obtain ⟨r, hr, hm⟩ := exists_acceptBlockHeader hheader
    exact hm ▸ h.acceptBlockHeader rfl hr
  | processBlock hobject hr =>
    unfold processNewBlock at hr
    generalize hcheck : runCheckBlock hash256 params.toParams _ {} = result at hr
    obtain ⟨checked, state, cache⟩ := result
    cases checked with
    | false =>
      cases hr
      exact h
    | true =>
      have hstate := runCheckBlock_of_passed hcheck
      exact h.acceptBlock (by rw [hstate]) hr
  | activateBestChain => exact h.relabel (relabeled_mapStatus _ _)

/-- The run lemma. -/
theorem checked_of_run {m₀ : ChainstateManager} (h₀ : Checked params m₀.tree) {ops : List Op}
    (hrun : Runs.run (World.step hash256 params.toParams) { manager := m₀ } ops = some w) :
    Checked params w.manager.tree :=
  Runs.run_invariant (I := fun _ w => Checked params w.manager.tree) h₀
    (fun _ _ _ _ h hstep => h.step hstep) hrun

/-! ## Times -/

/-- The time of a block is later than the median time past of its parent. -/
theorem Checked.time (h : Checked params t) (he : t.index? e = some index)
    (hprev : index.pprev = some prev) : t.getMedianTimePast prev < index.nTime.toNat := by
  obtain ⟨t₀, now, state, pindex, hrooted, hgrows, hpindex, hcheck⟩ :=
    (h.checked e index prev he hprev).check
  rw [getMedianTimePast_of_grows hrooted hgrows hpindex]
  exact (contextualCheckBlockHeader_passed hcheck).2.1

/-- The median time past does not go down along a branch. -/
theorem Checked.getMedianTimePast_mono (h : Checked params t) {n : Nat} {x : EntryPtr}
    (he : t.index? e = some index) (hclimb : RootPath.climb t.parent n e = some x) :
    t.getMedianTimePast x ≤ t.getMedianTimePast e := by
  induction n generalizing e x index with
  | zero =>
    cases hclimb
    exact le_rfl
  | succ n ih =>
    obtain ⟨prev, hparent, hclimb⟩ := Option.bind_eq_some_iff.mp hclimb
    have hprev : index.pprev = some prev := (parent_eq he).symm.trans hparent
    obtain ⟨pindex, hpindex, -⟩ := h.index?_pprev he hprev
    calc t.getMedianTimePast x ≤ t.getMedianTimePast prev := ih hpindex hclimb
      _ ≤ t.getMedianTimePast e :=
        getMedianTimePast_le_of_time he hprev hpindex (h.time he hprev)

/-- In every state that a run of calls reaches, from an empty manager or from any tree of
checked headers: the median time past never goes down along a branch, and a block is later
than the median time past of each of its proper ancestors. -/
theorem median_time_past_monotone {m₀ : ChainstateManager} (h₀ : Checked params m₀.tree)
    {ops : List Op} {w : World}
    (hrun : Runs.run (World.step hash256 params.toParams) { manager := m₀ } ops = some w)
    {e x : EntryPtr} {index : BlockIndex} (he : w.manager.tree.index? e = some index)
    (hx : w.manager.tree.IsAncestor e x) :
    w.manager.tree.getMedianTimePast x ≤ w.manager.tree.getMedianTimePast e ∧
      (x ≠ e → w.manager.tree.getMedianTimePast x < index.nTime.toNat) := by
  have h := checked_of_run h₀ hrun
  obtain ⟨n, hn⟩ := hx
  refine ⟨h.getMedianTimePast_mono he hn, fun hne => ?_⟩
  cases n with
  | zero =>
    cases hn
    exact absurd rfl hne
  | succ n =>
    obtain ⟨prev, hparent, hclimb⟩ := Option.bind_eq_some_iff.mp hn
    have hprev : index.pprev = some prev := (parent_eq he).symm.trans hparent
    obtain ⟨pindex, hpindex, -⟩ := h.index?_pprev he hprev
    exact (h.getMedianTimePast_mono hpindex hclimb).trans_lt (h.time he hprev)

namespace Sample

/-- The genesis block and a block above it. -/
def timedHeaders : List BlockHeader :=
  [genesis, { genesis with hashPrevBlock := genesis.getHash depthHash, nTime := 200 }]

theorem exists_timed : ∃ w, Runs.run (World.step depthHash chainParams.toParams) { manager }
        (timedHeaders.map fun header => .processBlockHeader header 250) = some w ∧
      ∃ index, w.manager.tree.index? 1 = some index ∧ index.nTime = 200 ∧
        RootPath.climb w.manager.tree.parent 1 1 = some 0 := by
  have hrun : (Runs.run (World.step depthHash chainParams.toParams) { manager }
      (timedHeaders.map fun header => .processBlockHeader header 250)).map (fun w =>
        ((w.manager.tree.index? 1).map BlockIndex.nTime,
          RootPath.climb w.manager.tree.parent 1 1)) = some (some 200, some 0) := by
    decide +kernel
  obtain ⟨w, hw, hpair⟩ := Option.map_eq_some_iff.mp hrun
  obtain ⟨htime, hclimb⟩ := Prod.mk.inj hpair
  obtain ⟨index, hindex, htime⟩ := Option.map_eq_some_iff.mp htime
  exact ⟨w, hw, index, hindex, htime, hclimb⟩

end Sample

/-- A block above the genesis block. -/
theorem median_time_past_monotone_sample : ∃ w index,
    Runs.run (World.step Sample.depthHash Sample.chainParams.toParams)
        { manager := Sample.manager }
        (Sample.timedHeaders.map fun header => .processBlockHeader header 250) = some w ∧
      w.manager.tree.index? 1 = some index ∧
      w.manager.tree.getMedianTimePast 0 ≤ w.manager.tree.getMedianTimePast 1 ∧
      w.manager.tree.getMedianTimePast 0 < 200 := by
  obtain ⟨w, hw, index, hindex, htime, hclimb⟩ := Sample.exists_timed
  have h₀ : Checked Sample.chainParams Sample.manager.tree := checked_empty
  obtain ⟨hmono, hlater⟩ := median_time_past_monotone h₀ hw hindex ⟨1, hclimb⟩
  have hlater := hlater (by decide)
  rw [htime] at hlater
  exact ⟨w, index, hw, hindex, hmono, hlater⟩

end BitcoinKernel.Validation.Chainman
