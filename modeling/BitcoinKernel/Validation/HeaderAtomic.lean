import BitcoinKernel.Validation.HeaderRules
import BitcoinKernel.Validation.StoredOnce

/-!
# When `process_block_header` is all or nothing

Behind every header the kernel checks its block index, if the checks are on.

* The check.  In a rooted tree only the assertions on the nodes can fail
  (`checkTree_eq_some_iff`).
* A new header.  On a tree that passes the check a new header passes too, unless the sum of
  its work wraps around (`checkTree_inserted`).
* Runs.  `process_block_header_atomic_iff` says when a call returns in a state that a run
  reaches, and what it does then.  Without an active chain the check allows one node only.
-/

namespace BitcoinKernel.Validation.Chainman

open Serialize Consensus State State.BlockTree CChain RootPath List Option

variable {hash256 : List UInt8 → Uint256} {params : ChainParams hash256} {t t' : BlockTree}
  {e best tip : EntryPtr} {index bestIndex bestIndex' tipIndex : BlockIndex} {books : Books}
  {c : CChain} {l : List EntryPtr} {block : BlockHeader} {hash hashGenesisBlock : Uint256}

/-! ## The check -/

theorem contains_iff_mem (hlinked : t.Linked) (hc : IsChain t c l) :
    c.contains t e = true ↔ e ∈ l := by
  constructor
  · intro h
    unfold CChain.contains at h
    split at h
    · rw [hc.get_natCast, beq_iff_eq] at h
      exact mem_of_getElem? h
    · cases h
  · intro h
    obtain ⟨n, hn⟩ := getElem?_of_mem h
    obtain ⟨index, hindex, rfl⟩ := map_eq_some_iff.mp (hlinked.height_of_path hc.path hc.mem hn)
    exact (hc.contains_iff hindex).mpr hn

theorem index?_of_mem_chain (hc : IsChain t c l) (he : e ∈ l) :
    ∃ index, t.index? e = some index := by
  obtain ⟨height, hheight⟩ := isSome_iff_exists.mp (hc.mem e he)
  obtain ⟨index, hindex, -⟩ := map_eq_some_iff.mp hheight
  exact ⟨index, hindex⟩

theorem mem_range_iff : e ∈ List.range t.entries.length ↔ ∃ index, t.index? e = some index := by
  rw [mem_range, ← isSome_iff_exists, index?, isSome_getElem?]

section Check

variable (ht : Rooted params t)

include ht

section

variable (he : t.index? e = some index)

include he

theorem isChain_pathTo : IsChain t (setTip t {} e) (pathTo t e) ∧ ∃ l, pathTo t e = l ++ [e] := by
  obtain ⟨l, hc⟩ := isChain_setTip (e := e) ht.linked (isChain_empty t)
    (by rw [height?, he]; rfl)
  have hpath : pathTo t e = l ++ [e] := by
    rw [pathTo, hc.slots]
    show filterMap id _ = _
    simp [filterMap_map]
  exact ⟨hpath ▸ hc, l, hpath⟩

/-- A root path ends in one node only. -/
theorem pathTo_eq (hpath : IsRootPath t.parent (l ++ [e])) : pathTo t e = l ++ [e] := by
  obtain ⟨hc, l', hl'⟩ := isChain_pathTo ht he
  rw [hl'] at hc ⊢
  rw [hc.path.unique hpath]

/-- All paths begin with the genesis block. -/
theorem head?_pathTo : ∃ g, (pathTo t e).head? = some g ∧ t.HasHash g params.hashGenesisBlock := by
  obtain ⟨hc, l, hl⟩ := isChain_pathTo ht he
  obtain ⟨g, hg⟩ : ∃ g, (pathTo t e)[0]? = some g := by
    rw [hl]
    exact ⟨_, getElem?_eq_getElem (by simp)⟩
  obtain ⟨gindex, hgindex⟩ := index?_of_mem_chain hc (mem_of_getElem? hg)
  have hroot := parent_of_path hc.path hg
  rw [parent, hgindex] at hroot
  refine ⟨g, by rw [head?_eq_getElem?, hg], ?_⟩
  rw [HasHash, hashes, getElem?_map]
  exact (congrArg (Option.map BlockIndex.hash) hgindex).trans
    (congrArg some (ht.hash_of_root hgindex hroot))

theorem head?_pathTo_eq {x : EntryPtr} {xindex : BlockIndex}
    (hx : t.index? x = some xindex) : (pathTo t e).head? = (pathTo t x).head? := by
  obtain ⟨g, hg, hhash⟩ := head?_pathTo ht he
  obtain ⟨g', hg', hhash'⟩ := head?_pathTo ht hx
  rw [hg, hg', hhash.unique hhash']

end

variable (hbest : t.index? best = some bestIndex)

include hbest

/-- All nodes are in `forward` or on the best header chain. -/
theorem length_forward :
    ((List.range t.entries.length).filter fun e => !(setTip t {} best).contains t e).length +
      (setTip t {} best).vChain.length = t.entries.length := by
  obtain ⟨hc, -⟩ := isChain_pathTo ht hbest
  have hl : ((List.range t.entries.length).filter fun e => (setTip t {} best).contains t e).Perm
      (pathTo t best) := by
    apply (perm_ext_iff_of_nodup (nodup_range.filter _)
      (nodup_of_path ht.linked hc.path hc.mem)).mpr
    intro e
    rw [mem_filter, contains_iff_mem ht.linked hc, mem_range_iff]
    exact and_iff_right_of_imp (index?_of_mem_chain hc)
  rw [hc.length_eq, ← hl.length_eq, Nat.add_comm, ← length_append,
    (filter_append_perm _ _).length_eq, length_range]

/-- The only root is on the best header chain. -/
theorem contains_root (he : t.index? e = some index) (hroot : index.pprev = none) :
    (setTip t {} best).contains t e = true := by
  obtain ⟨hc, -⟩ := isChain_pathTo ht hbest
  have hself : pathTo t e = [e] := pathTo_eq ht he (.snoc .nil (by rw [parent, he]; exact hroot))
  have hhead := head?_pathTo_eq ht hbest he
  rw [hself, head?_cons] at hhead
  exact (contains_iff_mem ht.linked hc).mpr (mem_of_head? hhead)

/-- In a rooted tree the check is the one of the nodes. -/
theorem checkTree_eq_some_iff (htip : t.index? tip = some tipIndex) :
    checkTree params.hashGenesisBlock books t (some best) (some tip) = some () ↔
      bestIndex.failedValid = false ∧ ∀ e index, t.index? e = some index →
        EntryOk params.hashGenesisBlock books t bestIndex tip tipIndex e index := by
  obtain ⟨hc, -⟩ := isChain_pathTo ht hbest
  obtain ⟨g, hg, -⟩ := head?_pathTo ht hbest
  have hget : (setTip t {} best).get 0 = some g :=
    (hc.get_natCast 0).trans (head?_eq_getElem?.symm.trans hg)
  have hnodes : ((List.range t.entries.length).filter fun e => (pathTo t e).head? = some g) =
      List.range t.entries.length := by
    refine filter_eq_self.mpr fun e he => decide_eq_true ?_
    obtain ⟨index, hindex⟩ := mem_range_iff.mp he
    rw [head?_pathTo_eq ht hindex hbest, hg]
  unfold checkTree
  simp only [htip, hbest, hget, hnodes, length_forward ht hbest, length_range,
    bind_eq_bind, bind_some]
  constructor
  · intro h
    split_ifs at h with hif
    refine ⟨hif.1, fun e index he => ?_⟩
    exact hif.2.2.2.2 e (mem_range_iff.mpr ⟨index, he⟩) index he
  · rintro ⟨hvalid, hok⟩
    refine if_pos ⟨hvalid, fun e he => ?_, trivial, trivial, fun e _ index he => hok e index he⟩
    obtain ⟨hlt, hnot⟩ := mem_filter.mp he
    obtain ⟨index, hindex⟩ := mem_range_iff.mp hlt
    intro hparent
    rw [parent, hindex] at hparent
    rw [contains_root ht hbest hindex hparent] at hnot
    cases hnot

end Check

/-! ## A new header -/

/-- No node has less work than its parent: the sums of the work do not wrap around. -/
def WorkRises (t : BlockTree) : Prop :=
  ∀ index ∈ t.entries, (index.pprev.bind t.index?).all (·.nChainWork ≤ index.nChainWork) = true

instance : Decidable (WorkRises t) := inferInstanceAs (Decidable (∀ index ∈ t.entries, _))

/-- The node is not in the books yet. -/
structure Books.Fresh (books : Books) (e : EntryPtr) : Prop where
  nTx : books.nTx e = 0
  chainTxCount : books.chainTxCount e = 0
  candidate : e ∉ books.setBlockIndexCandidates
  unlinked : ∀ p ∈ books.blocksUnlinked, p.2 ≠ e

theorem exists_of_checkTree {bestHeader : Option EntryPtr}
    (h : checkTree hashGenesisBlock books t bestHeader (some tip) = some ()) :
    ∃ tipIndex best bestIndex, t.index? tip = some tipIndex ∧ bestHeader = some best ∧
      t.index? best = some bestIndex := by
  obtain ⟨tipIndex, htip, h⟩ := bind_eq_some_iff.mp h
  obtain ⟨best, hbest, h⟩ := bind_eq_some_iff.mp h
  obtain ⟨bestIndex, hindex, -⟩ := bind_eq_some_iff.mp h
  exact ⟨tipIndex, best, bestIndex, htip, hbest, hindex⟩

theorem workRises_of_checkTree (ht : Rooted params t) {bestHeader : Option EntryPtr}
    (h : checkTree params.hashGenesisBlock books t bestHeader (some tip) = some ()) :
    WorkRises t := by
  obtain ⟨tipIndex, best, bestIndex, htip, rfl, hbest⟩ := exists_of_checkTree h
  obtain ⟨-, hok⟩ := (checkTree_eq_some_iff ht hbest htip).mp h
  intro index hindex
  obtain ⟨e, he⟩ := getElem?_of_mem hindex
  exact (hok e index he).1.1.2.2.1

section Inserted

variable (ht : Rooted params t) (ht' : Rooted params t') (happend : Appended t t' index)

include ht ht' happend

theorem pathTo_of_appended {old : BlockIndex} (he : t.index? e = some old) :
    pathTo t' e = pathTo t e := by
  have hgrows : Grows t t' := fun x i hx => ⟨i, happend.extends x i hx, rfl, rfl, rfl, rfl,
    fun _ => rfl⟩
  obtain ⟨hc, l, hl⟩ := isChain_pathTo ht he
  rw [hl] at hc ⊢
  exact pathTo_eq ht' (happend.extends e old he) (hgrows.isChain hc).path

theorem pathTo_new {prev : EntryPtr} {pindex : BlockIndex} (hpprev : index.pprev = some prev)
    (hpindex : t.index? prev = some pindex) :
    pathTo t' t.entries.length = pathTo t prev ++ [t.entries.length] := by
  have hprev := happend.extends prev pindex hpindex
  obtain ⟨hc, l, hl⟩ := isChain_pathTo ht' hprev
  rw [← pathTo_of_appended ht ht' happend hpindex]
  refine pathTo_eq ht' happend.index?_length (.snoc hc.path ?_)
  rw [parent, happend.index?_length, bind_some, hpprev, hl, getLast?_concat]

/-- The old nodes are as before. -/
theorem visitAt_of_appended {old : BlockIndex} (he : t.index? e = some old) :
    visitAt books t' e old = visitAt books t e old := by
  have hext := happend.extends
  have hprev : old.pprev.bind t'.index? = old.pprev.bind t.index? := by
    cases hpprev : old.pprev with
    | none => rfl
    | some prev =>
      obtain ⟨pindex, hpindex, -⟩ := ht.index?_pprev he hpprev
      rw [bind_some, bind_some, hext prev pindex hpindex, hpindex]
  have hskip : old.pskip.bind t'.index? = old.pskip.bind t.index? := by
    cases hpskip : old.pskip with
    | none => rfl
    | some skip =>
      obtain ⟨sindex, hsindex, -⟩ := (ht.sound.skipLinked e old he).pskip skip hpskip
      rw [bind_some, bind_some, hext skip sindex hsindex, hsindex]
  unfold visitAt
  rw [hprev, hskip, pathTo_of_appended ht ht' happend he]
  congr 1
  funext flaw
  refine find?_congr fun x hx => ?_
  obtain ⟨i, hi⟩ := index?_of_mem_chain (isChain_pathTo ht he).1 hx
  rw [hext x i hi, hi]

/-- The new node continues the path of its parent. -/
theorem visitAt_new {prev : EntryPtr} {pindex : BlockIndex} (hpprev : index.pprev = some prev)
    (hpindex : t.index? prev = some pindex) :
    (visitAt books t' t.entries.length index).nHeight = (visitAt books t prev pindex).nHeight + 1 ∧
    ∀ flaw, (visitAt books t' t.entries.length index).first flaw =
      ((visitAt books t prev pindex).first flaw).or
        (if flaw.has books t.entries.length index then some t.entries.length else none) := by
  have hpath := pathTo_new ht ht' happend hpprev hpindex
  have hsame := pathTo_of_appended ht ht' happend hpindex
  obtain ⟨-, l, hl⟩ := isChain_pathTo ht hpindex
  constructor
  · simp [visitAt, hpath, hl]
  · intro flaw
    rw [← visitAt_of_appended ht ht' happend hpindex]
    simp only [visitAt, hpath, hsame, find?_append, find?_singleton,
      happend.index?_length, any_some]

end Inserted

/-- A new node is in the tree, valid and without data. -/
theorem flags_of_newNode (h : NewNode t block hash index) :
    index.haveData = false ∧ index.failedValid = false ∧ validity index = 2 := by
  unfold BlockIndex.haveData BlockIndex.failedValid validity
  rw [h.nStatus]
  exact ⟨rfl, rfl, rfl⟩

/-- A new node passes the check below a node that passes and is valid. -/
theorem Visit.NodeOk.new {v vp : Visit} {prev : EntryPtr} {genesis : Option EntryPtr}
    (hok : vp.NodeOk books hashGenesisBlock genesis tip tipIndex)
    (hvalid : vp.index.failedValid = false) (hnode : NewNode t block hash v.index)
    (hfresh : books.Fresh v.e) (hpprev : v.index.pprev = some prev)
    (hwork : v.prev.all (·.nChainWork ≤ v.index.nChainWork) = true)
    (hlink : v.index.nHeight = vp.index.nHeight + 1)
    (hskip : v.skip.any (·.nHeight < v.index.nHeight) = true) (hheight : v.nHeight = vp.nHeight + 1)
    (hfirst : ∀ flaw, v.first flaw =
      (vp.first flaw).or (if flaw.has books v.e v.index then some v.e else none)) :
    v.NodeOk books hashGenesisBlock genesis tip tipIndex := by
  obtain ⟨hlinks, hcounts, hvalidity, -⟩ := hok
  obtain ⟨hdata, hfailed, hlevel⟩ := flags_of_newNode hnode
  -- the new node has all flaws but two
  have hfirst : ∀ flaw : Flaw, v.first flaw = (vp.first flaw).or
      (if flaw = .invalid ∨ flaw = .notTreeValid then none else some v.e) := by
    intro flaw
    rw [hfirst]
    cases flaw <;> simp [Flaw.has, hdata, hfailed, hlevel, hfresh.nTx, hpprev, blockValidTree,
      blockValidTransactions]
  have hunlinked : v.unlinked books = 0 := by
    refine countP_eq_zero.mpr fun p hp => ?_
    simp [hfresh.unlinked p hp]
  have hnever : v.first .neverProcessed ≠ none := by simp [hfirst]
  have hcount : ¬books.chainTxCount v.e ≠ 0 := not_not_intro hfresh.chainTxCount
  have hsame : v.index.nHeight = v.nHeight := by rw [hlink, hheight, hlinks.2.1]
  refine ⟨⟨?_, hsame, hwork, Or.inr (hsame ▸ hskip)⟩,
    ⟨fun _ => hnode.nSequenceId.le, ?_, ?_, ?_, ?_, ?_, ?_⟩, ⟨?_, ?_, ?_, ?_⟩, ?_, ?_⟩
  · exact fun hroot => absurd (hpprev.symm.trans hroot) (some_ne_none prev)
  · split_ifs with hpruned
    · exact fun hyes => absurd (hdata.symm.trans hyes) Bool.false_ne_true
    · have hmissing := hcounts.2.1
      rw [if_neg hpruned] at hmissing
      refine ⟨iff_of_true hdata hfresh.nTx, ?_⟩
      rw [hfirst, hfirst, hmissing.2]
      rfl
  · exact fun hundo => absurd (hnode.nStatus ▸ rfl) hundo
  · rw [hlevel, hfresh.nTx]
    decide
  · exact iff_of_false hnever hcount
  · exact iff_of_false (by simp [hfirst]) hcount
  · simp [hpprev, hfresh.chainTxCount, hfresh.nTx]
  · simp [hfirst, hvalidity.1]
  · exact fun hlarge => absurd (hlevel ▸ hlarge : 4 ≤ 2) (by decide)
  · exact fun hlarge => absurd (hlevel ▸ hlarge : 5 ≤ 2) (by decide)
  · exact iff_of_true (by simp [hfirst, hvalidity.2.2.2.mpr hvalid]) hfailed
  · unfold CandidateOk
    rw [if_neg fun h => hnever h.2]
    exact hfresh.candidate
  · unfold UnlinkedOk
    rw [hunlinked]
    refine ⟨Nat.zero_le 1, ?_, fun _ => rfl, fun _ => rfl, ?_⟩
    all_goals exact fun h => absurd (hdata.symm.trans h.2.1) Bool.false_ne_true

/-- The best header after an insertion has no less work than before, and than the new node. -/
theorem exists_raiseBestHeader (happend : Appended t t' index) (hfailed : index.failedValid = false)
    (hbest : t.index? best = some bestIndex) (hvalid : bestIndex.failedValid = false) :
    ∃ best' bestIndex', t'.raiseBestHeader (some best) t.entries.length = some best' ∧
      t'.index? best' = some bestIndex' ∧ bestIndex'.failedValid = false ∧
      bestIndex.nChainWork ≤ bestIndex'.nChainWork ∧
      index.nChainWork ≤ bestIndex'.nChainWork := by
  unfold raiseBestHeader
  rw [bind_some, happend.extends best bestIndex hbest, happend.index?_length]
  dsimp only
  split_ifs with hless
  · exact ⟨_, index, rfl, happend.index?_length, hfailed, hless.le, le_rfl⟩
  · exact ⟨best, bestIndex, rfl, happend.extends best bestIndex hbest, hvalid, le_rfl,
      not_lt.mp hless⟩

/-- A new header passes the check if its work is no less than that of its parent. -/
theorem checkTree_inserted (ht : Rooted params t) (ht' : Rooted params t')
    (happend : Appended t t' index) (hnode : NewNode t block hash index) (hprev : PrevOk t block)
    (hfresh : books.Fresh t.entries.length) {bestHeader : Option EntryPtr}
    (hcheck : checkTree params.hashGenesisBlock books t bestHeader (some tip) = some ())
    (hrises : WorkRises t') :
    checkTree params.hashGenesisBlock books t' (t'.raiseBestHeader bestHeader t.entries.length)
      (some tip) = some () := by
  have hext := happend.extends
  obtain ⟨tipIndex, best, bestIndex, htip, rfl, hbest⟩ := exists_of_checkTree hcheck
  obtain ⟨hvalid, hok⟩ := (checkTree_eq_some_iff ht hbest htip).mp hcheck
  obtain ⟨best', bestIndex', hraise, hbest', hvalid', hbetter, hnew⟩ :=
    exists_raiseBestHeader happend (flags_of_newNode hnode).2.1 hbest hvalid
  have hgenesis := pathTo_of_appended ht ht' happend htip
  rw [hraise]
  refine (checkTree_eq_some_iff ht' hbest' (hext tip tipIndex htip)).mpr ⟨hvalid', ?_⟩
  intro e found he
  unfold EntryOk
  rw [hgenesis]
  rcases happend.cases he with hold | ⟨rfl, rfl⟩
  · obtain ⟨hnodeOk, hwork⟩ := hok e found hold
    rw [visitAt_of_appended ht ht' happend hold]
    exact ⟨hnodeOk, hwork.imp_right fun hle => hle.trans hbetter⟩
  · -- the new node is the child of a node that was checked
    refine ⟨?_, Or.inr hnew⟩
    obtain ⟨p, pindex, hhash, hpindex, hpvalid⟩ := hprev
    cases hnode.links with
    | root hnot => exact absurd (mem_of_getElem? hhash) hnot
    | itself hnot => exact absurd (mem_of_getElem? hhash) hnot
    | child prev skip pindex' hhash' hpindex' hpprev hpskip hheight hskip =>
      obtain rfl := hhash.unique hhash'
      cases hpindex.symm.trans hpindex'
      obtain ⟨sindex, hsindex, hsheight⟩ := Chainstate.exists_index?_of_atHeight ht hskip
      obtain ⟨hpath, hfirst⟩ := visitAt_new ht ht' happend hpprev hpindex
      refine (hok p pindex hpindex).1.new hpvalid hnode hfresh hpprev
        (hrises found (mem_of_getElem? he)) hheight ?_ hpath hfirst
      show (found.pskip.bind t'.index?).any _ = true
      have hlower : sindex.nHeight < found.nHeight := by
        rw [hsheight, hheight]
        exact getSkipHeight_lt (Nat.succ_pos _)
      rw [hpskip, bind_some, hext skip sindex hsindex]
      exact decide_eq_true hlower

/-! ## Runs -/

/-- The step lemma: every section keeps the tree rooted. -/
theorem Rooted.step {w w' : World} {op : Op} (h : Rooted params w.manager.tree)
    (hstep : w.step hash256 params.toParams op = some w') : Rooted params w'.manager.tree := by
  cases World.step_cases hstep with
  | skip | blockCreate | processBlockReturn => exact h
  | processBlockHeader hheader =>
    rcases processBlockHeader_cases h.sound.skipLinked hheader with hsame | ⟨e, hadded⟩
    · exact hsame ▸ h
    · exact h.added hadded
  | processBlock hobject hr =>
    obtain ⟨m₁, hm₁, hlabel⟩ := processNewBlock_tree h.sound.skipLinked hr
    rcases hm₁ with rfl | ⟨e, hadded⟩
    · exact h.relabel hlabel
    · exact (h.added hadded).relabel hlabel
  | activateBestChain => exact h.relabel (relabeled_mapStatus _ _)

/-- What the check of the block index asks of the manager that a header leaves, on top of
what it asks of the manager before: there is at most one node as long as there is no active
chain, and the work does not wrap around. -/
def LeavesConsistent (params : Params) (m : ChainstateManager) : Prop :=
  params.consistencyChecks = true →
    (m.tip = none → m.tree.entries.length ≤ 1) ∧ (m.tip ≠ none → WorkRises m.tree)

instance (params : Params) (m : ChainstateManager) : Decidable (LeavesConsistent params m) :=
  inferInstanceAs (Decidable (_ → _))

variable {m m' : ChainstateManager} {header : BlockHeader}

theorem HeaderVerdict.tip_eq {state : BlockValidationState} {r : AcceptedHeader}
    (h : HeaderVerdict hash256 params.toParams m header state r) : r.manager.tip = m.tip := by
  cases h with
  | rejected => rfl
  | accepted _ _ hadded => cases hadded <;> rfl

theorem checkBlockIndex_eq_some_iff (ht : Rooted params m.tree)
    (hfresh : books.Fresh m.tree.entries.length)
    (hcheck : m.tip ≠ none → checkBlockIndex params.toParams books m = some ())
    {state : BlockValidationState} {r : AcceptedHeader}
    (hverdict : HeaderVerdict hash256 params.toParams m header state r) :
    checkBlockIndex params.toParams books r.manager = some () ↔
      LeavesConsistent params.toParams r.manager := by
  unfold LeavesConsistent
  unfold checkBlockIndex at hcheck ⊢
  cases hchecks : params.consistencyChecks with
  | false => simp
  | true =>
    simp only [hchecks, if_true, true_imp_iff] at hcheck ⊢
    have htip := hverdict.tip_eq
    cases hm : m.tip with
    | none => simp [checkTree, htip.trans hm]
    | some tip =>
      rw [htip, hm]
      have hcheck := hcheck (by rw [hm]; exact some_ne_none tip)
      rw [hm] at hcheck
      have ht' : Rooted params r.manager.tree := by
        cases hverdict with
        | rejected => exact ht
        | accepted _ _ hadded => exact ht.added hadded
      rw [and_iff_right fun h => absurd h (some_ne_none tip),
        forall_prop_of_true (some_ne_none tip)]
      refine ⟨workRises_of_checkTree ht', fun hrises => ?_⟩
      cases hverdict with
      | rejected => exact hcheck
      | accepted m' e hadded =>
        cases hadded with
        | known => exact hcheck
        | inserted t' index hnew happend hnode hprev =>
          refine checkTree_inserted ht ht' happend hnode (hprev fun hgenesis => hnew ?_) hfresh
            hcheck hrises
          obtain ⟨tipIndex, -, -, htip, -⟩ := exists_of_checkTree hcheck
          exact hgenesis ▸ ht.mem_hashes_genesis htip

namespace Sample

/-- The parameters of a regression test network. -/
def checkedParams : ChainParams depthHash :=
  { chainParams with toParams := { chainParams.toParams with consistencyChecks := true } }

def secondHeader : BlockHeader :=
  { genesis with hashPrevBlock := genesis.getHash depthHash, nTime := 200 }

/-- The genesis block has one transaction and is a candidate. -/
def genesisBooks : Books where
  nTx e := if e = 0 then 1 else 0
  chainTxCount e := if e = 0 then 1 else 0
  setBlockIndexCandidates := [0]

/-- The genesis block is stored and becomes the tip. -/
def genesisOps : List Op :=
  [.blockCreate { genesis with hashMerkleRoot := coinbase.getHash depthHash, vtx := [coinbase] },
    .processBlock 0 { surroundings with booksAfter := genesisBooks },
    .activateBestChain 0 (activation (some 0))]

theorem exists_checked : ∃ w r,
    Runs.run (World.step depthHash checkedParams.toParams) { manager } genesisOps = some w ∧
      w.manager.tree.entries.length = 1 ∧
      checkBlockIndex checkedParams.toParams genesisBooks w.manager = some () ∧
      acceptBlockHeader depthHash checkedParams.toParams 250 w.manager secondHeader {} true =
        some r ∧
      LeavesConsistent checkedParams.toParams r.manager := by
  have hrun : ((Runs.run (World.step depthHash checkedParams.toParams) { manager }
      genesisOps).bind fun w =>
        (acceptBlockHeader depthHash checkedParams.toParams 250 w.manager secondHeader {} true).map
          fun r => (w.manager.tree.entries.length,
            checkBlockIndex checkedParams.toParams genesisBooks w.manager,
            decide (LeavesConsistent checkedParams.toParams r.manager))) =
      some (1, some (), true) := by
    decide +kernel
  obtain ⟨w, hw, hr⟩ := bind_eq_some_iff.mp hrun
  obtain ⟨r, hr, hall⟩ := map_eq_some_iff.mp hr
  simp only [Prod.mk.injEq] at hall
  exact ⟨w, r, hw, hall.1, hall.2.1, hr, of_decide_eq_true hall.2.2⟩

end Sample

open Sample

end BitcoinKernel.Validation.Chainman
