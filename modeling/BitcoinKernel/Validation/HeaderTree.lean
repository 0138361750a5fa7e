import BitcoinKernel.State.SkipList
import BitcoinKernel.Validation.Chainman

/-!
# A header is added as a whole or not at all

`process_block_header` on the trees that the kernel can reach.  The invariant
is `Sound`: the skip list of the tree works (`SkipLinked`), and every node but
the genesis block is the child of the node that its header names.

There are three groups.

* Verdicts.  Each check leaves a state that agrees with its return value
  (`Verdict`), and `acceptBlockHeader_spec` collects them: `AcceptBlockHeader`
  rejects the header and changes nothing, or finds or appends one node
  (`Added`).
* The invariant.  An added header keeps the tree sound (`Sound.added`), and so
  does an update of statuses (`Sound.relabel`).
* One call.  `processBlockHeader_eq` reduces a call to `AcceptBlockHeader` and the
  check of the block index.  `headerOutcome` says what a call does on a sound
  tree if the check passes, the second submission of the header included.
-/

namespace BitcoinKernel.Validation.Chainman

open Serialize Consensus State State.BlockTree Option

variable (hash256 : List UInt8 → Uint256) (params : Params)

/-! ## Verdicts -/

/-- A check agrees with the state that it leaves: it returns true and leaves the
state alone, or returns false and the state is invalid. -/
def Verdict (state : BlockValidationState) (result : Bool × BlockValidationState) : Prop :=
  result = (true, state) ∨ (result.1 = false ∧ result.2.mode = .invalid)

variable {state : BlockValidationState} {t t' : BlockTree} {e : EntryPtr} {m m' : ChainstateManager}
  {index index' : BlockIndex} {block header : BlockHeader} {now : Int}

theorem mode_invalid (h : state.mode = .valid) (rejection : BlockRejection) :
    (state.invalid rejection).2.mode = .invalid := by
  show (if state.mode ≠ .error then ModeState.invalid else state.mode) = .invalid
  rw [h]
  rfl

theorem verdict_invalid (h : state.mode = .valid) (rejection : BlockRejection) :
    Verdict state (state.invalid rejection) :=
  Or.inr ⟨rfl, mode_invalid h rejection⟩

theorem verdict_check (h : state.mode = .valid) (verdict : Except BlockRejection Unit) :
    Verdict state (state.check verdict) := by
  cases verdict with
  | ok => exact Or.inl rfl
  | error rejection => exact verdict_invalid h rejection

theorem contextualCheckBlockHeader_spec (now : Int) (block : BlockHeader) (h : state.mode = .valid)
    {prev : EntryPtr} {pindexPrev : BlockIndex} (hprev : t.index? prev = some pindexPrev) :
    ∃ result, contextualCheckBlockHeader params now t block state prev = some result ∧
      Verdict state result := by
  unfold contextualCheckBlockHeader
  rw [hprev]
  simp only [bind_eq_bind, bind_some, pure_def]
  split_ifs
  all_goals first
    | exact ⟨_, rfl, verdict_invalid h _⟩
    | exact ⟨_, rfl, Or.inl rfl⟩

theorem exists_index?_of_hasHash {hash : Uint256} (h : t.HasHash e hash) :
    ∃ index, t.index? e = some index ∧ index.hash = hash := by
  rw [HasHash, hashes, List.getElem?_map, map_eq_some_iff] at h
  exact h

/-- The previous header has a node, which is not marked as failed. -/
def PrevOk (t : BlockTree) (block : BlockHeader) : Prop :=
  ∃ prev pindex, t.HasHash prev block.hashPrevBlock ∧ t.index? prev = some pindex ∧
    pindex.failedValid = false

theorem PrevOk.mem (h : PrevOk t block) : block.hashPrevBlock ∈ t.hashes := by
  obtain ⟨_, _, hhash, -⟩ := h
  exact List.mem_of_getElem? hhash

/-- The checks of a new header return, and pass only if the previous header is
known. -/
theorem checkNewHeader_spec (now : Int) (t : BlockTree) (block : BlockHeader)
    (h : state.mode = .valid) :
    ∃ result, checkNewHeader hash256 params now t block state = some result ∧
      Verdict state result ∧ (result.1 = true → PrevOk t block) := by
  unfold checkNewHeader
  rcases verdict_check h (checkBlockHeader hash256 params.toConsensusParams block true) with
    hok | ⟨hno, hmode⟩
  · rw [hok]
    dsimp only
    cases hprev : t.lookupBlockIndex block.hashPrevBlock with
    | none => exact ⟨_, rfl, verdict_invalid h _, nofun⟩
    | some prev =>
      have hhash := hasHash_of_lookupBlockIndex hprev
      obtain ⟨pindexPrev, hindex, -⟩ := exists_index?_of_hasHash hhash
      simp only [hindex, bind_eq_bind, bind_some, pure_def]
      split_ifs with hfailed
      · exact ⟨_, rfl, verdict_invalid h _, nofun⟩
      · obtain ⟨result, hresult, hverdict⟩ :=
          contextualCheckBlockHeader_spec params now block h hindex
        refine ⟨result, hresult, hverdict, fun _ => ?_⟩
        exact ⟨prev, pindexPrev, hhash, hindex, eq_false_of_ne_true hfailed⟩
  · generalize state.check _ = result at hno hmode
    obtain ⟨ok, state'⟩ := result
    subst hno
    exact ⟨_, rfl, Or.inr ⟨rfl, hmode⟩, nofun⟩

/-- What an accepted header does to a manager: its node was there, or it is
appended. -/
inductive Added (m : ChainstateManager) (block : BlockHeader) : ChainstateManager → EntryPtr → Prop
  | known (e : EntryPtr) (he : m.tree.HasHash e (block.getHash hash256))
      (hok : block.getHash hash256 ≠ params.hashGenesisBlock →
        ∀ index, m.tree.index? e = some index → index.failedValid = false) :
      Added m block m e
  | inserted (t' : BlockTree) (index : BlockIndex) (hnew : block.getHash hash256 ∉ m.tree.hashes)
      (happend : Appended m.tree t' index)
      (hnode : NewNode m.tree block (block.getHash hash256) index)
      (hprev : block.getHash hash256 ≠ params.hashGenesisBlock → PrevOk m.tree block) :
      Added m block
        { m with
          tree := t'
          bestHeader := t'.raiseBestHeader m.bestHeader m.tree.entries.length }
        m.tree.entries.length

/-- What `AcceptBlockHeader` leaves behind agrees with its return value. -/
inductive HeaderVerdict (m : ChainstateManager) (block : BlockHeader)
    (state : BlockValidationState) : AcceptedHeader → Prop
  | rejected (state' : BlockValidationState) (pindex : Option EntryPtr)
      (hmode : state'.mode = .invalid) :
      HeaderVerdict m block state ⟨false, state', m, pindex⟩
  | accepted (m' : ChainstateManager) (e : EntryPtr)
      (hadded : Added hash256 params m block m' e) :
      HeaderVerdict m block state ⟨true, state, m', some e⟩

theorem insertHeader_spec (hskip : m.tree.SkipLinked) (block : BlockHeader)
    (state : BlockValidationState)
    (hnew : block.getHash hash256 ∉ m.tree.hashes ∨ block.getHash hash256 = params.hashGenesisBlock)
    (hprev : block.getHash hash256 ≠ params.hashGenesisBlock → PrevOk m.tree block) :
    ∃ r, insertHeader hash256 m block state true = some r ∧
      HeaderVerdict hash256 params m block state r := by
  unfold insertHeader
  rw [Bool.not_true, if_neg (by decide)]
  rcases addToBlockIndex_spec (BlockHeader.getHash hash256) hskip block m.bestHeader with
    ⟨e, he, hadd⟩ | ⟨hnot, t', index, happend, hnode, hadd⟩
  · rw [hadd]
    refine ⟨_, rfl, .accepted m e (.known e he ?_)⟩
    intro hgenesis
    rcases hnew with hnew | hnew
    · exact absurd (List.mem_of_getElem? he) hnew
    · exact absurd hnew hgenesis
  · rw [hadd]
    exact ⟨_, rfl, .accepted _ _ (.inserted t' index hnot happend hnode hprev)⟩

/-- `AcceptBlockHeader` returns, and its return value agrees with the state. -/
theorem acceptBlockHeader_spec (hskip : m.tree.SkipLinked) (now : Int) (block : BlockHeader)
    (state : BlockValidationState) (h : state.mode = .valid) :
    ∃ r, acceptBlockHeader hash256 params now m block state true = some r ∧
      HeaderVerdict hash256 params m block state r := by
  unfold acceptBlockHeader
  dsimp only
  split_ifs with hgenesis
  · cases hknown : m.tree.lookupBlockIndex (block.getHash hash256) with
    | some e =>
      have he := hasHash_of_lookupBlockIndex hknown
      obtain ⟨index, hindex, -⟩ := exists_index?_of_hasHash he
      simp only [hindex, bind_eq_bind, bind_some, pure_def]
      split_ifs with hfailed
      · exact ⟨_, rfl, .rejected _ _ (mode_invalid h _)⟩
      · refine ⟨_, rfl, .accepted m e (.known e he ?_)⟩
        intro _ index' hindex'
        cases hindex.symm.trans hindex'
        exact Bool.not_eq_true _ ▸ hfailed
    | none =>
      obtain ⟨⟨ok, state'⟩, hcheck, hverdict, hprev⟩ :=
        checkNewHeader_spec hash256 params now m.tree block h
      simp only [hcheck, bind_eq_bind, bind_some, pure_def]
      rcases hverdict with hok | ⟨hno, hmode⟩
      · cases hok
        rw [if_pos rfl]
        exact insertHeader_spec hash256 params hskip block state
          (Or.inl (lookupBlockIndex_eq_none_iff.mp hknown)) (fun _ => hprev rfl)
      · subst hno
        exact ⟨_, rfl, .rejected _ _ hmode⟩
  · rw [ne_eq, not_not] at hgenesis
    exact insertHeader_spec hash256 params hskip block state (Or.inr hgenesis)
      (fun hne => absurd hgenesis hne)

/-! ## The invariant -/

/-- A node without its status. -/
def eraseStatus (index : BlockIndex) : BlockIndex := { index with nStatus := 0 }

/-- The trees differ in the statuses of their nodes only. -/
def Relabeled (t t' : BlockTree) : Prop :=
  ∀ e, (t'.index? e).map eraseStatus = (t.index? e).map eraseStatus

theorem Relabeled.refl (t : BlockTree) : Relabeled t t := fun _ => rfl

theorem Relabeled.symm (h : Relabeled t t') : Relabeled t' t :=
  fun e => (h e).symm

theorem Relabeled.trans {t'' : BlockTree} (h : Relabeled t t') (h' : Relabeled t' t'') :
    Relabeled t t'' := fun e => (h' e).trans (h e)

/-- Two nodes that differ in their status only. -/
structure SameNode (index index' : BlockIndex) : Prop where
  hash : index.hash = index'.hash
  pprev : index.pprev = index'.pprev
  pskip : index.pskip = index'.pskip
  nHeight : index.nHeight = index'.nHeight
  header : ∀ hashPrevBlock, index.getBlockHeader hashPrevBlock = index'.getBlockHeader hashPrevBlock

theorem sameNode_of_eraseStatus (h : eraseStatus index = eraseStatus index') :
    SameNode index index' := by
  unfold eraseStatus at h
  injection h with hhash hpprev hpskip hheight hwork hstatus hversion hroot htime hbits hnonce
  refine ⟨hhash, hpprev, hpskip, hheight, ?_⟩
  intro hashPrevBlock
  unfold BlockIndex.getBlockHeader
  rw [hversion, hroot, htime, hbits, hnonce]

theorem Relabeled.exists_index? (h : Relabeled t t') (he : t'.index? e = some index') :
    ∃ index, t.index? e = some index ∧ SameNode index index' := by
  have hsame := h e
  rw [he, map_some] at hsame
  obtain ⟨index, hindex, herase⟩ := map_eq_some_iff.mp hsame.symm
  exact ⟨index, hindex, sameNode_of_eraseStatus herase⟩

theorem Relabeled.atHeight (h : Relabeled t t') {height : Nat} (hat : t.AtHeight e height) :
    t'.AtHeight e height := by
  obtain ⟨index, hindex, hcount⟩ := hat
  obtain ⟨index', hindex', hsame⟩ := h.symm.exists_index? hindex
  refine ⟨index', hindex', ?_⟩
  rw [hsame.nHeight, hsame.pprev]
  exact hcount

theorem relabeled_mapStatus (t : BlockTree) (f : EntryPtr → Nat → Nat) :
    Relabeled t (t.mapStatus f) := by
  intro e
  show ((withStatus t.entries f)[e]?).map eraseStatus = (t.entries[e]?).map eraseStatus
  rw [getElem?_withStatus]
  cases t.entries[e]? <;> rfl

/-- What the kernel keeps of its tree.  Every node but the genesis block is the
child of the node that its header names. -/
structure Sound (t : BlockTree) : Prop where
  skipLinked : t.SkipLinked
  child : ∀ e index, t.index? e = some index → index.hash ≠ params.hashGenesisBlock →
    ∃ prev pindex, index.pprev = some prev ∧ t.index? prev = some pindex ∧
      index.nHeight = pindex.nHeight + 1 ∧
      (index.getBlockHeader pindex.hash).getHash hash256 = index.hash

theorem sound_empty : Sound hash256 params BlockTree.empty where
  skipLinked _ _ he := by cases he
  child _ _ he := by cases he

variable {hash256 params}

/-- Statuses play no role. -/
theorem Sound.relabel (h : Sound hash256 params t) (hlabel : Relabeled t t') :
    Sound hash256 params t' := by
  constructor
  · intro e index' he'
    obtain ⟨index, he, hsame⟩ := hlabel.exists_index? he'
    have hlink := h.skipLinked e index he
    constructor
    · rcases hlink.pprev with hzero | ⟨prev, hprev, hat⟩
      · exact Or.inl (hsame.nHeight ▸ hzero)
      · exact Or.inr ⟨prev, hsame.pprev ▸ hprev, hsame.nHeight ▸ hlabel.atHeight hat⟩
    · intro skip hskip
      rw [← hsame.nHeight]
      rw [← hsame.pskip] at hskip
      exact hlabel.atHeight (hlink.pskip skip hskip)
  · intro e index' he' hgenesis
    obtain ⟨index, he, hsame⟩ := hlabel.exists_index? he'
    rw [← hsame.hash] at hgenesis
    obtain ⟨prev, pindex, hprev, hpindex, hone, hheader⟩ := h.child e index he hgenesis
    obtain ⟨pindex', hpindex', hpsame⟩ := hlabel.symm.exists_index? hpindex
    refine ⟨prev, pindex', hsame.pprev ▸ hprev, hpindex', ?_, ?_⟩
    · rw [← hsame.nHeight, hone, hpsame.nHeight]
    · rw [← hsame.header, hpsame.hash, hheader, hsame.hash]

/-- A new node is the child of the node that its header names, unless it is the
genesis block. -/
theorem child_of_newNode (happend : Appended t t' index)
    (hnode : NewNode t block (block.getHash hash256) index)
    (hprev : block.hashPrevBlock ∈ t.hashes) :
    ∃ prev pindex, index.pprev = some prev ∧ t'.index? prev = some pindex ∧
      index.nHeight = pindex.nHeight + 1 ∧ pindex.hash = block.hashPrevBlock := by
  cases hnode.links with
  | root hnot => exact absurd hprev hnot
  | child prev skip pindex hhash hpindex hpprev _ hheight =>
    obtain ⟨pindex', hpindex', hhash'⟩ := exists_index?_of_hasHash hhash
    cases hpindex.symm.trans hpindex'
    exact ⟨prev, pindex, hpprev, happend.extends prev pindex hpindex, hheight, hhash'⟩
  | itself hnot => exact absurd hprev hnot

/-- An accepted header keeps the tree sound. -/
theorem Sound.added (h : Sound hash256 params m.tree) (hadded : Added hash256 params m block m' e) :
    Sound hash256 params m'.tree := by
  cases hadded with
  | known => exact h
  | inserted t' index hnew happend hnode hprev =>
    refine ⟨h.skipLinked.append happend hnode.links, ?_⟩
    intro e found he hgenesis
    rcases happend.cases he with hold | ⟨-, rfl⟩
    · obtain ⟨prev, pindex, hpprev, hpindex, hheight, hheader⟩ := h.child e found hold hgenesis
      exact ⟨prev, pindex, hpprev, happend.extends prev pindex hpindex, hheight, hheader⟩
    · rw [hnode.hash_eq] at hgenesis
      obtain ⟨prev, pindex, hpprev, hpindex, hheight, hhash⟩ :=
        child_of_newNode happend hnode (hprev hgenesis).mem
      refine ⟨prev, pindex, hpprev, hpindex, hheight, ?_⟩
      rw [hnode.header, hhash, hnode.hash_eq]

/-! ## One call -/

theorem addToBlockIndex_of_hasHash {getHash : BlockHeader → Uint256}
    (he : t.HasHash e (getHash block)) (best : Option EntryPtr) :
    t.addToBlockIndex getHash block best = some (t, best, e) := by
  unfold addToBlockIndex
  rcases t.tryEmplace_cases (BlockIndex.ofHeader (getHash block) block) with
    ⟨e', he', hput⟩ | ⟨hnew, -⟩
  · rw [hput, he'.unique he]
    rfl
  · exact absurd (List.mem_of_getElem? he) (lookupBlockIndex_eq_none_iff.mp hnew)

/-- A header that is known and not marked is accepted, and changes nothing. -/
theorem acceptBlockHeader_of_hasHash (he : m.tree.HasHash e (block.getHash hash256))
    (hok : block.getHash hash256 ≠ params.hashGenesisBlock →
      ∀ index, m.tree.index? e = some index → index.failedValid = false) (now : Int)
    (state : BlockValidationState) :
    acceptBlockHeader hash256 params now m block state true = some ⟨true, state, m, some e⟩ := by
  unfold acceptBlockHeader
  dsimp only
  split_ifs with hgenesis
  · obtain ⟨index, hindex, -⟩ := exists_index?_of_hasHash he
    rw [lookupBlockIndex_eq_some_iff.mpr he]
    simp only [hindex, bind_eq_bind, bind_some, pure_def]
    rw [hok hgenesis index hindex]
    rfl
  · unfold insertHeader
    rw [Bool.not_true, if_neg (by decide), addToBlockIndex_of_hasHash he]
    rfl

/-- The answer of `process_block_header`. -/
def AcceptedHeader.result (r : AcceptedHeader) : ProcessBlockHeaderResult :=
  if r.accepted then .valid else .invalid r.state

/-- A call runs `AcceptBlockHeader` and checks the block index. -/
theorem processBlockHeader_eq {r : AcceptedHeader} (books : Books)
    (hr : acceptBlockHeader hash256 params now m header {} true = some r)
    (hverdict : HeaderVerdict hash256 params m header {} r) :
    processBlockHeader hash256 params now books m header =
      (checkBlockIndex params books r.manager).map fun _ => (r.result, r.manager) := by
  unfold processBlockHeader btckChainstateManagerProcessBlockHeader processNewBlockHeaders
  simp only [hr, bind_eq_bind, bind_some]
  cases checkBlockIndex params books r.manager with
  | none => rfl
  | some _ =>
    cases hverdict with
    | rejected state' pindex hmode =>
      simp [AcceptedHeader.result, BlockValidationState.isValid,
        BlockValidationState.validationMode, hmode]
    | accepted m' e hadded => rfl

/-- Only `AcceptBlockHeader` writes the manager. -/
theorem exists_acceptBlockHeader {books : Books} {result : ProcessBlockHeaderResult}
    (h : processBlockHeader hash256 params now books m header = some (result, m')) :
    ∃ r, acceptBlockHeader hash256 params now m header {} true = some r ∧ r.manager = m' := by
  unfold processBlockHeader btckChainstateManagerProcessBlockHeader processNewBlockHeaders at h
  obtain ⟨⟨state, m₁⟩, hstate, h⟩ := bind_eq_some_iff.mp h
  obtain ⟨⟨ok, state', m₂⟩, hheaders, hstate⟩ := bind_eq_some_iff.mp hstate
  obtain ⟨r, hr, hheaders⟩ := bind_eq_some_iff.mp hheaders
  obtain ⟨_, -, hheaders⟩ := bind_eq_some_iff.mp hheaders
  -- on both ways out the manager is the one of the header
  have hr₂ : r.manager = m₂ := by
    unfold processNewBlockHeaders at hheaders
    split_ifs at hheaders <;> cases hheaders <;> rfl
  have h₂₁ : m₂ = m₁ := by
    dsimp only at hstate
    split_ifs at hstate
    cases hstate
    rfl
  have h₁ : m₁ = m' := by
    dsimp only at h
    split_ifs at h <;> cases h <;> rfl
  exact ⟨r, hr, hr₂.trans (h₂₁.trans h₁)⟩

/-- No other header with the hash of this one has a node in the tree. -/
def NoCollision (hash256 : List UInt8 → Uint256) (t : BlockTree) (header : BlockHeader) : Prop :=
  ∀ e index prev pindex, t.index? e = some index → index.pprev = some prev →
    t.index? prev = some pindex →
    (index.getBlockHeader pindex.hash).getHash hash256 = header.getHash hash256 →
    index.getBlockHeader pindex.hash = header

/-- The manager has one more node, and the best header is as before or the new
node, which then has more work. -/
structure NewEntry (m m' : ChainstateManager) (e : EntryPtr) (index : BlockIndex) : Prop where
  hash_new : index.hash ∉ m.tree.hashes
  entries : m'.tree.entries = m.tree.entries ++ [index]
  best : m'.bestHeader = m.bestHeader ∨
    (m'.bestHeader = some e ∧ ∀ best bestIndex, m.bestHeader = some best →
      m.tree.index? best = some bestIndex → bestIndex.nChainWork < index.nChainWork)
  tip : m'.tip = m.tip

/-- What a valid header leaves behind. -/
structure HeaderAccepted (hash256 : List UInt8 → Uint256) (params : Params) (books : Books)
    (m : ChainstateManager) (header : BlockHeader) (m' : ChainstateManager) : Prop where
  /-- The header has a node.  Nothing has changed, or the node is new.  The node
  is the child of that of the previous header. -/
  entry : ∃ e index, m'.tree.index? e = some index ∧ index.hash = header.getHash hash256 ∧
    (m' = m ∨ NewEntry m m' e index) ∧
    (header.getHash hash256 ≠ params.hashGenesisBlock →
      (m' = m → NoCollision hash256 m.tree header) →
      ∃ prev pindex, index.pprev = some prev ∧ m'.tree.index? prev = some pindex ∧
        pindex.hash = header.hashPrevBlock ∧ index.nHeight = pindex.nHeight + 1)
  /-- The header is valid again, and changes nothing. -/
  again : ∀ now, processBlockHeader hash256 params now books m' header = some (.valid, m')

/-- What a call of `process_block_header` may answer and leave behind. -/
def HeaderOutcome (hash256 : List UInt8 → Uint256) (params : Params) (books : Books)
    (m : ChainstateManager) (header : BlockHeader) (m' : ChainstateManager) :
    ProcessBlockHeaderResult → Prop
  | .valid => HeaderAccepted hash256 params books m header m'
  | .invalid state => state.validationMode = .invalid ∧ m' = m

/-- The best header after an insertion. -/
theorem raiseBestHeader_spec (happend : Appended t t' index) (best : Option EntryPtr) :
    t'.raiseBestHeader best t.entries.length = best ∨
      (t'.raiseBestHeader best t.entries.length = some t.entries.length ∧
        ∀ old oldIndex, best = some old → t.index? old = some oldIndex →
          oldIndex.nChainWork < index.nChainWork) := by
  unfold raiseBestHeader
  rw [happend.index?_length]
  cases hbest : best.bind t'.index? with
  | none =>
    refine Or.inr ⟨rfl, ?_⟩
    intro old oldIndex hold holdIndex
    rw [hold, bind_some, happend.extends old oldIndex holdIndex] at hbest
    cases hbest
  | some bestIndex =>
    dsimp only
    split_ifs with hless
    · refine Or.inr ⟨rfl, ?_⟩
      intro old oldIndex hold holdIndex
      rw [hold, bind_some, happend.extends old oldIndex holdIndex] at hbest
      cases hbest
      exact hless
    · exact Or.inl rfl

theorem headerAccepted_of_added (h : Sound hash256 params m.tree)
    (hadded : Added hash256 params m header m' e) {books : Books}
    (hcheck : checkBlockIndex params books m' = some ()) :
    HeaderAccepted hash256 params books m header m' := by
  -- a header with a node is accepted again
  have hagain : ∀ {e : EntryPtr}, m'.tree.HasHash e (header.getHash hash256) →
      (header.getHash hash256 ≠ params.hashGenesisBlock →
        ∀ index, m'.tree.index? e = some index → index.failedValid = false) →
      ∀ now, processBlockHeader hash256 params now books m' header = some (.valid, m') := by
    intro e he hok now
    rw [processBlockHeader_eq books (acceptBlockHeader_of_hasHash he hok now {})
      (.accepted m' e (.known e he hok)), hcheck]
    rfl
  cases hadded with
  | known _ he hok =>
    obtain ⟨index, hindex, hhash⟩ := exists_index?_of_hasHash he
    refine ⟨⟨e, index, hindex, hhash, Or.inl rfl, ?_⟩, hagain he hok⟩
    · intro hgenesis hcollision
      rw [← hhash] at hgenesis
      obtain ⟨prev, pindex, hpprev, hpindex, hheight, hheader⟩ := h.child e index hindex hgenesis
      have hsame := hcollision rfl e index prev pindex hindex hpprev hpindex (hheader.trans hhash)
      exact ⟨prev, pindex, hpprev, hpindex, congrArg BlockHeader.hashPrevBlock hsame, hheight⟩
  | inserted t' index hnew happend hnode hprev =>
    have hindex := happend.index?_length
    refine ⟨⟨_, index, hindex, hnode.hash_eq, Or.inr ?_, ?_⟩, ?_⟩
    · exact ⟨hnode.hash_eq ▸ hnew, happend.entries, raiseBestHeader_spec happend m.bestHeader, rfl⟩
    · intro hgenesis _
      obtain ⟨prev, pindex, hpprev, hpindex, hheight, hhash⟩ :=
        child_of_newNode happend hnode (hprev hgenesis).mem
      exact ⟨prev, pindex, hpprev, hpindex, hhash, hheight⟩
    · have he : t'.HasHash m.tree.entries.length (header.getHash hash256) := by
        rw [HasHash, hashes, List.getElem?_map]
        show (t'.index? m.tree.entries.length).map BlockIndex.hash = _
        rw [hindex, map_some, hnode.hash_eq]
      refine hagain he ?_
      intro _ index' hindex'
      have heq : index' = index := Option.some.inj (hindex'.symm.trans hindex)
      rw [heq, BlockIndex.failedValid, hnode.nStatus]
      rfl

/-- What a call on a sound tree answers and leaves behind, if the check of the
block index passes. -/
theorem headerOutcome (h : Sound hash256 params m.tree) {r : AcceptedHeader}
    (hverdict : HeaderVerdict hash256 params m header {} r) {books : Books}
    (hcheck : checkBlockIndex params books r.manager = some ()) :
    HeaderOutcome hash256 params books m header r.manager r.result := by
  cases hverdict with
  | rejected state' pindex hmode =>
    refine ⟨?_, rfl⟩
    unfold BlockValidationState.validationMode
    rw [hmode]
  | accepted m' e hadded => exact headerAccepted_of_added h hadded hcheck

/-- A call leaves the manager as it is, or adds the header. -/
theorem processBlockHeader_cases (hskip : m.tree.SkipLinked) {result : ProcessBlockHeaderResult}
    {books : Books} (h : processBlockHeader hash256 params now books m header = some (result, m')) :
    m' = m ∨ ∃ e, Added hash256 params m header m' e := by
  obtain ⟨r, hr, hverdict⟩ := acceptBlockHeader_spec hash256 params hskip now header {} rfl
  obtain ⟨r', hr', rfl⟩ := exists_acceptBlockHeader h
  cases hr.symm.trans hr'
  cases hverdict with
  | rejected => exact Or.inl rfl
  | accepted _ e hadded => exact Or.inr ⟨e, hadded⟩

end BitcoinKernel.Validation.Chainman
