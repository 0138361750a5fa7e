import BitcoinKernel.State.Pow
import BitcoinKernel.Validation.HeaderRules

/-!
# The difficulty of the headers in the tree

`ContextualCheckBlockHeader` compares the bits of a header with `GetNextWorkRequired`.  A
node that has only the bits of two neighbours asks `PermittedDifficultyTransition` instead.

* `exists_getNextWorkRequired`: on the trees that the library builds, no assertion of
  `GetNextWorkRequired` fails and its loop ends.
* `Checked.work_cases`: the bits of a node in terms of those of its parent.
* `difficulty_transitions_permitted`: in every tree that a run reaches, the step from a
  block to its child is one that `PermittedDifficultyTransition` permits, and no target is
  above the limit of the network.
-/

namespace BitcoinKernel.Validation.Chainman

open Serialize Consensus State State.BlockTree

variable {hash256 : List UInt8 → Uint256} {params : ChainParams hash256} {t : BlockTree}
  {e prev : EntryPtr} {index pindex : BlockIndex} {pow : PowParams}

/-! ## `GetNextWorkRequired` returns -/

theorem exists_firstOfPeriod (ht : Rooted params t) (he : t.index? e = some index)
    (hheight : (index.nHeight + 1) % pow.difficultyAdjustmentInterval = 0) :
    ∃ first, pow.firstOfPeriod t e index = some first := by
  have hpos := pow.interval_pos
  have hle : pow.difficultyAdjustmentInterval ≤ index.nHeight + 1 :=
    Nat.le_of_dvd (Nat.succ_pos _) (Nat.dvd_of_mod_eq_zero hheight)
  obtain ⟨found, hfound, first, hfirst, -⟩ := getAncestor_spec ht.sound.skipLinked he
    (show index.nHeight - (pow.difficultyAdjustmentInterval - 1) ≤ index.nHeight by omega)
  have hcast : (index.nHeight : Int) - (pow.difficultyAdjustmentInterval - 1) =
      (index.nHeight - (pow.difficultyAdjustmentInterval - 1) : Nat) := by omega
  refine ⟨first, ?_⟩
  unfold PowParams.firstOfPeriod
  dsimp only
  rw [hcast, if_neg (by omega), hfound]
  exact hfirst

/-- The loop goes down by one height in each turn. -/
theorem exists_lastOrdinaryBits (ht : Rooted params t) (fuel : Nat) (he : t.index? e = some index)
    (hfuel : index.nHeight < fuel) : ∃ nBits, pow.lastOrdinaryBits t fuel e = some nBits := by
  induction fuel generalizing e index with
  | zero => exact absurd hfuel (Nat.not_lt_zero _)
  | succ fuel ih =>
    unfold PowParams.lastOrdinaryBits
    rw [he, Option.bind_eq_bind, Option.bind_some]
    cases hprev : index.pprev with
    | none => exact ⟨_, rfl⟩
    | some prev =>
      obtain ⟨pindex, hpindex, hheight⟩ := ht.index?_pprev he hprev
      dsimp only
      split_ifs
      · exact ih hpindex (by omega)
      · exact ⟨_, rfl⟩

/-- No assertion of `GetNextWorkRequired` fails. -/
theorem exists_getNextWorkRequired (pow : PowParams) (ht : Rooted params t)
    (he : t.index? e = some index) (blockTime : Nat) :
    ∃ nBits, pow.getNextWorkRequired t e blockTime = some nBits := by
  unfold PowParams.getNextWorkRequired
  rw [he, Option.bind_eq_bind, Option.bind_some]
  by_cases hheight : (index.nHeight + 1) % pow.difficultyAdjustmentInterval = 0
  · obtain ⟨first, hfirst⟩ := exists_firstOfPeriod ht he hheight
    rw [if_neg (not_not.mpr hheight), hfirst, Option.bind_some]
    unfold PowParams.calculateNextWorkRequired
    split_ifs
    · exact ⟨_, rfl⟩
    · rw [hfirst]
      exact ⟨_, rfl⟩
    · exact ⟨_, rfl⟩
  · rw [if_pos hheight]
    split_ifs
    · exact ⟨_, rfl⟩
    · exact exists_lastOrdinaryBits ht _ he (Nat.lt_succ_self _)
    · exact ⟨_, rfl⟩

/-! ## The bits of the nodes -/

/-- The parameters of the chain require the work that `GetNextWorkRequired` computes. -/
def UsesPow (params : ChainParams hash256) (pow : PowParams) : Prop :=
  ∀ t prev (block : BlockHeader) nBits,
    pow.getNextWorkRequired t prev block.nTime.toNat = some nBits →
      params.getNextWorkRequired t prev block = nBits

/-- The bits of a node are those of its parent, or at the end of a period those of a
retarget. -/
theorem Checked.work_cases (h : Checked params t) (huses : UsesPow params pow)
    (hpow : pow.Retargets) (he : t.index? e = some index) (hprev : index.pprev = some prev)
    (hpindex : t.index? prev = some pindex) :
    (index.nHeight % pow.difficultyAdjustmentInterval ≠ 0 ∧ index.nBits = pindex.nBits) ∨
      (index.nHeight % pow.difficultyAdjustmentInterval = 0 ∧
        ∃ ts, pow.nPowTargetTimespan / 4 ≤ ts ∧ ts ≤ pow.nPowTargetTimespan * 4 ∧
          index.nBits = getCompact (pow.limited (pow.scaled (target pindex.nBits) ts))) := by
  obtain ⟨pindex', hpindex', hheight⟩ := h.index?_pprev he hprev
  cases hpindex.symm.trans hpindex'
  obtain ⟨t₀, now, state, last, hrooted, hgrows, hlast, hcheck⟩ :=
    (h.checked e index prev he hprev).check
  -- the check was made on an earlier tree, where the parent was the same
  obtain ⟨last', hlast', hsame⟩ := hgrows prev last hlast
  cases hpindex.symm.trans hlast'
  have hbits := (contextualCheckBlockHeader_passed hcheck).2.2
  obtain ⟨nBits, hwork⟩ := exists_getNextWorkRequired pow hrooted hlast
    (index.getBlockHeader last.hash).nTime.toNat
  rw [huses t₀ prev _ nBits hwork] at hbits
  have hcases := hpow.getNextWorkRequired_cases hlast hwork
  rw [hsame.nHeight, hsame.nBits_eq, ← hheight, ← hbits] at hcases
  exact hcases

/-- No target is above the limit, if that of the genesis block is not. -/
theorem Checked.target_le (h : Checked params t) (huses : UsesPow params pow) (hpow : pow.Retargets)
    (hroot : ∀ e index, t.index? e = some index → index.pprev = none →
      target index.nBits ≤ pow.powLimit)
    {n : Nat} (he : t.index? e = some index) (hheight : index.nHeight < n) :
    target index.nBits ≤ pow.powLimit := by
  induction n generalizing e index with
  | zero => exact absurd hheight (Nat.not_lt_zero _)
  | succ n ih =>
    cases hprev : index.pprev with
    | none => exact hroot e index he hprev
    | some prev =>
      obtain ⟨pindex, hpindex, hsucc⟩ := h.index?_pprev he hprev
      rcases h.work_cases huses hpow he hprev hpindex with ⟨-, hbits⟩ | ⟨-, ts, -, -, hbits⟩
      · rw [hbits]
        exact ih hpindex (by omega)
      · rw [hbits]
        exact (target_getCompact_le (pow.limited_lt _)).trans (pow.limited_le _)

/-- In every tree that a run of calls reaches, a block names a target within the limit of
the network, and one that `PermittedDifficultyTransition` permits after that of its
parent. -/
theorem difficulty_transitions_permitted (huses : UsesPow params pow) (hpow : pow.Retargets)
    {m₀ : ChainstateManager} (h₀ : Checked params m₀.tree) {ops : List Op} {w : World}
    (hrun : Runs.run (World.step hash256 params.toParams) { manager := m₀ } ops = some w)
    (hroot : ∀ e index, w.manager.tree.index? e = some index → index.pprev = none →
      target index.nBits ≤ pow.powLimit)
    {e prev : EntryPtr} {index pindex : BlockIndex} (he : w.manager.tree.index? e = some index)
    (hprev : index.pprev = some prev) (hpindex : w.manager.tree.index? prev = some pindex) :
    target index.nBits ≤ pow.powLimit ∧
      pow.permittedDifficultyTransition index.nHeight pindex.nBits index.nBits = true := by
  have h := checked_of_run h₀ hrun
  refine ⟨h.target_le huses hpow hroot he (Nat.lt_succ_self _), ?_⟩
  rcases h.work_cases huses hpow he hprev hpindex with
    ⟨hheight, hbits⟩ | ⟨hheight, ts, hlow, hhigh, hbits⟩
  · rw [hbits]
    exact hpow.permitted_of_eq _ hheight
  · rw [hbits]
    have hold := h.target_le huses hpow hroot hpindex (Nat.lt_succ_self _)
    exact hpow.permitted_of_timespan hheight hold hlow hhigh

namespace Sample

/-- A network that retargets at every block. -/
def hourlyPow : PowParams where
  powLimit := 2 ^ 224 - 1
  fPowAllowMinDifficultyBlocks := false
  enforceBip94 := false
  fPowNoRetargeting := false
  nPowTargetSpacing := 3600
  nPowTargetTimespan := 3600
  powLimit_lt := by decide
  spacing_pos := by decide
  spacing_le := by decide

theorem retargets_hourlyPow : hourlyPow.Retargets :=
  ⟨rfl, rfl, rfl, by decide, by decide⟩

def hourlyParams : ChainParams depthHash :=
  { chainParams with
    getNextWorkRequired := fun t prev block =>
      (hourlyPow.getNextWorkRequired t prev block.nTime.toNat).getD 0 }

theorem usesPow_hourlyParams : UsesPow hourlyParams hourlyPow := by
  intro t prev block nBits hwork
  show (hourlyPow.getNextWorkRequired t prev block.nTime.toNat).getD 0 = nBits
  rw [hwork, Option.getD_some]

/-- The genesis block, and a block whose target is a fourth of that of the genesis block. -/
def hourlyHeaders : List BlockHeader :=
  [{ genesis with nBits := 0x1d00ffff },
    { genesis with hashPrevBlock := genesis.getHash depthHash, nTime := 200, nBits := 0x1c3fffc0 }]

theorem exists_hourly : ∃ w, Runs.run (World.step depthHash hourlyParams.toParams) { manager }
        (hourlyHeaders.map fun header => .processBlockHeader header 250) = some w ∧
      ∃ root index, w.manager.tree.entries = [root, index] ∧ root.nBits = 0x1d00ffff ∧
        index.nBits = 0x1c3fffc0 ∧ index.pprev = some 0 ∧ index.nHeight = 1 := by
  have hrun : (Runs.run (World.step depthHash hourlyParams.toParams) { manager }
      (hourlyHeaders.map fun header => .processBlockHeader header 250)).map (fun w =>
        w.manager.tree.entries.map fun index => (index.nBits, index.pprev, index.nHeight)) =
      some [(0x1d00ffff, none, 0), (0x1c3fffc0, some 0, 1)] := by
    decide +kernel
  obtain ⟨w, hw, hentries⟩ := Option.map_eq_some_iff.mp hrun
  obtain ⟨root, rest, hcons, hroot, hrest⟩ := List.map_eq_cons_iff.mp hentries
  obtain ⟨index, rest', hcons', hindex, hnil⟩ := List.map_eq_cons_iff.mp hrest
  obtain rfl := List.map_eq_nil_iff.mp hnil
  simp only [Prod.mk.injEq] at hroot hindex
  exact ⟨w, hw, root, index, by rw [hcons, hcons'], hroot.1, hindex.1, hindex.2.1, hindex.2.2⟩

end Sample

open Sample

/-- A retarget of the block above the genesis block. -/
theorem difficulty_transitions_permitted_hourly : ∃ w root index,
    Runs.run (World.step depthHash hourlyParams.toParams) { manager }
        (hourlyHeaders.map fun header => .processBlockHeader header 250) = some w ∧
      w.manager.tree.entries = [root, index] ∧ root.nBits ≠ index.nBits ∧
      target index.nBits ≤ hourlyPow.powLimit ∧
      hourlyPow.permittedDifficultyTransition 1 root.nBits index.nBits = true := by
  obtain ⟨w, hw, root, index, hentries, hroot, hindex, hprev, hheight⟩ := exists_hourly
  have h₀ : Checked hourlyParams manager.tree := checked_empty
  have hbound : ∀ e index', w.manager.tree.index? e = some index' → index'.pprev = none →
      target index'.nBits ≤ hourlyPow.powLimit := by
    intro e index' he hnone
    have hmem : index' ∈ [root, index] := hentries ▸ List.mem_of_getElem? he
    rcases List.mem_pair.mp hmem with rfl | rfl
    · rw [hroot]
      decide
    · rw [hprev] at hnone
      cases hnone
  have he₁ : w.manager.tree.index? 1 = some index := by
    rw [index?, hentries]
    rfl
  have he₀ : w.manager.tree.index? 0 = some root := by
    rw [index?, hentries]
    rfl
  have h := difficulty_transitions_permitted usesPow_hourlyParams retargets_hourlyPow h₀ hw hbound
    he₁ hprev he₀
  rw [hheight] at h
  refine ⟨w, root, index, hw, hentries, ?_, h⟩
  rw [hroot, hindex]
  decide

end BitcoinKernel.Validation.Chainman
