import Mathlib.Data.List.AList
import Mathlib.Logic.Function.Basic

/-!
# Write-back caches

A cache over a map `base : κ → Option ν`.  An entry of the cache hides the value of
the base, and an entry without a value says that the key was erased.  Two flags say
how an entry came about:

* `dirty`: the entry may differ from the base, and is written to it later;
* `fresh`: the base has no value, so an entry that is erased can be forgotten.

`peek` is the map that a cache stands for.  Caches can be stacked: the base of the
upper cache is then the map of the lower one, and `batchWrite` writes the upper
cache to the lower one.

There are three kinds of results.

* Without an assumption, an operation on one key does not change what the cache says
  of other keys (`peek_put`, `peek_take_of_ne`), and `take` gives the value that
  `peek` shows (`take_eq_some`).
* `Coherent` says that the flags are right.  Then a key that was taken has no value
  (`Coherent.peek_take`), and `batchWrite` and `flush` do not change the map
  (`Coherent.peek_batchWrite`, `Coherent.peek_flush`).  The flags stay right unless
  `put` is told that a key is new although the base has a value for it
  (`Coherent.put`).
* `Holds` says that all values are of a kind.  No operation makes a value up, so this
  needs no flags.
-/

namespace WriteBack

open Function

variable {κ ν : Type}

/-- An entry of a cache.  No value means that the key is erased. -/
structure Entry (ν : Type) where
  value : Option ν
  dirty : Bool
  fresh : Bool
deriving DecidableEq, Repr

/-- A cache over `base`. -/
structure Cache (κ ν : Type) where
  base : κ → Option ν
  entries : AList fun _ : κ => Entry ν

namespace Cache

variable [DecidableEq κ]

/-- The cache without entries. -/
def above (base : κ → Option ν) : Cache κ ν := ⟨base, ∅⟩

/-- The entry of a key. -/
def entryAt (c : Cache κ ν) (k : κ) : Option (Entry ν) := c.entries.lookup k

/-- Write the entry of a key, or remove it. -/
def setEntry (c : Cache κ ν) (k : κ) : Option (Entry ν) → Cache κ ν
  | some e => { c with entries := c.entries.insert k e }
  | none => { c with entries := c.entries.erase k }

/-- The value of a key. -/
def peek (c : Cache κ ν) (k : κ) : Option ν :=
  match c.entryAt k with
  | some e => e.value
  | none => c.base k

/-! ## Operations -/

/-- Read the value of the base into the cache. -/
def fetch (c : Cache κ ν) (k : κ) : Cache κ ν :=
  match c.entryAt k, c.base k with
  | none, some v => c.setEntry k (some ⟨some v, false, false⟩)
  | _, _ => c

/-- Write a value.  Unless `overwrite` is set, the key counts as new, and the write
fails if the cache has a value for it. -/
def put (c : Cache κ ν) (k : κ) (v : ν) (overwrite : Bool) : Option (Cache κ ν) :=
  match c.entryAt k with
  | none => some (c.setEntry k (some ⟨some v, true, !overwrite⟩))
  | some e =>
    if !overwrite && e.value.isSome then none
    else some (c.setEntry k (some ⟨some v, true, e.fresh || (!overwrite && !e.dirty)⟩))

/-- Erase a key, and give what its entry held. -/
def take (c : Cache κ ν) (k : κ) : Option (Option ν × Cache κ ν) :=
  match (c.fetch k).entryAt k with
  | none => none
  | some e =>
    some (e.value, (c.fetch k).setEntry k (if e.fresh then none else some ⟨none, true, false⟩))

/-- The entry of the lower cache after an entry of the upper one is written to it.
It fails if the upper entry is fresh and the lower one has a value. -/
def mergeEntry (lower : Option (Entry ν)) (e : Entry ν) : Option (Option (Entry ν)) :=
  if !e.dirty then some lower
  else
    match lower with
    | none =>
      if e.fresh && e.value.isNone then some none else some (some ⟨e.value, true, e.fresh⟩)
    | some us =>
      if e.fresh && us.value.isSome then none
      else if us.fresh && e.value.isNone then some none
      else some (some ⟨e.value, true, us.fresh⟩)

/-- Write entries to a cache. -/
def writeAll (c : Cache κ ν) (l : List (Sigma fun _ : κ => Entry ν)) : Option (Cache κ ν) :=
  l.foldlM (fun c x => (mergeEntry (c.entryAt x.1) x.2).map (c.setEntry x.1)) c

/-- Write the upper cache to the lower one. -/
def batchWrite (lower upper : Cache κ ν) : Option (Cache κ ν) :=
  lower.writeAll upper.entries.entries

/-- The base after the dirty entries are written to it. -/
def written (c : Cache κ ν) (k : κ) : Option ν :=
  match c.entryAt k with
  | some e => if e.dirty then e.value else c.base k
  | none => c.base k

/-- Write the cache to its base, and empty it. -/
def flush (c : Cache κ ν) : Cache κ ν := above c.written

/-! ## What one key sees -/

variable {c c' : Cache κ ν} {k k' : κ} {v : ν}

@[simp] theorem base_setEntry (c : Cache κ ν) (k : κ) (e : Option (Entry ν)) :
    (c.setEntry k e).base = c.base := by
  cases e <;> rfl

@[simp] theorem entryAt_setEntry_self (c : Cache κ ν) (k : κ) (e : Option (Entry ν)) :
    (c.setEntry k e).entryAt k = e := by
  cases e with
  | none => exact AList.lookup_erase k c.entries
  | some e => exact AList.lookup_insert c.entries

theorem entryAt_setEntry_of_ne (c : Cache κ ν) (e : Option (Entry ν)) (h : k' ≠ k) :
    (c.setEntry k e).entryAt k' = c.entryAt k' := by
  cases e with
  | none => exact AList.lookup_erase_ne h
  | some e => exact AList.lookup_insert_ne h

variable {e : Entry ν} {overwrite : Bool} {o : Option ν} {lower upper lower' : Cache κ ν}

theorem peek_of_entryAt (h : c.entryAt k = some e) : c.peek k = e.value := by
  rw [peek, h]

theorem peek_of_entryAt_none (h : c.entryAt k = none) : c.peek k = c.base k := by
  rw [peek, h]

theorem peek_setEntry_of_ne (c : Cache κ ν) (e : Option (Entry ν)) (h : k' ≠ k) :
    (c.setEntry k e).peek k' = c.peek k' := by
  unfold peek
  rw [entryAt_setEntry_of_ne c e h, base_setEntry]

@[simp] theorem peek_above (base : κ → Option ν) : (above base).peek = base := rfl

/-- What `fetch` does to the entries. -/
theorem fetch_cases (c : Cache κ ν) (k : κ) :
    c.fetch k = c ∨ ∃ v, c.entryAt k = none ∧ c.base k = some v ∧
      c.fetch k = c.setEntry k (some ⟨some v, false, false⟩) := by
  unfold fetch
  split
  · rename_i v hentry hbase
    exact Or.inr ⟨v, hentry, hbase, rfl⟩
  · exact Or.inl rfl

@[simp] theorem base_fetch (c : Cache κ ν) (k : κ) : (c.fetch k).base = c.base := by
  rcases fetch_cases c k with h | ⟨v, -, -, h⟩
  · rw [h]
  · rw [h, base_setEntry]

@[simp] theorem peek_fetch (c : Cache κ ν) (k : κ) : (c.fetch k).peek = c.peek := by
  rcases fetch_cases c k with h | ⟨v, hentry, hbase, h⟩
  · rw [h]
  · funext k'
    rw [h]
    by_cases hk : k' = k
    · rw [hk, peek_of_entryAt (entryAt_setEntry_self c k _), peek_of_entryAt_none hentry, hbase]
    · exact peek_setEntry_of_ne c _ hk

/-- A value that can be seen has an entry after it is fetched. -/
theorem entryAt_fetch_of_peek (h : c.peek k = some v) :
    ∃ e, (c.fetch k).entryAt k = some e ∧ e.value = some v := by
  cases hentry : c.entryAt k with
  | some e =>
    have hfetch : c.fetch k = c := by
      unfold fetch
      rw [hentry]
    exact ⟨e, by rw [hfetch, hentry], by rw [← peek_of_entryAt hentry, h]⟩
  | none =>
    rw [peek_of_entryAt_none hentry] at h
    unfold fetch
    rw [hentry, h]
    exact ⟨_, entryAt_setEntry_self c k _, rfl⟩

/-- An entry is missing after it is fetched only if the base has no value. -/
theorem base_of_entryAt_fetch (h : (c.fetch k).entryAt k = none) : c.base k = none := by
  unfold fetch at h
  split at h
  · rw [entryAt_setEntry_self] at h
    cases h
  · rename_i hcases
    cases hbase : c.base k with
    | none => rfl
    | some v => exact absurd hbase (hcases v h)

/-- What `put` does to the entries. -/
theorem put_cases (h : c.put k v overwrite = some c') :
    ∃ e : Entry ν, c' = c.setEntry k (some e) ∧ e.value = some v ∧ e.dirty = true ∧
      (e.fresh = true → (overwrite = false ∧ c.entryAt k = none) ∨ ∃ old, c.entryAt k = some old ∧
          (old.fresh = true ∨ (old.dirty = false ∧ old.value = none))) := by
  unfold put at h
  split at h
  · rename_i hentry
    cases h
    refine ⟨_, rfl, rfl, rfl, fun hfresh => Or.inl ⟨?_, hentry⟩⟩
    simpa using hfresh
  · rename_i old hentry
    split_ifs at h with hfail
    cases h
    refine ⟨_, rfl, rfl, rfl, fun hfresh => Or.inr ⟨old, hentry, ?_⟩⟩
    rcases Bool.or_eq_true _ _ ▸ hfresh with hold | hnew
    · exact Or.inl hold
    · refine Or.inr ?_
      simp only [Bool.and_eq_true, Bool.not_eq_true'] at hnew hfail
      refine ⟨hnew.2, ?_⟩
      cases hvalue : old.value with
      | none => rfl
      | some w => exact absurd ⟨hnew.1, by rw [hvalue]; rfl⟩ hfail

/-- Afterwards the key has the value, and the other keys have theirs. -/
theorem peek_put (h : c.put k v overwrite = some c') :
    c'.base = c.base ∧ c'.peek = Function.update c.peek k (some v) := by
  obtain ⟨e, rfl, hvalue, -⟩ := put_cases h
  refine ⟨base_setEntry _ _ _, ?_⟩
  funext k'
  by_cases hk : k' = k
  · rw [hk, peek_of_entryAt (entryAt_setEntry_self c k _), hvalue, update_self]
  · rw [peek_setEntry_of_ne c _ hk, update_of_ne hk]

/-- A value that can be seen can be taken. -/
theorem take_eq_some (h : c.peek k = some v) : ∃ c', c.take k = some (some v, c') := by
  obtain ⟨e, hentry, hvalue⟩ := entryAt_fetch_of_peek h
  refine ⟨(c.fetch k).setEntry k (if e.fresh then none else some ⟨none, true, false⟩), ?_⟩
  unfold take
  rw [hentry, ← hvalue]

/-- A key that cannot be taken has no value. -/
theorem peek_of_take_eq_none (h : c.take k = none) : c.peek k = none := by
  unfold take at h
  split at h
  · rename_i hentry
    rw [← peek_fetch c k, peek_of_entryAt_none hentry, base_fetch]
    exact base_of_entryAt_fetch hentry
  · cases h

/-- What `take` does to the entries. -/
theorem take_cases (h : c.take k = some (o, c')) :
    ∃ e, (c.fetch k).entryAt k = some e ∧ o = e.value ∧
      c' = (c.fetch k).setEntry k (if e.fresh then none else some ⟨none, true, false⟩) := by
  unfold take at h
  split at h
  · cases h
  · rename_i e hentry
    cases h
    exact ⟨e, hentry, rfl, rfl⟩

theorem base_take (h : c.take k = some (o, c')) : c'.base = c.base := by
  obtain ⟨e, -, -, rfl⟩ := take_cases h
  rw [base_setEntry, base_fetch]

/-- Taking a key leaves the other keys alone. -/
theorem peek_take_of_ne (h : c.take k = some (o, c')) (hk : k' ≠ k) : c'.peek k' = c.peek k' := by
  obtain ⟨e, -, -, rfl⟩ := take_cases h
  rw [peek_setEntry_of_ne _ _ hk, peek_fetch]

/-! ## Caches whose flags are right -/

/-- The flags are right: a clean entry has the value of the base, and the base has no
value for a fresh entry. -/
structure Coherent (c : Cache κ ν) : Prop where
  clean : ∀ k e, c.entryAt k = some e → e.dirty = false → e.value = c.base k ∧ e.value ≠ none
  fresh : ∀ k e, c.entryAt k = some e → e.fresh = true → c.base k = none

theorem coherent_above (base : κ → Option ν) : (above base).Coherent :=
  ⟨fun _ _ h => (by cases h), fun _ _ h => (by cases h)⟩

namespace Coherent

section

variable (h : c.Coherent)

include h

/-- It is enough to look at the entry that is written. -/
theorem setEntry {entry : Option (Entry ν)}
    (hclean : ∀ e, entry = some e → e.dirty = false → e.value = c.base k ∧ e.value ≠ none)
    (hfresh : ∀ e, entry = some e → e.fresh = true → c.base k = none) :
    (c.setEntry k entry).Coherent := by
  constructor
  · intro k' e he
    rw [base_setEntry]
    by_cases hk : k' = k
    · subst hk
      rw [entryAt_setEntry_self] at he
      exact hclean e he
    · rw [entryAt_setEntry_of_ne c entry hk] at he
      exact h.clean k' e he
  · intro k' e he
    rw [base_setEntry]
    by_cases hk : k' = k
    · subst hk
      rw [entryAt_setEntry_self] at he
      exact hfresh e he
    · rw [entryAt_setEntry_of_ne c entry hk] at he
      exact h.fresh k' e he

theorem fetch (k : κ) : (c.fetch k).Coherent := by
  rcases fetch_cases c k with hsame | ⟨v, -, hbase, hfetch⟩
  · rw [hsame]
    exact h
  · rw [hfetch]
    apply h.setEntry
    · intro e he _
      cases he
      exact ⟨hbase.symm, Option.some_ne_none v⟩
    · intro e he hfresh
      cases he
      cases hfresh

/-- The flags stay right if the base has no value for a key that counts as new. -/
theorem put {overwrite : Bool} (hput : c.put k v overwrite = some c')
    (hnew : overwrite = false → c.entryAt k = none → c.base k = none) : c'.Coherent := by
  obtain ⟨e, rfl, -, hdirty, hfresh⟩ := put_cases hput
  apply h.setEntry
  · intro e' he' hclean
    cases he'
    rw [hdirty] at hclean
    cases hclean
  · intro e' he' hfresh'
    cases he'
    rcases hfresh hfresh' with ⟨hover, hnone⟩ | ⟨old, hold, hflag | ⟨hclean, hvalue⟩⟩
    · exact hnew hover hnone
    · exact h.fresh k old hold hflag
    · exact absurd hvalue (h.clean k old hold hclean).2

theorem take {o : Option ν} (htake : c.take k = some (o, c')) : c'.Coherent := by
  obtain ⟨e, -, -, rfl⟩ := take_cases htake
  apply (h.fetch k).setEntry
  · intro e' he' hclean
    split_ifs at he'
    cases he'
    cases hclean
  · intro e' he' hfresh
    split_ifs at he'
    cases he'
    cases hfresh

/-- A key that was taken has no value. -/
theorem peek_take {o : Option ν} (htake : c.take k = some (o, c')) :
    c'.peek = Function.update c.peek k none := by
  funext k'
  by_cases hk : k' = k
  · subst hk
    obtain ⟨e, hentry, -, rfl⟩ := take_cases htake
    rw [update_self]
    by_cases hfresh : e.fresh = true
    · rw [if_pos hfresh, peek_of_entryAt_none (entryAt_setEntry_self _ k' _), base_setEntry]
      exact (h.fetch k').fresh k' e hentry hfresh
    · rw [if_neg hfresh, peek_of_entryAt (entryAt_setEntry_self _ k' _)]
  · rw [update_of_ne hk, peek_take_of_ne htake hk]

/-- Writing a cache to its base does not change the map. -/
theorem peek_flush : c.flush.peek = c.peek := by
  funext k
  show c.written k = c.peek k
  unfold written
  cases hentry : c.entryAt k with
  | none => exact (peek_of_entryAt_none hentry).symm
  | some e =>
    rw [peek_of_entryAt hentry]
    show (if e.dirty then e.value else c.base k) = e.value
    cases hdirty : e.dirty with
    | true => rw [if_pos rfl]
    | false =>
      rw [if_neg Bool.false_ne_true]
      exact (h.clean k e hentry hdirty).1.symm

end

end Coherent

/-! ## Writing one cache to another -/

/-- Every key of the list is merged once, and the other keys keep their entries. -/
theorem writeAll_spec {l : List (Sigma fun _ : κ => Entry ν)} (hl : l.NodupKeys)
    (h : c.writeAll l = some c') :
    c'.base = c.base ∧
      (∀ k, k ∉ l.keys → c'.entryAt k = c.entryAt k) ∧
      ∀ k e, ⟨k, e⟩ ∈ l → mergeEntry (c.entryAt k) e = some (c'.entryAt k) := by
  induction l generalizing c c' with
  | nil =>
    cases h
    exact ⟨rfl, fun _ _ => rfl, fun _ _ hmem => by cases hmem⟩
  | cons x l ih =>
    obtain ⟨hx, hl⟩ := List.nodupKeys_cons.mp hl
    unfold writeAll at h
    rw [List.foldlM_cons] at h
    obtain ⟨c₁, hmerge, h⟩ := Option.bind_eq_some_iff.mp h
    obtain ⟨entry, hentry, rfl⟩ := Option.map_eq_some_iff.mp hmerge
    obtain ⟨hbase, hother, hmerged⟩ := ih hl h
    refine ⟨hbase.trans (base_setEntry _ _ _), ?_, ?_⟩
    · intro k hk
      rw [List.keys_cons, List.mem_cons, not_or] at hk
      rw [hother k hk.2, entryAt_setEntry_of_ne _ _ hk.1]
    · intro k e hmem
      rcases List.mem_cons.mp hmem with hhead | htail
      · subst hhead
        rw [hother k hx, entryAt_setEntry_self]
        exact hentry
      · have hne : k ≠ x.1 := by
          intro heq
          exact hx (heq ▸ List.mem_keys_of_mem htail)
        rw [← hmerged k e htail, entryAt_setEntry_of_ne _ _ hne]

/-- An upper entry is kept out, or it erases the lower entry, or it replaces it.  The
result is fresh only if the base of the lower cache has no value. -/
theorem mergeEntry_cases {lower merged : Option (Entry ν)} (h : mergeEntry lower e = some merged) :
    (e.dirty = false ∧ merged = lower) ∨
      (((lower = none ∧ e.fresh = true) ∨ ∃ us, lower = some us ∧ us.fresh = true) ∧
        e.value = none ∧ merged = none) ∨
      ∃ fresh, merged = some ⟨e.value, true, fresh⟩ ∧ (fresh = true →
        (lower = none ∧ e.fresh = true) ∨ ∃ us, lower = some us ∧ us.fresh = true) := by
  unfold mergeEntry at h
  by_cases hclean : e.dirty = false
  · rw [hclean, Bool.not_false, if_pos rfl] at h
    cases h
    exact Or.inl ⟨hclean, rfl⟩
  rw [if_neg (by simpa using hclean)] at h
  refine Or.inr ?_
  cases lower with
  | none =>
    dsimp only at h
    split_ifs at h with hforget
    · cases h
      rw [Bool.and_eq_true, Option.isNone_iff_eq_none] at hforget
      exact Or.inl ⟨Or.inl ⟨rfl, hforget.1⟩, hforget.2, rfl⟩
    · cases h
      exact Or.inr ⟨e.fresh, rfl, fun hfresh => Or.inl ⟨rfl, hfresh⟩⟩
  | some us =>
    dsimp only at h
    split_ifs at h with hfail hforget
    · cases h
      rw [Bool.and_eq_true, Option.isNone_iff_eq_none] at hforget
      exact Or.inl ⟨Or.inr ⟨us, rfl, hforget.1⟩, hforget.2, rfl⟩
    · cases h
      exact Or.inr ⟨us.fresh, rfl, fun hfresh => Or.inr ⟨us, rfl, hfresh⟩⟩

/-- What the lower cache says of a key after the upper one is written to it. -/
theorem batchWrite_cases (h : lower.batchWrite upper = some lower') :
    lower'.base = lower.base ∧ ∀ k, (upper.entryAt k = none ∧ lower'.entryAt k = lower.entryAt k) ∨
        ∃ e, upper.entryAt k = some e ∧
          mergeEntry (lower.entryAt k) e = some (lower'.entryAt k) := by
  obtain ⟨hbase, hother, hmerged⟩ := writeAll_spec upper.entries.nodupKeys h
  refine ⟨hbase, fun k => ?_⟩
  cases hentry : upper.entryAt k with
  | none => exact Or.inl ⟨rfl, hother k (AList.lookup_eq_none.mp hentry)⟩
  | some e => exact Or.inr ⟨e, rfl, hmerged k e (AList.mem_lookup_iff.mp hentry)⟩

/-- Writing a cache over another to it does not change the map. -/
theorem Coherent.batchWrite (hlower : lower.Coherent) (hupper : upper.Coherent)
    (hbase : upper.base = lower.peek) (h : lower.batchWrite upper = some lower') :
    lower'.Coherent ∧ lower'.peek = upper.peek := by
  obtain ⟨hbase', hkeys⟩ := batchWrite_cases h
  -- the base has no value for a key whose merged entry is fresh
  have hnone : ∀ k e, upper.entryAt k = some e → ((lower.entryAt k = none ∧ e.fresh = true) ∨
        ∃ us, lower.entryAt k = some us ∧ us.fresh = true) → lower.base k = none := by
    intro k e he hfresh
    rcases hfresh with ⟨hentry, hfresh⟩ | ⟨us, hus, hfresh⟩
    · rw [← peek_of_entryAt_none hentry, ← hbase]
      exact hupper.fresh k e he hfresh
    · exact hlower.fresh k us hus hfresh
  have hkey : ∀ k, (∀ e, lower'.entryAt k = some e →
      (e.dirty = false → e.value = lower.base k ∧ e.value ≠ none) ∧
        (e.fresh = true → lower.base k = none)) ∧ lower'.peek k = upper.peek k := by
    intro k
    have hkept : lower'.entryAt k = lower.entryAt k → ∀ e, lower'.entryAt k = some e →
        (e.dirty = false → e.value = lower.base k ∧ e.value ≠ none) ∧
          (e.fresh = true → lower.base k = none) := by
      intro hsame e he
      rw [hsame] at he
      exact ⟨hlower.clean k e he, hlower.fresh k e he⟩
    have hpeek : lower'.entryAt k = lower.entryAt k → lower'.peek k = upper.base k := by
      intro hsame
      rw [hbase, peek, peek, hsame, hbase']
    rcases hkeys k with ⟨hentry, hsame⟩ | ⟨e, he, hmerge⟩
    · exact ⟨hkept hsame, by rw [hpeek hsame, peek_of_entryAt_none hentry]⟩
    · rw [peek_of_entryAt he]
      rcases mergeEntry_cases hmerge with ⟨hclean, hsame⟩ | ⟨hfresh, hvalue, hsome⟩ |
          ⟨fresh, hsome, hfresh⟩
      · exact ⟨hkept hsame, by rw [hpeek hsame, (hupper.clean k e he hclean).1]⟩
      · refine ⟨fun e' he' => ?_, ?_⟩
        · rw [hsome] at he'
          cases he'
        · rw [peek_of_entryAt_none hsome, hbase', hvalue]
          exact hnone k e he hfresh
      · refine ⟨fun e' he' => ?_, by rw [peek_of_entryAt hsome]⟩
        rw [hsome] at he'
        cases he'
        exact ⟨fun hdirty => (by cases hdirty), fun htrue => hnone k e he (hfresh htrue)⟩
  refine ⟨⟨fun k e he => ?_, fun k e he => ?_⟩, funext fun k => (hkey k).2⟩
  · rw [hbase']
    exact ((hkey k).1 e he).1
  · rw [hbase']
    exact ((hkey k).1 e he).2

/-! ## Values of one kind -/

/-- Every value of the base and of the map is of a kind. -/
structure Holds (P : ν → Prop) (c : Cache κ ν) : Prop where
  base : ∀ k v, c.base k = some v → P v
  peek : ∀ k v, c.peek k = some v → P v

theorem holds_above {P : ν → Prop} {base : κ → Option ν} (h : ∀ k v, base k = some v → P v) :
    (above base).Holds P := ⟨h, h⟩

namespace Holds

variable {P : ν → Prop}

section

variable (h : c.Holds P)

include h

theorem congr (hbase : c'.base = c.base) (hpeek : c'.peek = c.peek) :
    c'.Holds P := ⟨hbase ▸ h.base, hpeek ▸ h.peek⟩

theorem entry {e : Entry ν} (hentry : c.entryAt k = some e)
    (hvalue : e.value = some v) : P v := h.peek k v (by rw [peek_of_entryAt hentry, hvalue])

theorem fetch (k : κ) : (c.fetch k).Holds P :=
  h.congr (base_fetch c k) (peek_fetch c k)

theorem put (hv : P v) {overwrite : Bool} (hput : c.put k v overwrite = some c') : c'.Holds P := by
  obtain ⟨hbase, hpeek⟩ := peek_put hput
  refine ⟨hbase ▸ h.base, fun k' v' hv' => ?_⟩
  rw [hpeek] at hv'
  by_cases hk : k' = k
  · rw [hk, update_self] at hv'
    cases hv'
    exact hv
  · rw [update_of_ne hk] at hv'
    exact h.peek k' v' hv'

theorem take {o : Option ν} (htake : c.take k = some (o, c')) : c'.Holds P := by
  have hbase := base_take htake
  refine ⟨hbase ▸ h.base, fun k' v' hv' => ?_⟩
  by_cases hk : k' = k
  · obtain ⟨e, -, -, rfl⟩ := take_cases htake
    subst hk
    split_ifs at hv' with hfresh
    · rw [peek_of_entryAt_none (entryAt_setEntry_self _ k' _), base_setEntry, base_fetch] at hv'
      exact h.base k' v' hv'
    · rw [peek_of_entryAt (entryAt_setEntry_self _ k' _)] at hv'
      cases hv'
  · rw [peek_take_of_ne htake hk] at hv'
    exact h.peek k' v' hv'

theorem flush : c.flush.Holds P := by
  refine holds_above fun k v hv => ?_
  unfold written at hv
  split at hv
  · rename_i e hentry
    split_ifs at hv
    · exact h.entry hentry hv
    · exact h.base k v hv
  · exact h.base k v hv

end

theorem batchWrite {lower upper lower' : Cache κ ν} (hlower : lower.Holds P)
    (hupper : upper.Holds P) (h : lower.batchWrite upper = some lower') : lower'.Holds P := by
  obtain ⟨hbase, hkeys⟩ := batchWrite_cases h
  refine ⟨hbase ▸ hlower.base, fun k v hv => ?_⟩
  have hkept : lower'.entryAt k = lower.entryAt k → P v := by
    intro hsame
    unfold Cache.peek at hv
    rw [hsame, hbase] at hv
    exact hlower.peek k v hv
  rcases hkeys k with ⟨-, hsame⟩ | ⟨e, hentry, hmerge⟩
  · exact hkept hsame
  · rcases mergeEntry_cases hmerge with ⟨-, hsame⟩ | ⟨-, -, hnone⟩ | ⟨fresh, hsome, -⟩
    · exact hkept hsame
    · rw [peek_of_entryAt_none hnone, hbase] at hv
      exact hlower.base k v hv
    · rw [peek_of_entryAt hsome] at hv
      exact hupper.entry hentry hv

end Holds

end Cache

end WriteBack
