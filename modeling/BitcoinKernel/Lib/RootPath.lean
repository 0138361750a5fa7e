import Mathlib.Data.List.Infix

/-!
# Paths along parent pointers

Nodes of a forest know their parent and nothing else.  A root path lists the
nodes from a root down to some node, so that each node is the parent of the
next one.  The last node of a root path decides the whole path
(`IsRootPath.unique`), and two root paths that meet in a node agree up to it
(`IsRootPath.take_eq_take`).

`climb parent n x` goes from `x` to the parent `n` times.  On a root path this
is the node `n` places before (`IsRootPath.climb_eq`).
-/

namespace RootPath

open List

variable {α : Type} {parent : α → Option α}

/-- The nodes from a root down to the last node of the list. -/
inductive IsRootPath (parent : α → Option α) : List α → Prop where
  | nil : IsRootPath parent []
  | snoc {l : List α} {x : α} :
      IsRootPath parent l → parent x = l.getLast? → IsRootPath parent (l ++ [x])

variable {l l' : List α} {x : α} {parent' : α → Option α} {n : Nat}

theorem isRootPath_snoc :
    IsRootPath parent (l ++ [x]) ↔ IsRootPath parent l ∧ parent x = l.getLast? := by
  refine ⟨fun h => ?_, fun h => .snoc h.1 h.2⟩
  generalize heq : l ++ [x] = p at h
  cases h with
  | nil => simp at heq
  | snoc hl hx =>
    obtain ⟨rfl, hxx⟩ := append_inj' heq rfl
    obtain rfl := singleton_inj.mp hxx
    exact ⟨hl, hx⟩

/-- An initial part of a root path is a root path. -/
theorem IsRootPath.of_append {m : List α} (h : IsRootPath parent (l ++ m)) :
    IsRootPath parent l := by
  induction m using List.reverseRecOn with
  | nil => rwa [append_nil] at h
  | append_singleton m x ih =>
    rw [← append_assoc] at h
    exact ih (isRootPath_snoc.mp h).1

theorem IsRootPath.take (h : IsRootPath parent l) (n : Nat) : IsRootPath parent (l.take n) := by
  rw [← take_append_drop n l] at h
  exact h.of_append

/-- Only the parents of the nodes on the path matter. -/
theorem IsRootPath.congr (h : IsRootPath parent l) (heq : ∀ x ∈ l, parent' x = parent x) :
    IsRootPath parent' l := by
  induction h with
  | nil => exact .nil
  | snoc hl hx ih =>
    refine .snoc (ih fun y hy => heq y (mem_append_left _ hy)) ?_
    rw [heq _ (mem_append_right _ (mem_singleton_self _)), hx]

/-- The last node decides the path. -/
theorem IsRootPath.unique (h : IsRootPath parent (l ++ [x])) (h' : IsRootPath parent (l' ++ [x])) :
    l = l' := by
  induction l using List.reverseRecOn generalizing l' x with
  | nil =>
    have hroot : parent x = none := (isRootPath_snoc.mp h).2
    rw [(isRootPath_snoc.mp h').2, getLast?_eq_none_iff] at hroot
    exact hroot.symm
  | append_singleton l y ih =>
    obtain ⟨hl, hx⟩ := isRootPath_snoc.mp h
    obtain ⟨hl', hx'⟩ := isRootPath_snoc.mp h'
    rw [getLast?_concat] at hx
    obtain ⟨k, rfl⟩ := getLast?_eq_some_iff.mp (hx'.symm.trans hx)
    rw [ih hl hl']

/-- Two root paths that meet in a node agree up to that node. -/
theorem IsRootPath.take_eq_take (h : IsRootPath parent l) (h' : IsRootPath parent l') {n' : Nat}
    (hx : l[n]? = some x) (hx' : l'[n']? = some x) : l.take (n + 1) = l'.take (n' + 1) := by
  have hl := h.take (n + 1)
  have hl' := h'.take (n' + 1)
  rw [take_add_one, hx, Option.toList_some] at hl ⊢
  rw [take_add_one, hx', Option.toList_some] at hl' ⊢
  rw [hl.unique hl']

/-- A root path is an initial part of every root path that has its last node. -/
theorem IsRootPath.prefix_of_getElem? (h : IsRootPath parent (l ++ [x])) (h' : IsRootPath parent l')
    (hx : l'[n]? = some x) : l.length = n ∧ l ++ [x] <+: l' := by
  have hlast : (l ++ [x])[l.length]? = some x := by simp
  have htake := h.take_eq_take h' hlast hx
  rw [take_of_length_le (by simp)] at htake
  refine ⟨?_, htake ▸ take_prefix _ _⟩
  have hlen := congrArg List.length htake
  have hlt : n < l'.length := (List.getElem?_eq_some_iff.mp hx).1
  rw [length_append, length_singleton, length_take] at hlen
  omega

/-! ## Going up -/

/-- The node that is reached from `x` by going to the parent `n` times. -/
def climb (parent : α → Option α) : Nat → α → Option α
  | 0, x => some x
  | n + 1, x => (parent x).bind (climb parent n)

theorem climb_one (x : α) : climb parent 1 x = parent x := by
  rw [climb]
  cases parent x <;> rfl

/-- Going up in two parts. -/
theorem climb_add (m n : Nat) (x : α) :
    climb parent (m + n) x = (climb parent m x).bind (climb parent n) := by
  induction m generalizing x with
  | zero => rw [Nat.zero_add, climb, Option.bind_some]
  | succ m ih =>
    rw [Nat.succ_add, climb, climb, Option.bind_assoc]
    cases parent x with
    | none => rfl
    | some y => exact ih y

/-- A forest that keeps the parents of its nodes has the same way up. -/
theorem climb_mono (h : ∀ x y, parent x = some y → parent' x = some y) {y : α}
    (hxy : climb parent n x = some y) : climb parent' n x = some y := by
  induction n generalizing x y with
  | zero => exact hxy
  | succ n ih =>
    obtain ⟨z, hz, hzy⟩ := Option.bind_eq_some_iff.mp hxy
    rw [climb, h x z hz]
    exact ih hzy

/-- On a root path the way up is the path, backwards. -/
theorem IsRootPath.climb_eq (h : IsRootPath parent l) {k : Nat} (hx : l[n]? = some x) :
    climb parent k x = if k ≤ n then l[n - k]? else none := by
  induction k generalizing n x with
  | zero =>
    rw [climb, if_pos (Nat.zero_le n), Nat.sub_zero, hx]
  | succ k ih =>
    have htake := h.take (n + 1)
    rw [take_add_one, hx, Option.toList_some] at htake
    rw [climb, (isRootPath_snoc.mp htake).2]
    cases n with
    | zero => rfl
    | succ n =>
      have hlt : n < l.length := Nat.lt_of_succ_lt (List.getElem?_eq_some_iff.mp hx).1
      have hlast : (l.take (n + 1)).getLast? = some l[n] := by
        rw [take_add_one, getElem?_eq_getElem hlt, Option.toList_some, getLast?_concat]
      rw [hlast, Option.bind_some, ih (getElem?_eq_getElem hlt), Nat.succ_sub_succ]
      simp only [Nat.add_le_add_iff_right]

end RootPath
