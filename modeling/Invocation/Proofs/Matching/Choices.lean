/-
  Choices of items: which lists they are, and choices of mapped items.

  * `mem_choices`: the choices are the nonempty sublists;
  * `pairwise_subsets`: sets of places stand in order, the largest first;
  * `choices_map`: the choices of mapped items are the mapped choices, in the
    same order;
  * `choices_eq_map_subsets`: choosing items is choosing their places.
-/
import Invocation.Matching.Subsets

namespace Invocation.Matching

theorem mem_choicesUpTo {α : Type} {items choice : List α} {count : Nat} :
    choice ∈ choicesUpTo items count ↔
      choice.Sublist items ∧ choice ≠ [] ∧ choice.length ≤ count := by
  induction count with
  | zero =>
    simp only [choicesUpTo, List.not_mem_nil, false_iff]
    rintro ⟨-, hne, hl⟩
    exact hne (List.length_eq_zero_iff.1 (Nat.le_zero.1 hl))
  | succ count ih =>
    simp only [choicesUpTo, List.mem_append, mem_sublistsOfLength, ih]
    constructor
    · rintro (⟨hs, hl⟩ | ⟨hs, hne, hl⟩)
      · exact ⟨hs, List.ne_nil_of_length_eq_add_one hl, Nat.le_of_eq hl⟩
      · exact ⟨hs, hne, Nat.le_succ_of_le hl⟩
    · rintro ⟨hs, hne, hl⟩
      rcases Nat.lt_or_eq_of_le hl with hl | hl
      · exact Or.inr ⟨hs, hne, Nat.le_of_lt_succ hl⟩
      · exact Or.inl ⟨hs, hl⟩

/-- The choices are the nonempty sublists. -/
theorem mem_choices {α : Type} {items choice : List α} :
    choice ∈ choices items ↔ choice.Sublist items ∧ choice ≠ [] := by
  rw [choices, mem_choicesUpTo]
  exact ⟨fun ⟨hs, hne, _⟩ => ⟨hs, hne⟩, fun ⟨hs, hne⟩ => ⟨hs, hne, hs.length_le⟩⟩

theorem sublistsOfLength_map {α β : Type} (f : α → β) (count : Nat) (items : List α) :
    sublistsOfLength count (items.map f) = (sublistsOfLength count items).map (List.map f) := by
  induction items generalizing count with
  | nil => cases count <;> rfl
  | cons x xs ih =>
    cases count with
    | zero => rfl
    | succ count =>
      simp only [List.map_cons, sublistsOfLength, ih, List.map_append, List.map_map]
      rfl

theorem choicesUpTo_map {α β : Type} (f : α → β) (items : List α) (count : Nat) :
    choicesUpTo (items.map f) count = (choicesUpTo items count).map (List.map f) := by
  induction count with
  | zero => rfl
  | succ count ih => simp only [choicesUpTo, sublistsOfLength_map, ih, List.map_append]

theorem choices_map {α β : Type} (f : α → β) (items : List α) :
    choices (items.map f) = (choices items).map (List.map f) := by
  rw [choices, List.length_map, choicesUpTo_map, choices]

theorem choices_pair {α : Type} (x y : α) : choices [x, y] = [[x, y], [x], [y]] := rfl

theorem map_getElem?_range {α : Type} (items : List α) :
    (List.range items.length).map (items[·]?) = items.map some := by
  refine List.ext_getElem (by simp) fun i h₁ h₂ => ?_
  simp only [List.length_map, List.length_range] at h₁
  simp [h₁]

/-- Choosing items is choosing their places. -/
theorem choices_eq_map_subsets {α : Type} (items : List α) :
    (subsets items.length).map (fun chosen => chosen.filterMap (items[·]?)) = choices items := by
  have h : (subsets items.length).map (List.map (items[·]?)) =
      (choices items).map (List.map some) := by
    rw [subsets, ← choices_map, map_getElem?_range, choices_map]
  have h' := congrArg (List.map (List.filterMap id)) h
  simpa [List.map_map, Function.comp_def, List.filterMap_map] using h'

/-- A choice of places stands before another one: it is larger, or of the same size and before it in
lexicographic order. -/
def Precedes (a b : List Nat) : Prop :=
  b.length < a.length ∨ a.length = b.length ∧ List.Lex (· < ·) a b

theorem pairwise_sublistsOfLength {items : List Nat} (h : items.Pairwise (· < ·)) (count : Nat) :
    (sublistsOfLength count items).Pairwise (List.Lex (· < ·)) := by
  induction items generalizing count with
  | nil => cases count <;> simp [sublistsOfLength]
  | cons x xs ih =>
    obtain ⟨hx, hxs⟩ := List.pairwise_cons.1 h
    cases count with
    | zero => exact List.pairwise_singleton _ _
    | succ count =>
      rw [sublistsOfLength, List.pairwise_append, List.pairwise_map]
      refine ⟨(ih hxs count).imp .cons, ih hxs (count + 1), fun a ha b hb => ?_⟩
      obtain ⟨t, -, rfl⟩ := List.mem_map.1 ha
      -- the choice without `x` begins with a later item
      obtain ⟨hsub, hlength⟩ := mem_sublistsOfLength.1 hb
      obtain ⟨y, u, rfl⟩ := List.exists_cons_of_length_eq_add_one hlength
      exact .rel (hx y (hsub.mem List.mem_cons_self))

theorem pairwise_choicesUpTo {items : List Nat} (h : items.Pairwise (· < ·)) (count : Nat) :
    (choicesUpTo items count).Pairwise Precedes := by
  induction count with
  | zero => exact .nil
  | succ count ih =>
    rw [choicesUpTo, List.pairwise_append]
    refine ⟨?_, ih, fun a ha b hb => ?_⟩
    · refine (pairwise_sublistsOfLength h (count + 1)).imp_of_mem fun ha hb hab => Or.inr ⟨?_, hab⟩
      rw [(mem_sublistsOfLength.1 ha).2, (mem_sublistsOfLength.1 hb).2]
    · have hlength := (mem_choicesUpTo.1 hb).2.2
      exact Or.inl (by rw [(mem_sublistsOfLength.1 ha).2]; omega)

/-- The sets of places stand in order. -/
theorem pairwise_subsets (n : Nat) : (subsets n).Pairwise Precedes :=
  pairwise_choicesUpTo List.pairwise_lt_range _

end Invocation.Matching
