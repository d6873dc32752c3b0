/-
  Choices from a list.

  * `sublistsOfLength` lists the choices of a given number of items, in
    lexicographic order of their places;
  * `choices` lists all nonempty choices, the largest first.
-/

namespace Invocation.Matching

/-- The choices of `count` items in their order. -/
def sublistsOfLength {α : Type} : Nat → List α → List (List α)
  | 0, _ => [[]]
  | _ + 1, [] => []
  | count + 1, x :: xs => (sublistsOfLength count xs).map (x :: ·) ++ sublistsOfLength (count + 1) xs

/-- The choices of `count` items, of one fewer, and so on down to one item. -/
def choicesUpTo {α : Type} (items : List α) : Nat → List (List α)
  | 0 => []
  | count + 1 => sublistsOfLength (count + 1) items ++ choicesUpTo items count

/-- All nonempty choices, the largest first, and of one size in lexicographic order. -/
def choices {α : Type} (items : List α) : List (List α) := choicesUpTo items items.length

/-- The nonempty sets of indices below `n`, the largest first, and of one size in lexicographic order. -/
def subsets (n : Nat) : List (List Nat) := choices (List.range n)

theorem mem_sublistsOfLength {α : Type} {count : Nat} {items choice : List α} :
    choice ∈ sublistsOfLength count items ↔ choice.Sublist items ∧ choice.length = count := by
  induction items generalizing count choice with
  | nil =>
    cases count with
    | zero => simp [sublistsOfLength]
    | succ count =>
      simp only [sublistsOfLength, List.not_mem_nil, List.sublist_nil, false_iff]
      rintro ⟨rfl, h⟩
      simp at h
  | cons x xs ih =>
    cases count with
    | zero =>
      simp only [sublistsOfLength, List.mem_singleton]
      exact ⟨fun h => by simp [h], fun h => List.length_eq_zero_iff.mp h.2⟩
    | succ count =>
      simp only [sublistsOfLength, List.mem_append, List.mem_map, ih]
      constructor
      · rintro (⟨t, ⟨ht, hl⟩, rfl⟩ | ⟨hs, hl⟩)
        · exact ⟨ht.cons_cons x, by simp [hl]⟩
        · exact ⟨hs.cons x, hl⟩
      · rintro ⟨hs, hl⟩
        cases hs with
        | cons _ hs => exact Or.inr ⟨hs, hl⟩
        | cons_cons _ hs => exact Or.inl ⟨_, ⟨hs, by simpa using hl⟩, rfl⟩

end Invocation.Matching
