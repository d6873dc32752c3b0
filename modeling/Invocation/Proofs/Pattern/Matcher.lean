/-
  What the matchers of patterns find.

  * `Pattern.Occurs`: a pattern matches a part of a text;
    `Occurs.eq_of_anchored`: the whole text if it is anchored at both ends;
  * `Slots.extent?_zero`, `Slots.extent?_eq_some_iff`: the parts of the groups
    of a match are those that were noted, of group 0 the whole match, and of
    the others where they take part in it;
  * `Pattern.le_groupCount`: the numbers of groups are bounded;
  * `Pattern.searches_matcher`: the matcher of a pattern finds one of its
    matches that begins first; `Matcher.ofText?_eq_some_iff`: which matcher a
    text has.
-/
import Invocation.Pattern.Matcher
import Invocation.Proofs.Pattern.Numbering
import Invocation.Proofs.Pattern.Search

namespace Invocation

namespace Pattern

/-- A pattern matches a part of a text. -/
def Occurs (p : Pattern) (text : String) (e : Extent) : Prop :=
  e.first ≤ text.toList.length ∧ ∃ notes, p.Matches text.toList e.first e.last notes

/-- A pattern that is anchored at both ends matches whole texts only. -/
theorem Occurs.eq_of_anchored {p : Pattern} {text : String} {e : Extent} (h : p.Occurs text e)
    (hstart : p.isAtStart = true) (hstop : p.isAtStop = true) : e = ⟨0, text.toList.length⟩ := by
  obtain ⟨-, notes, hmatch⟩ := h
  rw [← hmatch.eq_zero_of_isAtStart p hstart, ← hmatch.eq_length_of_isAtStop p hstop]

/-! ## Numbers of groups -/

variable {number : Nat} {item : Pattern}

mutual

/-- The number of a group is at most the greatest one. -/
theorem le_groupCount (p : Pattern) (h : group number item ∈ p.within) : number ≤ p.groupCount := by
  cases p with
  | empty | text | chars | start | stop => cases List.mem_singleton.1 h
  | cat items => exact le_groupCountAll items ((List.mem_cons.1 h).resolve_left nofun)
  | alt branches => exact le_groupCountAll branches ((List.mem_cons.1 h).resolve_left nofun)
  | repeat_ greedy least most body => exact le_groupCount body ((List.mem_cons.1 h).resolve_left nofun)
  | group n body =>
    rw [groupCount]
    rcases List.mem_cons.1 h with heq | h
    · cases heq
      exact Nat.le_max_left _ _
    · exact Nat.le_trans (le_groupCount body h) (Nat.le_max_right _ _)

theorem le_groupCountAll (ps : List Pattern) (h : group number item ∈ withinAll ps) :
    number ≤ groupCountAll ps := by
  cases ps with
  | nil => exact absurd h List.not_mem_nil
  | cons p rest =>
    rw [groupCountAll]
    rcases List.mem_append.1 h with h | h
    · exact Nat.le_trans (le_groupCount p h) (Nat.le_max_left _ _)
    · exact Nat.le_trans (le_groupCountAll rest h) (Nat.le_max_right _ _)

end

end Pattern

open Pattern

/-! ## Groups of a match -/

variable {p : Pattern} {cs : List Char} {i j n : Nat} {notes : Slots}

/-- The ends of the whole match are noted around those of the groups. -/
theorem lookup_whole (key i j : Nat) (notes : Slots) :
    List.lookup key ((1, j) :: (notes ++ [(0, i)])) =
      if key = 1 then some j else (notes.lookup key).or (if key = 0 then some i else none) :=
  @lookup_group key 0 i j notes

/-- Group 0 is the whole match. -/
theorem Slots.extent?_zero (hp : p.WellFormed) (h : p.Matches cs i j notes) :
    Slots.extent? ((1, j) :: (notes ++ [(0, i)])) 0 = some ⟨i, j⟩ := by
  obtain ⟨hfirst, -⟩ := h.lookup_ends hp
  simp [Slots.extent?, lookup_whole, hfirst]

/-- The other groups are where they take part in the match. -/
theorem Slots.extent?_eq_some_iff (hp : p.WellFormed) (h : p.Matches cs i j notes) (hn : 1 ≤ n)
    {e : Extent} :
    Slots.extent? ((1, j) :: (notes ++ [(0, i)])) n = some e ↔ TakesPart cs p n i j notes e.first e.last := by
  have hlookup : ∀ key, 2 ≤ key → List.lookup key ((1, j) :: (notes ++ [(0, i)])) = notes.lookup key := by
    intro key hkey
    rw [lookup_whole, if_neg (by omega), if_neg (by omega), Option.or_none]
  rw [Slots.extent?, hlookup _ (by omega), hlookup _ (by omega)]
  rcases h.group_cases hp n with ⟨hnone, -⟩ | ⟨first, last, hpart⟩
  · rw [hnone]
    refine iff_of_false nofun fun hpart => ?_
    cases hnone.symm.trans hpart.notes_first
  · rw [hpart.notes_first, hpart.notes_last]
    constructor
    · intro heq
      cases heq
      exact hpart
    · intro hpart'
      cases hpart.notes_first.symm.trans hpart'.notes_first
      cases hpart.notes_last.symm.trans hpart'.notes_last
      rfl

/-! ## Searching -/

/-- What the matcher of a pattern finds in a text are the groups of a match, and no match begins before it. -/
theorem Pattern.exists_match_of_captures? (hp : p.WellFormed) {text : String} {c : Captures}
    (h : p.matcher.captures? text = some c) :
    ∃ i j notes, i ≤ text.toList.length ∧ p.Matches text.toList i j notes ∧
      c = Slots.extent? ((1, j) :: (notes ++ [(0, i)])) ∧ ∀ e, p.Occurs text e → i ≤ e.first := by
  obtain ⟨slots, hslots, rfl⟩ := Option.map_eq_some_iff.1 h
  obtain ⟨i, j, notes, hinside, hmatch, rfl, hfirst⟩ := (Program.search?_spec hp text.toList).1 slots hslots
  refine ⟨i, j, notes, hinside, hmatch, rfl, ?_⟩
  rintro e ⟨hinside', notes', hmatch'⟩
  exact hfirst e.first e.last notes' hinside' hmatch'

/-- **The matcher of a pattern finds one of its matches that begins first**, and there is no group in it
but those of the pattern. -/
theorem Pattern.searches_matcher (hp : p.WellFormed) : p.matcher.Searches p.Occurs where
  inside := fun ⟨hinside, _, hmatch⟩ => ⟨hmatch.le, hmatch.le_length hinside⟩
  isMatch_iff := by
    intro text
    refine (Program.search?_spec hp text.toList).2.trans ⟨?_, ?_⟩
    · rintro ⟨i, j, notes, hinside, hmatch⟩
      exact ⟨⟨i, j⟩, hinside, notes, hmatch⟩
    · rintro ⟨e, hinside, notes, hmatch⟩
      exact ⟨e.first, e.last, notes, hinside, hmatch⟩
  isSome_captures? := fun _ => Option.isSome_map
  leftmost := by
    intro text c hc
    obtain ⟨i, j, notes, hinside, hmatch, rfl, hfirst⟩ := exists_match_of_captures? hp hc
    exact ⟨⟨i, j⟩, Slots.extent?_zero hp hmatch, ⟨hinside, notes, hmatch⟩, hfirst⟩
  bounded := by
    intro text c n hc hn
    obtain ⟨i, j, notes, -, hmatch, rfl, -⟩ := exists_match_of_captures? hp hc
    refine Option.eq_none_iff_forall_ne_some.2 fun e he => ?_
    obtain ⟨item, inner, hmem, -⟩ := ((Slots.extent?_eq_some_iff hp hmatch (by omega)).1 he).body
    exact absurd (le_groupCount p hmem) (Nat.not_le_of_lt hn)

/-- The matcher of a text is that of the pattern that it is. -/
theorem Matcher.ofText?_eq_some_iff {text : String} {m : Matcher} :
    Matcher.ofText? text = some m ↔ ∃ p, Pattern.parse text = some p ∧ p.fits = true ∧ p.matcher = m := by
  simp only [Matcher.ofText?, Option.bind_eq_bind, Option.bind_eq_some_iff, Option.ite_none_right_eq_some,
    Option.some.injEq]

end Invocation
