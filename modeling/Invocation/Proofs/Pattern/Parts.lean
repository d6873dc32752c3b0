/-
  Patterns and the parts of a text.

  * `Pattern.MatchesPart`: a pattern matches the middle one of three parts of a
    text; there is one lemma for each form of patterns, in which no positions
    occur;
  * `Program.isMatch_iff`: the program of a pattern finds a match exactly if the
    text has such a part; `Program.isMatch_anchored`: between anchors this part
    is the whole text.
-/
import Invocation.Proofs.Pattern.Search

namespace Invocation

namespace Pattern

variable {before w after : List Char}

/-- A pattern matches a part of a text, with the given parts before and after it. -/
def MatchesPart (before w after : List Char) (p : Pattern) : Prop :=
  ∃ notes, Matches (before ++ w ++ after) p before.length (before.length + w.length) notes

theorem matchesPart_text {cs : List Char} : MatchesPart before w after (.text cs) ↔ w = cs := by
  have hdrop : (before ++ w ++ after).drop before.length = w ++ after := by simp
  constructor
  · rintro ⟨notes, hprefix, hlength, -⟩
    rw [hdrop] at hprefix
    have hlength : w.length = cs.length := by omega
    have hle := List.prefix_of_prefix_length_le hprefix (List.prefix_append w after) (Nat.le_of_eq hlength.symm)
    exact (hle.eq_of_length hlength.symm).symm
  · rintro rfl
    exact ⟨[], by rw [hdrop]; exact List.prefix_append w after, rfl, rfl⟩

theorem matchesPart_start : MatchesPart before w after .start ↔ before = [] ∧ w = [] := by
  constructor
  · rintro ⟨notes, hbegin, hlength, -⟩
    exact ⟨List.eq_nil_of_length_eq_zero hbegin, List.eq_nil_of_length_eq_zero (by omega)⟩
  · rintro ⟨rfl, rfl⟩
    exact ⟨[], rfl, rfl, rfl⟩

theorem matchesPart_stop : MatchesPart before w after .stop ↔ w = [] ∧ after = [] := by
  constructor
  · rintro ⟨notes, hend, hlength, -⟩
    simp only [List.length_append] at hend
    exact ⟨List.eq_nil_of_length_eq_zero (by omega), List.eq_nil_of_length_eq_zero (by omega)⟩
  · rintro ⟨rfl, rfl⟩
    exact ⟨[], by simp, rfl, rfl⟩

theorem matchesPart_cat_nil : MatchesPart before w after (.cat []) ↔ w = [] := by
  constructor
  · rintro ⟨notes, hlength, -⟩
    exact List.eq_nil_of_length_eq_zero (by omega)
  · rintro rfl
    exact ⟨[], rfl, rfl⟩

/-- Patterns side by side match parts side by side. -/
theorem matchesPart_cat_cons {p : Pattern} {rest : List Pattern} :
    MatchesPart before w after (.cat (p :: rest)) ↔
      ∃ x y, w = x ++ y ∧ MatchesPart before x (y ++ after) p ∧
        MatchesPart (before ++ x) y after (.cat rest) := by
  have htext : ∀ x y, before ++ x ++ (y ++ after) = before ++ (x ++ y) ++ after := fun x y => by simp
  have htext' : ∀ x y, before ++ x ++ y ++ after = before ++ (x ++ y) ++ after := fun x y => by simp
  have hfrom : ∀ x, (before ++ x).length = before.length + x.length := fun x => List.length_append
  have hto : ∀ x y : List Char, before.length + x.length + y.length = before.length + (x ++ y).length :=
    fun x y => by rw [List.length_append, Nat.add_assoc]
  constructor
  · rintro ⟨_, k, first, later, hp, hrest, rfl⟩
    have hlo : before.length ≤ k := hp.le
    have hhi : k ≤ before.length + w.length := Matches.le (p := .cat rest) hrest
    -- the first pattern ends at `k`, and this is where the part is cut in two
    obtain ⟨x, y, rfl, rfl⟩ : ∃ x y, w = x ++ y ∧ k = before.length + x.length :=
      ⟨w.take (k - before.length), w.drop (k - before.length), (List.take_append_drop _ _).symm, by
        rw [List.length_take]; omega⟩
    refine ⟨x, y, rfl, ⟨first, by rwa [htext]⟩, later, ?_⟩
    rw [htext', hfrom, hto]
    exact hrest
  · rintro ⟨x, y, rfl, ⟨first, hp⟩, later, hrest⟩
    rw [htext] at hp
    rw [htext', hfrom, hto] at hrest
    exact ⟨_, _, first, later, hp, hrest, rfl⟩

/-- The end of the text after other patterns. -/
theorem matchesPart_cat_stop {items : List Pattern} :
    MatchesPart before w after (.cat (items ++ [.stop])) ↔
      after = [] ∧ MatchesPart before w after (.cat items) := by
  induction items generalizing before w with
  | nil =>
    rw [List.nil_append, matchesPart_cat_cons, matchesPart_cat_nil]
    simp only [matchesPart_stop, matchesPart_cat_nil]
    constructor
    · rintro ⟨_, _, rfl, ⟨rfl, hafter⟩, rfl⟩
      exact ⟨hafter, rfl⟩
    · rintro ⟨rfl, rfl⟩
      exact ⟨[], [], rfl, ⟨rfl, rfl⟩, rfl⟩
  | cons p rest ih =>
    simp only [List.cons_append, matchesPart_cat_cons, ih]
    constructor
    · rintro ⟨x, y, hw, hp, hafter, hrest⟩
      exact ⟨hafter, x, y, hw, hp, hrest⟩
    · rintro ⟨hafter, x, y, hw, hp, hrest⟩
      exact ⟨x, y, hw, hp, hafter, hrest⟩

theorem matchesPart_alt {branches : List Pattern} :
    MatchesPart before w after (.alt branches) ↔ ∃ p ∈ branches, MatchesPart before w after p := by
  induction branches with
  | nil => exact ⟨fun ⟨_, h⟩ => h.elim, fun ⟨_, h, _⟩ => absurd h List.not_mem_nil⟩
  | cons p rest ih =>
    rw [List.exists_mem_cons_iff, ← ih]
    constructor
    · rintro ⟨notes, h | h⟩
      · exact Or.inl ⟨notes, h⟩
      · exact Or.inr ⟨notes, h⟩
    · rintro (⟨notes, h⟩ | ⟨notes, h⟩)
      · exact ⟨notes, Or.inl h⟩
      · exact ⟨notes, Or.inr h⟩

theorem matchesPart_group {number : Nat} {item : Pattern} :
    MatchesPart before w after (.group number item) ↔ MatchesPart before w after item :=
  ⟨fun ⟨_, inner, h, _⟩ => ⟨inner, h⟩, fun ⟨inner, h⟩ => ⟨_, inner, h, rfl⟩⟩

/-- Characters of a class one after the other. -/
theorem times_chars {cs : List Char} {set : CharSet} {n i j : Nat} {notes : Slots} :
    (Matches cs (.chars set)).times n i j notes ↔
      j = i + n ∧ notes = [] ∧ ∀ k < n, ∃ c, cs[i + k]? = some c ∧ set.has c = true := by
  induction n generalizing j notes with
  | zero => simp [Span.times, Span.nothing]
  | succ n ih =>
    constructor
    · rintro ⟨_, first, later, h, ⟨hc, rfl, rfl⟩, rfl⟩
      obtain ⟨rfl, rfl, hall⟩ := ih.1 h
      refine ⟨Nat.add_assoc i n 1, rfl, fun k hk => ?_⟩
      rcases Nat.lt_succ_iff_lt_or_eq.1 hk with hk | rfl
      · exact hall k hk
      · exact hc
    · rintro ⟨rfl, rfl, hall⟩
      exact ⟨i + n, [], [], ih.2 ⟨rfl, rfl, fun k hk => hall k (Nat.lt_succ_of_lt hk)⟩,
        ⟨hall n (Nat.lt_succ_self n), rfl, rfl⟩, rfl⟩

/-- A repetition of a class matches the parts that consist of its characters and have a length in bounds. -/
theorem matchesPart_repeat_chars {greedy : Bool} {least : Nat} {most : Option Nat} {set : CharSet} :
    MatchesPart before w after (.repeat_ greedy least most (.chars set)) ↔
      least ≤ w.length ∧ (∀ m ∈ most, w.length ≤ m) ∧ ∀ c ∈ w, set.has c = true := by
  have hchars : (∀ k < w.length, ∃ c, (before ++ w ++ after)[before.length + k]? = some c ∧
      set.has c = true) ↔ ∀ c ∈ w, set.has c = true := by
    have hget : ∀ k < w.length, (before ++ w ++ after)[before.length + k]? = w[k]? := by
      intro k hk
      rw [List.append_assoc, List.getElem?_append_right (Nat.le_add_right _ _), Nat.add_sub_cancel_left,
        List.getElem?_append_left hk]
    constructor
    · intro h c hc
      obtain ⟨k, hk, rfl⟩ := List.getElem_of_mem hc
      obtain ⟨d, hd, hset⟩ := h k hk
      rw [hget k hk, List.getElem?_eq_getElem hk] at hd
      exact Option.some.inj hd ▸ hset
    · intro h k hk
      exact ⟨w[k], by rw [hget k hk, List.getElem?_eq_getElem hk], h _ (List.getElem_mem hk)⟩
  rw [← hchars]
  constructor
  · rintro ⟨notes, n, hleast, hmost, htimes⟩
    obtain ⟨hlength, -, hall⟩ := times_chars.1 htimes
    obtain rfl : w.length = n := Nat.add_left_cancel hlength
    exact ⟨hleast, hmost, hall⟩
  · rintro ⟨hleast, hmost, hall⟩
    exact ⟨[], w.length, hleast, hmost, times_chars.2 ⟨rfl, rfl, hall⟩⟩

end Pattern

open Pattern

/-- The program of a pattern finds a match in the texts that have a part that the pattern matches. -/
theorem Program.isMatch_iff {p : Pattern} (hp : p.WellFormed) {text : String} :
    (ofPattern p).isMatch text = true ↔
      ∃ before w after, text.toList = before ++ w ++ after ∧ MatchesPart before w after p := by
  rw [isMatch, (search?_spec hp text.toList).2]
  constructor
  · rintro ⟨i, j, notes, hi, h⟩
    have hij : i ≤ j := h.le
    have hj : j ≤ text.toList.length := h.le_length hi
    have htext : text.toList.take i ++ (text.toList.drop i).take (j - i) ++ text.toList.drop j =
        text.toList := by
      rw [← List.take_add, Nat.add_sub_cancel' hij, List.take_append_drop]
    have hfirst : (text.toList.take i).length = i := List.length_take_of_le hi
    have hlast : (text.toList.take i).length + ((text.toList.drop i).take (j - i)).length = j := by
      rw [List.length_take, List.length_take, List.length_drop]
      omega
    exact ⟨_, _, _, htext.symm, notes, by rwa [htext, hlast, hfirst]⟩
  · rintro ⟨before, w, after, htext, notes, h⟩
    rw [htext]
    exact ⟨_, _, notes, by simp, h⟩

/-- Between anchors a pattern matches whole texts. -/
theorem Program.isMatch_anchored {items : List Pattern} {text : String}
    (hp : (Pattern.cat (.start :: (items ++ [.stop]))).WellFormed) :
    (ofPattern (.cat (.start :: (items ++ [.stop])))).isMatch text = true ↔
      MatchesPart [] text.toList [] (.cat items) := by
  simp only [isMatch_iff hp, matchesPart_cat_cons, matchesPart_start, matchesPart_cat_stop]
  constructor
  · rintro ⟨_, _, _, htext, _, w, rfl, ⟨rfl, rfl⟩, rfl, h⟩
    rw [htext]
    simpa using h
  · exact fun h => ⟨[], text.toList, [], by simp, [], text.toList, rfl, ⟨rfl, rfl⟩, rfl, h⟩

end Invocation
