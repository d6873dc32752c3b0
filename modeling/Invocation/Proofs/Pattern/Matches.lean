/-
  What patterns match.

  A pattern matches a part of a text, which goes from a position to a
  position. The ends of groups are noted on the way.

  * `Span` are the relations between the ends of such parts, with
    `Span.before` for parts side by side and `Span.times` for repetitions;
  * `Pattern.Matches` is what a pattern matches, and `Matches.of_closed` the
    induction over it;
  * `Matches.le`, `Matches.le_length`: a match lies inside the text;
    `Matches.eq_zero_of_isAtStart`, `Matches.eq_length_of_isAtStop`: patterns
    that are anchored match at the ends of the text only;
  * `Pattern.WellFormed` is how the nodes within a pattern look;
    `Matches.lookup_ends`: the ends of the whole match are not noted within
    it, and `Matches.group_cases`: a group takes part in a match or is not
    noted.
-/
import Invocation.Pattern.Search
import Mathlib

namespace Invocation

/-! ## Parts of texts -/

/-- What part of a text is matched: from a position to a position, with the positions that are noted on
the way, the last first. -/
abbrev Span := Nat → Nat → Slots → Prop

namespace Span

/-- The empty part at any position. -/
def nothing : Span := fun i j notes => j = i ∧ notes = []

/-- The empty part at any position, which is noted in a slot. -/
def note (slot : Nat) : Span := fun i j notes => j = i ∧ notes = [(slot, i)]

/-- A part and another one that begins where it ends. -/
def before (R S : Span) : Span := fun i j notes =>
  ∃ k first later, R i k first ∧ S k j later ∧ notes = later ++ first

/-- That many parts, each of which begins where the one before it ends. -/
def times (R : Span) : Nat → Span
  | 0 => nothing
  | n + 1 => (R.times n).before R

variable {R S T : Span}

theorem nothing_before : nothing.before R = R := by
  funext i j notes
  refine propext ⟨?_, fun h => ⟨i, [], notes, ⟨rfl, rfl⟩, h, (List.append_nil notes).symm⟩⟩
  rintro ⟨k, first, later, ⟨rfl, rfl⟩, h, rfl⟩
  rwa [List.append_nil]

theorem before_nothing : R.before nothing = R := by
  funext i j notes
  refine propext ⟨?_, fun h => ⟨j, notes, [], h, ⟨rfl, rfl⟩, rfl⟩⟩
  rintro ⟨k, first, later, h, ⟨rfl, rfl⟩, rfl⟩
  exact h

theorem before_assoc : (R.before S).before T = R.before (S.before T) := by
  funext i j notes
  refine propext ⟨?_, ?_⟩
  · rintro ⟨k, _, later, ⟨l, first, middle, hR, hS, rfl⟩, hT, rfl⟩
    exact ⟨l, first, later ++ middle, hR, ⟨k, middle, later, hS, hT, rfl⟩,
      (List.append_assoc later middle first).symm⟩
  · rintro ⟨l, first, _, hR, ⟨k, middle, later, hS, hT, rfl⟩, rfl⟩
    exact ⟨k, middle ++ first, later, ⟨l, first, middle, hR, hS, rfl⟩, hT,
      List.append_assoc later middle first⟩

theorem times_one : R.times 1 = R := nothing_before

theorem times_before_times (R : Span) (m n : Nat) : (R.times m).before (R.times n) = R.times (m + n) := by
  induction n with
  | zero => exact before_nothing
  | succ n ih => rw [times, ← before_assoc, ih, Nat.add_succ, times]

/-- A property of parts that goes over to parts side by side goes over to repetitions. -/
theorem times_induction {P : Span → Prop} (hnothing : P nothing)
    (hbefore : ∀ {R S : Span}, P R → P S → P (R.before S)) (h : P R) (n : Nat) : P (R.times n) := by
  induction n with
  | zero => exact hnothing
  | succ n ih => exact hbefore ih h

end Span

/-! ## Patterns -/

namespace Pattern

mutual

/-- What a pattern matches in a text. -/
def Matches (cs : List Char) : Pattern → Span
  | .empty => .nothing
  | .text ds => fun i j notes => ds <+: cs.drop i ∧ j = i + ds.length ∧ notes = []
  | .chars set => fun i j notes => (∃ c, cs[i]? = some c ∧ set.has c = true) ∧ j = i + 1 ∧ notes = []
  | .start => fun i j notes => i = 0 ∧ j = i ∧ notes = []
  | .stop => fun i j notes => i = cs.length ∧ j = i ∧ notes = []
  | .cat items => MatchesAll cs items
  | .alt branches => MatchesAny cs branches
  | .repeat_ _ least most item => fun i j notes =>
    ∃ n, least ≤ n ∧ (∀ m ∈ most, n ≤ m) ∧ (Matches cs item).times n i j notes
  | .group number item => fun i j notes =>
    ∃ inner, Matches cs item i j inner ∧ notes = (2 * number + 1, j) :: (inner ++ [(2 * number, i)])

/-- What patterns side by side match. -/
def MatchesAll (cs : List Char) : List Pattern → Span
  | [] => .nothing
  | p :: rest => (Matches cs p).before (MatchesAll cs rest)

/-- What alternatives match. -/
def MatchesAny (cs : List Char) : List Pattern → Span
  | [] => fun _ _ _ => False
  | p :: rest => fun i j notes => Matches cs p i j notes ∨ MatchesAny cs rest i j notes

end

/-! ## Nodes within a pattern -/

mutual

/-- The nodes within a pattern, itself first. -/
def within : Pattern → List Pattern
  | cat items => cat items :: withinAll items
  | alt branches => alt branches :: withinAll branches
  | repeat_ greedy least most item => repeat_ greedy least most item :: within item
  | group number item => group number item :: within item
  | p => [p]

/-- The nodes within patterns. -/
def withinAll : List Pattern → List Pattern
  | [] => []
  | p :: rest => within p ++ withinAll rest

end

variable {cs : List Char} {p : Pattern} {i j : Nat} {notes : Slots}

/-- A property of parts of a text that goes over to parts side by side, and to a group from a body that `G`
allows for its number. -/
structure Closed (cs : List Char) (G : Nat → Pattern → Prop) (Q : Span) : Prop where
  nothing : ∀ i, Q i i []
  text : ∀ i ds, ds <+: cs.drop i → Q i (i + ds.length) []
  before : ∀ {i k j first later}, Q i k first → Q k j later → Q i j (later ++ first)
  group : ∀ {number item i j inner}, G number item → Matches cs item i j inner → Q i j inner →
    Q i j ((2 * number + 1, j) :: (inner ++ [(2 * number, i)]))

mutual

/-- Such a property holds of every part that a pattern matches. -/
theorem Matches.of_closed {G : Nat → Pattern → Prop} {Q : Span} (hQ : Closed cs G Q) (p : Pattern)
    (hG : ∀ number item, .group number item ∈ p.within → G number item)
    {i j : Nat} {notes : Slots} (h : Matches cs p i j notes) : Q i j notes := by
  cases p with
  | empty =>
    obtain ⟨rfl, rfl⟩ := h
    exact hQ.nothing _
  | text ds =>
    obtain ⟨hds, rfl, rfl⟩ := h
    exact hQ.text i ds hds
  | chars set =>
    obtain ⟨⟨c, hc, -⟩, rfl, rfl⟩ := h
    obtain ⟨hlt, rfl⟩ := List.getElem?_eq_some_iff.1 hc
    refine hQ.text i [cs[i]] ?_
    rw [List.drop_eq_getElem_cons hlt]
    exact ⟨cs.drop (i + 1), rfl⟩
  | start | stop =>
    obtain ⟨-, rfl, rfl⟩ := h
    exact hQ.nothing _
  | cat items =>
    rw [Matches] at h
    exact MatchesAll.of_closed hQ items
      (fun number item hmem => hG number item (List.mem_cons_of_mem _ hmem)) h
  | alt branches =>
    rw [Matches] at h
    exact MatchesAny.of_closed hQ branches
      (fun number item hmem => hG number item (List.mem_cons_of_mem _ hmem)) h
  | repeat_ greedy least most item =>
    obtain ⟨n, -, -, h⟩ := h
    have hitem : ∀ {i j notes}, Matches cs item i j notes → Q i j notes :=
      Matches.of_closed hQ item fun number item hmem => hG number item (List.mem_cons_of_mem _ hmem)
    refine Span.times_induction (P := fun R => ∀ {i j notes}, R i j notes → Q i j notes)
      ?_ ?_ hitem n h
    · rintro _ _ _ ⟨rfl, rfl⟩
      exact hQ.nothing _
    · rintro R S hR hS _ _ _ ⟨k, first, later, h₁, h₂, rfl⟩
      exact hQ.before (hR h₁) (hS h₂)
  | group number item =>
    obtain ⟨inner, h, rfl⟩ := h
    exact hQ.group (hG number item List.mem_cons_self) h
      (Matches.of_closed hQ item
        (fun number item hmem => hG number item (List.mem_cons_of_mem _ hmem)) h)

theorem MatchesAll.of_closed {G : Nat → Pattern → Prop} {Q : Span} (hQ : Closed cs G Q)
    (ps : List Pattern) (hG : ∀ number item, .group number item ∈ withinAll ps → G number item)
    {i j : Nat} {notes : Slots} (h : MatchesAll cs ps i j notes) : Q i j notes := by
  cases ps with
  | nil =>
    obtain ⟨rfl, rfl⟩ := h
    exact hQ.nothing _
  | cons p rest =>
    obtain ⟨k, first, later, h₁, h₂, rfl⟩ := h
    exact hQ.before
      (Matches.of_closed hQ p (fun number item hmem => hG number item (List.mem_append_left _ hmem)) h₁)
      (MatchesAll.of_closed hQ rest
        (fun number item hmem => hG number item (List.mem_append_right _ hmem)) h₂)

theorem MatchesAny.of_closed {G : Nat → Pattern → Prop} {Q : Span} (hQ : Closed cs G Q)
    (ps : List Pattern) (hG : ∀ number item, .group number item ∈ withinAll ps → G number item)
    {i j : Nat} {notes : Slots} (h : MatchesAny cs ps i j notes) : Q i j notes := by
  cases ps with
  | nil => exact absurd h id
  | cons p rest =>
    rcases h with h | h
    · exact Matches.of_closed hQ p
        (fun number item hmem => hG number item (List.mem_append_left _ hmem)) h
    · exact MatchesAny.of_closed hQ rest
        (fun number item hmem => hG number item (List.mem_append_right _ hmem)) h

end

/-- A match does not go back. -/
theorem Matches.le (h : Matches cs p i j notes) : i ≤ j := by
  refine Matches.of_closed (G := fun _ _ => True) (Q := fun i j _ => i ≤ j) ?_ p (fun _ _ _ => trivial) h
  constructor
  case nothing => exact Nat.le_refl
  case text => exact fun i ds _ => Nat.le_add_right i ds.length
  case before => exact Nat.le_trans
  case group => exact fun _ _ hinner => hinner

/-- A match that begins inside the text ends there. -/
theorem Matches.le_length (h : Matches cs p i j notes) (hi : i ≤ cs.length) : j ≤ cs.length := by
  refine Matches.of_closed (G := fun _ _ => True)
    (Q := fun i j _ => i ≤ cs.length → j ≤ cs.length) ?_ p (fun _ _ _ => trivial) h hi
  constructor
  case nothing => exact fun _ hi => hi
  case text =>
    intro i ds hds hi
    have hlength := hds.length_le
    rw [List.length_drop] at hlength
    omega
  case before => exact fun hfirst hlater hi => hlater (hfirst hi)
  case group => exact fun _ _ hinner => hinner

/-! ## Lengths and anchors -/

mutual

/-- A match is no longer than the pattern allows. -/
theorem Matches.le_add_of_maxLength (p : Pattern) {m : Nat} (hm : p.maxLength = some m) {i j : Nat}
    {notes : Slots} (h : Matches cs p i j notes) : j ≤ i + m := by
  cases p with
  | empty =>
    obtain ⟨rfl, -⟩ := h
    exact Nat.le_add_right _ _
  | text ds =>
    obtain ⟨-, rfl, -⟩ := h
    cases hm
    exact Nat.le_refl _
  | chars set =>
    obtain ⟨-, rfl, -⟩ := h
    rw [maxLength] at hm
    split at hm
    · cases hm
    · cases hm
      exact Nat.le_refl _
  | start | stop =>
    obtain ⟨-, rfl, -⟩ := h
    exact Nat.le_add_right _ _
  | cat items => exact MatchesAll.le_add_of_maxLength items hm h
  | alt branches => exact MatchesAny.le_add_of_maxLength branches hm h
  | repeat_ greedy least most item =>
    obtain ⟨n, -, hmost, h⟩ := h
    simp only [maxLength, Option.bind_eq_bind, Option.bind_eq_some_iff, Option.some.injEq] at hm
    obtain ⟨most, rfl, k, hk, rfl⟩ := hm
    have htimes : ∀ n {i j notes}, (Matches cs item).times n i j notes → j ≤ i + n * k := by
      intro n
      induction n with
      | zero =>
        rintro i _ _ ⟨rfl, -⟩
        exact Nat.le_add_right _ _
      | succ n ih =>
        rintro i j _ ⟨l, first, later, hfirst, hlater, -⟩
        have hl := ih hfirst
        have hj := Matches.le_add_of_maxLength item hk hlater
        rw [Nat.succ_mul]
        omega
    exact Nat.le_trans (htimes n h) (Nat.add_le_add_left (Nat.mul_le_mul_right k (hmost most rfl)) i)
  | group number item =>
    obtain ⟨inner, h, -⟩ := h
    exact Matches.le_add_of_maxLength item hm h

theorem MatchesAll.le_add_of_maxLength (ps : List Pattern) {m : Nat} (hm : maxLengthAll ps = some m)
    {i j : Nat} {notes : Slots} (h : MatchesAll cs ps i j notes) : j ≤ i + m := by
  cases ps with
  | nil =>
    obtain ⟨rfl, -⟩ := h
    exact Nat.le_add_right _ _
  | cons p rest =>
    obtain ⟨k, first, later, hfirst, hlater, -⟩ := h
    simp only [maxLengthAll, Option.bind_eq_bind, Option.bind_eq_some_iff, Option.some.injEq] at hm
    obtain ⟨m, hp, n, hrest, rfl⟩ := hm
    have hk := Matches.le_add_of_maxLength p hp hfirst
    have hj := MatchesAll.le_add_of_maxLength rest hrest hlater
    omega

theorem MatchesAny.le_add_of_maxLength (ps : List Pattern) {m : Nat} (hm : maxLengthAny ps = some m)
    {i j : Nat} {notes : Slots} (h : MatchesAny cs ps i j notes) : j ≤ i + m := by
  cases ps with
  | nil => exact absurd h id
  | cons p rest =>
    cases rest with
    | nil => exact Matches.le_add_of_maxLength p hm (h.resolve_right id)
    | cons q rest =>
      simp only [maxLengthAny, Option.bind_eq_bind, Option.bind_eq_some_iff, Option.some.injEq] at hm
      obtain ⟨m, hp, n, hrest, rfl⟩ := hm
      rcases h with h | h
      · exact Nat.le_trans (Matches.le_add_of_maxLength p hp h) (Nat.add_le_add_left (Nat.le_max_left _ _) i)
      · exact Nat.le_trans (MatchesAny.le_add_of_maxLength (q :: rest) hrest h)
          (Nat.add_le_add_left (Nat.le_max_right _ _) i)

end

/-- A pattern that matches the empty text only ends where it begins. -/
theorem Matches.eq_of_isVoid (hp : p.isVoid = true) (h : Matches cs p i j notes) : j = i :=
  Nat.le_antisymm (Matches.le_add_of_maxLength p (eq_of_beq hp) h) h.le

mutual

theorem Matches.eq_zero_of_isAtStart (p : Pattern) (hp : p.isAtStart = true) {i j : Nat} {notes : Slots}
    (h : Matches cs p i j notes) : i = 0 := by
  cases p with
  | empty | text | chars | stop => cases hp
  | start => exact h.1
  | cat items => exact MatchesAll.eq_zero_of_anyAtStart items hp h
  | alt branches => exact MatchesAny.eq_zero_of_allAtStart branches hp h
  | repeat_ greedy least most item =>
    obtain ⟨n, hn, -, h⟩ := h
    rw [isAtStart, Bool.and_eq_true, decide_eq_true_eq] at hp
    obtain ⟨n, rfl⟩ := Nat.exists_eq_add_of_lt (Nat.lt_of_lt_of_le hp.1 hn)
    rw [Nat.zero_add, ← Nat.add_comm 1, ← Span.times_before_times, Span.times_one] at h
    obtain ⟨k, first, later, hfirst, -⟩ := h
    exact Matches.eq_zero_of_isAtStart item hp.2 hfirst
  | group number item =>
    obtain ⟨inner, h, -⟩ := h
    exact Matches.eq_zero_of_isAtStart item hp h

theorem MatchesAll.eq_zero_of_anyAtStart (ps : List Pattern) (hps : anyAtStart ps = true) {i j : Nat}
    {notes : Slots} (h : MatchesAll cs ps i j notes) : i = 0 := by
  cases ps with
  | nil => cases hps
  | cons p rest =>
    obtain ⟨k, first, later, hfirst, hlater, -⟩ := h
    rw [anyAtStart, Bool.or_eq_true, Bool.and_eq_true] at hps
    rcases hps with hp | ⟨hvoid, hrest⟩
    · exact Matches.eq_zero_of_isAtStart p hp hfirst
    · rw [← Matches.eq_of_isVoid hvoid hfirst]
      exact MatchesAll.eq_zero_of_anyAtStart rest hrest hlater

theorem MatchesAny.eq_zero_of_allAtStart (ps : List Pattern) (hps : allAtStart ps = true) {i j : Nat}
    {notes : Slots} (h : MatchesAny cs ps i j notes) : i = 0 := by
  cases ps with
  | nil => exact absurd h id
  | cons p rest =>
    rw [allAtStart, Bool.and_eq_true] at hps
    rcases h with h | h
    · exact Matches.eq_zero_of_isAtStart p hps.1 h
    · exact MatchesAny.eq_zero_of_allAtStart rest hps.2 h

end

theorem MatchesAll.eq_of_isVoid {ps : List Pattern} (hps : ps.all isVoid = true)
    (h : MatchesAll cs ps i j notes) : j = i := by
  induction ps generalizing i notes with
  | nil => exact h.1
  | cons p rest ih =>
    obtain ⟨k, first, later, hfirst, hlater, -⟩ := h
    rw [List.all_cons, Bool.and_eq_true] at hps
    rw [ih hps.2 hlater, Matches.eq_of_isVoid hps.1 hfirst]

mutual

theorem Matches.eq_length_of_isAtStop (p : Pattern) (hp : p.isAtStop = true) {i j : Nat} {notes : Slots}
    (h : Matches cs p i j notes) : j = cs.length := by
  cases p with
  | empty | text | chars | start => cases hp
  | stop =>
    obtain ⟨hi, rfl, -⟩ := h
    exact hi
  | cat items => exact MatchesAll.eq_length_of_anyAtStop items hp h
  | alt branches => exact MatchesAny.eq_length_of_allAtStop branches hp h
  | repeat_ greedy least most item =>
    obtain ⟨n, hn, -, h⟩ := h
    rw [isAtStop, Bool.and_eq_true, decide_eq_true_eq] at hp
    obtain ⟨n, rfl⟩ := Nat.exists_eq_add_of_lt (Nat.lt_of_lt_of_le hp.1 hn)
    rw [Nat.zero_add] at h
    obtain ⟨k, first, later, -, hlater, -⟩ := h
    exact Matches.eq_length_of_isAtStop item hp.2 hlater
  | group number item =>
    obtain ⟨inner, h, -⟩ := h
    exact Matches.eq_length_of_isAtStop item hp h

theorem MatchesAll.eq_length_of_anyAtStop (ps : List Pattern) (hps : anyAtStop ps = true) {i j : Nat}
    {notes : Slots} (h : MatchesAll cs ps i j notes) : j = cs.length := by
  cases ps with
  | nil => cases hps
  | cons p rest =>
    obtain ⟨k, first, later, hfirst, hlater, -⟩ := h
    rw [anyAtStop, Bool.or_eq_true, Bool.and_eq_true] at hps
    rcases hps with hrest | ⟨hp, hvoid⟩
    · exact MatchesAll.eq_length_of_anyAtStop rest hrest hlater
    · rw [MatchesAll.eq_of_isVoid hvoid hlater]
      exact Matches.eq_length_of_isAtStop p hp hfirst

theorem MatchesAny.eq_length_of_allAtStop (ps : List Pattern) (hps : allAtStop ps = true) {i j : Nat}
    {notes : Slots} (h : MatchesAny cs ps i j notes) : j = cs.length := by
  cases ps with
  | nil => exact absurd h id
  | cons p rest =>
    rw [allAtStop, Bool.and_eq_true] at hps
    rcases h with h | h
    · exact Matches.eq_length_of_isAtStop p hps.1 h
    · exact MatchesAny.eq_length_of_allAtStop rest hps.2 h

end

/-! ## Groups -/

/-- A node has branches if it is a choice, and bounds that are in order if it is a repetition. -/
def Feasible : Pattern → Prop
  | alt ps => ps ≠ []
  | repeat_ _ least most _ => ∀ m ∈ most, least ≤ m
  | _ => True

/-- The nodes within a pattern are feasible, and there is no group without a number and none within a group
of the same number. -/
structure WellFormed (p : Pattern) : Prop where
  nodes : ∀ q ∈ p.within, q.Feasible
  groups : ∀ number item, group number item ∈ p.within →
    1 ≤ number ∧ ∀ inner, group number inner ∉ item.within

theorem lookup_append {key : Nat} {later first : Slots} :
    (later ++ first).lookup key = (later.lookup key).or (first.lookup key) := by
  induction later with
  | nil => rfl
  | cons note later ih =>
    rw [List.cons_append, List.lookup_cons, List.lookup_cons]
    cases key == note.1 with
    | true => rfl
    | false => exact ih

/-- The notes of a group are those of its ends, its own ones around those of its body. -/
theorem lookup_group {key number i j : Nat} {inner : Slots} :
    List.lookup key ((2 * number + 1, j) :: (inner ++ [(2 * number, i)])) =
      if key = 2 * number + 1 then some j
      else (inner.lookup key).or (if key = 2 * number then some i else none) := by
  rw [List.lookup_cons, lookup_append, List.lookup_cons, List.lookup_nil]
  by_cases hlast : key = 2 * number + 1
  · simp [hlast]
  · have hne : (key == 2 * number + 1) = false := beq_false_of_ne hlast
    by_cases hfirst : key = 2 * number
    · subst hfirst
      simp [hne]
    · have hne' : (key == 2 * number) = false := beq_false_of_ne hfirst
      simp [hlast, hne, hfirst, hne']

/-- A group that is not there is not noted. -/
theorem Matches.lookup_eq_none {n : Nat} (h : Matches cs p i j notes)
    (hn : ∀ item, group n item ∉ p.within) :
    notes.lookup (2 * n) = none ∧ notes.lookup (2 * n + 1) = none := by
  refine Matches.of_closed (G := fun number _ => number ≠ n)
    (Q := fun _ _ notes => notes.lookup (2 * n) = none ∧ notes.lookup (2 * n + 1) = none) ?_ p ?_ h
  · constructor
    case nothing => exact fun _ => ⟨rfl, rfl⟩
    case text => exact fun _ _ _ => ⟨rfl, rfl⟩
    case before =>
      rintro _ _ _ first later ⟨hfirst, hfirst'⟩ ⟨hlater, hlater'⟩
      simp [lookup_append, hfirst, hfirst', hlater, hlater']
    case group =>
      rintro number _ _ _ inner hne - ⟨hinner, hinner'⟩
      rw [lookup_group, lookup_group, hinner, hinner', if_neg (by omega), if_neg (by omega),
        if_neg (by omega), if_neg (by omega)]
      exact ⟨rfl, rfl⟩
  · rintro number item hmem rfl
    exact hn item hmem

/-- A group of the pattern takes part in a match from `i` to `j`: its body matches the part from `first` to
`last` of it, and these are noted last as the ends of the group. -/
structure TakesPart (cs : List Char) (p : Pattern) (number i j : Nat) (notes : Slots) (first last : Nat) :
    Prop where
  body : ∃ item inner, group number item ∈ p.within ∧ Matches cs item first last inner
  begins : i ≤ first
  ends : last ≤ j
  notes_first : notes.lookup (2 * number) = some first
  notes_last : notes.lookup (2 * number + 1) = some last

/-- A group takes part in a match, or its ends are not noted. -/
theorem Matches.group_cases (h : Matches cs p i j notes) (hp : p.WellFormed) (n : Nat) :
    (notes.lookup (2 * n) = none ∧ notes.lookup (2 * n + 1) = none) ∨
      ∃ first last, TakesPart cs p n i j notes first last := by
  refine And.right (Matches.of_closed
    (G := fun number item => group number item ∈ p.within ∧ ∀ inner, group number inner ∉ item.within)
    (Q := fun i j notes => i ≤ j ∧ ((notes.lookup (2 * n) = none ∧ notes.lookup (2 * n + 1) = none) ∨
      ∃ first last, TakesPart cs p n i j notes first last)) ?_ p
    (fun number item hmem => ⟨hmem, (hp.groups number item hmem).2⟩) h)
  constructor
  case nothing => exact fun i => ⟨Nat.le_refl i, .inl ⟨rfl, rfl⟩⟩
  case text => exact fun i ds _ => ⟨Nat.le_add_right i ds.length, .inl ⟨rfl, rfl⟩⟩
  case before =>
    -- the part that comes later is noted last
    rintro i k j first later ⟨hik, hfirst⟩ ⟨hkj, hlater⟩
    refine ⟨Nat.le_trans hik hkj, ?_⟩
    rcases hlater with ⟨hnone, hnone'⟩ | ⟨a, b, hpart⟩
    · rcases hfirst with hfirst | ⟨a, b, hpart⟩
      · exact .inl (by simpa only [lookup_append, hnone, hnone', Option.none_or] using hfirst)
      · refine .inr ⟨a, b, hpart.body, hpart.begins, Nat.le_trans hpart.ends hkj, ?_, ?_⟩
        · rw [lookup_append, hnone, Option.none_or, hpart.notes_first]
        · rw [lookup_append, hnone', Option.none_or, hpart.notes_last]
    · refine .inr ⟨a, b, hpart.body, Nat.le_trans hik hpart.begins, hpart.ends, ?_, ?_⟩
      · rw [lookup_append, hpart.notes_first, Option.some_or]
      · rw [lookup_append, hpart.notes_last, Option.some_or]
  case group =>
    rintro number item i j inner ⟨hmem, hinner⟩ hitem ⟨hij, hcases⟩
    refine ⟨hij, ?_⟩
    by_cases heq : number = n
    · subst heq
      obtain ⟨hnone, -⟩ := hitem.lookup_eq_none hinner
      refine .inr ⟨i, j, ⟨item, inner, hmem, hitem⟩, Nat.le_refl i, Nat.le_refl j, ?_, ?_⟩
      · rw [lookup_group, if_neg (by omega), hnone, if_pos rfl, Option.none_or]
      · rw [lookup_group, if_pos rfl]
    · have hlookup : ∀ key, key = 2 * n ∨ key = 2 * n + 1 →
          List.lookup key ((2 * number + 1, j) :: (inner ++ [(2 * number, i)])) = inner.lookup key := by
        intro key hkey
        rw [lookup_group, if_neg (by omega), if_neg (by omega), Option.or_none]
      refine hcases.imp ?_ ?_
      · rintro ⟨hnone, hnone'⟩
        exact ⟨(hlookup _ (.inl rfl)).trans hnone, (hlookup _ (.inr rfl)).trans hnone'⟩
      · rintro ⟨a, b, hpart⟩
        exact ⟨a, b, hpart.body, hpart.begins, hpart.ends,
          (hlookup _ (.inl rfl)).trans hpart.notes_first, (hlookup _ (.inr rfl)).trans hpart.notes_last⟩

/-- Neither end of the whole match is noted within it. -/
theorem Matches.lookup_ends (h : Matches cs p i j notes) (hp : p.WellFormed) :
    notes.lookup 0 = none ∧ notes.lookup 1 = none :=
  h.lookup_eq_none (n := 0) fun item hmem => absurd (hp.groups 0 item hmem).1 (Nat.not_succ_le_zero 0)

end Pattern

end Invocation
