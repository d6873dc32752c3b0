/-
  Ways through the logic tree.

  A path leads through nodes in order, from one progress to another; at each
  group it takes one of the choices that the group leaves open.

  * `Search.LeafStep` lists what a leaf can do: take a run of tokens, take
    the occurrences of its keyword, or stay without value;
  * `Search.Takes`, `Search.TakesKeyword`: which tokens or occurrences stand
    for a value of an argument;
  * `Search.Path` are the paths, and `Search.path_of_mem_outcomes`: every
    outcome of a node is the end of a path through it.
-/
import Invocation.Proofs.Matching.Exploration
import Mathlib.Data.List.Forall2

namespace Invocation

open Invocation.Matching

namespace Search

variable (s : Search)

/-! ## Values and their tokens -/

/-- The value of a positional argument stands for a run of tokens, in front of the rest of the
tokens: one token; or as many as the shape says, of one type; or one or more, where the next token,
if there is one, is not of the type. -/
def Takes (a : Argument) (value : Value) (run rest : List String) : Prop :=
  match a.shape with
  | .scalar => ∃ token, run = [token] ∧ s.cast a.type token = some value
  | .fixed count =>
    run.length = count ∧ ∃ items, value = .list items ∧
      List.Forall₂ (fun token item => s.cast (s.itemType a.type run.head?) token = some item) run items
  | .greedy =>
    run ≠ [] ∧ (∀ token ∈ rest.head?, s.cast a.type token = none) ∧ ∃ items, value = .list items ∧
      List.Forall₂ (fun token item => s.cast a.type token = some item) run items

/-- The value of a keyword argument stands for its occurrences: for the only one; or for each in its
order, of which there are as many as the shape says, if it says so. -/
def TakesKeyword (a : Argument) (value : Value) : List (Option String) → Prop
  | [] => False
  | first :: rest =>
    match a.shape with
    | .scalar => rest = [] ∧ s.keywordCast a.type first = some value
    | .fixed count =>
      (first :: rest).length = count ∧ ∃ items, value = .list items ∧
        List.Forall₂ (fun text item => s.keywordCast (s.itemType a.type first) text = some item)
          (first :: rest) items
    | .greedy =>
      ∃ items, value = .list items ∧
        List.Forall₂ (fun text item => s.keywordCast a.type text = some item) (first :: rest) items

theorem mapM_eq_some_iff {α β : Type} {f : α → Option β} {xs : List α} {ys : List β} :
    xs.mapM f = some ys ↔ List.Forall₂ (fun x y => f x = some y) xs ys := by
  induction xs generalizing ys with
  | nil => simp [eq_comm]
  | cons x xs ih =>
    simp only [List.mapM_cons, Option.bind_eq_bind, Option.bind_eq_some_iff, Option.pure_def,
      Option.some.injEq, List.forall₂_cons_left_iff, ih]
    constructor
    · rintro ⟨y, hy, ys, hys, rfl⟩
      exact ⟨y, ys, hy, hys, rfl⟩
    · rintro ⟨y, ys, hy, hys, rfl⟩
      exact ⟨y, hy, ys, hys, rfl⟩

theorem map_list_eq_some {α : Type} {f : α → Option Value} {xs : List α} {value : Value} :
    (xs.mapM f).map Value.list = some value ↔
      ∃ items, value = .list items ∧ List.Forall₂ (fun x item => f x = some item) xs items := by
  simp only [Option.map_eq_some_iff, mapM_eq_some_iff]
  constructor
  · rintro ⟨items, hitems, rfl⟩
    exact ⟨items, rfl, hitems⟩
  · rintro ⟨items, rfl, hitems⟩
    exact ⟨items, hitems, rfl⟩

theorem castAll_eq_mapM (type : ArgumentType) (tokens : List String) :
    s.castAll type tokens = tokens.mapM (s.cast type) := by
  induction tokens with
  | nil => rfl
  | cons token rest ih => rw [castAll, ih, List.mapM_cons]; rfl

theorem keywordCastAll_eq_mapM (type : ArgumentType) (texts : List (Option String)) :
    s.keywordCastAll type texts = texts.mapM (s.keywordCast type) := by
  induction texts with
  | nil => rfl
  | cons text rest ih => rw [keywordCastAll, ih, List.mapM_cons]; rfl

/-- Casting from the front stops at the first token that is not of the type. -/
theorem castWhile_spec (type : ArgumentType) (tokens : List String) :
    List.Forall₂ (fun token item => s.cast type token = some item)
        (tokens.take (s.castWhile type tokens).length) (s.castWhile type tokens) ∧
      ∀ token ∈ (tokens.drop (s.castWhile type tokens).length).head?, s.cast type token = none := by
  induction tokens with
  | nil => exact ⟨.nil, by simp [castWhile]⟩
  | cons token rest ih =>
    rw [castWhile]
    split
    · next item hi => exact ⟨.cons hi ih.1, ih.2⟩
    · next hi => exact ⟨.nil, by simpa using hi⟩

/-- A bound positional argument takes as many tokens from the front as its value stands for. -/
theorem takes_of_positionalValue {a : Argument} {cursor used : Nat} {value : Value}
    (h : s.positionalValue a.type a.shape cursor = some (some value, used)) :
    used ≤ (s.positional.drop cursor).length ∧
      s.Takes a value ((s.positional.drop cursor).take used) (s.positional.drop (cursor + used)) := by
  rw [← List.drop_drop]
  simp only [positionalValue] at h
  unfold Takes
  generalize s.positional.drop cursor = tokens at h
  cases hshape : a.shape with
  | scalar =>
    rw [hshape] at h
    cases tokens with
    | nil => cases h
    | cons token rest =>
      simp only [List.head?_cons, Option.bind_eq_bind, Option.bind_some, Option.bind_eq_some_iff,
        Option.some.injEq, Prod.mk.injEq] at h
      obtain ⟨item, hitem, rfl, rfl⟩ := h
      exact ⟨by simp, token, rfl, hitem⟩
  | fixed count =>
    simp only [hshape, castAll_eq_mapM] at h
    split at h
    · cases h
    next hlength =>
    simp only [Option.map_eq_some_iff, mapM_eq_some_iff, Prod.mk.injEq, Option.some.injEq] at h
    obtain ⟨items, hitems, rfl, rfl⟩ := h
    have hlength := Nat.le_of_not_lt hlength
    refine ⟨hlength, List.length_take_of_le hlength, items, rfl, ?_⟩
    cases count with
    | zero => cases hitems; exact .nil
    | succ count =>
      cases tokens with
      | nil => exact absurd hlength (Nat.not_succ_le_zero count)
      | cons token rest => exact hitems
  | greedy =>
    obtain ⟨hitems, hnext⟩ := s.castWhile_spec a.type tokens
    simp only [hshape, Option.some.injEq, Prod.mk.injEq] at h
    obtain ⟨hvalue, rfl⟩ := h
    split at hvalue
    · cases hvalue
    next hne =>
    cases hvalue
    have hlength := hitems.length_eq
    rw [List.length_take] at hlength
    refine ⟨by omega, fun hrun => hne ?_, hnext, _, rfl, hitems⟩
    rw [hrun, List.forall₂_nil_left_iff] at hitems
    rw [hitems, List.isEmpty_nil]

/-- A positional argument without value is a list that has got no token. -/
theorem greedy_of_positionalValue {a : Argument} {cursor used : Nat}
    (h : s.positionalValue a.type a.shape cursor = some (none, used)) :
    a.shape = .greedy ∧ used = 0 := by
  simp only [positionalValue] at h
  cases hshape : a.shape with
  | scalar => simp [hshape, Option.bind_eq_some_iff] at h
  | fixed count =>
    simp only [hshape] at h
    split at h
    · cases h
    · simp at h
  | greedy =>
    simp only [hshape, Option.some.injEq, Prod.mk.injEq] at h
    obtain ⟨hvalue, rfl⟩ := h
    split at hvalue
    · next hempty => exact ⟨rfl, List.length_eq_zero_iff.2 (List.isEmpty_iff.1 hempty)⟩
    · cases hvalue

theorem keywordValue_eq_some {a : Argument} {value : Value} {occurrences : List (Option String)} :
    s.keywordValue a.type a.shape occurrences = some value ↔ s.TakesKeyword a value occurrences := by
  cases occurrences with
  | nil => simp [keywordValue, TakesKeyword]
  | cons first rest =>
    simp only [keywordValue, TakesKeyword]
    cases hshape : a.shape with
    | scalar => simp only [List.isEmpty_iff, Option.ite_none_right_eq_some]
    | fixed count =>
      simp only [keywordCastAll_eq_mapM, Option.ite_none_right_eq_some, map_list_eq_some]
    | greedy => simp only [keywordCastAll_eq_mapM, map_list_eq_some]

/-! ## What a leaf can do -/

/-- What a leaf can do: the progress before, the progress after, and whether a value is bound. -/
inductive LeafStep (i : Nat) (p : Progress) : Bool → Progress → Bool → Prop
  /-- A list stays without value, which only an optional group allows. -/
  | absent {a} (ha : s.signature.arguments[i]? = some a) (hk : a.kind = .positional)
      (hs : a.shape = .greedy) : LeafStep i p true p false
  /-- A positional argument takes a run of tokens. -/
  | positional {a value used optional} (ha : s.signature.arguments[i]? = some a)
      (hk : a.kind = .positional) (hu : used ≤ (s.positional.drop p.cursor).length)
      (ht : s.Takes a value ((s.positional.drop p.cursor).take used)
        (s.positional.drop (p.cursor + used))) :
      LeafStep i p optional
        { p with cursor := p.cursor + used, values := p.values ++ [(i, value)] } true
  /-- A keyword argument takes its occurrences. -/
  | keyword {a value optional} (ha : s.signature.arguments[i]? = some a) (hk : a.kind = .keyword)
      (ht : s.TakesKeyword a value (s.keywords.occurrences i)) :
      LeafStep i p optional
        { p with values := p.values ++ [(i, value)], keywords := p.keywords + 1 } true

theorem leafStep_of_leaf {i : Nat} {p q : Progress} {o b : Bool} (h : s.leaf i p o = some (q, b)) :
    s.LeafStep i p o q b := by
  unfold leaf at h
  simp only [Option.bind_eq_bind, Option.bind_eq_some_iff] at h
  obtain ⟨a, ha, h⟩ := h
  split at h
  · next hk =>
    simp only [Option.bind_eq_some_iff] at h
    obtain ⟨⟨value, used⟩, hvalue, h⟩ := h
    cases value with
    | some value =>
      cases h
      obtain ⟨hu, ht⟩ := s.takes_of_positionalValue hvalue
      exact .positional ha hk hu ht
    | none =>
      obtain ⟨hs, rfl⟩ := s.greedy_of_positionalValue hvalue
      simp only [Option.ite_none_right_eq_some] at h
      obtain ⟨rfl, h⟩ := h
      cases h
      exact .absent ha hk hs
  · next hk =>
    simp only [Option.bind_eq_some_iff] at h
    obtain ⟨value, hvalue, h⟩ := h
    cases h
    exact .keyword ha hk (s.keywordValue_eq_some.1 hvalue)

/-! ## Paths -/

/-- A path through nodes in order, inside an optional group or not, from one progress to another. An
optional group may always be left out here. -/
inductive Path : List Node → Bool → Progress → Progress → Prop
  | nil {o p} : Path [] o p p
  | leaf {i ns o p q r b} (h : s.LeafStep i p o q b) (rest : Path ns o q r) :
      Path (.leaf i :: ns) o p r
  | absent {c ms ns o p r} (rest : Path ns o p r) : Path (.group c false ms :: ns) o p r
  | and {required ms ns o p q r} (body : Path ms (o || !required) p q) (rest : Path ns o q r) :
      Path (.group .and required ms :: ns) o p r
  | or {required chosen ms ns o p q r} (hc : chosen ∈ choices ms)
      (body : Path chosen (o || !required) p q) (rest : Path ns o q r) :
      Path (.group .or required ms :: ns) o p r
  | xor {required m ms ns o p q r} (hm : m ∈ ms) (body : Path [m] (o || !required) p q)
      (rest : Path ns o q r) : Path (.group .xor required ms :: ns) o p r

variable {s}

theorem Path.append {ns ms : List Node} {o : Bool} {p q r : Progress} (h : s.Path ns o p q)
    (h' : s.Path ms o q r) : s.Path (ns ++ ms) o p r := by
  induction h with
  | nil => exact h'
  | leaf h _ ih => exact .leaf h (ih h')
  | absent _ ih => exact .absent (ih h')
  | and body _ _ ih => exact .and body (ih h')
  | or hc body _ _ ih => exact .or hc body (ih h')
  | xor hm body _ _ ih => exact .xor hm body (ih h')

theorem path_of_mem_thread {ns : List Node} {o : Bool} {p q : Progress}
    (ih : ∀ n ∈ ns, ∀ p q, q ∈ s.outcomes n p o → s.Path [n] o p q)
    (h : q ∈ Enumeration.thread (ns.map s.outcomes) p o) : s.Path ns o p q := by
  induction ns generalizing p with
  | nil =>
    rw [List.map_nil, Enumeration.thread, List.mem_singleton] at h
    rw [h]
    exact .nil
  | cons n ns ihns =>
    rw [List.map_cons, Enumeration.thread, List.mem_flatMap] at h
    obtain ⟨r, hr, h⟩ := h
    exact (ih n List.mem_cons_self p r hr).append
      (ihns (fun m hm => ih m (List.mem_cons_of_mem n hm)) h)

theorem path_of_mem_body {c : Combinator} {required : Bool} {ns : List Node} {o : Bool}
    {p q : Progress}
    (ih : ∀ n ∈ ns, ∀ p q, q ∈ s.outcomes n p (o || !required) → s.Path [n] (o || !required) p q)
    (h : q ∈ Enumeration.body c (ns.map s.outcomes) p (o || !required)) :
    s.Path [.group c required ns] o p q := by
  cases c with
  | and => exact .and (path_of_mem_thread ih h) .nil
  | or =>
    simp only [Enumeration.body, choices_map, List.flatMap_map, List.mem_flatMap] at h
    obtain ⟨chosen, hc, h⟩ := h
    have hsub := (mem_choices.1 hc).1
    exact .or hc (path_of_mem_thread (fun n hn => ih n (hsub.mem hn)) h) .nil
  | xor =>
    simp only [Enumeration.body, List.flatMap_map, List.mem_flatMap] at h
    obtain ⟨n, hn, h⟩ := h
    exact .xor hn (ih n hn p q h) .nil

/-- Every outcome of a node is the end of a path through it. -/
theorem path_of_mem_outcomes {n : Node} {o : Bool} {p q : Progress} (h : q ∈ s.outcomes n p o) :
    s.Path [n] o p q := by
  induction n using Node.treeInduction generalizing o p q with
  | leaf i =>
    simp only [outcomes, Option.mem_toList, Option.map_eq_some_iff] at h
    obtain ⟨⟨r, b⟩, h, rfl⟩ := h
    exact .leaf (s.leafStep_of_leaf h) .nil
  | group c required ns ih =>
    have ih' : ∀ n ∈ ns, ∀ p q, q ∈ s.outcomes n p (o || !required) →
        s.Path [n] (o || !required) p q := fun n hn p q => ih n hn
    simp only [outcomes, eachOutcomes_eq_map] at h
    cases required with
    | true => exact path_of_mem_body ih' (by simpa using h)
    | false =>
      simp only [Bool.false_eq_true, if_false] at h
      split at h
      · exact path_of_mem_body ih' (by simpa using h)
      · rw [List.mem_singleton] at h
        rw [h]
        exact .absent .nil

/-- A full match is the end of a path through the root that uses the whole input. -/
theorem path_of_solve? {values : List (Nat × Value)} (h : s.solve? = some values) :
    s.keywords.stray = [] ∧ ∃ q, q.values = values ∧ s.isComplete q = true ∧
      s.Path [s.signature.root.toNode] false {} q := by
  rw [solve?_eq_find?, Option.ite_none_right_eq_some, List.isEmpty_iff, Option.map_eq_some_iff] at h
  obtain ⟨hstray, q, hq, hvalues⟩ := h
  exact ⟨hstray, q, hvalues, List.find?_some hq, path_of_mem_outcomes (List.mem_of_find?_eq_some hq)⟩

end Search

end Invocation
