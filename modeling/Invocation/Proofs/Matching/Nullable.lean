/-
  Calls without tokens.

  Without a token nothing can be bound. An optional group is passed over then,
  also where a list in it stays empty when the group is tried on its own.

  * `Node.isNullable`: whether nothing at all matches a node;
  * `Search.WithoutTokens`: a search for an input without tokens;
    `WithoutTokens.begins_eq_false`: no optional group begins in it;
  * `WithoutTokens.mem_outcomes`: a node is matched if it is nullable, and then
    in no other state than the one before it;
  * `solve?_of_isEmpty`: a signature matches an input without tokens if its root
    is nullable, and binds nothing; so calls without tokens bind nothing.
-/
import Invocation.Proofs.Dispatcher.Overloads
import Invocation.Proofs.Matching.Absence
import Invocation.Proofs.Matching.Greedy

namespace Invocation

open Invocation.Matching

/-! ## Nullable nodes -/

namespace Node

mutual

/-- Whether nothing at all matches a node. An optional group may be absent; all children of a required
`and` group must be nullable, and one child of a required choice. -/
def isNullable : Node → Bool
  | leaf _ => false
  | group combinator required children =>
    !required ||
      match combinator with
      | .and => allNullable children
      | .or | .xor => anyNullable children

/-- Whether all nodes are nullable. -/
def allNullable : List Node → Bool
  | [] => true
  | n :: rest => isNullable n && allNullable rest

/-- Whether one of the nodes is nullable. -/
def anyNullable : List Node → Bool
  | [] => false
  | n :: rest => isNullable n || anyNullable rest

end

theorem allNullable_iff {ns : List Node} : allNullable ns = true ↔ ∀ n ∈ ns, n.isNullable = true := by
  induction ns with
  | nil => simp [allNullable]
  | cons n ns ih => simp [allNullable, ih]

theorem anyNullable_iff {ns : List Node} : anyNullable ns = true ↔ ∃ n ∈ ns, n.isNullable = true := by
  induction ns with
  | nil => simp [anyNullable]
  | cons n ns ih => simp [anyNullable, ih]

@[simp] theorem isNullable_leaf (i : Nat) : (leaf i).isNullable = false := by rw [isNullable]

@[simp] theorem isNullable_optional (c : Combinator) (ns : List Node) :
    (group c false ns).isNullable = true := by cases c <;> rfl

theorem isNullable_required_iff {c : Combinator} {ns : List Node} :
    (group c true ns).isNullable = true ↔
      match c with
      | .and => ∀ n ∈ ns, n.isNullable = true
      | .or | .xor => ∃ n ∈ ns, n.isNullable = true := by
  cases c with
  | and => exact allNullable_iff
  | or => exact anyNullable_iff
  | xor => exact anyNullable_iff

end Node

/-! ## Searches without tokens -/

namespace Search

/-- A search for an input without tokens, under a signature whose lists of fixed length have items. -/
structure WithoutTokens (s : Search) : Prop where
  positional : s.positional = []
  occurrences : ∀ i, s.keywords.occurrences i = []
  sizes : ∀ a ∈ s.signature.arguments, ∀ count, a.shape = .fixed count → 1 ≤ count

namespace WithoutTokens

variable {s : Search} {o : Bool} {p q : Progress}

/-- All that a leaf can do is to stay without value, inside an optional group. -/
theorem absent_of_leafStep (h : s.WithoutTokens) {i : Nat} {bound : Bool}
    (hstep : s.LeafStep i p o q bound) : o = true ∧ bound = false := by
  cases hstep with
  | absent => exact ⟨rfl, rfl⟩
  | positional ha _ _ ht =>
    obtain ⟨token, htoken, -⟩ := ht.exists_head (h.sizes _ (List.mem_of_getElem? ha))
    simp [h.positional] at htoken
  | keyword _ _ ht =>
    rw [h.occurrences] at ht
    cases ht

theorem not_canBind (h : s.WithoutTokens) {ns : List Node} : ¬ s.CanBind ns o p := by
  intro hcan
  induction hcan with
  | leaf hleaf => cases (h.absent_of_leafStep (s.leafStep_of_leaf hleaf)).2
  | and _ ih => exact ih
  | or _ _ ih => exact ih
  | xor _ _ ih => exact ih
  | later _ _ ih => exact ih

/-- No optional group begins, whatever lists stay empty in its trial. -/
theorem begins_eq_false (h : s.WithoutTokens) (c : Combinator) (ns : List Node) (p : Progress) :
    s.begins c ns p = false := by
  cases hbegins : s.begins c ns p with
  | false => rfl
  | true => exact absurd (canBind_of_mem_trail (binding_mem_of_begins (o := false) hbegins)) h.not_canBind

/-- Nodes in order are matched if each of them is nullable. -/
theorem mem_thread {ns : List Node}
    (ih : ∀ n ∈ ns, ∀ p q, q ∈ s.outcomes n p false ↔ n.isNullable = true ∧ q = p) :
    q ∈ Enumeration.thread (ns.map s.outcomes) p false ↔
      (∀ n ∈ ns, n.isNullable = true) ∧ q = p := by
  induction ns with
  | nil => simp [Enumeration.thread]
  | cons n ns ihns =>
    have hrest := ihns fun m hm => ih m (List.mem_cons_of_mem n hm)
    simp only [List.map_cons, Enumeration.thread, List.mem_flatMap, ih n List.mem_cons_self,
      List.forall_mem_cons]
    constructor
    · rintro ⟨r, ⟨hn, rfl⟩, hq⟩
      obtain ⟨hns, rfl⟩ := hrest.1 hq
      exact ⟨⟨hn, hns⟩, rfl⟩
    · rintro ⟨⟨hn, hns⟩, rfl⟩
      exact ⟨q, ⟨hn, rfl⟩, hrest.2 ⟨hns, rfl⟩⟩

/-- Some choice of nodes is nullable throughout if one of them is nullable. -/
theorem exists_choice_iff {ns : List Node} :
    (∃ chosen ∈ choices ns, ∀ n ∈ chosen, n.isNullable = true) ↔ ∃ n ∈ ns, n.isNullable = true := by
  constructor
  · rintro ⟨chosen, hc, hall⟩
    obtain ⟨hsub, hne⟩ := mem_choices.1 hc
    obtain ⟨n, hn⟩ := List.exists_mem_of_ne_nil chosen hne
    exact ⟨n, hsub.mem hn, hall n hn⟩
  · rintro ⟨n, hn, hnull⟩
    exact ⟨[n], mem_choices.2 ⟨List.singleton_sublist.2 hn, List.cons_ne_nil _ _⟩,
      List.forall_mem_singleton.2 hnull⟩

/-- Outside of optional groups a node is matched if it is nullable, in the state before it. -/
theorem mem_outcomes (h : s.WithoutTokens) (n : Node) :
    q ∈ s.outcomes n p false ↔ n.isNullable = true ∧ q = p := by
  induction n using Node.treeInduction generalizing p q with
  | leaf i =>
    have hnone : s.leaf i p false = none := by
      cases hleaf : s.leaf i p false with
      | none => rfl
      | some result => cases (h.absent_of_leafStep (s.leafStep_of_leaf hleaf)).1
    simp [outcomes, hnone]
  | group c required ns ih =>
    have hthread := fun ms (hms : ∀ n ∈ ms, n ∈ ns) =>
      mem_thread (q := q) (p := p) fun n hn p q => ih n (hms n hn) (p := p) (q := q)
    simp only [outcomes, eachOutcomes_eq_map]
    cases required with
    | false => simp [h.begins_eq_false]
    | true =>
      rw [if_pos rfl, Node.isNullable_required_iff]
      cases c with
      | and => exact hthread ns fun _ hn => hn
      | or =>
        simp only [Enumeration.body, choices_map, List.flatMap_map, List.mem_flatMap]
        rw [← exists_choice_iff, ← exists_and_right]
        refine exists_congr fun chosen => ?_
        rw [and_assoc]
        exact and_congr_right fun hc => hthread chosen fun n hn => (mem_choices.1 hc).1.mem hn
      | xor =>
        simp only [Enumeration.body, List.flatMap_map, List.mem_flatMap]
        rw [← exists_and_right]
        refine exists_congr fun n => ?_
        rw [and_assoc]
        exact and_congr_right fun hn => ih n hn

theorem isComplete_nil (h : s.WithoutTokens) : s.isComplete {} = true := by
  have hpresent : s.keywords.present s.signature.arguments.length = [] := by
    simp [Keywords.present, h.occurrences]
  simp [isComplete, h.positional, hpresent]

end WithoutTokens

end Search

theorem Input.eq_of_isEmpty {input : Input} (h : input.isEmpty = true) : input = {} := by
  obtain ⟨positional, keywords⟩ := input
  simpa [isEmpty] using h

theorem Search.withoutTokens_of {signature : Signature} (hs : signature.Compiled) (types : TypeRegistry)
    (settings : EffectiveSettings) : (Search.of signature {} types settings).WithoutTokens :=
  ⟨rfl, fun _ => rfl, fun _ ha _ => hs.one_le_size ha⟩

/-! ## Matches without tokens -/

theorem solve?_nil {signature : Signature} (hs : signature.Compiled) (types : TypeRegistry)
    (settings : EffectiveSettings) :
    (Search.of signature {} types settings).solve? =
      if signature.root.toNode.isNullable then some [] else none := by
  have h := Search.withoutTokens_of hs types settings
  have hfind : (Search.of signature {} types settings).solve? =
      (((Search.of signature {} types settings).outcomes signature.root.toNode {} false).find?
        (Search.of signature {} types settings).isComplete).map Progress.values :=
    Search.solve?_eq_find? _
  rw [hfind]
  split
  · next hnull =>
    have hmem := (h.mem_outcomes (p := {}) signature.root.toNode).2 ⟨hnull, rfl⟩
    obtain ⟨q, hq⟩ := Option.isSome_iff_exists.1 (List.find?_isSome.2 ⟨_, hmem, h.isComplete_nil⟩)
    obtain ⟨-, rfl⟩ := (h.mem_outcomes _).1 (List.mem_of_find?_eq_some hq)
    rw [hq, Option.map_some]
  · next hnull =>
    rw [List.find?_eq_none.2 fun q hq => absurd ((h.mem_outcomes _).1 hq).1 hnull, Option.map_none]

theorem Dispatcher.values_eq_nil {d : Dispatcher} (hd : d.Reachable) {name line : String}
    (hline : Input.ofLine line = {}) {b : Binding} (hb : (d.resolve name line).result = .ok b) :
    b.values = [] := by
  have hresolves := (resolves_of_reachable hd name line).1
  generalize d.resolve name line = outcome at hresolves hb
  cases hresolves with
  | unknown _ => cases hb
  | noMatch _ _ => cases hb
  | rejected _ _ _ _ _ _ _ => cases hb
  | @bound c before s after values table hc hs _ hvalues _ htable =>
    cases hb
    have hcompiled := (hd.sound name c hc).compiled s (hs ▸ List.mem_append_right _ List.mem_cons_self)
    rw [solve?, hline, solve?_nil hcompiled, Option.ite_none_right_eq_some] at hvalues
    cases hvalues.2
    refine List.eq_nil_iff_forall_not_mem.2 fun (name, value) hmem => ?_
    obtain ⟨index, a, hbound, -⟩ := (htable.mem_iff name value).1 hmem
    exact absurd hbound List.not_mem_nil

/-- **Without tokens nothing is bound.** On an input without tokens, a compiled signature matches exactly
if its root is nullable, and the match is empty; a call without tokens binds no argument. -/
theorem solve?_of_isEmpty :
    (∀ (signature : Signature), signature.Compiled → ∀ (input : Input), input.isEmpty = true →
      ∀ (types : TypeRegistry) (settings : EffectiveSettings),
        (Search.of signature input types settings).solve? =
          if signature.root.toNode.isNullable then some [] else none) ∧
    ∀ (d : Dispatcher), d.Reachable → ∀ name line, Token.tokenize line = [] →
      ∀ b, (d.resolve name line).result = .ok b → b.values = [] := by
  constructor
  · intro signature hs input hinput types settings
    rw [Input.eq_of_isEmpty hinput]
    exact solve?_nil hs types settings
  · intro d hd name line hline b hb
    exact Dispatcher.values_eq_nil hd (by rw [Input.ofLine, hline]; rfl) hb

/-- A list that may stay empty, and a choice of which one side may be absent. -/
def restDeclaration : Declaration where
  name := "rest"
  sources := ["(int[]) nums", "[(int[]) nums] <(str) word | [--fast]>"]

set_option maxRecDepth 2000 in
/-- On blanks alone the first signature does not match, since its list is not in an optional group, and
the second one matches with nothing. -/
theorem solve?_of_isEmpty_rest :
    ∃ d c s t b, Dispatcher.register {} restDeclaration = .ok d ∧ d.Reachable ∧
      d.command? "rest" = some c ∧ c.signatures = [s, t] ∧ (Input.ofLine " \t").isEmpty = true ∧
      s.root.toNode.isNullable = false ∧ t.root.toNode.isNullable = true ∧
      (Search.of s (Input.ofLine " \t") {} {}).solve? = none ∧
      (Search.of t (Input.ofLine " \t") {} {}).solve? = some [] ∧
      (d.resolve "rest" " \t").result = .ok b ∧ b.index = 1 ∧ b.values = [] := by
  let nums : Argument := { name := "nums", kind := .positional, type := .native .int, shape := .greedy }
  let s : Signature :=
    { source := "(int[]) nums", root := ⟨[.leaf 0], .and, true⟩, arguments := [nums], lookup := [("nums", 0)] }
  let t : Signature :=
    { source := "[(int[]) nums] <(str) word | [--fast]>"
      root :=
        ⟨[.group .and false [.leaf 0], .group .xor true [.leaf 1, .group .and false [.leaf 2]]], .and, true⟩
      arguments :=
        [nums, { name := "word", kind := .positional, type := .native .str, shape := .scalar },
          { name := "fast", kind := .keyword, type := .native .bool, shape := .scalar }]
      lookup := [("nums", 0), ("word", 1), ("fast", 2)] }
  let c : Command := ⟨"rest", [s, t], none, {}⟩
  let d : Dispatcher := { commands := [("rest", c)] }
  have hregister : Dispatcher.register {} restDeclaration = .ok d := by cbv
  have hd : d.Reachable := .command .empty hregister
  have hc : d.command? "rest" = some c := rfl
  have htokens : Token.tokenize " \t" = [] := by cbv
  have hline : (Input.ofLine " \t").isEmpty = true := by rw [Input.ofLine, htokens]; rfl
  have hcompiled := (hd.sound "rest" c hc).compiled
  have hs := solve?_of_isEmpty.1 s (hcompiled s (by simp [c])) _ hline {} {}
  have ht := solve?_of_isEmpty.1 t (hcompiled t (by simp [c])) _ hline {} {}
  have hresolve : (d.resolve "rest" " \t").result = .ok ⟨"rest", 1, t.source, []⟩ := by
    have hofLine : Input.ofLine " \t" = {} := Input.eq_of_isEmpty hline
    simp only [Dispatcher.resolve, hc, Dispatcher.resolveWith, hofLine]
    rfl
  exact ⟨d, c, s, t, _, hregister, hd, hc, rfl, hline, rfl, rfl, hs, ht, hresolve, rfl,
    solve?_of_isEmpty.2 d hd _ _ htokens _ hresolve⟩

end Invocation
