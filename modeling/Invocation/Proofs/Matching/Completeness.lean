/-
  When an input of keywords matches.

  In a signature of keywords without optional groups the leaves that are to
  be bound are known beforehand: they are those whose keywords are present.

  * `Search.Reaches`: from every progress there is an outcome of a node that
    binds all present leaves below it; `reaches_leaf`, `reaches_thread`,
    `reaches_or`, `reaches_xor`: how leaves and the bodies of groups are
    reached; `reaches_of_sat`: where the present leaves satisfy a node and
    have values, it is reached, by induction on the satisfaction;
  * `Fits`: what an input must be like to match; `exists_solve?_of_fits` and
    `fits_of_solve?`: it matches if and only if it is so;
  * `bound_iff_of_solve?`: a match binds what is present.
-/
import Invocation.Proofs.Matching.Satisfaction

namespace Invocation

open Invocation.Matching

/-! ## Satisfaction and leaves -/

section

variable {signature : Signature} {bound bound' : Nat → Prop}

theorem Untouched.congr {n : Node} (h : ∀ i ∈ n.leaves, bound i ↔ bound' i) (hu : Untouched bound n) :
    Untouched bound' n :=
  fun i hi hb => hu i hi ((h i hi).2 hb)

/-- Whether a node is satisfied depends on its leaves. -/
theorem Sat.congr {o : Bool} {n : Node} (hn : Sat signature bound o n)
    (h : ∀ i ∈ n.leaves, bound i ↔ bound' i) : Sat signature bound' o n := by
  have hchild : ∀ {ns : List Node} {m}, m ∈ ns → (∀ i ∈ Node.childLeaves ns, bound i ↔ bound' i) →
      ∀ i ∈ m.leaves, bound i ↔ bound' i :=
    fun hm hns i hi => hns i (Node.mem_childLeaves.2 ⟨_, hm, hi⟩)
  induction hn with
  | @bound o i hb => exact .bound ((h i (List.mem_singleton_self i)).1 hb)
  | empty ha hk hs => exact .empty ha hk hs
  | absent hu => exact .absent fun m hm => (hu m hm).congr (hchild hm h)
  | and _ ih => exact .and fun m hm => ih m hm (hchild hm h)
  | or chosen hm hc _ hu ih =>
    exact .or chosen hm hc (fun m hm hc => ih m hm hc (hchild hm h))
      fun m hm hc => (hu m hm hc).congr (hchild hm h)
  | @xor _ _ m before after _ hu ih =>
    refine .xor (ih (hchild (by simp) h)) fun k hk => (hu k hk).congr (hchild ?_ h)
    rcases List.mem_append.1 hk with hk | hk
    · exact List.mem_append_left _ hk
    · exact List.mem_append_right _ (List.mem_cons_of_mem m hk)

end

/-! ## Reaching what is present -/

namespace Search

variable (s : Search)

/-- Whether the keyword of the argument at an index is present. -/
def isPresent (i : Nat) : Bool := !(s.keywords.occurrences i).isEmpty

/-- From a progress some outcome of an enumeration binds all present leaves among the given ones. -/
def Reaches (e : Enumeration) (leaves : List Nat) : Prop :=
  ∀ p, ∃ q ∈ e p false, q.cursor = p.cursor ∧ q.keywords = p.keywords + leaves.countP s.isPresent

variable {s}

theorem reaches_leaf {i : Nat} {a : Argument} {value : Value} (ha : s.signature.arguments[i]? = some a)
    (hk : a.kind = .keyword) (ht : s.TakesKeyword a value (s.keywords.occurrences i))
    (hb : s.isPresent i = true) : s.Reaches (s.outcomes (.leaf i)) (Node.leaf i).leaves := by
  intro p
  have hleaf : s.leaf i p false = some
      ({ p with values := p.values ++ [(i, value)], keywords := p.keywords + 1 }, true) := by
    simp [leaf, ha, hk, s.keywordValue_eq_some.2 ht]
  have hq : { p with values := p.values ++ [(i, value)], keywords := p.keywords + 1 } ∈
      s.outcomes (.leaf i) p false := by simp only [outcomes, hleaf, Option.map_some, Option.mem_toList]
  exact ⟨_, hq, rfl, by simp [Node.leaves, hb]⟩

theorem reaches_thread {ns : List Node} (h : ∀ n ∈ ns, s.Reaches (s.outcomes n) n.leaves) :
    s.Reaches (Enumeration.thread (ns.map s.outcomes)) (Node.childLeaves ns) := by
  induction ns with
  | nil => exact fun p => ⟨p, List.mem_singleton_self p, rfl, rfl⟩
  | cons n ns ih =>
    intro p
    obtain ⟨hn, hns⟩ := List.forall_mem_cons.1 h
    obtain ⟨q, hq, hcursor, hkeywords⟩ := hn p
    obtain ⟨r, hr, hcursor', hkeywords'⟩ := ih hns q
    refine ⟨r, List.mem_flatMap.2 ⟨q, hq, hr⟩, hcursor'.trans hcursor, ?_⟩
    rw [hkeywords', hkeywords, Node.childLeaves, List.countP_append, Nat.add_assoc]

theorem countP_of_untouched {n : Node} (h : Untouched (s.isPresent · = true) n) :
    n.leaves.countP s.isPresent = 0 :=
  List.countP_eq_zero.2 h

/-- Children that are untouched do not count. -/
theorem countP_childLeaves_filter {ns : List Node} {chosen : Node → Bool}
    (h : ∀ n ∈ ns, ¬ chosen n = true → Untouched (s.isPresent · = true) n) :
    (Node.childLeaves (ns.filter chosen)).countP s.isPresent =
      (Node.childLeaves ns).countP s.isPresent := by
  induction ns with
  | nil => rfl
  | cons n ns ih =>
    obtain ⟨hn, hns⟩ := List.forall_mem_cons.1 h
    rw [Node.childLeaves, List.countP_append]
    by_cases hc : chosen n = true
    · rw [List.filter_cons_of_pos hc, Node.childLeaves, List.countP_append, ih hns]
    · rw [List.filter_cons_of_neg hc, ih hns, countP_of_untouched (hn hc), Nat.zero_add]

/-- An `or` group is reached through the choice of those children that are not untouched. -/
theorem reaches_or {ns : List Node} {m : Node} (chosen : Node → Bool) (hm : m ∈ ns) (hc : chosen m = true)
    (h : ∀ n ∈ ns, chosen n = true → s.Reaches (s.outcomes n) n.leaves)
    (hu : ∀ n ∈ ns, ¬ chosen n = true → Untouched (s.isPresent · = true) n) :
    s.Reaches (Enumeration.body .or (ns.map s.outcomes)) (Node.childLeaves ns) := by
  have hthread : s.Reaches (Enumeration.thread ((ns.filter chosen).map s.outcomes))
      (Node.childLeaves (ns.filter chosen)) :=
    reaches_thread fun n hn => h n (List.mem_filter.1 hn).1 (List.mem_filter.1 hn).2
  have hchoice : ns.filter chosen ∈ choices ns :=
    mem_choices.2 ⟨List.filter_sublist, List.ne_nil_of_mem (List.mem_filter.2 ⟨hm, hc⟩)⟩
  intro p
  obtain ⟨q, hq, hcursor, hkeywords⟩ := hthread p
  refine ⟨q, ?_, hcursor, by rw [hkeywords, countP_childLeaves_filter hu]⟩
  simp only [Enumeration.body, choices_map, List.flatMap_map]
  exact List.mem_flatMap.2 ⟨_, hchoice, hq⟩

/-- An `xor` group is reached through one child where the others are untouched. -/
theorem reaches_xor {before after : List Node} {m : Node} (h : s.Reaches (s.outcomes m) m.leaves)
    (hu : ∀ n ∈ before ++ after, Untouched (s.isPresent · = true) n) :
    s.Reaches (Enumeration.body .xor ((before ++ m :: after).map s.outcomes))
      (Node.childLeaves (before ++ m :: after)) := by
  have hm : m ∈ before ++ m :: after := List.mem_append_right _ List.mem_cons_self
  have hothers : (Node.childLeaves (before ++ after)).countP s.isPresent = 0 := by
    refine List.countP_eq_zero.2 fun i hi => ?_
    obtain ⟨n, hn, hi⟩ := Node.mem_childLeaves.1 hi
    exact hu n hn i hi
  rw [Node.childLeaves_append, List.countP_append] at hothers
  intro p
  obtain ⟨q, hq, hcursor, hkeywords⟩ := h p
  refine ⟨q, ?_, hcursor, ?_⟩
  · simp only [Enumeration.body, List.flatMap_map]
    exact List.mem_flatMap.2 ⟨m, hm, hq⟩
  · rw [hkeywords, Node.childLeaves_append, Node.childLeaves, List.countP_append, List.countP_append]
    omega

theorem outcomes_required (c : Combinator) (ns : List Node) :
    s.outcomes (.group c true ns) = Enumeration.body c (ns.map s.outcomes) := by
  funext p o
  simp only [outcomes, eachOutcomes_eq_map, if_true]

/-- Where the present leaves satisfy a node without optional groups and have values, some outcome of the
node binds them. -/
theorem reaches_of_sat {o : Bool} {n : Node} (h : Sat s.signature (s.isPresent · = true) o n)
    (ho : o = false) (hrequired : n.AllRequired)
    (hvalues : ∀ i, s.isPresent i = true → ∃ a value, s.signature.arguments[i]? = some a ∧
      a.kind = .keyword ∧ s.TakesKeyword a value (s.keywords.occurrences i)) :
    s.Reaches (s.outcomes n) n.leaves := by
  -- the mode of the children is that of the group, since no group is optional
  induction h with
  | @bound o i hb =>
    obtain ⟨a, value, ha, hk, ht⟩ := hvalues i hb
    exact reaches_leaf ha hk ht hb
  | empty => cases ho
  | absent => exact absurd .root (hrequired _ _)
  | @and required o ns _ ih =>
    obtain ⟨rfl, hchildren⟩ := Node.allRequired_group_iff.1 hrequired
    rw [outcomes_required]
    exact reaches_thread fun m hm => ih m hm (by rw [ho]; rfl) (hchildren m hm)
  | @or required o ns m chosen hm hc _ hu ih =>
    obtain ⟨rfl, hchildren⟩ := Node.allRequired_group_iff.1 hrequired
    classical
    rw [outcomes_required]
    refine reaches_or (chosen ·) hm (by simpa using hc) (fun n hn hc => ?_)
      fun n hn hc => hu n hn (by simpa using hc)
    exact ih n hn (by simpa using hc) (by rw [ho]; rfl) (hchildren n hn)
  | @xor required o m before after _ hu ih =>
    obtain ⟨rfl, hchildren⟩ := Node.allRequired_group_iff.1 hrequired
    rw [outcomes_required]
    exact reaches_xor (ih (by rw [ho]; rfl) (hchildren m (by simp))) hu

/-- A complete outcome of the root makes a full match. -/
theorem exists_solve?_of_outcome {q : Progress} (hstray : s.keywords.stray = [])
    (hq : q ∈ s.outcomes s.signature.root.toNode {} false) (hcomplete : s.isComplete q = true) :
    ∃ values, s.solve? = some values := by
  obtain ⟨r, hr⟩ := Option.isSome_iff_exists.1 (List.find?_isSome.2 ⟨q, hq, hcomplete⟩)
  exact ⟨r.values, by rw [solve?_eq_find?, hstray, List.isEmpty_nil, if_pos rfl, hr, Option.map_some]⟩

end Search

/-! ## Inputs that fit -/

/-- What an input of keywords must be like to match a signature: it has no positional token and no keyword
that stands for no keyword argument, the occurrences of each argument that is present have a value, and the
arguments that are present satisfy the tree. -/
structure Fits (signature : Signature) (input : Input) (types : TypeRegistry)
    (settings : EffectiveSettings) : Prop where
  positional : input.positional = []
  noStray : ∀ name text, (name, text) ∈ input.keywords →
    ∃ i, signature.resolve? name = some i ∧ signature.isKeyword i = true
  values : ∀ i a, signature.arguments[i]? = some a → signature.textsFor input i ≠ [] →
    ∃ value, (Search.of signature input types settings).TakesKeyword a value (signature.textsFor input i)
  sat : Sat signature (fun i => signature.textsFor input i ≠ []) false signature.root.toNode

namespace Search

variable {signature : Signature} {input : Input} {types : TypeRegistry} {settings : EffectiveSettings}
  {values : List (Nat × Value)}

theorem Runs.tokens_eq {s : Search} (hkind : ∀ a ∈ s.signature.arguments, a.kind = .keyword)
    {tokens rest : List String} (h : s.Runs values tokens rest) : tokens = rest := by
  induction h with
  | nil => rfl
  | positional ha hk =>
    rw [hkind _ (List.mem_of_getElem? ha)] at hk
    cases hk
  | keyword _ _ _ _ ih => exact ih

theorem isKeyword_of_lt (hkind : ∀ a ∈ signature.arguments, a.kind = .keyword) {i : Nat}
    (hi : i < signature.arguments.length) : signature.isKeyword i = true :=
  Signature.isKeyword_iff.2 ⟨_, List.getElem?_eq_getElem hi, hkind _ (List.getElem_mem hi)⟩

theorem isKeyword_of_isPresent {i : Nat} (h : (Search.of signature input types settings).isPresent i = true) :
    signature.isKeyword i = true := by
  have hne : (Search.of signature input types settings).keywords.occurrences i ≠ [] := by
    simpa [isPresent] using h
  obtain ⟨text, htext⟩ := List.exists_mem_of_ne_nil _ hne
  obtain ⟨⟨j, _⟩, hfound, hj⟩ := List.mem_filterMap.1 htext
  obtain ⟨⟨name, _⟩, -, hname⟩ := List.mem_filterMap.1 hfound
  obtain ⟨k, hk, heq⟩ := Option.map_eq_some_iff.1 hname
  obtain rfl : k = j := (Prod.mk.inj heq).1
  obtain rfl : k = i := by
    by_contra hne
    simp [hne] at hj
  exact (Signature.keywordIndex?_eq_some.1 hk).2

/-- What a match of keywords binds is what is present. -/
theorem bound_iff_of_solve? (hs : signature.Compiled) (hkind : ∀ a ∈ signature.arguments, a.kind = .keyword)
    (h : (Search.of signature input types settings).solve? = some values) :
    input.positional = [] ∧ (Keywords.resolve signature input.keywords).stray = [] ∧
      (Search.of signature input types settings).Runs values [] [] ∧
      ∀ i, i ∈ values.map Prod.fst ↔ signature.textsFor input i ≠ [] := by
  have hfull := exhausts_of_solve? hs h
  have hpositional : input.positional = [] := hfull.runs.tokens_eq hkind
  have hruns := hfull.runs
  rw [hpositional] at hruns
  refine ⟨hpositional, hfull.noStray, hruns, fun i => ?_⟩
  rw [Signature.textsFor_ne_nil, ← bound_keyword_iff hruns hfull.noStray hfull.present]
  exact ⟨fun hi => ⟨hi, isKeyword_of_lt hkind (List.mem_range.1 (hfull.order.mem hi))⟩, And.left⟩

theorem fits_of_solve? (hs : signature.Compiled) (hkind : ∀ a ∈ signature.arguments, a.kind = .keyword)
    (h : (Search.of signature input types settings).solve? = some values) :
    Fits signature input types settings := by
  obtain ⟨hpositional, hstray, hruns, hbound⟩ := bound_iff_of_solve? hs hkind h
  obtain ⟨-, q, rfl, -, hpath⟩ := path_of_solve? h
  have hsat : Sat signature (· ∈ q.values.map Prod.fst) false signature.root.toNode := by
    refine sat_of_path hpath ?_ (fun i _ => Iff.rfl) _ (List.mem_singleton.2 rfl)
    rw [Node.childLeaves_singleton]
    exact hs.leaves_root ▸ List.nodup_range
  refine ⟨hpositional, fun name text hmem => ?_, fun i a ha hi => ?_, hsat.congr fun i _ => hbound i⟩
  · exact (Keywords.stray_resolve_eq_nil.1 hstray name text hmem).imp fun _ =>
      Signature.keywordIndex?_eq_some.1
  · obtain ⟨⟨j, value⟩, hmem, rfl⟩ := List.mem_map.1 ((hbound i).2 hi)
    have hk := hkind a (List.mem_of_getElem? ha)
    rw [← Keywords.occurrences_resolve (Signature.isKeyword_iff.2 ⟨a, ha, hk⟩)]
    exact ⟨value, hruns.takesKeyword hmem ha hk⟩

/-- An input that fits is matched: the present leaves are bound by some outcome of the root, and it is
complete. -/
theorem exists_solve?_of_fits (hs : signature.Compiled)
    (hkind : ∀ a ∈ signature.arguments, a.kind = .keyword)
    (hrequired : signature.root.toNode.AllRequired)
    (h : Fits signature input types settings) :
    ∃ values, (Search.of signature input types settings).solve? = some values := by
  have hstray : (Search.of signature input types settings).keywords.stray = [] :=
    Keywords.stray_resolve_eq_nil.2 fun name text hmem =>
      (h.noStray name text hmem).imp fun _ => Signature.keywordIndex?_eq_some.2
  have htexts : ∀ i, signature.isKeyword i = true →
      (Search.of signature input types settings).keywords.occurrences i = signature.textsFor input i :=
    fun i => Keywords.occurrences_resolve
  have hsat : Sat signature ((Search.of signature input types settings).isPresent · = true) false
      signature.root.toNode := by
    refine h.sat.congr fun i hi => ?_
    rw [hs.leaves_root, List.mem_range] at hi
    simp [isPresent, htexts i (isKeyword_of_lt hkind hi)]
  have hvalues : ∀ i, (Search.of signature input types settings).isPresent i = true →
      ∃ a value, signature.arguments[i]? = some a ∧ a.kind = .keyword ∧
        (Search.of signature input types settings).TakesKeyword a value
          ((Search.of signature input types settings).keywords.occurrences i) := by
    intro i hi
    have hkeyword := isKeyword_of_isPresent hi
    obtain ⟨a, ha, hk⟩ := Signature.isKeyword_iff.1 hkeyword
    have hne : signature.textsFor input i ≠ [] := by
      simpa [isPresent, htexts i hkeyword] using hi
    obtain ⟨value, hvalue⟩ := h.values i a ha hne
    exact ⟨a, value, ha, hk, htexts i hkeyword ▸ hvalue⟩
  obtain ⟨q, hq, hcursor, hkeywords⟩ := reaches_of_sat hsat rfl hrequired hvalues {}
  have hcomplete : (Search.of signature input types settings).isComplete q = true := by
    have hcount : q.keywords = ((Keywords.resolve signature input.keywords).present
        signature.arguments.length).length := by
      rw [hkeywords, Nat.zero_add, Keywords.present, ← List.countP_eq_length_filter]
      exact congrArg (List.countP _) hs.leaves_root
    have hlength : input.positional.length = 0 := by rw [h.positional, List.length_nil]
    simp only [isComplete, Bool.and_eq_true, beq_iff_eq]
    exact ⟨hcursor.trans hlength.symm, hcount⟩
  exact exists_solve?_of_outcome hstray hq hcomplete

end Search

end Invocation
