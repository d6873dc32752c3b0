/-
  What a match does with the tokens of an input.

  * `Search.Runs`: bound arguments take runs of tokens off the front of a
    list, one run after the other;
  * `Search.Adds`: what lies between two progresses of a search: arguments
    bound in the order of leaves, the tokens that they take, and the count of
    keywords; `adds_of_path`: every path adds such arguments;
  * `Search.exhausts_of_solve?`: the arguments that a full match binds exhaust
    the input;
  * `Accounts` says that the bound arguments account for all of an input,
    and `accounts_of_solve?` that those of a full match do.
-/
import Invocation.Binding
import Invocation.Proofs.Matching.Path
import Invocation.Proofs.Ordered
import Invocation.Proofs.Signature.Numbering
import Mathlib

namespace Invocation

open Invocation.Matching

/-! ## Keywords of an input -/

namespace Signature

/-- Whether the argument at an index is a keyword. -/
def isKeyword (s : Signature) (index : Nat) : Bool := (s.arguments[index]?).any (·.kind == .keyword)

theorem isKeyword_iff {s : Signature} {i : Nat} :
    s.isKeyword i = true ↔ ∃ a, s.arguments[i]? = some a ∧ a.kind = .keyword := by
  simp [isKeyword, Option.any_eq_true]

theorem isKeyword_eq_false {s : Signature} {i : Nat} {a : Argument} (ha : s.arguments[i]? = some a)
    (hk : a.kind = .positional) : s.isKeyword i = false := by
  simp [isKeyword, ha, hk]

theorem keywordIndex?_eq_some {s : Signature} {name : String} {i : Nat} :
    s.keywordIndex? name = some i ↔ s.resolve? name = some i ∧ s.isKeyword i = true := by
  rw [keywordIndex?, Option.filter_eq_some_iff, isKeyword]

/-- The texts of the keywords that stand for the argument at an index, by its name or by an alias,
in input order. -/
def textsFor (s : Signature) (input : Input) (index : Nat) : List (Option String) :=
  input.keywords.filterMap fun (name, text) => if s.resolve? name = some index then some text else none

theorem textsFor_ne_nil {s : Signature} {input : Input} {i : Nat} :
    s.textsFor input i ≠ [] ↔ ∃ name text, (name, text) ∈ input.keywords ∧ s.resolve? name = some i := by
  rw [textsFor, ne_eq, List.filterMap_eq_nil_iff]
  simp only [ite_eq_right_iff, reduceCtorEq, imp_false, Prod.forall, not_forall, not_not,
    exists_prop]

end Signature

namespace Keywords

theorem occurrences_resolve {s : Signature} {input : Input} {i : Nat} (hi : s.isKeyword i = true) :
    (resolve s input.keywords).occurrences i = s.textsFor input i := by
  simp only [occurrences, resolve, Signature.textsFor, List.filterMap_filterMap]
  refine List.filterMap_congr fun pair _ => ?_
  obtain ⟨name, text⟩ := pair
  by_cases h : s.resolve? name = some i
  · simp [h, Signature.keywordIndex?_eq_some.2 ⟨h, hi⟩]
  · have h' : s.keywordIndex? name ≠ some i := fun h' => h (Signature.keywordIndex?_eq_some.1 h').1
    cases hk : s.keywordIndex? name with
    | none => simp [h]
    | some j =>
      have hj : j ≠ i := fun hj => h' (hj ▸ hk)
      simp [h, hj]

theorem mem_present {k : Keywords} {count i : Nat} :
    i ∈ k.present count ↔ i < count ∧ k.occurrences i ≠ [] := by
  simp [present]

theorem stray_resolve_eq_nil {s : Signature} {keywords : List (String × Option String)} :
    (resolve s keywords).stray = [] ↔
      ∀ name text, (name, text) ∈ keywords → ∃ i, s.keywordIndex? name = some i := by
  simp only [resolve, List.filterMap_eq_nil_iff, ite_eq_right_iff, reduceCtorEq, imp_false,
    Prod.forall, Option.isNone_iff_eq_none, ← ne_eq, Option.ne_none_iff_exists']

end Keywords

/-! ## What lies between two progresses -/

namespace Search

variable (s : Search)

/-- Bound arguments take runs of tokens off the front of a list, one run after the other, and leave
the rest. A keyword takes its occurrences and no token. -/
inductive Runs : List (Nat × Value) → List String → List String → Prop
  | nil {rest} : Runs [] rest rest
  | positional {i a value bound run tokens rest} (ha : s.signature.arguments[i]? = some a)
      (hk : a.kind = .positional) (ht : s.Takes a value run tokens) (h : Runs bound tokens rest) :
      Runs ((i, value) :: bound) (run ++ tokens) rest
  | keyword {i a value bound tokens rest} (ha : s.signature.arguments[i]? = some a)
      (hk : a.kind = .keyword) (ht : s.TakesKeyword a value (s.keywords.occurrences i))
      (h : Runs bound tokens rest) : Runs ((i, value) :: bound) tokens rest

/-- Arguments that are bound between two progresses, in the order of the given leaves. -/
structure Adds (leaves : List Nat) (p q : Progress) (added : List (Nat × Value)) : Prop where
  values_eq : q.values = p.values ++ added
  order : (added.map Prod.fst).Sublist leaves
  runs : s.Runs added (s.positional.drop p.cursor) (s.positional.drop q.cursor)
  keywords_eq : q.keywords = p.keywords + added.countP fun bound => s.signature.isKeyword bound.1

variable {s}

theorem Runs.append {bound bound' : List (Nat × Value)} {tokens tokens' rest : List String}
    (h : s.Runs bound tokens tokens') (h' : s.Runs bound' tokens' rest) :
    s.Runs (bound ++ bound') tokens rest := by
  induction h with
  | nil => exact h'
  | positional ha hk ht _ ih => exact .positional ha hk ht (ih h')
  | keyword ha hk ht _ ih => exact .keyword ha hk ht (ih h')

namespace Adds

variable {leaves leaves' : List Nat} {p q r : Progress} {added added' : List (Nat × Value)}

theorem refl (p : Progress) : s.Adds [] p p [] :=
  ⟨(List.append_nil _).symm, List.Sublist.slnil, .nil, rfl⟩

theorem trans (h : s.Adds leaves p q added) (h' : s.Adds leaves' q r added') :
    s.Adds (leaves ++ leaves') p r (added ++ added') where
  values_eq := by rw [h'.values_eq, h.values_eq, List.append_assoc]
  order := by rw [List.map_append]; exact h.order.append h'.order
  runs := h.runs.append h'.runs
  keywords_eq := by rw [h'.keywords_eq, h.keywords_eq, List.countP_append, Nat.add_assoc]

theorem mono (h : s.Adds leaves p q added) (hl : leaves.Sublist leaves') : s.Adds leaves' p q added :=
  { h with order := h.order.trans hl }

end Adds

/-- A leaf adds at most its own argument. -/
theorem adds_of_leafStep {i : Nat} {p q : Progress} {o b : Bool} (h : s.LeafStep i p o q b) :
    ∃ added, s.Adds [i] p q added := by
  cases h with
  | absent => exact ⟨[], (Adds.refl p).mono (List.nil_sublist _)⟩
  | @positional a value used _ ha hk hu ht =>
    refine ⟨[(i, value)], rfl, List.Sublist.refl _, ?_, ?_⟩
    · have h := Runs.positional ha hk ht .nil
      rwa [← List.drop_drop, List.take_append_drop, List.drop_drop] at h
    · simp [Signature.isKeyword_eq_false ha hk]
  | @keyword a value _ ha hk ht =>
    refine ⟨[(i, value)], rfl, List.Sublist.refl _, .keyword ha hk ht .nil, ?_⟩
    simp [Signature.isKeyword_iff.2 ⟨a, ha, hk⟩]

/-- A path adds arguments in the order of the leaves below its nodes. -/
theorem adds_of_path {ns : List Node} {o : Bool} {p q : Progress} (h : s.Path ns o p q) :
    ∃ added, s.Adds (Node.childLeaves ns) p q added := by
  induction h with
  | @nil o p => exact ⟨[], Adds.refl p⟩
  | leaf h _ ih =>
    obtain ⟨added, ha⟩ := adds_of_leafStep h
    obtain ⟨added', ha'⟩ := ih
    exact ⟨_, ha.trans ha'⟩
  | absent _ ih =>
    obtain ⟨added, ha⟩ := ih
    exact ⟨_, ha.mono (List.sublist_append_right ..)⟩
  | and _ _ ih ih' =>
    obtain ⟨added, ha⟩ := ih
    obtain ⟨added', ha'⟩ := ih'
    exact ⟨_, ha.trans ha'⟩
  | or hc _ _ ih ih' =>
    obtain ⟨added, ha⟩ := ih
    obtain ⟨added', ha'⟩ := ih'
    exact ⟨_, (ha.mono (Node.childLeaves_sublist (mem_choices.1 hc).1)).trans ha'⟩
  | xor hm _ _ ih ih' =>
    obtain ⟨added, ha⟩ := ih
    obtain ⟨added', ha'⟩ := ih'
    exact ⟨_, (ha.mono (Node.childLeaves_sublist (List.singleton_sublist.2 hm))).trans ha'⟩

/-- A bound keyword argument stands for its occurrences. -/
theorem Runs.takesKeyword {bound : List (Nat × Value)} {tokens rest : List String}
    (h : s.Runs bound tokens rest) {i : Nat} {value : Value} {a : Argument}
    (hmem : (i, value) ∈ bound) (ha : s.signature.arguments[i]? = some a) (hk : a.kind = .keyword) :
    s.TakesKeyword a value (s.keywords.occurrences i) := by
  induction h with
  | nil => exact absurd hmem List.not_mem_nil
  | positional ha' hk' _ _ ih =>
    rcases List.mem_cons.1 hmem with heq | hmem
    · cases heq
      rw [ha, Option.some.injEq] at ha'
      rw [← ha', hk] at hk'
      cases hk'
    · exact ih hmem
  | keyword ha' _ ht _ ih =>
    rcases List.mem_cons.1 hmem with heq | hmem
    · cases heq
      rw [ha, Option.some.injEq] at ha'
      exact ha' ▸ ht
    · exact ih hmem

theorem takesKeyword_ne_nil {a : Argument} {value : Value} {occurrences : List (Option String)}
    (h : s.TakesKeyword a value occurrences) : occurrences ≠ [] := by
  rintro rfl
  exact h

/-- As many keywords are bound as are present, so that all of them are. -/
theorem present_subset_of_count {values : List (Nat × Value)} {tokens rest : List String} {n : Nat}
    (horder : (values.map Prod.fst).Sublist (List.range n))
    (hruns : s.Runs values tokens rest)
    (hcount : (values.countP fun bound => s.signature.isKeyword bound.1) =
      (s.keywords.present n).length) :
    ∀ i ∈ s.keywords.present n, i ∈ values.map Prod.fst := by
  have hbound : ((values.map Prod.fst).filter s.signature.isKeyword).length =
      (s.keywords.present n).length := by
    rw [← List.countP_eq_length_filter, List.countP_map, ← hcount]
    rfl
  have hnodup : ((values.map Prod.fst).filter s.signature.isKeyword).Nodup :=
    (horder.nodup List.nodup_range).filter _
  have hsubset : (values.map Prod.fst).filter s.signature.isKeyword ⊆ s.keywords.present n := by
    intro i hi
    obtain ⟨hi, hk⟩ := List.mem_filter.1 hi
    obtain ⟨⟨j, value⟩, hmem, rfl⟩ := List.mem_map.1 hi
    obtain ⟨a, ha, hk⟩ := Signature.isKeyword_iff.1 hk
    exact Keywords.mem_present.2 ⟨List.mem_range.1 (horder.mem hi),
      takesKeyword_ne_nil (hruns.takesKeyword hmem ha hk)⟩
  have hperm := (List.subperm_of_subset hnodup hsubset).perm_of_length_le (Nat.le_of_eq hbound.symm)
  exact fun i hi => (List.mem_filter.1 (hperm.mem_iff.2 hi)).1

end Search

/-! ## Full matches -/

theorem Signature.map_nameAt_range (s : Signature) :
    (List.range s.arguments.length).map s.nameAt = s.arguments.map Argument.name := by
  refine List.ext_getElem (by simp) fun i h₁ h₂ => ?_
  rw [List.length_map] at h₂
  simp [nameAt, h₂]

/-- Arguments with names of their own that are bound in order have entries of their own. -/
theorem Binding.length_named {signature : Signature} {values : List (Nat × Value)}
    (horder : (values.map Prod.fst).Sublist (List.range signature.arguments.length))
    (hnames : (signature.arguments.map Argument.name).Nodup) :
    (Binding.named signature values).length = values.length := by
  have hsub := horder.map signature.nameAt
  rw [signature.map_nameAt_range, List.map_map] at hsub
  rw [Binding.named, length_keyTable, List.length_map]
  rw [List.map_map]
  exact hsub.nodup hnames

/-- When all keywords that are present are bound, the bound keywords are those that stand in the
input. -/
theorem Search.bound_keyword_iff {signature : Signature} {input : Input} {types : TypeRegistry}
    {settings : EffectiveSettings} {values : List (Nat × Value)} {tokens rest : List String}
    (hruns : (Search.of signature input types settings).Runs values tokens rest)
    (hstray : (Keywords.resolve signature input.keywords).stray = [])
    (hpresent : ∀ i ∈ (Keywords.resolve signature input.keywords).present signature.arguments.length,
      i ∈ values.map Prod.fst) (i : Nat) :
    i ∈ values.map Prod.fst ∧ signature.isKeyword i = true ↔
      ∃ name text, (name, text) ∈ input.keywords ∧ signature.resolve? name = some i := by
  constructor
  · rintro ⟨hi, hk⟩
    obtain ⟨⟨j, value⟩, hmem, rfl⟩ := List.mem_map.1 hi
    obtain ⟨a, ha, hkind⟩ := Signature.isKeyword_iff.1 hk
    have hne := Search.takesKeyword_ne_nil (hruns.takesKeyword hmem ha hkind)
    exact Signature.textsFor_ne_nil.1 (Keywords.occurrences_resolve hk ▸ hne)
  · rintro ⟨name, text, hmem, hname⟩
    obtain ⟨j, hj⟩ := Keywords.stray_resolve_eq_nil.1 hstray name text hmem
    obtain ⟨hj, hk⟩ := Signature.keywordIndex?_eq_some.1 hj
    rw [hname, Option.some.injEq] at hj
    subst hj
    have hne := Signature.textsFor_ne_nil.2 ⟨name, text, hmem, hname⟩
    rw [← Keywords.occurrences_resolve hk] at hne
    obtain ⟨a, ha, -⟩ := Signature.isKeyword_iff.1 hk
    obtain ⟨hlt, -⟩ := List.getElem?_eq_some_iff.1 ha
    exact ⟨hpresent i (Keywords.mem_present.2 ⟨hlt, hne⟩), hk⟩

/-- The bound arguments exhaust an input: in the order of their declaration they take all positional
tokens, and the keywords that are present are all among them. -/
structure Search.Exhausts (signature : Signature) (input : Input) (types : TypeRegistry)
    (settings : EffectiveSettings) (values : List (Nat × Value)) : Prop where
  noStray : (Keywords.resolve signature input.keywords).stray = []
  order : (values.map Prod.fst).Sublist (List.range signature.arguments.length)
  runs : (Search.of signature input types settings).Runs values input.positional []
  present : ∀ i ∈ (Keywords.resolve signature input.keywords).present signature.arguments.length,
    i ∈ values.map Prod.fst

theorem Search.exhausts_of_solve? {signature : Signature} {input : Input} {types : TypeRegistry}
    {settings : EffectiveSettings} {values : List (Nat × Value)} (hs : signature.Compiled)
    (h : (Search.of signature input types settings).solve? = some values) :
    Search.Exhausts signature input types settings values := by
  obtain ⟨hstray, q, rfl, hcomplete, hpath⟩ := Search.path_of_solve? h
  obtain ⟨added, hadds⟩ := Search.adds_of_path hpath
  rw [Search.isComplete, Bool.and_eq_true, beq_iff_eq, beq_iff_eq] at hcomplete
  obtain rfl : added = q.values := hadds.values_eq.symm
  have horder : (q.values.map Prod.fst).Sublist (List.range signature.arguments.length) := by
    rw [← hs.leaves_root, ← Node.childLeaves_singleton]
    exact hadds.order
  have hruns : (Search.of signature input types settings).Runs q.values input.positional [] := by
    have h := hadds.runs
    rw [hcomplete.1, List.drop_length] at h
    exact h
  have hcount : (q.values.countP fun bound => signature.isKeyword bound.1) =
      ((Keywords.resolve signature input.keywords).present signature.arguments.length).length := by
    have h := hadds.keywords_eq
    rw [hcomplete.2] at h
    exact (h.trans (Nat.zero_add _)).symm
  exact ⟨hstray, horder, hruns, Search.present_subset_of_count horder hruns hcount⟩

/-- The bound arguments account for all tokens of an input, each used once and in order. -/
structure Accounts (signature : Signature) (input : Input) (types : TypeRegistry)
    (settings : EffectiveSettings) (values : List (Nat × Value)) : Prop where
  /-- Arguments are bound in the order of their declaration, none of them twice. -/
  ascending : (values.map Prod.fst).Pairwise (· < ·)
  /-- No two of them share an entry of the binding. -/
  entries : (Binding.named signature values).length = values.length
  /-- The runs of tokens that positional arguments take make up all positional tokens. -/
  tokens : (Search.of signature input types settings).Runs values input.positional []
  /-- The bound keyword arguments are those that some keyword stands for. -/
  keywords : ∀ i, i ∈ values.map Prod.fst ∧ signature.isKeyword i = true ↔
    ∃ name text, (name, text) ∈ input.keywords ∧ signature.resolve? name = some i
  /-- Every keyword stands for a keyword argument. -/
  noStray : ∀ name text, (name, text) ∈ input.keywords →
    ∃ i, signature.resolve? name = some i ∧ signature.isKeyword i = true
  /-- The value of a keyword argument stands for its occurrences. -/
  occurrences : ∀ i value a, (i, value) ∈ values → signature.arguments[i]? = some a →
    a.kind = .keyword →
    (Search.of signature input types settings).TakesKeyword a value (signature.textsFor input i)

/-- **No token is lost, duplicated or reordered.** The values of a full match account for all tokens
of the input. -/
theorem accounts_of_solve? {signature : Signature} {input : Input} {types : TypeRegistry}
    {settings : EffectiveSettings} {values : List (Nat × Value)} (hs : signature.Compiled)
    (h : (Search.of signature input types settings).solve? = some values) :
    Accounts signature input types settings values := by
  have hfull := Search.exhausts_of_solve? hs h
  exact
    { ascending := List.pairwise_lt_range.sublist hfull.order
      entries := Binding.length_named hfull.order hs.nodup_names
      tokens := hfull.runs
      keywords := Search.bound_keyword_iff hfull.runs hfull.noStray hfull.present
      noStray := fun name text hmem =>
        (Keywords.stray_resolve_eq_nil.1 hfull.noStray name text hmem).imp fun _ =>
          Signature.keywordIndex?_eq_some.1
      occurrences := fun i value a hmem ha hk =>
        Keywords.occurrences_resolve (Signature.isKeyword_iff.2 ⟨a, ha, hk⟩) ▸
          hfull.runs.takesKeyword hmem ha hk }

set_option maxRecDepth 2000 in
/-- Numbers up to the first word that is none, and a keyword given twice, once by its alias. -/
theorem accounts_of_numbers_tags_and_rest :
    ∃ signature values,
      (Metadata.addAlias {} "tag" "--t").compile {} "(int[]) nums [(str[]) --tag] (str) rest" =
        .ok signature ∧
      (Search.of signature (Input.ofLine "1 --tag=x 2 --t=y end") {} {}).solve? = some values ∧
      Accounts signature (Input.ofLine "1 --tag=x 2 --t=y end") {} {} values := by
  have hcompile : (Metadata.addAlias {} "tag" "--t").compile {}
      "(int[]) nums [(str[]) --tag] (str) rest" = .ok
        { source := "(int[]) nums [(str[]) --tag] (str) rest"
          root := ⟨[.leaf 0, .group .and false [.leaf 1], .leaf 2], .and, true⟩
          arguments :=
            [{ name := "nums", kind := .positional, type := .native .int, shape := .greedy },
              { name := "tag", kind := .keyword, type := .native .str, shape := .greedy,
                aliases := ["t"] },
              { name := "rest", kind := .positional, type := .native .str, shape := .scalar }]
          lookup := [("nums", 0), ("tag", 1), ("rest", 2), ("t", 1)] } := by cbv
  have hline : Input.ofLine "1 --tag=x 2 --t=y end" =
      ⟨["1", "2", "end"], [("tag", some "x"), ("t", some "y")]⟩ := by cbv
  refine ⟨_, [(0, .list [.int 1, .int 2]), (1, .list [.str "x", .str "y"]), (2, .str "end")],
    hcompile, ?solve, accounts_of_solve? (.command hcompile) ?solve⟩
  rw [hline]
  rfl

end Invocation
