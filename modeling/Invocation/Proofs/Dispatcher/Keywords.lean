/-
  Keywords have no place of their own.

  Where the keywords of a line stand, how those of different arguments are
  mixed, and whether a name or an alias is used, makes no difference to a
  call. What counts is the sequence of positional tokens and, for each
  signature, the sequence of texts that each keyword argument gets.

  * `Signature.SameKeywords`: two inputs give a signature the same keywords;
  * `Search.Alike`: two searches that differ at most in the order in which
    keywords were found; `Search.solve?_congr`: they have the same result;
  * `call_congr`: calls with two lines that give the same keywords to all
    signatures of a command have the same outcome.
-/
import Invocation.Proofs.Dispatcher.Agreement
import Invocation.Proofs.Matching.Tokens

namespace Invocation

/-! ## Keywords of two inputs -/

namespace Signature

/-- Some keyword of an input stands for no keyword argument. -/
def HasStray (s : Signature) (input : Input) : Prop :=
  ∃ name text, (name, text) ∈ input.keywords ∧ ∀ i, s.resolve? name = some i → s.isKeyword i = false

/-- Two inputs give a signature the same keywords: both hold a stray one, or neither does and every
keyword argument gets the same texts in the same order. -/
def SameKeywords (s : Signature) (a b : Input) : Prop :=
  (s.HasStray a ∧ s.HasStray b) ∨
    (¬ s.HasStray a ∧ ¬ s.HasStray b ∧ ∀ i, s.isKeyword i = true → s.textsFor a i = s.textsFor b i)

theorem keywordIndex?_eq_none {s : Signature} {name : String} :
    s.keywordIndex? name = none ↔ ∀ i, s.resolve? name = some i → s.isKeyword i = false := by
  constructor
  · intro h i hi
    by_contra hk
    rw [keywordIndex?_eq_some.2 ⟨hi, (Bool.not_eq_false _).mp hk⟩] at h
    cases h
  · intro h
    rw [Option.eq_none_iff_forall_not_mem]
    intro i hi
    obtain ⟨hi, hk⟩ := keywordIndex?_eq_some.1 hi
    rw [h i hi] at hk
    cases hk

end Signature

namespace Keywords

theorem stray_resolve_isEmpty {s : Signature} {input : Input} :
    (resolve s input.keywords).stray.isEmpty = true ↔ ¬ s.HasStray input := by
  simp only [List.isEmpty_iff, stray_resolve_eq_nil, Signature.HasStray, ← Signature.keywordIndex?_eq_none,
    not_exists, not_and, ← ne_eq, Option.ne_none_iff_exists']

/-- Only keyword arguments have occurrences. -/
theorem occurrences_resolve_eq_nil {s : Signature} {keywords : List (String × Option String)} {i : Nat}
    (hi : s.isKeyword i = false) : (resolve s keywords).occurrences i = [] := by
  simp only [occurrences, resolve, List.filterMap_filterMap, List.filterMap_eq_nil_iff, Prod.forall]
  intro name text _
  cases hk : s.keywordIndex? name with
  | none => rfl
  | some j =>
    have hj : j ≠ i := by
      rintro rfl
      rw [(Signature.keywordIndex?_eq_some.1 hk).2] at hi
      cases hi
    simp [hj]

theorem occurrences_resolve_of_length_le {s : Signature} {keywords : List (String × Option String)} {i : Nat}
    (hi : s.arguments.length ≤ i) : (resolve s keywords).occurrences i = [] :=
  occurrences_resolve_eq_nil (by rw [Signature.isKeyword, List.getElem?_eq_none hi, Option.any_none])

theorem occurrences_congr {s : Signature} {a b : Input}
    (h : ∀ i, s.isKeyword i = true → s.textsFor a i = s.textsFor b i) (i : Nat) :
    (resolve s a.keywords).occurrences i = (resolve s b.keywords).occurrences i := by
  cases hi : s.isKeyword i with
  | true => rw [occurrences_resolve hi, occurrences_resolve hi, h i hi]
  | false => rw [occurrences_resolve_eq_nil hi, occurrences_resolve_eq_nil hi]

end Keywords

/-! ## Searches -/

namespace Search

/-- Two searches differ at most in the order in which the keywords of different arguments were found,
and in stray keywords. -/
structure Alike (s s' : Search) : Prop where
  signature : s.signature = s'.signature
  positional : s.positional = s'.positional
  occurrences : ∀ i, s.keywords.occurrences i = s'.keywords.occurrences i
  types : s.types = s'.types
  settings : s.settings = s'.settings

variable {s s' : Search}

theorem Alike.agree (h : s.Alike s') : s.Agree s' where
  signature := h.signature
  positional := h.positional
  occurrences := h.occurrences
  itemType a _ := itemType_congr (by rw [h.types, h.settings]) a.type
  cast type _ := by
    funext token
    rw [Search.cast, Search.cast, h.types, h.settings]

/-- Searches that are alike have the same result, if they agree on whether there is a stray keyword. -/
theorem solve?_congr (h : s.Alike s')
    (hstray : s.keywords.stray.isEmpty = s'.keywords.stray.isEmpty) : s.solve? = s'.solve? :=
  solve?_of_agree h.agree hstray

theorem solve?_of_sameKeywords {signature : Signature} {a b : Input}
    (hpositional : a.positional = b.positional) (hkeywords : signature.SameKeywords a b)
    (types : TypeRegistry) (settings : EffectiveSettings) :
    (Search.of signature a types settings).solve? = (Search.of signature b types settings).solve? := by
  rcases hkeywords with ⟨ha, hb⟩ | ⟨ha, hb, htexts⟩
  · -- with a stray keyword there is no match
    have hnone : ∀ input, signature.HasStray input →
        (Search.of signature input types settings).solve? = none := fun input h =>
      if_neg fun hempty => Keywords.stray_resolve_isEmpty.1 hempty h
    rw [hnone a ha, hnone b hb]
  · refine solve?_congr ⟨rfl, hpositional, Keywords.occurrences_congr htexts, rfl, rfl⟩ ?_
    exact (Keywords.stray_resolve_isEmpty.2 ha).trans (Keywords.stray_resolve_isEmpty.2 hb).symm

end Search

/-! ## Calls -/

namespace Dispatcher

theorem firstMatch?_of_sameKeywords {types : TypeRegistry} {settings : EffectiveSettings} {a b : Input}
    {signatures : List Signature} (hpositional : a.positional = b.positional)
    (hkeywords : ∀ s ∈ signatures, s.SameKeywords a b) (index : Nat) :
    firstMatch? types settings a index signatures = firstMatch? types settings b index signatures :=
  firstMatch?_congr
    (fun s hs => Search.solve?_of_sameKeywords hpositional (hkeywords s hs) types settings) index

/-- **Place, order and spelling of keywords make no difference.** Two lines with the same positional
tokens that give the same keywords to every signature of a command come to the same, with and without
fallback: the same result after the same calls of validators and handlers in the same order. -/
theorem call_congr (d : Dispatcher) (name : String) {line line' : String}
    (hpositional : (Input.ofLine line).positional = (Input.ofLine line').positional)
    (hkeywords : ∀ command, d.command? name = some command → ∀ s ∈ command.signatures,
      s.SameKeywords (Input.ofLine line) (Input.ofLine line')) :
    d.resolve name line = d.resolve name line' ∧ d.dispatch name line = d.dispatch name line' := by
  cases hc : d.command? name with
  | none => simp only [resolve, dispatch, hc, and_self]
  | some command =>
    have hwith : ∀ settings, d.resolveWith command line settings = d.resolveWith command line' settings :=
      fun settings => by
        rw [resolveWith, resolveWith, firstMatch?_of_sameKeywords hpositional (hkeywords command hc) 0]
    simp only [resolve, dispatch, hc, hwith, and_self]

set_option maxRecDepth 4000 in
/-- A flag by its alias after the word and by its name before it, between the items of a list. The first
signature knows no such flag; the validator accepts the list. -/
theorem call_congr_of_flag_and_items :
    ∃ d command,
      register {}
        { name := "copy"
          sources := ["(str) from [(int) --depth]", "(str) from [(int[]) --depth] [--force]"]
          metadata := (Metadata.addAlias {} "force" "--f").setValidator "depth"
            ⟨0, fun value => .ok value.list?.isSome⟩ } = .ok d ∧
      d.command? "copy" = some command ∧
      (Input.ofLine "--depth=1 a --depth=2 --f").positional =
        (Input.ofLine "--depth=1 --force --depth=2 a").positional ∧
      (∀ s ∈ command.signatures, s.SameKeywords (Input.ofLine "--depth=1 a --depth=2 --f")
        (Input.ofLine "--depth=1 --force --depth=2 a")) ∧
      (d.resolve "copy" "--depth=1 a --depth=2 --f").events =
        [.validated "depth" (.list [.int 1, .int 2])] ∧
      d.resolve "copy" "--depth=1 a --depth=2 --f" = d.resolve "copy" "--depth=1 --force --depth=2 a" ∧
      d.dispatch "copy" "--depth=1 a --depth=2 --f" =
        d.dispatch "copy" "--depth=1 --force --depth=2 a" := by
  have hline : Input.ofLine "--depth=1 a --depth=2 --f" =
      ⟨["a"], [("depth", some "1"), ("depth", some "2"), ("f", none)]⟩ := by cbv
  have hline' : Input.ofLine "--depth=1 --force --depth=2 a" =
      ⟨["a"], [("depth", some "1"), ("force", none), ("depth", some "2")]⟩ := by cbv
  have hpositional : (Input.ofLine "--depth=1 a --depth=2 --f").positional =
      (Input.ofLine "--depth=1 --force --depth=2 a").positional := by rw [hline, hline']
  refine ⟨_, _, by cbv, rfl, hpositional, ?_⟩
  refine (fun hkeywords => ⟨hkeywords, ?events, call_congr _ "copy" hpositional fun command hc => ?_⟩)
    ?keywords
  case events =>
    simp only [resolve, resolveWith, hline]
    rfl
  case keywords =>
    rw [hline, hline', List.forall_mem_cons, List.forall_mem_singleton]
    refine ⟨Or.inl ⟨⟨"f", none, by simp, fun i hi => ?_⟩, ⟨"force", none, by simp, fun i hi => ?_⟩⟩,
      Or.inr ⟨?_, ?_, ?_⟩⟩
    · cases hi
    · cases hi
    · exact Keywords.stray_resolve_isEmpty.1 rfl
    · exact Keywords.stray_resolve_isEmpty.1 rfl
    · intro i hi
      obtain _ | _ | _ | n := i
      · rfl
      · rfl
      · rfl
      · cases hi
  · cases hc
    exact hkeywords

end Dispatcher

end Invocation
