/-
  An optional keyword more.

  A text without operators outside of its brackets is units side by side. An
  optional group at its end is one unit more. Where the group is a keyword that
  an input lacks, the walk passes over it, and the match is the same.

  * `Signature.outerOperators`: the operators of a text outside of all brackets;
    `Derives.exists_run`: without them a chain is a run of units, and so it is
    with one unit more;
  * `Signature.Extends`: a signature has an optional keyword more than another.
    `Signature.exists_extends`: the text with the keyword at its end compiles to
    such a signature;
  * `Extends.resolve_eq`: the keywords of an input that lacks the new one are
    resolved alike; `Extends.trail_root`: the roots have the same trail;
  * `Signature.exists_solve?_eq_of_optionalKeyword`: such inputs match alike.
-/
import Invocation.Proofs.Dispatcher.Keywords
import Invocation.Proofs.Matching.Regrouping
import Invocation.Proofs.Signature.Shape

namespace Invocation

open Invocation.Text Invocation.Matching

/-! ## Operators outside of brackets -/

namespace Lexeme

/-- The operators outside of all brackets, where `depth` brackets are open in front. -/
def outerOperators (depth : Nat) : List Lexeme → List Operator
  | [] => []
  | opening _ :: ls => outerOperators (depth + 1) ls
  | closing _ :: ls => outerOperators (depth - 1) ls
  | operator op :: ls => (if depth = 0 then [op] else []) ++ outerOperators depth ls
  | specifier _ :: ls => outerOperators depth ls
  | name _ :: ls => outerOperators depth ls

/-- Lexemes that close the brackets they open: what follows is as deep in brackets as they are. -/
def Balanced (ls : List Lexeme) : Prop :=
  ∀ depth rest, outerOperators depth (ls ++ rest) = outerOperators depth ls ++ outerOperators depth rest

theorem Balanced.append {ls ms : List Lexeme} (h : Balanced ls) (h' : Balanced ms) : Balanced (ls ++ ms) := by
  intro depth rest
  rw [List.append_assoc, h, h', h, List.append_assoc]

theorem Balanced.operator (op : Operator) {ls : List Lexeme} (h : Balanced ls) :
    Balanced (.operator op :: ls) := by
  intro depth rest
  rw [List.cons_append, outerOperators, outerOperators, h, List.append_assoc]

theorem Balanced.brackets (b : Bracket) {ls : List Lexeme} (h : Balanced ls) :
    Balanced (.opening b :: (ls ++ [.closing b])) := by
  have hinside : ∀ depth rest, outerOperators depth (.opening b :: (ls ++ .closing b :: rest)) =
      outerOperators (depth + 1) ls ++ outerOperators depth rest :=
    fun depth rest => h (depth + 1) (.closing b :: rest)
  intro depth rest
  rw [List.cons_append, List.append_assoc, List.singleton_append, hinside, hinside, outerOperators,
    List.append_nil]

end Lexeme

/-- What derives closes the brackets that it opens. -/
theorem Derives.balanced {part : Part} {first : Nat} {ls : List Lexeme} {as : List Argument}
    {ns : List Node} (h : Derives part first ls as ns) : Lexeme.Balanced ls := by
  induction h with
  | leaf _ h => cases h <;> exact fun _ _ => rfl
  | bracketedLeaf _ ih => exact ih.brackets _
  | bracketedGroup _ ih => exact ih.brackets _
  | none => exact fun _ _ => rfl
  | more _ _ ih ih' => exact ih.append ih'
  | single _ ih => exact ih
  | several _ _ ih => exact ih
  | operand _ ih => exact ih
  | operator _ _ ih ih' => exact ih.append (ih'.operator _)

/-- The nodes that a node is a run of: its children, or the node alone. -/
def Node.IsRun (n : Node) (units : List Node) : Prop := n = .group .and true units ∨ units = [n]

/-- Without operators outside of brackets a chain is a run of units, and one unit more is too. -/
theorem Derives.exists_run {ls ls' : List Lexeme} {as as' : List Argument} {n m : Node}
    (h : Derives .chain 0 ls as [n]) (houter : Lexeme.outerOperators 0 ls = [])
    (h' : Derives .unit as.length ls' as' [m]) :
    ∃ units, n.IsRun units ∧
      Derives .chain 0 (ls ++ ls') (as ++ as') [.group .and true (units ++ [m])] := by
  have hmore : ∀ {units}, Derives .units 0 ls as units → 1 ≤ units.length →
      Derives .chain 0 (ls ++ ls') (as ++ as') [.group .and true (units ++ [m])] := by
    intro units h hlength
    rw [← Nat.zero_add as.length] at h'
    exact .operand (.several (.more h h') (by rw [List.length_append]; exact Nat.succ_le_succ hlength))
  cases h with
  | operand h =>
    cases h with
    | single h => exact ⟨_, .inr rfl, hmore h (Nat.le_refl 1)⟩
    | several h hns => exact ⟨_, .inl rfl, hmore h (Nat.le_of_succ_le hns)⟩
  | operator h _ =>
    -- its operator is outside of all brackets, as those on the left are closed
    rw [h.balanced] at houter
    cases (List.append_eq_nil_iff.1 houter).2

/-- An argument in brackets of its own. -/
theorem Declares.derives_brackets {ls : List Lexeme} {a : Argument} (h : Declares ls a) (first : Nat)
    (b : Bracket) : Derives .unit first (.opening b :: (ls ++ [.closing b])) [a]
      [.group .and b.isRequired [.leaf first]] :=
  .bracketedLeaf (.operand (.single (.more .none (.leaf first h))))

theorem Group.isRun_ofRoot {n : Node} {units : List Node} (h : n.IsRun units) :
    (Group.ofRoot n).toNode.IsRun units := by
  cases n with
  | group c required ns => exact h
  | leaf i =>
    rcases h with h | rfl
    · cases h
    · exact .inl rfl

theorem nameTable_concat (as : List Argument) (a : Argument) :
    nameTable (as ++ [a]) = nameTable as ++ [(a.name, as.length)] := by
  rw [nameTable, List.zipIdx_append, List.map_append, Nat.zero_add]
  rfl

/-! ## Texts with an optional keyword more -/

namespace Signature

/-- The operators of a text outside of all brackets. -/
def outerOperators (source : String) : List Operator :=
  match Lexeme.scan source with
  | .ok placed => Lexeme.outerOperators 0 (placed.map Placed.lexeme)
  | .error _ => []

/-- The text of an optional keyword. -/
def optionalKeyword (specifier name : String) : String := "[(" ++ specifier ++ ") --" ++ name ++ "]"

/-- A signature has one argument more than another: a keyword in an optional group at the end. -/
structure Extends (t s : Signature) (a : Argument) : Prop where
  keyword : a.kind = .keyword
  arguments : t.arguments = s.arguments ++ [a]
  lookup : t.lookup = s.lookup ++ [(a.name, s.arguments.length)]
  root : ∃ units, s.root.toNode.IsRun units ∧
    t.root = ⟨units ++ [.group .and false [.leaf s.arguments.length]], .and, true⟩

theorem outerOperators_of_splits {source : String} {ls : List Lexeme}
    (h : Lexeme.Splits source.toList ls) : outerOperators source = Lexeme.outerOperators 0 ls := by
  obtain ⟨placed, hscan, rfl⟩ := Lexeme.scanFrom_of_splits h 0
  rw [outerOperators, Lexeme.scan, hscan]

theorem toList_optionalKeyword (text name : String) : (optionalKeyword text name).toList =
    '[' :: '(' :: (text.toList ++ ')' :: ' ' :: ('-' :: '-' :: name.toList ++ [']'])) := by
  simp [optionalKeyword]

theorem splits_optionalKeyword {text name : String} {specifier : Specifier}
    (hspells : Specifier.Spells (trimChars text.toList) specifier) (hname : isIdentifier name = true) :
    Lexeme.Splits (optionalKeyword text name).toList
      (.opening .optional :: ([.specifier (trimChars text.toList), .name ('-' :: '-' :: name.toList)] ++
        [.closing .optional])) := by
  have hhyphen : isNameChar '-' = true := by decide
  have hblank : isBlank ' ' = true := by decide
  have hchars := List.all_eq_true.1 (all_isNameChar_of_isIdentifierChars hname)
  have hrun : ∀ c ∈ '-' :: '-' :: name.toList, isNameChar c = true :=
    List.forall_mem_cons.2 ⟨hhyphen, List.forall_mem_cons.2 ⟨hhyphen, hchars⟩⟩
  have hend : ∀ c ∈ [']'].head?, isNameChar c = false := fun c hc => by cases hc; decide
  have hkeyword := Lexeme.Splits.name (List.cons_ne_nil _ _) hrun hend (.closing .optional .nil)
  have hall := Lexeme.Splits.opening .optional
    (.specifier (Specifier.not_mem_of_spells_trimChars hspells) (.blank hblank hkeyword))
  rw [toList_optionalKeyword]
  exact hall

/-- A text without operators outside of its brackets compiles with an optional keyword at its end. -/
theorem exists_extends {source gap text name : String} {s : Signature} {specifier : Specifier}
    (h : compile source = .ok s) (houter : outerOperators source = []) (hgap : Blanks gap.toList)
    (hspells : Specifier.Spells (trimChars text.toList) specifier) (hname : isIdentifier name = true)
    (hnew : name ∉ s.arguments.map Argument.name) :
    ∃ t, compile (source ++ gap ++ optionalKeyword text name) = .ok t ∧
      t.Extends s { name, kind := .keyword, type := specifier.type, shape := specifier.shape } := by
  obtain ⟨ls, n, hsplits, hderives, hnodup, hs⟩ := exists_derives_of_compile h
  have hsplits' := (hsplits.append_blanks hgap).append (splits_optionalKeyword hspells hname)
    fun c hc => by rw [toList_optionalKeyword] at hc; cases hc; decide
  rw [← String.toList_append, ← String.toList_append] at hsplits'
  rw [outerOperators_of_splits hsplits] at houter
  have hdeclares : Declares _ { name, kind := .keyword, type := specifier.type, shape := specifier.shape } :=
    .specified hspells (.keyword hname)
  obtain ⟨units, hrun, hderives'⟩ :=
    hderives.exists_run houter (hdeclares.derives_brackets s.arguments.length .optional)
  have hnames := hnodup.concat hnew
  rw [List.concat_eq_append] at hnames
  refine ⟨_, compile_of_derives hsplits' hderives' (by rwa [List.map_append]), rfl, rfl, ?_, units, ?_,
    rfl⟩
  · rw [hs]
    exact nameTable_concat _ _
  · rw [hs]
    exact Group.isRun_ofRoot hrun

end Signature

/-! ## Keywords with an optional keyword more -/

namespace Signature.Extends

variable {s t : Signature} {a : Argument}

theorem getElem?_eq (h : t.Extends s a) {i : Nat} (hi : i < s.arguments.length) :
    t.arguments[i]? = s.arguments[i]? := by
  rw [h.arguments, List.getElem?_append_left hi]

theorem getElem?_length (h : t.Extends s a) : t.arguments[s.arguments.length]? = some a := by
  rw [h.arguments, List.getElem?_concat_length]

/-- Other names than the new one stand for the same keywords. -/
theorem keywordIndex?_eq (h : t.Extends s a) (hs : s.Compiled) {name : String} (hname : name ≠ a.name) :
    t.keywordIndex? name = s.keywordIndex? name := by
  have hresolve : t.resolve? name = s.resolve? name := by
    have hnew : [(a.name, s.arguments.length)].lookup name = none := by
      simpa [List.lookup_eq_none_iff] using hname
    rw [resolve?, resolve?, h.lookup, List.lookup_append, hnew, Option.or_none]
  rw [keywordIndex?, keywordIndex?, hresolve]
  cases hi : s.resolve? name with
  | none => rfl
  | some i => rw [Option.filter_some, Option.filter_some, h.getElem?_eq (hs.lt_of_resolve? hi)]

/-- The keywords of an input that lacks the new one are resolved alike. -/
theorem resolve_eq (h : t.Extends s a) (hs : s.Compiled) {keywords : List (String × Option String)}
    (hlacks : ∀ text, (a.name, text) ∉ keywords) :
    Keywords.resolve t keywords = Keywords.resolve s keywords :=
  Keywords.resolve_congr fun _ text hmem =>
    h.keywordIndex?_eq hs fun hname => hlacks text (hname ▸ hmem)

end Signature.Extends

/-! ## Trails with an optional keyword more -/

namespace Search

theorem trail_of_isRun (s : Search) {n : Node} {units : List Node} (h : n.IsRun units) :
    s.trail n = Walk.sequence (units.map s.trail) := by
  rcases h with rfl | rfl
  · rw [trail, trails_eq_map]
    rfl
  · exact (Walk.sequence_singleton (s.trail n)).symm

/-- The walk passes over an optional group of a leaf that binds nothing. -/
theorem trail_of_leaf_eq_none {s : Search} {i : Nat} (h : ∀ p, s.leaf i p true = none) :
    s.trail (.group .and false [.leaf i]) = fun p _ => [.outcome p] := by
  funext p o
  simp [trail, trails, Walk.group, Walk.body, Walk.sequence, Walk.leaf, h, Trail.andThen,
    Trail.untilOutcome, Trail.begins]

/-- A keyword that an input lacks binds nothing. -/
theorem leaf_of_occurrences_eq_nil {s : Search} {i : Nat} {a : Argument}
    (ha : s.signature.arguments[i]? = some a) (hk : a.kind = .keyword)
    (hnone : s.keywords.occurrences i = []) (p : Progress) (o : Bool) : s.leaf i p o = none := by
  simp [leaf, ha, hk, hnone, keywordValue]

end Search

namespace Signature.Extends

variable {s t : Signature} {a : Argument}

/-- The roots have the same trail for an input that lacks the new keyword. -/
theorem trail_root (h : t.Extends s a) (hleaves : s.root.toNode.leaves = List.range s.arguments.length)
    {input : Input} (hkeywords : Keywords.resolve t input.keywords = Keywords.resolve s input.keywords)
    (types : TypeRegistry) (settings : EffectiveSettings) :
    (Search.of t input types settings).trail t.root.toNode =
      (Search.of s input types settings).trail s.root.toNode := by
  obtain ⟨units, hrun, hroot⟩ := h.root
  have hnone : (Keywords.resolve t input.keywords).occurrences s.arguments.length = [] := by
    rw [hkeywords]
    exact Keywords.occurrences_resolve_of_length_le (Nat.le_refl _)
  have habsent := Search.trail_of_leaf_eq_none fun p =>
    Search.leaf_of_occurrences_eq_nil (s := Search.of t input types settings) h.getElem?_length h.keyword
      hnone p true
  have hunits : (Search.of t input types settings).trail s.root.toNode =
      (Search.of s input types settings).trail s.root.toNode := by
    refine Search.trail_congr fun i hi => Search.leaf_congr (h.getElem?_eq ?_) rfl ?_ rfl rfl
    · rwa [hleaves, List.mem_range] at hi
    · exact congrArg (Keywords.occurrences · i) hkeywords
  rw [← hunits, Search.trail_of_isRun _ hrun, hroot, Group.toNode, Search.trail, Search.trails_eq_map,
    List.map_append, List.map_singleton, habsent]
  -- each outcome of the units is passed on as it is
  funext p o
  change Walk.sequence (_ ++ [_]) p o = _
  rw [Walk.sequence_append]
  exact Trail.andThen_outcome_self _

/-- The same keywords are present. -/
theorem length_present (h : t.Extends s a) {keywords : List (String × Option String)} :
    ((Keywords.resolve s keywords).present t.arguments.length).length =
      ((Keywords.resolve s keywords).present s.arguments.length).length := by
  have hnone : (Keywords.resolve s keywords).occurrences s.arguments.length = [] :=
    Keywords.occurrences_resolve_of_length_le (Nat.le_refl _)
  rw [h.arguments, List.length_append, List.length_singleton, Keywords.present, Keywords.present,
    List.range_succ, List.filter_append]
  simp [hnone]

/-- An input that lacks the new keyword matches alike. -/
theorem solve?_eq (h : t.Extends s a) {source : String} (hs : compile source = .ok s) {input : Input}
    (hlacks : ∀ text, (a.name, text) ∉ input.keywords) (types : TypeRegistry)
    (settings : EffectiveSettings) :
    (Search.of t input types settings).solve? = (Search.of s input types settings).solve? := by
  have hkeywords := h.resolve_eq (.text hs) hlacks
  refine Search.solve?_of_trail (congrArg Keywords.stray hkeywords) ?trail ?complete
  case trail => exact congrFun₂ (h.trail_root (numbered_of_compile hs).1 hkeywords types settings) {} false
  case complete =>
    funext p
    simp only [Search.isComplete, Search.of, hkeywords, h.length_present]

end Signature.Extends

/-- **An optional keyword more does not show in calls without it.** A text without operators outside of
its brackets compiles with an optional keyword at its end, if the keyword has a valid specifier and a new
name; and every input that lacks the keyword binds the same arguments to the same values in the same
order, or matches neither signature. -/
theorem Signature.exists_solve?_eq_of_optionalKeyword {source gap text name : String} {s : Signature}
    {specifier : Specifier} (h : compile source = .ok s) (houter : outerOperators source = [])
    (hgap : Blanks gap.toList) (hspells : Specifier.Spells (trimChars text.toList) specifier)
    (hname : isIdentifier name = true) (hnew : name ∉ s.arguments.map Argument.name) :
    ∃ t, compile (source ++ gap ++ optionalKeyword text name) = .ok t ∧
      t.arguments = s.arguments ++
        [{ name, kind := .keyword, type := specifier.type, shape := specifier.shape }] ∧
      ∀ (input : Input) (types : TypeRegistry) (settings : EffectiveSettings),
        (∀ value, (name, value) ∉ input.keywords) →
          (Search.of t input types settings).solve? = (Search.of s input types settings).solve? := by
  obtain ⟨t, ht, hextends⟩ := exists_extends h houter hgap hspells hname hnew
  exact ⟨t, ht, hextends.arguments, fun input types settings hlacks =>
    hextends.solve?_eq h hlacks types settings⟩

set_option maxRecDepth 2000 in
/-- A choice in brackets, and an optional list of numbers after it. -/
theorem Signature.exists_solve?_eq_of_optionalNumbers :
    ∃ s t, compile "[(int) n] <word | --flag>" = .ok s ∧
      outerOperators "[(int) n] <word | --flag>" = [] ∧
      compile "[(int) n] <word | --flag> [( int[] ) --sizes]" = .ok t ∧
      t.arguments.length = s.arguments.length + 1 ∧
      (Search.of t (Input.ofLine "7 --flag") {} {}).solve? =
        (Search.of s (Input.ofLine "7 --flag") {} {}).solve? ∧
      (Search.of s (Input.ofLine "7 --flag") {} {}).solve? = some [(0, .int 7), (2, .bool true)] := by
  let arguments : List Argument :=
    [{ name := "n", kind := .positional, type := .native .int, shape := .scalar },
      { name := "word", kind := .positional, type := .any, shape := .scalar },
      { name := "flag", kind := .keyword, type := .native .bool, shape := .scalar }]
  have hcompile : compile "[(int) n] <word | --flag>" = .ok
      { source := "[(int) n] <word | --flag>"
        root := ⟨[.group .and false [.leaf 0], .group .xor true [.leaf 1, .leaf 2]], .and, true⟩
        arguments
        lookup := nameTable arguments } := by cbv
  have houter : outerOperators "[(int) n] <word | --flag>" = [] := by cbv
  have hline : Input.ofLine "7 --flag" = ⟨["7"], [("flag", none)]⟩ := by cbv
  have hspells : Specifier.Spells (trimChars " int[] ".toList) ⟨.native .int, .greedy⟩ :=
    @Specifier.spells_of_ofChars _ 0 _ (by cbv)
  have hgap : Blanks " ".toList := List.all_eq_true.1 (by decide)
  obtain ⟨t, ht, harguments, hsolve⟩ := exists_solve?_eq_of_optionalKeyword hcompile houter hgap
    hspells (show isIdentifier "sizes" = true by cbv) (by decide)
  refine ⟨_, t, hcompile, houter, ht, ?_, hsolve _ _ _ ?_, ?_⟩
  · rw [harguments]
    rfl
  · rw [hline]
    simp
  · rw [hline]
    rfl

end Invocation
