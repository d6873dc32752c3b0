/-
  Chains of flags.

  * `chainText` is the text of flags with an operator between them,
    `chainNode` the tree that it stands for: the operators group from the
    left; `compile_chainText`: it compiles to this tree;
  * `sat_chainNode_or`, `sat_chainNode_xor`: a chain of `or` is satisfied by
    any flag, a chain of `xor` by exactly one;
  * `GivesFlags`: an input of flags, none of them twice;
    `fits_chain_iff`: which of them fit a chain;
  * `solve?_iff_fits`: the inputs that match a signature of keywords without
    optional groups, and what they bind, and the inputs that match chains.
-/
import Invocation.Proofs.Matching.Completeness
import Invocation.Proofs.Signature.Names

namespace Invocation

open Invocation.Text

/-! ## Texts of chains -/

/-- The text of flags with an operator between them. -/
def chainText (op : Operator) (names : List String) : String :=
  String.intercalate (String.ofList [' ', op.symbol, ' ']) (names.map ("--" ++ ·))

/-- The argument of a flag. -/
def flagArgument (name : String) : Argument where
  name
  kind := .keyword
  type := .native .bool
  shape := .scalar

/-- The characters of a flag. -/
def flagChars (name : String) : List Char := '-' :: '-' :: name.toList

/-- The characters of the flags after the first, each with the operator before it. -/
def tailChars (op : Operator) (names : List String) : List Char :=
  names.flatMap fun name => ' ' :: op.symbol :: ' ' :: flagChars name

/-- The lexemes of the flags after the first, each with the operator before it. -/
def tailLexemes (op : Operator) (names : List String) : List Lexeme :=
  names.flatMap fun name => [.operator op, .name (flagChars name)]

/-- The tree of a chain with `k` operators. They group from the left. -/
def chainNode (op : Operator) : Nat → Node
  | 0 => .leaf 0
  | k + 1 => .group op.combinator true [chainNode op k, .leaf (k + 1)]

variable {op : Operator} {name : String} {names : List String}

theorem toList_chainText (op : Operator) (name : String) (names : List String) :
    (chainText op (name :: names)).toList = flagChars name ++ tailChars op names := by
  induction names generalizing name with
  | nil => simp [chainText, tailChars, flagChars]
  | cons next rest ih =>
    have hrest := ih next
    simp only [chainText, List.map_cons, String.intercalate_cons_cons] at hrest ⊢
    simp only [String.toList_append, hrest]
    simp [tailChars, flagChars]

theorem isNameChar_of_mem_flagChars (h : isIdentifier name = true) :
    ∀ c ∈ flagChars name, isNameChar c = true := by
  have hname := List.all_eq_true.1 (all_isNameChar_of_isIdentifierChars h)
  have hhyphen : isNameChar '-' = true := by decide
  simpa [flagChars, hhyphen] using hname

theorem splits_tailChars (h : ∀ name ∈ names, isIdentifier name = true) :
    Lexeme.Splits (tailChars op names) (tailLexemes op names) := by
  induction names with
  | nil => exact .nil
  | cons name rest ih =>
    obtain ⟨hname, hrest⟩ := List.forall_mem_cons.1 h
    have hblank : isBlank ' ' = true := by decide
    refine .blank hblank (.operator op (.blank hblank (.name (List.cons_ne_nil _ _)
      (isNameChar_of_mem_flagChars hname) ?_ (ih hrest))))
    -- a flag ends before the blank in front of the next operator
    cases rest with
    | nil => simp
    | cons next rest => exact fun c hc => by cases hc; decide

theorem splits_chainText (h : ∀ n ∈ name :: names, isIdentifier n = true) :
    Lexeme.Splits (chainText op (name :: names)).toList
      (.name (flagChars name) :: tailLexemes op names) := by
  obtain ⟨hname, hnames⟩ := List.forall_mem_cons.1 h
  rw [toList_chainText]
  refine .name (List.cons_ne_nil _ _) (isNameChar_of_mem_flagChars hname) ?_ (splits_tailChars hnames)
  cases names with
  | nil => simp [tailChars]
  | cons next rest => exact fun c hc => by cases hc; decide

theorem derives_chain (h : ∀ n ∈ name :: names, isIdentifier n = true) :
    Derives .chain 0 (.name (flagChars name) :: tailLexemes op names) ((name :: names).map flagArgument)
      [chainNode op names.length] := by
  have hoperand : ∀ {n} first, isIdentifier n = true →
      Derives .operand first [.name (flagChars n)] [flagArgument n] [.leaf first] := fun first hn =>
    .single (.more .none (.leaf first (.switch (.keyword hn))))
  induction names using List.reverseRecOn with
  | nil => exact .operand (hoperand 0 (h name List.mem_cons_self))
  | append_singleton names last ih =>
    have hlast : isIdentifier last = true := h last (by simp)
    have hchain := ih fun n hn => h n (by
      rcases List.mem_cons.1 hn with rfl | hn
      · exact List.mem_cons_self
      · exact List.mem_cons_of_mem _ (List.mem_append_left _ hn))
    have hmore : Derives .chain 0 _ _ [.group op.combinator true _] :=
      .operator hchain (hoperand _ hlast)
    simpa [tailLexemes, chainNode] using hmore

/-- The signature of a chain of flags. -/
def chainSignature (op : Operator) (name : String) (names : List String) : Signature where
  source := trim (chainText op (name :: names))
  root := Group.ofRoot (chainNode op names.length)
  arguments := (name :: names).map flagArgument
  lookup := nameTable ((name :: names).map flagArgument)

theorem compile_chainText (hnodup : (name :: names).Nodup)
    (h : ∀ n ∈ name :: names, isIdentifier n = true) :
    Signature.compile (chainText op (name :: names)) = .ok (chainSignature op name names) := by
  refine Signature.compile_of_derives (splits_chainText h) (derives_chain h) ?_
  rw [List.map_map]
  simpa [Function.comp_def, flagArgument] using hnodup

/-! ## Trees of chains -/

section

variable {signature : Signature} {bound : Nat → Prop} {k : Nat}

theorem leaves_chainNode (op : Operator) (k : Nat) : (chainNode op k).leaves = List.range (k + 1) := by
  induction k with
  | zero => rfl
  | succ k ih => simp [chainNode, Node.leaves, Node.childLeaves, ih, List.range_succ]

theorem allRequired_chainNode (op : Operator) (k : Nat) : (chainNode op k).AllRequired := by
  induction k with
  | zero => simp [chainNode]
  | succ k ih => simp [chainNode, ih]

theorem untouched_chainNode_iff : Untouched bound (chainNode op k) ↔ ∀ i ≤ k, ¬ bound i := by
  simp [Untouched, leaves_chainNode]

theorem sat_leaf_iff {i : Nat} : Sat signature bound false (.leaf i) ↔ bound i :=
  ⟨fun h => by cases h; assumption, .bound⟩

/-- A required `or` group is satisfied if one of its children is, and all that are not are untouched. -/
theorem sat_or_iff {ns : List Node} :
    Sat signature bound false (.group .or true ns) ↔
      (∃ n ∈ ns, Sat signature bound false n) ∧
        ∀ n ∈ ns, Sat signature bound false n ∨ Untouched bound n := by
  constructor
  · intro h
    cases h with
    | @or _ _ _ m chosen hm hc hsat hu =>
      refine ⟨⟨m, hm, hsat m hm hc⟩, fun n hn => ?_⟩
      by_cases hchosen : chosen n
      · exact .inl (hsat n hn hchosen)
      · exact .inr (hu n hn hchosen)
  · rintro ⟨⟨m, hm, hsat⟩, hall⟩
    exact .or (Sat signature bound false) hm hsat (fun _ _ h => h)
      fun n hn hnot => (hall n hn).resolve_left hnot

/-- A required `xor` group of two children is satisfied by one of them if the other is untouched. -/
theorem sat_xor_iff {l r : Node} :
    Sat signature bound false (.group .xor true [l, r]) ↔
      (Sat signature bound false l ∧ Untouched bound r) ∨
        (Untouched bound l ∧ Sat signature bound false r) := by
  constructor
  · intro h
    generalize hns : [l, r] = ns at h
    cases h with
    | @xor _ _ m before after hsat hu =>
      match before with
      | [] =>
        obtain ⟨rfl, rfl⟩ := List.cons.inj hns
        exact .inl ⟨hsat, hu r (by simp)⟩
      | [_] =>
        obtain ⟨rfl, hrest⟩ := List.cons.inj hns
        obtain ⟨rfl, rfl⟩ := List.cons.inj hrest
        exact .inr ⟨hu l (by simp), hsat⟩
      | _ :: _ :: before => simp at hns
  · rintro (⟨hl, hr⟩ | ⟨hl, hr⟩)
    · exact @Sat.xor _ _ _ _ _ [] [r] hl (by simpa using hr)
    · exact @Sat.xor _ _ _ _ _ [l] [] hr (by simpa using hl)

theorem sat_chainNode_or : Sat signature bound false (chainNode .or k) ↔ ∃ i ≤ k, bound i := by
  induction k with
  | zero => simp [chainNode, sat_leaf_iff]
  | succ k ih =>
    have hleft : Sat signature bound false (chainNode .or k) ∨ Untouched bound (chainNode .or k) := by
      rw [ih, untouched_chainNode_iff]
      by_cases h : ∃ i ≤ k, bound i
      · exact .inl h
      · exact .inr fun i hi hb => h ⟨i, hi, hb⟩
    have hright : Sat signature bound false (.leaf (k + 1)) ∨ Untouched bound (.leaf (k + 1)) := by
      rw [sat_leaf_iff]
      by_cases h : bound (k + 1)
      · exact .inl h
      · exact .inr (by simpa [Untouched, Node.leaves] using h)
    have hall : ∀ n ∈ [chainNode .or k, .leaf (k + 1)], Sat signature bound false n ∨ Untouched bound n := by
      simp only [List.mem_pair, forall_eq_or_imp, forall_eq]
      exact ⟨hleft, hright⟩
    rw [chainNode, Operator.combinator, sat_or_iff, and_iff_left hall]
    simp only [List.mem_pair, exists_eq_left, ih, sat_leaf_iff, Nat.le_succ_iff,
      or_and_right, exists_or]

theorem sat_chainNode_xor :
    Sat signature bound false (chainNode .xor k) ↔ ∃ i ≤ k, bound i ∧ ∀ j ≤ k, bound j → j = i := by
  induction k with
  | zero => simp [chainNode, sat_leaf_iff]
  | succ k ih =>
    rw [chainNode, Operator.combinator, sat_xor_iff, ih, sat_leaf_iff, untouched_chainNode_iff]
    have hleaf : Untouched bound (.leaf (k + 1)) ↔ ¬ bound (k + 1) := by simp [Untouched, Node.leaves]
    rw [hleaf]
    constructor
    · rintro (⟨⟨i, hi, hb, honly⟩, hlast⟩ | ⟨hnone, hlast⟩)
      · refine ⟨i, Nat.le_succ_of_le hi, hb, fun j hj hbj => ?_⟩
        rcases Nat.le_succ_iff.1 hj with hj | rfl
        · exact honly j hj hbj
        · exact absurd hbj hlast
      · refine ⟨k + 1, Nat.le_refl _, hlast, fun j hj hbj => ?_⟩
        rcases Nat.le_succ_iff.1 hj with hj | rfl
        · exact absurd hbj (hnone j hj)
        · rfl
    · rintro ⟨i, hi, hb, honly⟩
      rcases Nat.le_succ_iff.1 hi with hi | rfl
      · refine .inl ⟨⟨i, hi, hb, fun j hj => honly j (Nat.le_succ_of_le hj)⟩, fun hlast => ?_⟩
        have heq := honly (k + 1) (Nat.le_refl _) hlast
        omega
      · refine .inr ⟨fun j hj hbj => ?_, hb⟩
        have heq := honly j (Nat.le_succ_of_le hj) hbj
        omega

/-- The root of a chain is satisfied as the chain is. -/
theorem sat_root_iff :
    Sat signature bound false (Group.ofRoot (chainNode op k)).toNode ↔
      Sat signature bound false (chainNode op k) := by
  cases k with
  | zero =>
    constructor
    · intro h
      cases h with
      | and h => exact h (.leaf 0) (List.mem_singleton_self _)
    · intro h
      refine .and fun n hn => ?_
      obtain rfl := List.mem_singleton.1 hn
      exact h
  | succ k => rfl

theorem allRequired_root (op : Operator) (k : Nat) : (Group.ofRoot (chainNode op k)).toNode.AllRequired := by
  cases k with
  | zero => simp [chainNode, Group.ofRoot, Group.toNode]
  | succ k => exact allRequired_chainNode op (k + 1)

end

/-! ## Inputs of flags -/

/-- An input of flags: it has no positional token, no flag stands in it twice, and the text of a flag, if
there is one, is a word for true or false. -/
structure GivesFlags (names : List String) (settings : EffectiveSettings) (input : Input) : Prop where
  positional : input.positional = []
  known : ∀ name ∈ input.keywords.map Prod.fst, name ∈ names
  nodup : (input.keywords.map Prod.fst).Nodup
  words : ∀ name text, (name, text) ∈ input.keywords → ∀ word ∈ text,
    settings.isTruthy word = true ∨ settings.isFalsy word = true

section

variable {input : Input} {types : TypeRegistry} {settings : EffectiveSettings} {n : String} {i : Nat}

theorem exists_keywordCast_iff {s : Search} {text : Option String} :
    (∃ value, s.keywordCast (.native .bool) text = some value) ↔
      ∀ word ∈ text, s.settings.isTruthy word = true ∨ s.settings.isFalsy word = true := by
  cases text with
  | none => simp [Search.keywordCast]
  | some word =>
    simp only [Search.keywordCast, Search.cast, TypeRegistry.cast, castNative, Option.mem_some,
      forall_eq']
    split
    · next htrue => simp [htrue]
    split
    · next hfalse => simp [hfalse]
    · next htrue hfalse => simp [htrue, hfalse]

/-- A flag has a value if it stands in the input once and its text, if there is one, is a word for true or
false. -/
theorem exists_takesKeyword_flag_iff {s : Search} {texts : List (Option String)} :
    (∃ value, s.TakesKeyword (flagArgument n) value texts) ↔
      ∃ text, texts = [text] ∧
        ∀ word ∈ text, s.settings.isTruthy word = true ∨ s.settings.isFalsy word = true := by
  simp only [← exists_keywordCast_iff]
  cases texts with
  | nil => simp [Search.TakesKeyword]
  | cons text rest =>
    simp only [Search.TakesKeyword, flagArgument, List.cons.injEq]
    constructor
    · rintro ⟨value, rfl, hvalue⟩
      exact ⟨text, ⟨rfl, rfl⟩, value, hvalue⟩
    · rintro ⟨_, ⟨rfl, rfl⟩, value, hvalue⟩
      exact ⟨value, rfl, hvalue⟩

theorem getElem?_arguments_chainSignature {a : Argument} :
    (chainSignature op name names).arguments[i]? = some a ↔
      ∃ n, (name :: names)[i]? = some n ∧ flagArgument n = a := by
  rw [chainSignature, List.getElem?_map, Option.map_eq_some_iff]

section

variable (hnodup : (name :: names).Nodup)

include hnodup

theorem resolve?_chainSignature :
    (chainSignature op name names).resolve? n = some i ↔ (name :: names)[i]? = some n := by
  have hkeys : (((name :: names).map flagArgument).map Argument.name) = name :: names := by
    rw [List.map_map]
    exact List.map_id _
  have hkeysNodup : ((nameTable ((name :: names).map flagArgument)).map Prod.fst).Nodup := by
    rw [Signature.map_fst_nameTable, hkeys]
    exact hnodup
  rw [Signature.resolve?, chainSignature, lookup_eq_some_iff_mem hkeysNodup, Signature.mem_nameTable]
  simp only [List.getElem?_map, Option.map_eq_some_iff]
  constructor
  · rintro ⟨_, ⟨m, hm, rfl⟩, rfl⟩
    exact hm
  · intro hn
    exact ⟨_, ⟨n, hn, rfl⟩, rfl⟩

theorem textsFor_chainSignature (hn : (name :: names)[i]? = some n) :
    (chainSignature op name names).textsFor input i =
      (input.keywords.filter (·.1 == n)).map Prod.snd := by
  have hresolve : ∀ m, (chainSignature op name names).resolve? m = some i ↔ m = n := by
    intro m
    rw [resolve?_chainSignature hnodup, hn, Option.some.injEq, eq_comm]
  simp only [Signature.textsFor, hresolve]
  induction input.keywords with
  | nil => rfl
  | cons pair rest ih =>
    by_cases h : pair.1 = n
    · simp [h, ih]
    · simp [h, ih]

theorem mem_textsFor_chainSignature (hn : (name :: names)[i]? = some n) {text : Option String} :
    text ∈ (chainSignature op name names).textsFor input i ↔ (n, text) ∈ input.keywords := by
  rw [textsFor_chainSignature hnodup hn]
  simp

theorem length_textsFor_chainSignature (hn : (name :: names)[i]? = some n) :
    ((chainSignature op name names).textsFor input i).length = (input.keywords.map Prod.fst).count n := by
  rw [textsFor_chainSignature hnodup hn, List.length_map, List.count, List.countP_map,
    List.countP_eq_length_filter]
  rfl

theorem textsFor_ne_nil_iff :
    (chainSignature op name names).textsFor input i ≠ [] ↔
      ∃ n ∈ input.keywords.map Prod.fst, (name :: names)[i]? = some n := by
  rw [Signature.textsFor_ne_nil]
  simp only [resolve?_chainSignature hnodup, List.mem_map, Prod.exists]
  constructor
  · rintro ⟨n, text, hmem, hn⟩
    exact ⟨n, ⟨n, text, hmem, rfl⟩, hn⟩
  · rintro ⟨_, ⟨n, text, hmem, rfl⟩, hn⟩
    exact ⟨n, text, hmem, hn⟩

/-- An input that fits a chain gives flags of the chain, each of them once. -/
theorem givesFlags_of_fits (h : Fits (chainSignature op name names) input types settings) :
    GivesFlags (name :: names) settings input := by
  have hknown : ∀ n text, (n, text) ∈ input.keywords → ∃ i : Nat, (name :: names)[i]? = some n := by
    intro n text hmem
    obtain ⟨i, hi, -⟩ := h.noStray n text hmem
    exact ⟨i, (resolve?_chainSignature hnodup).1 hi⟩
  have hone : ∀ n text, (n, text) ∈ input.keywords → (input.keywords.map Prod.fst).count n = 1 ∧
      ∀ word ∈ text, settings.isTruthy word = true ∨ settings.isFalsy word = true := by
    intro n text hmem
    obtain ⟨i, hi⟩ := hknown n text hmem
    have htext : text ∈ (chainSignature op name names).textsFor input i :=
      (mem_textsFor_chainSignature hnodup hi).2 hmem
    obtain ⟨text', htexts, hwords⟩ := exists_takesKeyword_flag_iff.1
      (h.values i _ (getElem?_arguments_chainSignature.2 ⟨n, hi, rfl⟩) (List.ne_nil_of_mem htext))
    rw [htexts, List.mem_singleton] at htext
    have hlength := (length_textsFor_chainSignature hnodup hi).symm.trans (congrArg List.length htexts)
    exact ⟨hlength, htext ▸ hwords⟩
  refine ⟨h.positional, fun n hn => ?_, List.nodup_iff_count_le_one.2 fun n => ?_,
    fun n text hmem => (hone n text hmem).2⟩
  · obtain ⟨⟨n, text⟩, hmem, rfl⟩ := List.mem_map.1 hn
    obtain ⟨i, hi⟩ := hknown n text hmem
    exact List.mem_of_getElem? hi
  · by_cases hn : n ∈ input.keywords.map Prod.fst
    · obtain ⟨⟨n, text⟩, hmem, rfl⟩ := List.mem_map.1 hn
      exact Nat.le_of_eq (hone n text hmem).1
    · rw [List.count_eq_zero_of_not_mem hn]
      exact Nat.zero_le 1

/-- Where an input gives flags of a chain, the occurrences of each of them have a value. -/
theorem exists_takesKeyword_of_givesFlags (h : GivesFlags (name :: names) settings input)
    {a : Argument} (ha : (chainSignature op name names).arguments[i]? = some a)
    (hne : (chainSignature op name names).textsFor input i ≠ []) :
    ∃ value, (Search.of (chainSignature op name names) input types settings).TakesKeyword a value
      ((chainSignature op name names).textsFor input i) := by
  obtain ⟨n, hn, rfl⟩ := getElem?_arguments_chainSignature.1 ha
  have hcount := List.nodup_iff_count_le_one.1 h.nodup n
  rw [← length_textsFor_chainSignature hnodup hn] at hcount
  obtain ⟨text, htexts⟩ := List.length_eq_one_iff.1 (Nat.le_antisymm hcount (List.length_pos_iff.2 hne))
  have htext : text ∈ (chainSignature op name names).textsFor input i := by
    rw [htexts]
    exact List.mem_singleton_self text
  exact exists_takesKeyword_flag_iff.2
    ⟨text, htexts, h.words n text ((mem_textsFor_chainSignature hnodup hn).1 htext)⟩

theorem fits_chain_iff :
    Fits (chainSignature op name names) input types settings ↔
      GivesFlags (name :: names) settings input ∧
        Sat (chainSignature op name names)
          (fun i => (chainSignature op name names).textsFor input i ≠ []) false
          (chainNode op names.length) := by
  constructor
  · exact fun h => ⟨givesFlags_of_fits hnodup h, sat_root_iff.1 h.sat⟩
  · rintro ⟨hflags, hsat⟩
    refine ⟨hflags.positional, fun n text hmem => ?_,
      fun i a ha hne => exists_takesKeyword_of_givesFlags hnodup hflags ha hne, sat_root_iff.2 hsat⟩
    obtain ⟨i, hi⟩ := List.mem_iff_getElem?.1 (hflags.known n (List.mem_map.2 ⟨_, hmem, rfl⟩))
    exact ⟨i, (resolve?_chainSignature hnodup).2 hi,
      Signature.isKeyword_iff.2 ⟨_, getElem?_arguments_chainSignature.2 ⟨n, hi, rfl⟩, rfl⟩⟩

/-- An input of flags satisfies a chain of `or` if there is a flag in it. -/
theorem sat_or_iff_of_givesFlags (h : GivesFlags (name :: names) settings input) :
    Sat (chainSignature .or name names)
        (fun i => (chainSignature .or name names).textsFor input i ≠ []) false
        (chainNode .or names.length) ↔ input.keywords ≠ [] := by
  simp only [sat_chainNode_or, textsFor_ne_nil_iff hnodup]
  constructor
  · rintro ⟨i, -, n, hn, -⟩ hnil
    rw [hnil] at hn
    cases hn
  · intro hne
    obtain ⟨pair, hmem⟩ := List.exists_mem_of_ne_nil _ hne
    have hn : pair.1 ∈ input.keywords.map Prod.fst := List.mem_map_of_mem hmem
    obtain ⟨i, hi⟩ := List.mem_iff_getElem?.1 (h.known pair.1 hn)
    obtain ⟨hlt, -⟩ := List.getElem?_eq_some_iff.1 hi
    exact ⟨i, Nat.le_of_lt_succ hlt, pair.1, hn, hi⟩

/-- An input of flags satisfies a chain of `xor` if there is one flag in it. -/
theorem sat_xor_iff_of_givesFlags (h : GivesFlags (name :: names) settings input) :
    Sat (chainSignature .xor name names)
        (fun i => (chainSignature .xor name names).textsFor input i ≠ []) false
        (chainNode .xor names.length) ↔ input.keywords.length = 1 := by
  have hindex : ∀ n ∈ input.keywords.map Prod.fst,
      ∃ i : Nat, i ≤ names.length ∧ (name :: names)[i]? = some n := by
    intro n hn
    obtain ⟨i, hi⟩ := List.mem_iff_getElem?.1 (h.known n hn)
    obtain ⟨hlt, -⟩ := List.getElem?_eq_some_iff.1 hi
    exact ⟨i, Nat.le_of_lt_succ hlt, hi⟩
  rw [sat_chainNode_xor, ← List.length_map Prod.fst]
  simp only [textsFor_ne_nil_iff hnodup]
  constructor
  · rintro ⟨i, hi, ⟨n, hn, hin⟩, honly⟩
    have hall : ∀ m ∈ input.keywords.map Prod.fst, m = n := by
      intro m hm
      obtain ⟨j, hj, hjm⟩ := hindex m hm
      rw [honly j hj ⟨m, hm, hjm⟩, hin, Option.some.injEq] at hjm
      exact hjm.symm
    have hle : (input.keywords.map Prod.fst).length ≤ 1 := by
      rw [← List.nodup_replicate (a := n), ← List.eq_replicate_of_mem hall]
      exact h.nodup
    exact Nat.le_antisymm hle (List.length_pos_of_mem hn)
  · intro hone
    obtain ⟨n, hn⟩ := List.length_eq_one_iff.1 hone
    rw [hn] at hindex ⊢
    obtain ⟨i, hi, hin⟩ := hindex n (List.mem_singleton_self n)
    refine ⟨i, hi, ⟨n, List.mem_singleton_self n, hin⟩, ?_⟩
    rintro j hj ⟨m, hm, hjm⟩
    obtain rfl := List.mem_singleton.1 hm
    exact (List.getElem?_inj (Nat.lt_succ_of_le hj) hnodup).1 (hjm.trans hin.symm)

end

end

/-! ## Matches of keywords -/

/-- **Matching is complete for signatures of keywords.** Without optional groups the inputs that fit are those
that match, and what is present is bound. A chain of flags with `or` between them accepts the inputs with at
least one of the flags, in any order and none of them twice, a chain with `xor` those with one of them. -/
theorem solve?_iff_fits :
    (∀ signature input types settings, signature.Compiled →
      (∀ a ∈ signature.arguments, a.kind = .keyword) →
      signature.root.toNode.AllRequired →
      ((∃ values, (Search.of signature input types settings).solve? = some values) ↔
          Fits signature input types settings) ∧
        ∀ values, (Search.of signature input types settings).solve? = some values →
          ∀ i, i ∈ values.map Prod.fst ↔ signature.textsFor input i ≠ []) ∧
    ∀ names : List String, names ≠ [] → names.Nodup → (∀ name ∈ names, isIdentifier name = true) →
      (∃ s, Signature.compile (chainText .or names) = .ok s ∧ ∀ input types settings,
        (∃ values, (Search.of s input types settings).solve? = some values) ↔
          GivesFlags names settings input ∧ input.keywords ≠ []) ∧
      ∃ s, Signature.compile (chainText .xor names) = .ok s ∧ ∀ input types settings,
        (∃ values, (Search.of s input types settings).solve? = some values) ↔
          GivesFlags names settings input ∧ input.keywords.length = 1 := by
  have hsolve : ∀ signature input types settings, signature.Compiled →
      (∀ a ∈ signature.arguments, a.kind = .keyword) →
      signature.root.toNode.AllRequired →
      ((∃ values, (Search.of signature input types settings).solve? = some values) ↔
        Fits signature input types settings) := fun signature input types settings hs hkind hrequired =>
    ⟨fun ⟨_, h⟩ => Search.fits_of_solve? hs hkind h, Search.exists_solve?_of_fits hs hkind hrequired⟩
  refine ⟨fun signature input types settings hs hkind hrequired =>
    ⟨hsolve signature input types settings hs hkind hrequired, fun values h =>
      (Search.bound_iff_of_solve? hs hkind h).2.2.2⟩, fun names hne hnodup hnames => ?_⟩
  obtain ⟨name, names, rfl⟩ := List.exists_cons_of_ne_nil hne
  have hchain : ∀ op input types settings,
      (∃ values, (Search.of (chainSignature op name names) input types settings).solve? = some values) ↔
        Fits (chainSignature op name names) input types settings := by
    intro op input types settings
    refine hsolve _ input types settings (.text (compile_chainText hnodup hnames)) ?_
      (allRequired_root op names.length)
    intro a ha
    obtain ⟨n, -, rfl⟩ := List.mem_map.1 ha
    rfl
  refine ⟨⟨_, compile_chainText hnodup hnames, fun input types settings => ?_⟩,
    ⟨_, compile_chainText hnodup hnames, fun input types settings => ?_⟩⟩
  · rw [hchain, fits_chain_iff hnodup]
    exact and_congr_right fun h => sat_or_iff_of_givesFlags hnodup h
  · rw [hchain, fits_chain_iff hnodup]
    exact and_congr_right fun h => sat_xor_iff_of_givesFlags hnodup h

/-- The signature of `<--a --b> | --c / --d`. -/
def groupedFlags : Signature where
  source := "<--a --b> | --c / --d"
  root := ⟨[.group .xor true [.group .and true [.leaf 0, .leaf 1], .leaf 2], .leaf 3], .or, true⟩
  arguments := ["a", "b", "c", "d"].map flagArgument
  lookup := [("a", 0), ("b", 1), ("c", 2), ("d", 3)]

/-- Flags of a group in any order, and a chain of `xor` with one of its flags and with two. -/
theorem solve?_iff_fits_of_flags :
    (∃ values, Signature.compile "<--a --b> | --c / --d" = .ok groupedFlags ∧
      (Search.of groupedFlags (Input.ofLine "--d --b --a") {} {}).solve? = some values ∧
      Fits groupedFlags (Input.ofLine "--d --b --a") {} {} ∧
      ∀ i, i ∈ values.map Prod.fst ↔ groupedFlags.textsFor (Input.ofLine "--d --b --a") i ≠ []) ∧
    ∃ s, Signature.compile (chainText .xor ["a", "b", "c"]) = .ok s ∧
      (∃ values, (Search.of s (Input.ofLine "--b") {} {}).solve? = some values) ∧
      ¬ ∃ values, (Search.of s (Input.ofLine "--c --a") {} {}).solve? = some values := by
  have hline : Input.ofLine "--d --b --a" = ⟨[], [("d", none), ("b", none), ("a", none)]⟩ := by cbv
  have hone : Input.ofLine "--b" = ⟨[], [("b", none)]⟩ := by cbv
  have htwo : Input.ofLine "--c --a" = ⟨[], [("c", none), ("a", none)]⟩ := by cbv
  have hcompile : Signature.compile "<--a --b> | --c / --d" = .ok groupedFlags := by cbv
  have hsolve : (Search.of groupedFlags (Input.ofLine "--d --b --a") {} {}).solve? =
      some [(0, .bool true), (1, .bool true), (3, .bool true)] := by
    rw [hline]
    rfl
  obtain ⟨hmatch, hchain⟩ := solve?_iff_fits
  obtain ⟨hfits, hbinds⟩ := hmatch groupedFlags (Input.ofLine "--d --b --a") {} {} (.text hcompile)
    (by decide) (by simp [groupedFlags, Group.toNode, Node.allRequired_group_iff])
  obtain ⟨-, s, hs, hxor⟩ := hchain ["a", "b", "c"] (by decide) (by decide) (by decide)
  refine ⟨⟨_, hcompile, hsolve, hfits.1 ⟨_, hsolve⟩, hbinds _ hsolve⟩, s, hs,
    (hxor _ {} {}).2 ?_, fun h => ?_⟩
  · rw [hone]
    exact ⟨⟨rfl, by decide, by decide, by simp⟩, rfl⟩
  · obtain ⟨-, hlength⟩ := (hxor _ {} {}).1 h
    rw [htwo] at hlength
    exact absurd hlength (by decide)

end Invocation
