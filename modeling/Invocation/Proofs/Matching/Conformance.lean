/-
  Types and shapes of bound values.

  * `Value.HasType`, `Value.Conforms`: a value is of a type, and of the type
    and shape that an argument declares;
  * `TypeRegistry.hasType_cast`, `TypeRegistry.hasType_infer`: a token that is
    cast to a type has a value of the type, and a token whose type is inferred
    one of that type, which is a native or a custom one;
  * `Search.conforms_of_takes`, `conforms_of_takesKeyword`: so a value conforms
    to its argument, given by its position or by its name;
  * `Search.Runs.exists_takes`: where the tokens of an argument begin;
  * `Conforming` says what the values of a match are, and
    `conforming_of_solve?` that those of a full match are so.
-/
import Invocation.Proofs.Matching.Tokens
import Invocation.Proofs.Signature.Shape

namespace Invocation

/-! ## Types of values -/

namespace Value

/-- A value is of a type. Of any type is every value that is no list. -/
inductive HasType : Value → ArgumentType → Prop
  | bool (b) : HasType (.bool b) (.native .bool)
  | int (n) : HasType (.int n) (.native .int)
  | float (x) : HasType (.float x) (.native .float)
  | str (s) : HasType (.str s) (.native .str)
  | custom (symbol data) : HasType (.custom symbol data) (.custom symbol)
  | any {v} (h : ∀ items, v ≠ .list items) : HasType v .any

/-- A value has the type and the shape that an argument declares. A list has an item at least. -/
inductive Conforms (a : Argument) : Value → Prop
  | scalar {v} (hs : a.shape = .scalar) (h : v.HasType a.type) : Conforms a v
  | greedy {items} (hs : a.shape = .greedy) (hne : items ≠ []) (h : ∀ item ∈ items, item.HasType a.type) :
      Conforms a (.list items)
  | fixed {items count} (hs : a.shape = .fixed count) (hlength : items.length = count) (hne : items ≠ [])
      (h : ∀ item ∈ items, item.HasType a.type) : Conforms a (.list items)

/-- The values that single tokens contribute to a value. -/
def parts : Value → List Value
  | list items => items
  | v => [v]

variable {v : Value} {type : ArgumentType}

/-- No type has lists. -/
theorem HasType.ne_list (h : v.HasType type) (items : List Value) : v ≠ .list items := by
  cases h with
  | any h => exact h items
  | bool | int | float | str | custom => exact nofun

theorem HasType.any_of (h : v.HasType type) : v.HasType .any := .any h.ne_list

theorem HasType.parts_eq (h : v.HasType type) : v.parts = [v] := by
  cases v with
  | list items => exact absurd rfl (h.ne_list items)
  | bool | int | float | str | custom => rfl

/-- The kind of a value is the name of its type. -/
theorem HasType.typeName_eq (h : v.HasType type) (hne : type ≠ .any) : v.typeName = type.name := by
  cases h with
  | any h => exact absurd rfl hne
  | bool | int | float | str | custom => rfl

end Value

/-! ## Casts -/

theorem hasType_castNative {settings : EffectiveSettings} {type : NativeType} {token : String}
    {v : Value} (h : castNative settings type token = some v) : v.HasType (.native type) := by
  cases type with
  | bool =>
    rw [castNative] at h
    split at h
    · cases h; exact .bool true
    split at h
    · cases h; exact .bool false
    · cases h
  | int =>
    obtain ⟨n, -, rfl⟩ := Option.map_eq_some_iff.1 h
    exact .int n
  | float =>
    obtain ⟨x, -, rfl⟩ := Option.map_eq_some_iff.1 h
    exact .float x
  | str =>
    cases h
    exact .str token

theorem CustomType.hasType_value? {t : CustomType} {token : String} {v : Value}
    (h : t.value? token = some v) : v.HasType (.custom t.symbol) := by
  rw [value?] at h
  split at h
  · split at h
    · cases h
      exact .custom t.symbol _
    · cases h
  · cases h

namespace TypeRegistry

variable {r : TypeRegistry} {settings : EffectiveSettings}

/-- The type that is inferred for a token is a native or a custom one, and the value is of it. -/
theorem hasType_infer (r : TypeRegistry) (settings : EffectiveSettings) (token : String) :
    (r.infer settings token).1 ≠ .any ∧
      (r.infer settings token).2.HasType (r.infer settings token).1 := by
  rw [infer]
  cases hcustom : inferCustom? (r.chain settings) token with
  | some found =>
    obtain ⟨t, -, ht⟩ := List.exists_of_findSome?_eq_some hcustom
    obtain ⟨v, hv, rfl⟩ := Option.map_eq_some_iff.1 ht
    exact ⟨nofun, CustomType.hasType_value? hv⟩
  | none =>
    cases hnative : inferNative? settings token with
    | some found =>
      obtain ⟨t, -, ht⟩ := List.exists_of_findSome?_eq_some hnative
      obtain ⟨v, hv, rfl⟩ := Option.map_eq_some_iff.1 ht
      exact ⟨nofun, hasType_castNative hv⟩
    | none => exact ⟨nofun, .str token⟩

/-- A token that is cast to a type has a value of that type. -/
theorem hasType_cast {type : ArgumentType} {token : String} {v : Value}
    (h : r.cast settings type token = some v) : v.HasType type := by
  cases type with
  | any =>
    cases h
    exact (hasType_infer r settings token).2.any_of
  | native type => exact hasType_castNative h
  | custom symbol =>
    obtain ⟨t, ht, hv⟩ := Option.bind_eq_some_iff.1 h
    have hsymbol := List.find?_some (p := fun t : CustomType => t.symbol == symbol) ht
    exact eq_of_beq hsymbol ▸ CustomType.hasType_value? hv

end TypeRegistry

namespace Search

variable {s : Search} {a : Argument} {value : Value}

/-- A keyword without text is true, where any type or a boolean is declared. -/
theorem keywordCast_none {type : ArgumentType} (h : s.keywordCast type none = some value) :
    value = .bool true ∧ (type = .any ∨ type = .native .bool) := by
  rw [keywordCast] at h
  split at h
  · next htype => exact ⟨(Option.some.inj h).symm, by simpa using htype⟩
  · cases h

theorem hasType_keywordCast {type : ArgumentType} {text : Option String}
    (h : s.keywordCast type text = some value) : value.HasType type := by
  cases text with
  | some token => exact TypeRegistry.hasType_cast h
  | none =>
    obtain ⟨rfl, rfl | rfl⟩ := keywordCast_none h
    · exact (Value.HasType.bool true).any_of
    · exact .bool true

/-! ## Items of lists -/

/-- The name of the type that items of any type have after the first one. -/
def itemTypeName (types : TypeRegistry) (settings : EffectiveSettings) : Option String → String
  | some token => (types.infer settings token).1.name
  | none => "bool"

theorem itemType_any (s : Search) (first : Option String) :
    s.itemType .any first ≠ .any ∧ (s.itemType .any first).name = itemTypeName s.types s.settings first := by
  cases first with
  | some token => exact ⟨(TypeRegistry.hasType_infer s.types s.settings token).1, rfl⟩
  | none => exact ⟨nofun, rfl⟩

/-- What is of the type of items is of the declared type. -/
theorem hasType_of_itemType {type : ArgumentType} {first : Option String}
    (h : value.HasType (s.itemType type first)) : value.HasType type := by
  cases type with
  | any => exact h.any_of
  | native | custom => exact h

/-- Items of any type have the kind of the first one. -/
theorem typeName_of_itemType {first : Option String} (h : value.HasType (s.itemType .any first)) :
    value.typeName = itemTypeName s.types s.settings first := by
  obtain ⟨hne, hname⟩ := s.itemType_any first
  rw [h.typeName_eq hne, hname]

/-- What holds of the values that are cast holds of all items. -/
theorem forall_items {α : Type} {cast : α → Option Value} {P : Value → Prop} {xs : List α}
    {items : List Value} (h : List.Forall₂ (fun x item => cast x = some item) xs items)
    (hcast : ∀ x item, cast x = some item → P item) : ∀ item ∈ items, P item := by
  induction h with
  | nil => exact fun _ hitem => absurd hitem List.not_mem_nil
  | cons hitem _ ih => exact List.forall_mem_cons.2 ⟨hcast _ _ hitem, ih⟩

theorem ne_nil_of_forall₂ {α β : Type} {R : α → β → Prop} {xs : List α} {ys : List β}
    (h : List.Forall₂ R xs ys) (hne : xs ≠ []) : ys ≠ [] := by
  rintro rfl
  exact hne (List.forall₂_nil_right_iff.1 h)

/-! ## Values of arguments -/

/-- What a run of tokens stands for conforms to the argument. -/
theorem conforms_of_takes {run rest : List String} (hsize : ∀ count, a.shape = .fixed count → 1 ≤ count)
    (h : s.Takes a value run rest) : value.Conforms a := by
  rw [Takes] at h
  split at h
  · next hshape =>
    obtain ⟨token, -, hcast⟩ := h
    exact .scalar hshape (TypeRegistry.hasType_cast hcast)
  · next count hshape =>
    obtain ⟨hlength, items, rfl, hitems⟩ := h
    have hrun : run ≠ [] := List.ne_nil_of_length_pos (hlength ▸ hsize count hshape)
    exact .fixed hshape (hitems.length_eq ▸ hlength) (ne_nil_of_forall₂ hitems hrun)
      (forall_items hitems fun _ _ h => hasType_of_itemType (TypeRegistry.hasType_cast h))
  · next hshape =>
    obtain ⟨hrun, -, items, rfl, hitems⟩ := h
    exact .greedy hshape (ne_nil_of_forall₂ hitems hrun)
      (forall_items hitems fun _ _ h => TypeRegistry.hasType_cast h)

/-- What the occurrences of a keyword stand for conforms to the argument. -/
theorem conforms_of_takesKeyword {texts : List (Option String)} (h : s.TakesKeyword a value texts) :
    value.Conforms a := by
  cases texts with
  | nil => exact absurd h id
  | cons first rest =>
    rw [TakesKeyword] at h
    split at h
    · next hshape => exact .scalar hshape (hasType_keywordCast h.2)
    · next count hshape =>
      obtain ⟨hlength, items, rfl, hitems⟩ := h
      exact .fixed hshape (hitems.length_eq ▸ hlength) (ne_nil_of_forall₂ hitems (List.cons_ne_nil _ _))
        (forall_items hitems fun _ _ h => hasType_of_itemType (hasType_keywordCast h))
    · next hshape =>
      obtain ⟨items, rfl, hitems⟩ := h
      exact .greedy hshape (ne_nil_of_forall₂ hitems (List.cons_ne_nil _ _))
        (forall_items hitems fun _ _ h => hasType_keywordCast h)

/-- A value has a part for each token that it stands for. -/
theorem length_parts_of_takes {run rest : List String} (h : s.Takes a value run rest) :
    value.parts.length = run.length := by
  rw [Takes] at h
  split at h
  · obtain ⟨token, rfl, hcast⟩ := h
    rw [(TypeRegistry.hasType_cast hcast).parts_eq]
    rfl
  · obtain ⟨-, items, rfl, hitems⟩ := h
    exact hitems.length_eq.symm
  · obtain ⟨-, -, items, rfl, hitems⟩ := h
    exact hitems.length_eq.symm

/-- A value has a part for each occurrence of its keyword, and for one without text the part is true. -/
theorem parts_of_takesKeyword {texts : List (Option String)} (h : s.TakesKeyword a value texts) :
    List.Forall₂ (fun text part => text = none → part = .bool true ∧ (a.type = .any ∨ a.type = .native .bool))
      texts value.parts := by
  cases texts with
  | nil => exact absurd h id
  | cons first rest =>
    rw [TakesKeyword] at h
    split at h
    · obtain ⟨rfl, hcast⟩ := h
      rw [(hasType_keywordCast hcast).parts_eq]
      refine .cons (fun htext => ?_) .nil
      exact keywordCast_none (htext ▸ hcast)
    · obtain ⟨-, items, rfl, hitems⟩ := h
      refine hitems.imp fun text item hcast htext => ?_
      obtain ⟨hitem, htype⟩ := keywordCast_none (htext ▸ hcast)
      refine ⟨hitem, ?_⟩
      cases hdeclared : a.type with
      | any => exact .inl rfl
      | native | custom =>
        rw [hdeclared] at htype
        exact htype
    · obtain ⟨items, rfl, hitems⟩ := h
      exact hitems.imp fun text item hcast htext => keywordCast_none (htext ▸ hcast)

/-- The items of a list of fixed length and any type have the kind of the first token. -/
theorem typeName_of_takes {run rest : List String} {count : Nat} (htype : a.type = .any)
    (hshape : a.shape = .fixed count) (h : s.Takes a value run rest) :
    ∀ part ∈ value.parts, part.typeName = itemTypeName s.types s.settings run.head? := by
  simp only [Takes, hshape, htype] at h
  obtain ⟨-, items, rfl, hitems⟩ := h
  exact forall_items hitems fun _ _ h => typeName_of_itemType (TypeRegistry.hasType_cast h)

/-- The items of a list of fixed length and any type have the kind of the first occurrence. -/
theorem typeName_of_takesKeyword {texts : List (Option String)} {count : Nat} (htype : a.type = .any)
    (hshape : a.shape = .fixed count) (h : s.TakesKeyword a value texts) :
    ∃ first, texts.head? = some first ∧
      ∀ part ∈ value.parts, part.typeName = itemTypeName s.types s.settings first := by
  cases texts with
  | nil => exact absurd h id
  | cons first rest =>
    simp only [TakesKeyword, hshape, htype] at h
    obtain ⟨-, items, rfl, hitems⟩ := h
    exact ⟨first, rfl, forall_items hitems fun _ _ h => typeName_of_itemType (hasType_keywordCast h)⟩

end Search

/-! ## Tokens of arguments -/

namespace Signature

/-- The number of positional tokens that bound arguments take. -/
def tokensOf (signature : Signature) (bound : List (Nat × Value)) : Nat :=
  ((bound.filter fun entry => !signature.isKeyword entry.1).map fun entry => entry.2.parts.length).sum

/-- The text of the first token or keyword that the argument at an index stands for, when it is bound
after others. A keyword may have no text. -/
def firstText? (signature : Signature) (input : Input) (before : List (Nat × Value)) (index : Nat) :
    Option (Option String) :=
  if signature.isKeyword index then (signature.textsFor input index).head?
  else (input.positional[signature.tokensOf before]?).map some

end Signature

/-- The tokens of a positional argument begin behind those of the arguments that are bound before it. -/
theorem Search.Runs.exists_takes {s : Search} {before after : List (Nat × Value)} {i : Nat}
    {value : Value} {a : Argument} {tokens rest : List String}
    (h : s.Runs (before ++ (i, value) :: after) tokens rest) (ha : s.signature.arguments[i]? = some a)
    (hk : a.kind = .positional) :
    ∃ run rest', tokens.drop (s.signature.tokensOf before) = run ++ rest' ∧ s.Takes a value run rest' := by
  induction before generalizing tokens with
  | nil =>
    cases h with
    | positional ha' _ ht _ =>
      obtain rfl := Option.some.inj (ha.symm.trans ha')
      exact ⟨_, _, rfl, ht⟩
    | keyword ha' hk' _ _ =>
      obtain rfl := Option.some.inj (ha.symm.trans ha')
      exact absurd (hk.symm.trans hk') nofun
  | cons entry before ih =>
    cases h with
    | @positional j b v _ run tokens' _ hb hkb ht hrest =>
      obtain ⟨run', rest', htokens, htakes⟩ := ih hrest
      have hcount : s.signature.tokensOf ((j, v) :: before) =
          run.length + s.signature.tokensOf before := by
        simp [Signature.tokensOf, Signature.isKeyword_eq_false hb hkb, length_parts_of_takes ht]
      refine ⟨run', rest', ?_, htakes⟩
      rw [hcount, ← List.drop_drop, List.drop_left, htokens]
    | @keyword j b v _ _ _ hb hkb _ hrest =>
      have hcount : s.signature.tokensOf ((j, v) :: before) = s.signature.tokensOf before := by
        simp [Signature.tokensOf, Signature.isKeyword_iff.2 ⟨b, hb, hkb⟩]
      rw [hcount]
      exact ih hrest

/-! ## Full matches -/

/-- The values of a match have the types and shapes that are declared. -/
structure Conforming (signature : Signature) (input : Input) (types : TypeRegistry)
    (settings : EffectiveSettings) (values : List (Nat × Value)) : Prop where
  /-- Every value conforms to its argument. -/
  conforms : ∀ i value, (i, value) ∈ values →
    ∃ a, signature.arguments[i]? = some a ∧ value.Conforms a
  /-- The items of a list of fixed length and any type are of one kind: that of the type that is
  inferred for the first token. A first keyword without text is a boolean. -/
  uniform : ∀ before i value after a count, values = before ++ (i, value) :: after →
    signature.arguments[i]? = some a → a.type = .any → a.shape = .fixed count →
    ∃ first, signature.firstText? input before i = some first ∧
      ∀ part ∈ value.parts, part.typeName = Search.itemTypeName types settings first
  /-- A keyword without text contributes true, where any type or a boolean is declared. -/
  switches : ∀ i value a, (i, value) ∈ values → signature.arguments[i]? = some a → a.kind = .keyword →
    List.Forall₂ (fun text part => text = none →
      part = .bool true ∧ (a.type = .any ∨ a.type = .native .bool)) (signature.textsFor input i) value.parts

/-- **The values of a full match have the types and shapes that their arguments declare.** -/
theorem conforming_of_solve? {signature : Signature} {input : Input} {types : TypeRegistry}
    {settings : EffectiveSettings} {values : List (Nat × Value)} (hs : signature.Compiled)
    (h : (Search.of signature input types settings).solve? = some values) :
    Conforming signature input types settings values := by
  have hruns := (Search.exhausts_of_solve? hs h).runs
  have htexts : ∀ {i value a}, (i, value) ∈ values → signature.arguments[i]? = some a →
      a.kind = .keyword →
      (Search.of signature input types settings).TakesKeyword a value (signature.textsFor input i) :=
    fun hmem ha hk => Keywords.occurrences_resolve (Signature.isKeyword_iff.2 ⟨_, ha, hk⟩) ▸
      hruns.takesKeyword hmem ha hk
  constructor
  case conforms =>
    intro i value hmem
    have hlt : i < signature.arguments.length :=
      List.mem_range.1 ((Search.exhausts_of_solve? hs h).order.mem (List.mem_map_of_mem hmem))
    have ha : signature.arguments[i]? = some signature.arguments[i] := List.getElem?_eq_getElem hlt
    refine ⟨signature.arguments[i], ha, ?_⟩
    cases hk : signature.arguments[i].kind with
    | positional =>
      obtain ⟨before, after, rfl⟩ := List.append_of_mem hmem
      obtain ⟨run, rest, -, htakes⟩ := hruns.exists_takes ha hk
      exact Search.conforms_of_takes (fun _ => hs.one_le_size (List.getElem_mem hlt)) htakes
    | keyword => exact Search.conforms_of_takesKeyword (htexts hmem ha hk)
  case uniform =>
    rintro before i value after a count rfl ha htype hshape
    cases hk : a.kind with
    | positional =>
      obtain ⟨run, rest, htokens, htakes⟩ := hruns.exists_takes ha hk
      have hkinds := Search.typeName_of_takes htype hshape htakes
      have hsize := hs.one_le_size (List.mem_of_getElem? ha) hshape
      have hlength : run.length = count := by
        simp only [Search.Takes, hshape] at htakes
        exact htakes.1
      cases run with
      | nil =>
        rw [← hlength] at hsize
        exact absurd hsize (Nat.not_succ_le_zero 0)
      | cons token run =>
        have hfirst : input.positional[signature.tokensOf before]? = some token := by
          have hdrop := congrArg List.head? htokens
          rwa [List.head?_drop] at hdrop
        exact ⟨some token, by
          rw [Signature.firstText?, Signature.isKeyword_eq_false ha hk, hfirst]
          rfl, hkinds⟩
    | keyword =>
      have hmem : (i, value) ∈ before ++ (i, value) :: after := by simp
      obtain ⟨first, hfirst, hkinds⟩ := Search.typeName_of_takesKeyword htype hshape (htexts hmem ha hk)
      refine ⟨first, ?_, hkinds⟩
      rw [Signature.firstText?, if_pos (Signature.isKeyword_iff.2 ⟨a, ha, hk⟩), hfirst]
  case switches =>
    exact fun i value a hmem ha hk => Search.parts_of_takesKeyword (htexts hmem ha hk)

set_option maxRecDepth 2000 in
/-- Two numbers of any type, two booleans of any type of which one is a keyword without text, and a text. -/
theorem conforming_of_pairs_and_rest :
    ∃ signature values, Signature.compile "(any[2]) pair [(any[2]) --flag] (str[]) rest" = .ok signature ∧
      (Search.of signature (Input.ofLine "1 2 --flag x --flag=no") {} {}).solve? = some values ∧
      Conforming signature (Input.ofLine "1 2 --flag x --flag=no") {} {} values := by
  have hcompile : Signature.compile "(any[2]) pair [(any[2]) --flag] (str[]) rest" = .ok
      { source := "(any[2]) pair [(any[2]) --flag] (str[]) rest"
        root := ⟨[.leaf 0, .group .and false [.leaf 1], .leaf 2], .and, true⟩
        arguments :=
          [{ name := "pair", kind := .positional, type := .any, shape := .fixed 2 },
            { name := "flag", kind := .keyword, type := .any, shape := .fixed 2 },
            { name := "rest", kind := .positional, type := .native .str, shape := .greedy }]
        lookup := [("pair", 0), ("flag", 1), ("rest", 2)] } := by cbv
  have hline : Input.ofLine "1 2 --flag x --flag=no" =
      ⟨["1", "2", "x"], [("flag", none), ("flag", some "no")]⟩ := by cbv
  refine ⟨_, [(0, .list [.int 1, .int 2]), (1, .list [.bool true, .bool false]), (2, .list [.str "x"])],
    hcompile, ?solve, conforming_of_solve? (.text hcompile) ?solve⟩
  rw [hline]
  cbv

end Invocation
