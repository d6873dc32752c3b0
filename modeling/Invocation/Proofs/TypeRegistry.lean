/-
  The type that is inferred for a token.

  * `TypeRegistry.Registered`: a registry comes from the empty one by
    registering types; `Registered.proper`: so its symbols are distinct;
  * `TypeRegistry.precedence`: the registered symbols in the order in which
    they are tried; `inferCustom?_chain`: inference asks for them in turn;
  * `TypeRegistry.FirstCustom`, `FirstNative`: the first custom type that
    accepts and casts a token, and the first native type that casts it;
  * `TypeRegistry.Idle`: orders of types that differ by a symbol which is not
    registered, or stands earlier; `infer_of_idle`: it makes no difference;
  * `TypeRegistry.infer_eq_iff_first`: inference gives the first custom type,
    else the first native type, and casting to it gives the same value.
-/
import Invocation.Proofs.Dispatcher.Consistency
import Invocation.Proofs.Matching.Conformance
import Mathlib.Logic.Relation

namespace Invocation

open Invocation.Decimal

theorem CustomType.value?_eq_some_iff {t : CustomType} {token : String} {v : Value} :
    t.value? token = some v ↔
      ∃ data, t.accepts token = true ∧ t.cast token = .ok data ∧ v = .custom t.symbol data := by
  rw [value?]
  cases t.accepts token with
  | false => simp
  | true =>
    cases t.cast token with
    | ok data => simp [eq_comm]
    | error e => simp

namespace TypeRegistry

variable {r r' : TypeRegistry} {settings : EffectiveSettings} {token symbol : String} {data : Data}
  {v : Value}

/-! ## Registered types -/

/-- A registry comes from the empty one by registering types. -/
inductive Registered : TypeRegistry → Prop
  | empty : Registered {}
  | register {r r' t} (h : Registered r) (ht : r.register t = .ok r') : Registered r'

theorem Registered.proper (hr : r.Registered) : r.Proper := by
  induction hr with
  | empty => exact ⟨List.nodup_nil, nofun, nofun⟩
  | register _ ht ih => exact ih.register ht

/-- Where symbols are distinct, each type is the one registered under its symbol. -/
theorem get?_symbol_of_mem (hnodup : r.symbols.Nodup) {t : CustomType} (ht : t ∈ r.types) :
    r.get? t.symbol = some t := by
  obtain ⟨before, after, hsplit⟩ := List.append_of_mem ht
  refine List.find?_eq_some_iff_append.2 ⟨by simp, before, after, hsplit, fun u hu => ?_⟩
  rw [symbols, hsplit, List.map_append, List.map_cons, List.nodup_append] at hnodup
  simpa using hnodup.2.2 u.symbol (List.mem_map_of_mem hu) t.symbol List.mem_cons_self

/-- The registered types are those of all symbols in order. -/
theorem filterMap_get?_symbols (hnodup : r.symbols.Nodup) : r.symbols.filterMap r.get? = r.types := by
  rw [symbols, List.filterMap_map]
  calc r.types.filterMap (r.get? ∘ CustomType.symbol)
      = r.types.filterMap some := List.filterMap_congr fun t ht => get?_symbol_of_mem hnodup ht
    _ = r.types := List.filterMap_some

/-! ## Casts to custom types -/

/-- The type registered under a symbol accepts a token and casts it to data. -/
def Casts (r : TypeRegistry) (symbol token : String) (data : Data) : Prop :=
  ∃ t, r.get? symbol = some t ∧ t.accepts token = true ∧ t.cast token = .ok data

theorem cast_custom_eq_some_iff :
    r.cast settings (.custom symbol) token = some v ↔
      ∃ data, r.Casts symbol token data ∧ v = .custom symbol data := by
  rw [cast, Option.bind_eq_some_iff]
  constructor
  · rintro ⟨t, ht, hv⟩
    obtain ⟨data, haccepts, hcast, rfl⟩ := CustomType.value?_eq_some_iff.1 hv
    have hsymbol : t.symbol = symbol := by simpa using List.find?_some ht
    exact ⟨data, ⟨t, ht, haccepts, hcast⟩, by rw [hsymbol]⟩
  · rintro ⟨data, ⟨t, ht, haccepts, hcast⟩, rfl⟩
    have hsymbol : t.symbol = symbol := by simpa using List.find?_some ht
    exact ⟨t, ht, CustomType.value?_eq_some_iff.2 ⟨data, haccepts, hcast, by rw [hsymbol]⟩⟩

theorem cast_custom_eq_none_iff :
    r.cast settings (.custom symbol) token = none ↔ ∀ data, ¬ r.Casts symbol token data := by
  simp only [Option.eq_none_iff_forall_ne_some, ne_eq, cast_custom_eq_some_iff]
  constructor
  · exact fun h data hdata => h _ ⟨data, hdata, rfl⟩
  · rintro h _ ⟨data, hdata, -⟩
    exact h data hdata

/-! ## Precedence -/

/-- The symbols that inference tries, in order: all of them as they were registered, or those of the
configured order that are registered. -/
def precedence (r : TypeRegistry) (settings : EffectiveSettings) : List String :=
  match settings.typeOrder with
  | none => r.symbols
  | some order => order.filter r.contains

/-- Symbols that are not registered have no type to try. -/
theorem filterMap_get?_filter (order : List String) :
    (order.filter r.contains).filterMap r.get? = order.filterMap r.get? := by
  rw [List.filterMap_filter]
  refine List.filterMap_congr fun symbol _ => ?_
  rw [contains]
  cases r.get? symbol <;> rfl

theorem filterMap_get?_precedence (hnodup : r.symbols.Nodup) :
    (r.precedence settings).filterMap r.get? = r.chain settings := by
  rw [precedence, chain]
  cases settings.typeOrder with
  | none => exact filterMap_get?_symbols hnodup
  | some order => exact filterMap_get?_filter order

/-- A token gets the first custom type in the order of precedence to which it is cast. -/
theorem inferCustom?_chain (hnodup : r.symbols.Nodup) :
    inferCustom? (r.chain settings) token =
      (r.precedence settings).findSome? fun symbol =>
        (r.cast settings (.custom symbol) token).map (.custom symbol, ·) := by
  rw [inferCustom?, ← filterMap_get?_precedence hnodup]
  induction r.precedence settings with
  | nil => rfl
  | cons symbol rest ih =>
    rw [List.filterMap_cons, List.findSome?_cons, cast]
    cases hget : r.get? symbol with
    | none => exact ih
    | some t =>
      have hsymbol : t.symbol = symbol := by simpa using List.find?_some hget
      rw [List.findSome?_cons, ih, hsymbol, Option.bind_some]

/-- A symbol is the first one, in the order of precedence, whose type accepts and casts a token, and this
is the data that it is cast to. -/
structure FirstCustom (r : TypeRegistry) (settings : EffectiveSettings) (token symbol : String)
    (data : Data) : Prop where
  casts : r.Casts symbol token data
  first : ∃ before after, r.precedence settings = before ++ symbol :: after ∧
    ∀ earlier ∈ before, ∀ data, ¬ r.Casts earlier token data

theorem inferCustom?_eq_some_iff (hnodup : r.symbols.Nodup) {found : ArgumentType × Value} :
    inferCustom? (r.chain settings) token = some found ↔
      ∃ symbol data, r.FirstCustom settings token symbol data ∧
        found = (.custom symbol, .custom symbol data) := by
  simp only [inferCustom?_chain hnodup, List.findSome?_eq_some_iff, Option.map_eq_some_iff,
    Option.map_eq_none_iff, cast_custom_eq_none_iff, cast_custom_eq_some_iff]
  constructor
  · rintro ⟨before, symbol, after, hsplit, ⟨_, ⟨data, hcasts, rfl⟩, rfl⟩, hfirst⟩
    exact ⟨symbol, data, ⟨hcasts, before, after, hsplit, hfirst⟩, rfl⟩
  · rintro ⟨symbol, data, ⟨hcasts, before, after, hsplit, hfirst⟩, rfl⟩
    exact ⟨before, symbol, after, hsplit, ⟨_, ⟨data, hcasts, rfl⟩, rfl⟩, hfirst⟩

theorem inferCustom?_eq_none_iff (hnodup : r.symbols.Nodup) :
    inferCustom? (r.chain settings) token = none ↔
      ∀ symbol data, ¬ r.FirstCustom settings token symbol data := by
  simp only [Option.eq_none_iff_forall_ne_some, ne_eq, inferCustom?_eq_some_iff hnodup]
  constructor
  · exact fun h symbol data hfirst => h _ ⟨symbol, data, hfirst, rfl⟩
  · rintro h _ ⟨symbol, data, hfirst, -⟩
    exact h symbol data hfirst

/-! ## Native types -/

/-- A native type is the first one of `bool`, `int`, `float` and `str` that casts a token, and this is the
value. -/
def FirstNative (settings : EffectiveSettings) (token : String) (type : NativeType) (v : Value) : Prop :=
  castNative settings type token = some v ∧
    ∃ before after, [.bool, .int, .float, .str] = before ++ type :: after ∧
      ∀ earlier ∈ before, castNative settings earlier token = none

theorem inferNative?_eq_some_iff {found : ArgumentType × Value} :
    inferNative? settings token = some found ↔
      ∃ type v, FirstNative settings token type v ∧ found = (.native type, v) := by
  simp only [inferNative?, NativeType.inferenceOrder, List.findSome?_eq_some_iff,
    Option.map_eq_some_iff, Option.map_eq_none_iff]
  constructor
  · rintro ⟨before, type, after, hsplit, ⟨v, hcast, rfl⟩, hfirst⟩
    exact ⟨type, v, ⟨hcast, before, after, hsplit, hfirst⟩, rfl⟩
  · rintro ⟨type, v, ⟨hcast, before, after, hsplit, hfirst⟩, rfl⟩
    exact ⟨before, type, after, hsplit, ⟨v, hcast, rfl⟩, hfirst⟩

/-- Every token is cast to a native type, for it is a text. -/
theorem exists_firstNative (settings : EffectiveSettings) (token : String) :
    ∃ type v, FirstNative settings token type v := by
  have hsome : (inferNative? settings token).isSome = true :=
    List.findSome?_isSome_iff.2 ⟨.str, by decide, rfl⟩
  obtain ⟨found, hfound⟩ := Option.isSome_iff_exists.1 hsome
  obtain ⟨type, v, hfirst, -⟩ := inferNative?_eq_some_iff.1 hfound
  exact ⟨type, v, hfirst⟩

/-! ## Inference -/

/-- What is inferred is the first custom type or, if there is none, the first native type. -/
theorem infer_eq_iff (hnodup : r.symbols.Nodup) {found : ArgumentType × Value} :
    r.infer settings token = found ↔
      (∃ symbol data, r.FirstCustom settings token symbol data ∧
        found = (.custom symbol, .custom symbol data)) ∨
      (∀ symbol data, ¬ r.FirstCustom settings token symbol data) ∧
        ∃ type v, FirstNative settings token type v ∧ found = (.native type, v) := by
  obtain ⟨type, v, hnative⟩ := exists_firstNative settings token
  have hsome := inferNative?_eq_some_iff.2 ⟨type, v, hnative, rfl⟩
  rw [← inferCustom?_eq_some_iff hnodup, ← inferCustom?_eq_none_iff hnodup,
    ← inferNative?_eq_some_iff, infer, hsome]
  cases inferCustom? (r.chain settings) token with
  | none => simp
  | some found' => simp

/-- Casting to the type that is inferred gives the value that is inferred. -/
theorem cast_infer (hnodup : r.symbols.Nodup) (settings : EffectiveSettings) (token : String) :
    r.cast settings (r.infer settings token).1 token = some (r.infer settings token).2 := by
  rcases (infer_eq_iff hnodup).1 (Eq.refl (r.infer settings token)) with
    ⟨symbol, data, hfirst, hinfer⟩ | ⟨-, type, v, hfirst, hinfer⟩
  · rw [hinfer]
    exact cast_custom_eq_some_iff.2 ⟨data, hfirst.casts, rfl⟩
  · rw [hinfer]
    exact hfirst.1

/-! ## Orders that come to the same -/

/-- Of the settings, only the order of types decides which custom type is inferred. -/
theorem infer_congr_order {order order' : Option (List String)}
    (h : inferCustom? (r.chain { settings with typeOrder := order }) token =
      inferCustom? (r.chain { settings with typeOrder := order' }) token) :
    r.infer { settings with typeOrder := order } token =
      r.infer { settings with typeOrder := order' } token := by
  rw [infer, infer, h]
  rfl

theorem chain_some (order : List String) :
    r.chain { settings with typeOrder := some order } = order.filterMap r.get? := rfl

/-- Naming all types in the order of their registration is the same as naming no order. -/
theorem infer_symbols (hnodup : r.symbols.Nodup) :
    r.infer { settings with typeOrder := some r.symbols } token =
      r.infer { settings with typeOrder := none } token := by
  refine infer_congr_order ?_
  rw [chain_some, filterMap_get?_symbols hnodup]
  rfl

theorem inferCustom?_append (before after : List CustomType) :
    inferCustom? (before ++ after) token = (inferCustom? before token).or (inferCustom? after token) :=
  List.findSome?_append

/-- A type that is tried a second time decides nothing, since it refused the token the first time. -/
theorem inferCustom?_append_cons_of_mem {before after : List CustomType} {t : CustomType}
    (ht : t ∈ before) :
    inferCustom? (before ++ t :: after) token = inferCustom? (before ++ after) token := by
  rw [inferCustom?_append, inferCustom?_append]
  cases hbefore : inferCustom? before token with
  | some found => rfl
  | none =>
    have hrefused := List.findSome?_eq_none_iff.1 hbefore t ht
    rw [Option.none_or, Option.none_or, inferCustom?, List.findSome?_cons, hrefused]
    rfl

/-- An order of types gets one more symbol that has no part in inference: it is not registered, or it
stands earlier in the order. -/
inductive Idle (r : TypeRegistry) : List String → List String → Prop
  | unregistered (before after) {symbol} (h : symbol ∉ r.symbols) :
      Idle r (before ++ after) (before ++ symbol :: after)
  | repeated (before after) {symbol} (h : symbol ∈ before) :
      Idle r (before ++ after) (before ++ symbol :: after)

theorem infer_of_idle {order order' : List String} (h : r.Idle order order') :
    r.infer { settings with typeOrder := some order' } token =
      r.infer { settings with typeOrder := some order } token := by
  refine infer_congr_order ?_
  rw [chain_some, chain_some]
  cases h with
  | @unregistered before after symbol h =>
    have hget : r.get? symbol = none := by
      rw [← Option.not_isSome_iff_eq_none]
      exact fun hsome => h (contains_iff.1 hsome)
    rw [List.filterMap_append, List.filterMap_append, List.filterMap_cons, hget]
  | @repeated before after symbol h =>
    rw [List.filterMap_append, List.filterMap_append, List.filterMap_cons]
    cases hget : r.get? symbol with
    | none => rfl
    | some t => exact inferCustom?_append_cons_of_mem (List.mem_filterMap.2 ⟨symbol, h, hget⟩)

/-! ## What is inferred -/

/-- **Inference picks the first type that casts a token, and agrees with casting.** For a registry to which
types were registered and for any settings, a custom type is inferred exactly if it is the first one in the
order of precedence that accepts and casts the token; if there is none, a native type is inferred exactly if
it is the first one that casts the token, and there always is one. Casting the token to the type that is
inferred, or to any type, gives the value that is inferred, and its kind is the name of the type. The order
of registration may be named as the order of types, and symbols that are not registered or are repeated
later make no difference to an order. -/
theorem infer_eq_iff_first (hr : r.Registered) (settings : EffectiveSettings) (token : String) :
    (∀ symbol v, r.infer settings token = (.custom symbol, v) ↔
      ∃ data, r.FirstCustom settings token symbol data ∧ v = .custom symbol data) ∧
    (∀ type v, r.infer settings token = (.native type, v) ↔
      (∀ symbol data, ¬ r.FirstCustom settings token symbol data) ∧ FirstNative settings token type v) ∧
    (∃ type v, FirstNative settings token type v) ∧
    (∀ type v, r.infer settings token = (type, v) →
      type ≠ .any ∧ r.cast settings type token = some v ∧ r.cast settings .any token = some v ∧
        v.typeName = type.name) ∧
    r.infer { settings with typeOrder := some r.symbols } token =
      r.infer { settings with typeOrder := none } token ∧
    ∀ order order', Relation.ReflTransGen r.Idle order order' →
      r.infer { settings with typeOrder := some order' } token =
        r.infer { settings with typeOrder := some order } token := by
  have hnodup := hr.proper.nodup
  refine ⟨fun symbol v => ?_, fun type v => ?_, exists_firstNative settings token, fun type v hinfer => ?_,
    infer_symbols hnodup, fun order order' h => ?_⟩
  · rw [infer_eq_iff hnodup]
    simp [and_left_comm]
  · rw [infer_eq_iff hnodup]
    simp
  · obtain ⟨hne, htype⟩ := hasType_infer r settings token
    have hcast := cast_infer hnodup settings token
    rw [hinfer] at hne htype hcast
    exact ⟨hne, hcast, by rw [cast, hinfer], htype.typeName_eq hne⟩
  · induction h with
    | refl => rfl
    | tail _ hstep ih => rw [infer_of_idle hstep, ih]

/-- A type of numerals that casts the even ones only. -/
def evenType : CustomType where
  symbol := "even"
  accepts token := token.toList.all isDigit
  cast token := if token.toList.getLast?.any fun c => c.toNat % 2 = 0 then .ok (.text token) else .error "odd"

/-- A type of all numerals. -/
def digitsType : CustomType := ⟨"digits", fun token => token.toList.all isDigit, fun token => .ok (.text token)⟩

/-- An order of types with a symbol that is not registered and one that is repeated. The first type refuses
an odd numeral though its predicate accepts it, and the second one casts it. -/
theorem infer_eq_iff_first_digits :
    ∃ r₁ r, register {} evenType = .ok r₁ ∧ r₁.register digitsType = .ok r ∧ r.Registered ∧
      r.infer { typeOrder := some ["ghost", "even", "digits", "even"] } "35" =
        (.custom "digits", .custom "digits" (.text "35")) ∧
      r.FirstCustom { typeOrder := some ["ghost", "even", "digits", "even"] } "35" "digits" (.text "35") ∧
      r.cast { typeOrder := some ["ghost", "even", "digits", "even"] } .any "35" =
        some (.custom "digits" (.text "35")) ∧
      r.infer { typeOrder := some ["even", "digits"] } "35" =
        (.custom "digits", .custom "digits" (.text "35")) := by
  let r : TypeRegistry := ⟨[evenType, digitsType]⟩
  have h₁ : register {} evenType = .ok ⟨[evenType]⟩ := rfl
  have h : register ⟨[evenType]⟩ digitsType = .ok r := rfl
  have hr : r.Registered := .register (.register .empty h₁) h
  have hinfer : r.infer { typeOrder := some ["ghost", "even", "digits", "even"] } "35" =
      (.custom "digits", .custom "digits" (.text "35")) := rfl
  obtain ⟨hcustom, -, -, hcast, -, -⟩ := infer_eq_iff_first hr
    { typeOrder := some ["ghost", "even", "digits", "even"] } "35"
  obtain ⟨-, -, -, -, -, horder⟩ := infer_eq_iff_first hr {} "35"
  obtain ⟨data, hfirst, hdata⟩ := (hcustom _ _).1 hinfer
  cases hdata
  have hghost : r.Idle ["even", "digits"] ["ghost", "even", "digits"] := .unregistered [] _ (by decide)
  have heven : r.Idle ["ghost", "even", "digits"] ["ghost", "even", "digits", "even"] :=
    .repeated ["ghost", "even", "digits"] [] (by decide)
  exact ⟨_, r, h₁, h, hr, hinfer, hfirst, (hcast _ _ hinfer).2.2.1,
    (horder _ _ (.tail (.single hghost) heven)).symm.trans hinfer⟩

end TypeRegistry

end Invocation
