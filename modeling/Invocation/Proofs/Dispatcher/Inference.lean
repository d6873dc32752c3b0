/-
  What a call owes to the way types are inferred.

  Types are inferred for arguments of any type only: the custom types are
  tried in the order of their registration, or in the order that the settings
  give. A call of a command that names the types of all its arguments does
  not depend on this.

  * `Command.Annotated`: no argument of a command is of any type;
  * `Dispatcher.Reconfigured`: a dispatcher comes from another by giving the
    settings, or those of one command, another order of types or none, and by
    registering types; `exists_unaltered`: what stays as it is for the command;
  * `Search.solve?_of_annotated`: if no argument is of any type, a search
    depends on the types of its arguments and on the words for true and false;
  * `resolve_of_registerType`: a new type that the order of types in force
    does not name makes no difference to any command;
  * `resolve_of_reconfigured`: both for the calls of a command.
-/
import Invocation.Proofs.Dispatcher.Consistency
import Mathlib

namespace Invocation

/-! ## Other orders of types -/

/-- A layer of settings with another order of types, or with none. -/
def Settings.reordered (layer : Settings) (order : Option (List String)) : Settings :=
  { layer with typeOrder := order }

/-- A command with another order of types in its own layer of settings, which it is given if it has none. -/
def Command.reordered (c : Command) (order : Option (List String)) : Command :=
  { c with settings := some ((c.settings.getD {}).reordered order) }

/-- No argument of a command is of any type. -/
def Command.Annotated (c : Command) : Prop := ∀ s ∈ c.signatures, ∀ a ∈ s.arguments, a.type ≠ .any

namespace EffectiveSettings

theorem resolve_reordered_global (local_ : Option Settings) (global : Settings)
    (order : Option (List String)) :
    ∃ order', resolve local_ (global.reordered order) =
      { resolve local_ global with typeOrder := order' } :=
  ⟨_, rfl⟩

theorem resolve_reordered_local (local_ : Option Settings) (global : Settings)
    (order : Option (List String)) :
    ∃ order', resolve (some ((local_.getD {}).reordered order)) global =
      { resolve local_ global with typeOrder := order' } := by
  cases local_ with
  | none => exact ⟨_, rfl⟩
  | some layer => exact ⟨_, rfl⟩

end EffectiveSettings

namespace Dispatcher

/-- A dispatcher with another order of types in its global settings. -/
def reordered (d : Dispatcher) (order : Option (List String)) : Dispatcher :=
  { d with settings := d.settings.reordered order }

/-- Dispatchers that come from one by changing how types are inferred for the command with a name. -/
inductive Reconfigured (name : String) (d : Dispatcher) : Dispatcher → Prop
  | refl : Reconfigured name d d
  /-- The global settings get another order of types, or none. -/
  | ofGlobal {d'} (h : Reconfigured name d d') (order : Option (List String)) :
      Reconfigured name d (d'.reordered order)
  /-- The settings of the command get another order of types, or none. -/
  | ofLocal {d' c} (h : Reconfigured name d d') (hc : d'.command? name = some c)
      (order : Option (List String)) : Reconfigured name d (d'.file name (c.reordered order))
  /-- One more type is registered. -/
  | ofType {d' d'' t} (h : Reconfigured name d d') (ht : d'.registerType t = .ok d'') :
      Reconfigured name d d''

end Dispatcher

/-! ## Registered types -/

namespace TypeRegistry

variable {r r' : TypeRegistry} {t : CustomType} {symbol : String}

theorem get?_register_of_ne (h : r.register t = .ok r') (hne : symbol ≠ t.symbol) :
    r'.get? symbol = r.get? symbol := by
  obtain ⟨-, -, -, rfl⟩ := register_eq_ok h
  have hbeq : (t.symbol == symbol) = false := beq_false_of_ne (Ne.symm hne)
  simp [get?, List.find?_append, hbeq]

/-- A type that is registered is not displaced by a new one. -/
theorem get?_register_of_some (h : r.register t = .ok r') {u : CustomType} (hu : r.get? symbol = some u) :
    r'.get? symbol = some u := by
  obtain ⟨-, -, -, rfl⟩ := register_eq_ok h
  rw [get?] at hu
  simp [get?, List.find?_append, hu]

/-- Types that are not named in the order in force are not tried. -/
theorem infer_register {settings : EffectiveSettings} {order : List String}
    (horder : settings.typeOrder = some order) (h : r.register t = .ok r') (hnew : t.symbol ∉ order) :
    r'.infer settings = r.infer settings := by
  have hchain : r'.chain settings = r.chain settings := by
    simp only [chain, horder]
    refine List.filterMap_congr fun symbol hsymbol => get?_register_of_ne h ?_
    rintro rfl
    exact hnew hsymbol
  funext token
  rw [infer, infer, hchain]

end TypeRegistry

/-! ## Searches -/

namespace Search

/-- Where no argument is of any type, items have the type of their argument. -/
theorem itemType_of_ne_any (s : Search) {type : ArgumentType} (h : type ≠ .any) (first : Option String) :
    s.itemType type first = type := by
  cases type with
  | any => exact absurd rfl h
  | native type => rfl
  | custom symbol => rfl

theorem CastsTo.exists_argument {s : Search} {type : ArgumentType}
    (hany : ∀ a ∈ s.signature.arguments, a.type ≠ .any) (h : s.CastsTo type) :
    ∃ a ∈ s.signature.arguments, a.type = type := by
  cases h with
  | argument ha => exact ⟨_, ha, rfl⟩
  | items ha first => exact ⟨_, ha, (s.itemType_of_ne_any (hany _ ha) first).symm⟩

/-- Where no argument is of any type, neither the order of types nor types that the signature does not name
make a difference. -/
theorem solve?_of_annotated {signature : Signature} {types types' : TypeRegistry}
    (hany : ∀ a ∈ signature.arguments, a.type ≠ .any)
    (htypes : ∀ a ∈ signature.arguments, ∀ symbol, a.type = .custom symbol →
      types'.get? symbol = types.get? symbol)
    (input : Input) (settings : EffectiveSettings) (order : Option (List String)) :
    (Search.of signature input types' { settings with typeOrder := order }).solve? =
      (Search.of signature input types settings).solve? := by
  refine solve?_of_agree ⟨rfl, rfl, fun _ => rfl, ?_, ?_⟩ rfl
  · intro a ha
    funext first
    rw [itemType_of_ne_any _ (hany a ha), itemType_of_ne_any _ (hany a ha)]
  · intro type htype
    obtain ⟨a, ha, rfl⟩ := htype.exists_argument hany
    funext token
    have hne := hany a ha
    have hget := htypes a ha
    change types'.cast { settings with typeOrder := order } a.type token = types.cast settings a.type token
    cases hcases : a.type with
    | any => exact absurd hcases hne
    | native type => rfl
    | custom symbol => rw [TypeRegistry.cast, TypeRegistry.cast, hget symbol hcases]

end Search

/-! ## Calls -/

namespace Dispatcher

/-- What stays as it is for a command when types are inferred in another way: its name, its signatures,
the settings in force but for the order of types, and the types that were registered. -/
structure Unaltered (d : Dispatcher) (c : Command) (d' : Dispatcher) (c' : Command) : Prop where
  name : c'.name = c.name
  signatures : c'.signatures = c.signatures
  effective : ∃ order, d'.effective c' = { d.effective c with typeOrder := order }
  types : ∀ symbol t, d.types.get? symbol = some t → d'.types.get? symbol = some t

variable {d d' : Dispatcher} {name : String} {c : Command}

theorem exists_unaltered (hc : d.command? name = some c) (h : Reconfigured name d d') :
    ∃ c', d'.command? name = some c' ∧ Unaltered d c d' c' := by
  induction h with
  | refl => exact ⟨c, hc, rfl, rfl, ⟨_, rfl⟩, fun _ _ ht => ht⟩
  | @ofGlobal d' _ order ih =>
    obtain ⟨c', hc', hname, hsignatures, ⟨order', heffective⟩, htypes⟩ := ih
    obtain ⟨order'', hresolve⟩ :=
      EffectiveSettings.resolve_reordered_global c'.settings d'.settings order
    refine ⟨c', hc', hname, hsignatures, ⟨order'', ?_⟩, htypes⟩
    have hsettings : (d'.reordered order).effective c' = { d'.effective c' with typeOrder := order'' } :=
      hresolve
    rw [hsettings, heffective]
  | @ofLocal d' b _ hb order ih =>
    obtain ⟨c', hc', hname, hsignatures, ⟨order', heffective⟩, htypes⟩ := ih
    obtain rfl : b = c' := Option.some.inj (hb.symm.trans hc')
    obtain ⟨order'', hresolve⟩ :=
      EffectiveSettings.resolve_reordered_local b.settings d'.settings order
    refine ⟨b.reordered order, command?_file_self d' name _, hname, hsignatures, ⟨order'', ?_⟩, htypes⟩
    have hsettings : (d'.file name (b.reordered order)).effective (b.reordered order) =
        { d'.effective b with typeOrder := order'' } := hresolve
    rw [hsettings, heffective]
  | ofType _ ht ih =>
    obtain ⟨c', hc', hname, hsignatures, heffective, htypes⟩ := ih
    obtain ⟨types, hregister, rfl⟩ := registerType_eq_ok ht
    exact ⟨c', hc', hname, hsignatures, heffective,
      fun symbol u hu => TypeRegistry.get?_register_of_some hregister (htypes symbol u hu)⟩

theorem resolve_of_unaltered {c' : Command} (hcommand : c.Consistent d.types) (hany : c.Annotated)
    (hc : d.command? name = some c) (hc' : d'.command? name = some c') (h : Unaltered d c d' c')
    (line : String) : d'.resolve name line = d.resolve name line := by
  obtain ⟨order, heffective⟩ := h.effective
  have hsolve : ∀ s ∈ c.signatures,
      (Search.of s (Input.ofLine line) d'.types (d'.effective c')).solve? =
        (Search.of s (Input.ofLine line) d.types (d.effective c)).solve? := by
    intro s hs
    rw [heffective]
    refine Search.solve?_of_annotated (hany s hs) (fun a ha symbol hsymbol => ?_) _ _ order
    -- the type of an argument is registered, so it is kept
    obtain ⟨t, ht, -⟩ :=
      TypeRegistry.exists_get?_of_mem_symbols (hcommand.registered s hs a ha symbol hsymbol)
    rw [ht, h.types symbol t ht]
  simp only [resolve, hc, hc', resolveWith, h.name, h.signatures, firstMatch?_congr hsolve]

/-- A new type that the order of types in force does not name makes no difference to a call. -/
theorem resolve_of_registerType {t : CustomType} {order : List String} (hd : d.Reachable)
    (hc : d.command? name = some c) (horder : (d.effective c).typeOrder = some order)
    (hnew : t.symbol ∉ order) (h : d.registerType t = .ok d') (line : String) :
    d'.resolve name line = d.resolve name line := by
  obtain ⟨types, hregister, rfl⟩ := registerType_eq_ok h
  have hinfer : types.infer (d.effective c) = d.types.infer (d.effective c) :=
    TypeRegistry.infer_register horder hregister hnew
  have hsolve : ∀ s ∈ c.signatures,
      (Search.of s (Input.ofLine line) d.types (d.effective c)).solve? =
        (Search.of s (Input.ofLine line) types (d.effective c)).solve? := by
    intro s hs
    refine Search.solve?_of_agree ⟨rfl, rfl, fun _ => rfl, ?_, ?_⟩ rfl
    · intro a _
      exact Search.itemType_congr hinfer.symm a.type
    · intro type htype
      funext token
      change d.types.cast (d.effective c) type token = types.cast (d.effective c) type token
      cases type with
      | any => rw [TypeRegistry.cast, TypeRegistry.cast, hinfer]
      | native type => rfl
      | custom symbol =>
        obtain ⟨u, hu, -⟩ :=
          hd.consistent.castsRegistered name c (mem_of_lookup_eq_some hc) s hs line symbol htype
        rw [TypeRegistry.cast, TypeRegistry.cast, hu, TypeRegistry.get?_register_of_some hregister hu]
  have hcommand : command? { d with types } name = some c := hc
  have heffective : effective { d with types } c = d.effective c := rfl
  simp only [resolve, hc, hcommand, heffective, resolveWith, firstMatch?_congr hsolve]

theorem resolve_of_registerTypes {ts : List CustomType} {order : List String} (hd : d.Reachable)
    (hc : d.command? name = some c) (horder : (d.effective c).typeOrder = some order)
    (hnew : ∀ t ∈ ts, t.symbol ∉ order) (h : ts.foldlM registerType d = .ok d') (line : String) :
    d'.resolve name line = d.resolve name line := by
  induction ts generalizing d with
  | nil =>
    cases h
    rfl
  | cons t rest ih =>
    rw [List.foldlM_cons] at h
    cases ht : d.registerType t with
    | error e =>
      rw [ht] at h
      cases h
    | ok d₁ =>
      rw [ht] at h
      obtain ⟨hnewt, hrest⟩ := List.forall_mem_cons.1 hnew
      have hfirst := resolve_of_registerType hd hc horder hnewt ht line
      -- neither the command nor the settings are changed by a new type
      obtain ⟨types, -, rfl⟩ := registerType_eq_ok ht
      exact (ih (.type hd ht) hc horder hrest h).trans hfirst

/-- **How types are inferred matters to arguments of any type only.** Where a command has none, its calls
come to the same after any other order of types is set, for all commands or for this one, and after any
types are registered. Where a command has some, its calls come to the same after types are registered that
the order in force does not name. -/
theorem resolve_of_reconfigured (hd : d.Reachable) (hc : d.command? name = some c) :
    (c.Annotated → ∀ d', Reconfigured name d d' → ∀ line, d'.resolve name line = d.resolve name line) ∧
      ∀ order, (d.effective c).typeOrder = some order →
        ∀ (ts : List CustomType) d', ts.foldlM registerType d = .ok d' → (∀ t ∈ ts, t.symbol ∉ order) →
          ∀ line, d'.resolve name line = d.resolve name line := by
  constructor
  · intro hany d' h line
    obtain ⟨c', hc', hunaltered⟩ := exists_unaltered hc h
    have hcommand := hd.consistent.commands name c (mem_of_lookup_eq_some hc)
    exact resolve_of_unaltered hcommand hany hc hc' hunaltered line
  · intro order horder ts d' h hnew line
    exact resolve_of_registerTypes hd hc horder hnew h line

/-- A type of the words that begin with a number sign. -/
def tagType : CustomType :=
  ⟨"tag", fun token => token.toList.head? == some '#', fun token => .ok (.text token)⟩

/-- A type of all words. -/
def wordType : CustomType := ⟨"word", fun _ => true, fun _ => .ok .null⟩

set_option maxRecDepth 4000 in
/-- A type of all words is registered, and then put before all others. A list of numbers and a tag are
bound as before; so is an argument of any type, as long as the order of types does not name the new one. -/
theorem resolve_of_reconfigured_words :
    ∃ d₁ d₂ d d' c b, registerType { settings := { typeOrder := some ["tag"] } } tagType = .ok d₁ ∧
      d₁.register { name := "paint", sources := ["(tag) colour (int[]) at"] } = .ok d₂ ∧
      d₂.register { name := "pick", sources := ["choice"] } = .ok d ∧ d.Reachable ∧
      [wordType].foldlM registerType d = .ok d' ∧
      d.command? "paint" = some c ∧ c.Annotated ∧
      Reconfigured "paint" d (d'.reordered (some ["word"])) ∧
      d.resolve "paint" "#red 3 4" =
        ⟨.ok ⟨"paint", 0, "(tag) colour (int[]) at",
          [("at", .list [.int 3, .int 4]), ("colour", .custom "tag" (.text "#red"))]⟩, []⟩ ∧
      (d'.reordered (some ["word"])).resolve "paint" "#red 3 4" = d.resolve "paint" "#red 3 4" ∧
      d.command? "pick" = some b ∧ (d.effective b).typeOrder = some ["tag"] ∧
      d.resolve "pick" "one" = ⟨.ok ⟨"pick", 0, "choice", [("choice", .str "one")]⟩, []⟩ ∧
      d'.resolve "pick" "one" = d.resolve "pick" "one" := by
  have hpaint : Input.ofLine "#red 3 4" = ⟨["#red", "3", "4"], []⟩ := by cbv
  have hpick : Input.ofLine "one" = ⟨["one"], []⟩ := by cbv
  obtain ⟨d₁, d₂, d, d', c, b, h₁, h₂, h, hword, hc, hb, hany, horder, hcallc, hcallb⟩ :
      ∃ d₁ d₂ d d' c b, registerType { settings := { typeOrder := some ["tag"] } } tagType = .ok d₁ ∧
        d₁.register { name := "paint", sources := ["(tag) colour (int[]) at"] } = .ok d₂ ∧
        d₂.register { name := "pick", sources := ["choice"] } = .ok d ∧
        d.registerType wordType = .ok d' ∧ d.command? "paint" = some c ∧ d.command? "pick" = some b ∧
        c.Annotated ∧ (d.effective b).typeOrder = some ["tag"] ∧
        d.resolve "paint" "#red 3 4" =
          ⟨.ok ⟨"paint", 0, "(tag) colour (int[]) at",
            [("at", .list [.int 3, .int 4]), ("colour", .custom "tag" (.text "#red"))]⟩, []⟩ ∧
        d.resolve "pick" "one" = ⟨.ok ⟨"pick", 0, "choice", [("choice", .str "one")]⟩, []⟩ := by
    refine ⟨_, _, _, _, _, _, by cbv, by cbv, by cbv, by cbv, rfl, rfl, ?_, rfl, ?_, ?_⟩
    · rw [Command.Annotated, List.forall_mem_singleton]
      decide
    · simp only [resolve, resolveWith, hpaint]
      rfl
    · simp only [resolve, resolveWith, hpick]
      rfl
  have hd : d.Reachable := .command (.command (.type (.settings .empty _) h₁) h₂) h
  have hfold : [wordType].foldlM registerType d = .ok d' := by rw [List.foldlM_cons, hword]; rfl
  have hreconfigured : Reconfigured "paint" d (d'.reordered (some ["word"])) :=
    .ofGlobal (.ofType .refl hword) _
  have hnew : ∀ t ∈ [wordType], t.symbol ∉ ["tag"] := by
    rw [List.forall_mem_singleton]
    decide
  exact ⟨d₁, d₂, d, d', c, b, h₁, h₂, h, hd, hfold, hc, hany, hreconfigured, hcallc,
    (resolve_of_reconfigured hd hc).1 hany _ hreconfigured "#red 3 4", hb, horder, hcallb,
    (resolve_of_reconfigured hd hb).2 ["tag"] horder [wordType] d' hfold hnew "one"⟩

end Dispatcher

end Invocation
