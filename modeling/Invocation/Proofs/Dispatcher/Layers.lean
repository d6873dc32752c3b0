/-
  What a call owes to each field of the settings.

  A layer sets some fields. A field that a command sets itself is out of
  reach of the global settings, each field on its own.

  * `Settings.Field`: the fields of a layer, and `Settings.value?` what a
    layer sets a field to;
  * `Settings.layered`: what a local and a global layer give for a field;
    `EffectiveSettings.resolve_congr`, `castAlike_of_layered`: nothing else
    counts for the settings in force;
  * `calls_of_layered`: commands with the same signatures whose layers give
    the same for all fields have the same calls;
  * `calls_of_own_layer`: the global settings may differ in the fields that
    the command sets; a missing layer is an empty one; and a call without
    fallback depends neither on the fallback nor on the handler.
-/
import Invocation.Proofs.Dispatcher.Agreement
import Invocation.Proofs.Dispatcher.Reachable
import Mathlib

namespace Invocation

/-! ## Fields -/

namespace Settings

/-- The fields of a layer of settings. -/
inductive Field where
  | fallback
  | handler
  | truthy
  | falsy
  | typeOrder
  deriving DecidableEq, Repr

/-- What a field holds when it is set. -/
def Field.Value : Field → Type
  | fallback => Fallback
  | handler => Handler
  | truthy => List String
  | falsy => List String
  | typeOrder => List String

/-- What a layer sets a field to. -/
def value? (layer : Settings) : (field : Field) → Option field.Value
  | .fallback => layer.fallback
  | .handler => layer.handler
  | .truthy => layer.truthy
  | .falsy => layer.falsy
  | .typeOrder => layer.typeOrder

/-- What a local layer, which may be missing, and a global layer give for a field. -/
def layered (local_ : Option Settings) (global : Settings) (field : Field) : Option field.Value :=
  (local_.bind fun layer => layer.value? field).or (global.value? field)

variable {local_ local' : Option Settings} {global global' layer : Settings} {field : Field}

/-- What a local layer sets is not changed by the global one. -/
theorem layered_of_isSome (h : (layer.value? field).isSome) :
    layered (some layer) global field = layer.value? field := by
  obtain ⟨value, hvalue⟩ := Option.isSome_iff_exists.1 h
  rw [layered, Option.bind_some, hvalue, Option.some_or]

/-- What a local layer leaves to the global one. -/
theorem layered_of_eq_none (h : layer.value? field = none) :
    layered (some layer) global field = global.value? field := by
  rw [layered, Option.bind_some, h, Option.none_or]

theorem layered_none (global : Settings) (field : Field) :
    layered none global field = layered (some {}) global field := by
  have hempty : (({} : Settings).value? field) = none := by cases field <;> rfl
  rw [layered_of_eq_none hempty]
  rfl

end Settings

open Settings

variable {local_ local' : Option Settings} {global global' : Settings}

/-- The settings in force are what the layers give for each field. -/
theorem EffectiveSettings.resolve_congr
    (h : ∀ field, layered local_ global field = layered local' global' field) :
    resolve local_ global = resolve local' global' := by
  have hfallback : (local_.bind Settings.fallback).or global.fallback =
      (local'.bind Settings.fallback).or global'.fallback := h .fallback
  have hhandler : (local_.bind Settings.handler).or global.handler =
      (local'.bind Settings.handler).or global'.handler := h .handler
  have htruthy : (local_.bind Settings.truthy).or global.truthy =
      (local'.bind Settings.truthy).or global'.truthy := h .truthy
  have hfalsy : (local_.bind Settings.falsy).or global.falsy =
      (local'.bind Settings.falsy).or global'.falsy := h .falsy
  have horder : (local_.bind Settings.typeOrder).or global.typeOrder =
      (local'.bind Settings.typeOrder).or global'.typeOrder := h .typeOrder
  simp only [resolve, hfallback, hhandler, htruthy, hfalsy, horder]

/-- Neither the fallback nor the handler counts for casts. -/
theorem castAlike_of_layered (h : ∀ field, field ≠ .fallback → field ≠ .handler →
    layered local_ global field = layered local' global' field) :
    (EffectiveSettings.resolve local_ global).CastAlike (EffectiveSettings.resolve local' global') where
  truthy := congrArg (fun words => words.getD defaultTruthy) (h .truthy nofun nofun)
  falsy := congrArg (fun words => words.getD defaultFalsy) (h .falsy nofun nofun)
  typeOrder := h .typeOrder nofun nofun

/-! ## Calls -/

namespace Dispatcher

variable {name : String} {c : Command} {layer : Option Settings}

theorem resolveWith_of_types {d d' : Dispatcher} (h : d'.types = d.types) (c : Command)
    (layer : Option Settings) (line : String) (settings : EffectiveSettings) :
    d'.resolveWith { c with settings := layer } line settings = d.resolveWith c line settings := by
  simp only [resolveWith, h]

/-- Where the layers give the same for all fields, calls come to the same. -/
theorem calls_of_layered (d d' : Dispatcher) (htypes : d'.types = d.types) (hc : d.command? name = some c)
    (hc' : d'.command? name = some { c with settings := layer })
    (h : ∀ field, layered layer d'.settings field = layered c.settings d.settings field) (line : String) :
    d'.resolve name line = d.resolve name line ∧ d'.dispatch name line = d.dispatch name line := by
  have heffective : d'.effective { c with settings := layer } = d.effective c :=
    EffectiveSettings.resolve_congr h
  simp only [resolve, dispatch, hc, hc', heffective, resolveWith_of_types htypes, and_self]

/-- Where they give the same for all fields but the fallback and the handler, calls without fallback come to
the same. -/
theorem resolve_of_layered (d d' : Dispatcher) (htypes : d'.types = d.types) (hc : d.command? name = some c)
    (hc' : d'.command? name = some { c with settings := layer })
    (h : ∀ field, field ≠ .fallback → field ≠ .handler →
      layered layer d'.settings field = layered c.settings d.settings field) (line : String) :
    d'.resolve name line = d.resolve name line := by
  have halike : (d'.effective { c with settings := layer }).CastAlike (d.effective c) :=
    castAlike_of_layered h
  simp only [resolve, hc, hc', resolveWith_of_types htypes, resolveWith_of_castAlike halike]

/-- **The settings of a command shield it from the global ones, field by field.** Calls come to the same,
with and without fallback, under global settings that differ only in fields that the command sets itself.
A command without settings of its own is called like one whose settings set nothing. Calls without fallback
do not depend on the fallback and the handler, be they the command's own or the global ones. -/
theorem calls_of_own_layer (d : Dispatcher) (name : String) (c : Command) (hc : d.command? name = some c) :
    (∀ layer global, c.settings = some layer →
      (∀ field, layer.value? field = none → global.value? field = d.settings.value? field) → ∀ line,
        resolve { d with settings := global } name line = d.resolve name line ∧
          dispatch { d with settings := global } name line = d.dispatch name line) ∧
      (c.settings = none → ∀ line,
        (d.file name { c with settings := some {} }).resolve name line = d.resolve name line ∧
          (d.file name { c with settings := some {} }).dispatch name line = d.dispatch name line) ∧
      ∀ (layer : Option Settings) global, (∀ field, field ≠ .fallback → field ≠ .handler →
          (layer.bind fun own => own.value? field) = (c.settings.bind fun own => own.value? field) ∧
            global.value? field = d.settings.value? field) → ∀ line,
        (file { d with settings := global } name { c with settings := layer }).resolve name line =
          d.resolve name line := by
  refine ⟨fun layer global hlayer hglobal line => ?_, fun hnone line => ?_,
    fun layer global hsame line => ?_⟩
  · refine calls_of_layered d { d with settings := global } rfl hc hc (fun field => ?_) line
    rw [hlayer]
    cases hvalue : layer.value? field with
    | none => rw [layered_of_eq_none hvalue, layered_of_eq_none hvalue, hglobal field hvalue]
    | some value =>
      have hset : (layer.value? field).isSome := by rw [hvalue]; rfl
      rw [layered_of_isSome hset, layered_of_isSome hset]
  · refine calls_of_layered d (d.file name { c with settings := some {} }) rfl hc
      (command?_file_self d name _) (fun field => ?_) line
    rw [hnone]
    exact (layered_none d.settings field).symm
  · refine resolve_of_layered d (file { d with settings := global } name { c with settings := layer }) rfl hc
      (command?_file_self _ name _) (fun field hfallback hhandler => ?_) line
    obtain ⟨hlayer, hglobal⟩ := hsame field hfallback hhandler
    have hsettings : (file { d with settings := global } name { c with settings := layer }).settings =
        global := rfl
    rw [layered, layered, hsettings, hlayer, hglobal]

/-- A layer with its own words for true, which ignores errors. -/
def lampLayer : Settings := { fallback := some .ignore, truthy := some ["an"] }

/-- Global settings that raise errors, with other words. -/
def raisingWords : Settings := { fallback := some .raise, truthy := some ["ein"], falsy := some ["aus"] }

set_option maxRecDepth 4000 in
/-- Of the global settings the lamp uses the words for false only, and the fan, which has no settings of its
own, all of them. -/
theorem calls_of_own_layer_lamp :
    ∃ d₁ d c b,
      register { settings := raisingWords }
        { name := "lamp", sources := ["(bool) lit"], settings := some lampLayer } = .ok d₁ ∧
      d₁.register { name := "fan", sources := ["(bool) turns"] } = .ok d ∧
      d.command? "lamp" = some c ∧ c.settings = some lampLayer ∧
      (∀ field, lampLayer.value? field = none →
        ({ falsy := some ["aus"] } : Settings).value? field = d.settings.value? field) ∧
      d.dispatch "lamp" "an" = ⟨.ok (some ⟨"lamp", 0, "(bool) lit", [("lit", .bool true)]⟩), []⟩ ∧
      dispatch { d with settings := { falsy := some ["aus"] } } "lamp" "an" = d.dispatch "lamp" "an" ∧
      d.dispatch "lamp" "ein" = ⟨.ok none, []⟩ ∧
      dispatch { d with settings := { falsy := some ["aus"] } } "lamp" "ein" = d.dispatch "lamp" "ein" ∧
      d.command? "fan" = some b ∧ b.settings = none ∧
      d.dispatch "fan" "ein" = ⟨.ok (some ⟨"fan", 0, "(bool) turns", [("turns", .bool true)]⟩), []⟩ ∧
      (d.file "fan" { b with settings := some {} }).dispatch "fan" "ein" = d.dispatch "fan" "ein" ∧
      (file { d with settings := { raisingWords with fallback := none } } "fan"
        { b with settings := some { handler := some ⟨0⟩ } }).resolve "fan" "ein" = d.resolve "fan" "ein" := by
  have han : Input.ofLine "an" = ⟨["an"], []⟩ := by cbv
  have hein : Input.ofLine "ein" = ⟨["ein"], []⟩ := by cbv
  obtain ⟨d₁, d, c, b, hlamp, hfan, hsettings, hc, hlayer, hb, hnone, hcall, hignored, hturns⟩ :
      ∃ d₁ d c b,
        register { settings := raisingWords }
          { name := "lamp", sources := ["(bool) lit"], settings := some lampLayer } = .ok d₁ ∧
        d₁.register { name := "fan", sources := ["(bool) turns"] } = .ok d ∧ d.settings = raisingWords ∧
        d.command? "lamp" = some c ∧ c.settings = some lampLayer ∧
        d.command? "fan" = some b ∧ b.settings = none ∧
        d.dispatch "lamp" "an" = ⟨.ok (some ⟨"lamp", 0, "(bool) lit", [("lit", .bool true)]⟩), []⟩ ∧
        d.dispatch "lamp" "ein" = ⟨.ok none, []⟩ ∧
        d.dispatch "fan" "ein" = ⟨.ok (some ⟨"fan", 0, "(bool) turns", [("turns", .bool true)]⟩), []⟩ := by
    refine ⟨_, _, _, _, by cbv, by cbv, rfl, rfl, rfl, rfl, rfl, ?_, ?_, ?_⟩
    · simp only [dispatch, resolveWith, han]
      rfl
    · simp only [dispatch, resolveWith, hein]
      rfl
    · simp only [dispatch, resolveWith, hein]
      rfl
  have hsame : ∀ field, lampLayer.value? field = none →
      ({ falsy := some ["aus"] } : Settings).value? field = d.settings.value? field := by
    rw [hsettings]
    intro field h
    cases field with
    | fallback | truthy => cases h
    | handler | falsy | typeOrder => rfl
  have hfields : ∀ field, field ≠ .fallback → field ≠ .handler →
      ((some ({ handler := some ⟨0⟩ } : Settings)).bind fun own => own.value? field) =
          (b.settings.bind fun own => own.value? field) ∧
        ({ raisingWords with fallback := none } : Settings).value? field = d.settings.value? field := by
    rw [hsettings, hnone]
    intro field hfallback hhandler
    cases field with
    | fallback => exact absurd rfl hfallback
    | handler => exact absurd rfl hhandler
    | truthy | falsy | typeOrder => exact ⟨rfl, rfl⟩
  obtain ⟨hshielded, -, -⟩ := calls_of_own_layer d "lamp" c hc
  obtain ⟨-, hempty, hcasts⟩ := calls_of_own_layer d "fan" b hb
  exact ⟨d₁, d, c, b, hlamp, hfan, hc, hlayer, hsame, hcall,
    (hshielded lampLayer _ hlayer hsame "an").2, hignored, (hshielded lampLayer _ hlayer hsame "ein").2, hb,
    hnone, hturns, (hempty hnone "ein").2, hcasts _ _ hfields "ein"⟩

end Dispatcher

end Invocation
