/-
  What holds of a dispatcher, whatever was done to it.

  * `Operation`, `Dispatcher.perform`, `Dispatcher.run`: registrations and
    settings, any of which may be refused, one after the other from the empty
    dispatcher; `Dispatcher.reachable_run`;
  * `TypeRegistry.Proper`: the symbols of custom types are distinct
    identifiers, and none is the name of a built-in type;
  * `Command.Consistent`: the custom types of its arguments are registered,
    and their names and aliases resolve to them;
  * `Dispatcher.Consistent`: the types are proper, and every command is
    consistent and filed under its own name. `Reachable.consistent` is the
    invariant, with a lemma for each kind of registration;
  * `Dispatcher.consistent_run`: after every run the dispatcher is
    consistent, and no call casts to a type that is not registered.
-/
import Invocation.Proofs.Dispatcher.Agreement
import Invocation.Proofs.Dispatcher.Reachable
import Invocation.Proofs.Signature.Names

namespace Invocation

open Invocation.Text

/-! ## Registered types -/

namespace TypeRegistry

/-- The symbols of the registered types are distinct identifiers, and none is the name of a built-in
type. -/
structure Proper (r : TypeRegistry) : Prop where
  nodup : r.symbols.Nodup
  identifiers : ∀ symbol ∈ r.symbols, isIdentifier symbol = true
  not_builtIn : ∀ symbol ∈ r.symbols, symbol ∉ builtIns.map Prod.fst

variable {r r' : TypeRegistry} {t : CustomType}

theorem contains_iff {symbol : String} : r.contains symbol = true ↔ symbol ∈ r.symbols := by
  simp [contains, get?, symbols, List.find?_isSome]

theorem exists_get?_of_mem_symbols {symbol : String} (h : symbol ∈ r.symbols) :
    ∃ t, r.get? symbol = some t ∧ t.symbol = symbol := by
  obtain ⟨t, ht⟩ := Option.isSome_iff_exists.1 (contains_iff.2 h)
  exact ⟨t, ht, by simpa using List.find?_some ht⟩

theorem register_eq_ok (h : r.register t = .ok r') :
    t.symbol ∉ builtIns.map Prod.fst ∧ isIdentifier t.symbol = true ∧ t.symbol ∉ r.symbols ∧
      r' = ⟨r.types ++ [t]⟩ := by
  unfold register at h
  split at h
  · cases h
  next hreserved =>
  split at h
  · cases h
  next hidentifier =>
  split at h
  · cases h
  next hnew =>
  cases h
  have hbuiltIns : reservedSymbols = builtIns.map Prod.fst := rfl
  refine ⟨?_, by simpa using hidentifier, fun hmem => hnew (contains_iff.2 hmem), rfl⟩
  intro hmem
  rw [← hbuiltIns] at hmem
  exact hreserved (List.contains_iff_mem.2 hmem)

theorem Proper.register (hr : r.Proper) (h : r.register t = .ok r') : r'.Proper := by
  obtain ⟨hbuiltIn, hidentifier, hnew, rfl⟩ := register_eq_ok h
  have hsymbols : symbols ⟨r.types ++ [t]⟩ = r.symbols ++ [t.symbol] := by simp [symbols]
  have hmem : ∀ symbol ∈ r.symbols ++ [t.symbol], symbol ∈ r.symbols ∨ symbol = t.symbol := by
    intro symbol hsymbol
    simpa using hsymbol
  constructor
  · rw [hsymbols, List.nodup_append]
    refine ⟨hr.nodup, List.nodup_singleton _, ?_⟩
    rintro symbol hsymbol _ ht rfl
    exact hnew (List.mem_singleton.1 ht ▸ hsymbol)
  · intro symbol hsymbol
    rcases hmem symbol (hsymbols ▸ hsymbol) with hsymbol | rfl
    · exact hr.identifiers symbol hsymbol
    · exact hidentifier
  · intro symbol hsymbol
    rcases hmem symbol (hsymbols ▸ hsymbol) with hsymbol | rfl
    · exact hr.not_builtIn symbol hsymbol
    · exact hbuiltIn

theorem symbols_subset_of_register (h : r.register t = .ok r') : r.symbols ⊆ r'.symbols := by
  obtain ⟨-, -, -, rfl⟩ := register_eq_ok h
  intro symbol hsymbol
  simp only [symbols, List.map_append]
  exact List.mem_append_left _ hsymbol

/-- A custom type that is inferred is registered. -/
theorem mem_symbols_of_infer {settings : EffectiveSettings} {token symbol : String}
    (h : (r.infer settings token).1 = .custom symbol) : symbol ∈ r.symbols := by
  have hchain : ∀ t ∈ r.chain settings, t ∈ r.types := by
    intro t ht
    unfold chain at ht
    split at ht
    · exact ht
    · obtain ⟨symbol, -, hget⟩ := List.mem_filterMap.1 ht
      exact List.mem_of_find?_eq_some hget
  unfold infer at h
  cases hcustom : inferCustom? (r.chain settings) token with
  | some found =>
    rw [hcustom, Option.some_or, Option.getD_some] at h
    obtain ⟨t, ht, hvalue⟩ := List.exists_of_findSome?_eq_some hcustom
    obtain ⟨value, -, rfl⟩ := Option.map_eq_some_iff.1 hvalue
    cases h
    exact List.mem_map_of_mem (hchain t ht)
  | none =>
    rw [hcustom, Option.none_or] at h
    cases hnative : inferNative? settings token with
    | none =>
      rw [hnative] at h
      cases h
    | some found =>
      obtain ⟨type, -, hvalue⟩ := List.exists_of_findSome?_eq_some hnative
      obtain ⟨value, -, rfl⟩ := Option.map_eq_some_iff.1 hvalue
      rw [hnative] at h
      cases h

end TypeRegistry

/-! ## Commands -/

/-- All custom types of arguments are registered if none is reported. -/
theorem unknownType?_eq_none_iff {types : TypeRegistry} {arguments : List Argument} :
    unknownType? types arguments = none ↔
      ∀ a ∈ arguments, ∀ symbol, a.type = .custom symbol → symbol ∈ types.symbols := by
  rw [unknownType?, List.findSome?_eq_none_iff]
  refine forall₂_congr fun a _ => ?_
  cases a.type with
  | any => simp
  | native type => simp
  | custom symbol => simp [← TypeRegistry.contains_iff]

namespace Command

/-- The custom types of the arguments of a command are registered, and in each of its signatures the names
and aliases are distinct identifiers that resolve to their arguments. -/
structure Consistent (types : TypeRegistry) (c : Command) : Prop where
  registered : ∀ s ∈ c.signatures, ∀ a ∈ s.arguments, ∀ symbol, a.type = .custom symbol →
    symbol ∈ types.symbols
  named : ∀ s ∈ c.signatures, s.Named

variable {c c' : Command} {types types' : TypeRegistry}

theorem Consistent.mono (hc : c.Consistent types) (h : types.symbols ⊆ types'.symbols) :
    c.Consistent types' where
  registered s hs a ha symbol hsymbol := h (hc.registered s hs a ha symbol hsymbol)
  named := hc.named

theorem Consistent.addSignature {source : String} (hc : c.Consistent types)
    (h : c.addSignature types source = .ok c') : c'.Consistent types := by
  obtain ⟨s, hs, rfl⟩ := addSignature_eq_ok h
  constructor
  · intro t ht a ha symbol hsymbol
    rcases List.mem_append.1 ht with ht | ht
    · exact hc.registered t ht a ha symbol hsymbol
    · obtain rfl := List.mem_singleton.1 ht
      obtain ⟨read, names, -, hunknown, -, -, rfl⟩ := Signature.compile_eq_ok hs
      obtain ⟨b, hb, rfl⟩ := List.mem_map.1 ha
      exact unknownType?_eq_none_iff.1 hunknown b hb symbol hsymbol
  · intro t ht
    rcases List.mem_append.1 ht with ht | ht
    · exact hc.named t ht
    · obtain rfl := List.mem_singleton.1 ht
      exact Signature.named_of_command hs

theorem consistent_of_build {declaration : Declaration} (h : declaration.build types = .ok c) :
    c.Consistent types := by
  have hempty : Consistent types ⟨declaration.name, [], declaration.settings, declaration.metadata⟩ :=
    ⟨fun _ hs => absurd hs List.not_mem_nil, fun _ hs => absurd hs List.not_mem_nil⟩
  exact addSignatures_induction (fun _ _ _ hc => hc.addSignature) hempty h

end Command

/-! ## Dispatchers -/

/-- What can be done to a dispatcher. -/
inductive Operation where
  | registerType (type : CustomType)
  | register (declaration : Declaration)
  | addSignature (name source : String)
  | setSettings (settings : Settings)

namespace Dispatcher

/-- The dispatcher after an operation, or the reason why it is refused. -/
def attempt (d : Dispatcher) : Operation → Except RegistrationError Dispatcher
  | .registerType t => d.registerType t
  | .register declaration => d.register declaration
  | .addSignature name source => d.addSignature name source
  | .setSettings settings => .ok { d with settings }

/-- The dispatcher after an operation. One that is refused leaves it as it is. -/
def perform (d : Dispatcher) (operation : Operation) : Dispatcher :=
  match d.attempt operation with
  | .ok d' => d'
  | .error _ => d

/-- The dispatcher after operations, the first of them on the empty one. -/
def run (operations : List Operation) : Dispatcher := operations.foldl perform {}

/-- Types, commands and the names in their signatures fit together. -/
structure Consistent (d : Dispatcher) : Prop where
  types : d.types.Proper
  /-- No name stands for two commands. -/
  ascending : (d.commands.map Prod.fst).Pairwise (· < ·)
  filed : ∀ name c, (name, c) ∈ d.commands → c.name = name
  commands : ∀ name c, (name, c) ∈ d.commands → c.Consistent d.types

/-- Whatever line a command is called with, it casts tokens to no type that is not registered. -/
def CastsRegistered (d : Dispatcher) : Prop :=
  ∀ name c, (name, c) ∈ d.commands → ∀ s ∈ c.signatures, ∀ line symbol,
    (Search.of s (Input.ofLine line) d.types (d.effective c)).CastsTo (.custom symbol) →
      ∃ t, d.types.get? symbol = some t ∧ t.symbol = symbol

variable {d d' : Dispatcher}

theorem Reachable.attempt {operation : Operation} (hd : d.Reachable) (h : d.attempt operation = .ok d') :
    d'.Reachable := by
  cases operation with
  | registerType t => exact .type hd h
  | register declaration => exact .command hd h
  | addSignature name source => exact .signature hd h
  | setSettings settings =>
    cases h
    exact .settings hd settings

theorem Reachable.perform (hd : d.Reachable) (operation : Operation) : (d.perform operation).Reachable := by
  unfold Dispatcher.perform
  split
  · next d' h => exact hd.attempt h
  · exact hd

theorem reachable_run (operations : List Operation) : (run operations).Reachable := by
  suffices h : ∀ d : Dispatcher, d.Reachable → (operations.foldl Dispatcher.perform d).Reachable from
    h {} .empty
  induction operations with
  | nil => exact fun _ hd => hd
  | cons operation rest ih => exact fun d hd => ih (d.perform operation) (hd.perform operation)

theorem Consistent.registerType {t : CustomType} (hd : d.Consistent) (h : d.registerType t = .ok d') :
    d'.Consistent := by
  obtain ⟨types, ht, rfl⟩ := registerType_eq_ok h
  exact
    { types := hd.types.register ht
      ascending := hd.ascending
      filed := hd.filed
      commands := fun name c hc =>
        (hd.commands name c hc).mono (TypeRegistry.symbols_subset_of_register ht) }

theorem Consistent.file {c : Command} (hd : d.Consistent) (hc : c.Consistent d.types) :
    (d.file c.name c).Consistent where
  types := hd.types
  ascending := pairwise_setKey hd.ascending
  filed name c' h := by
    rcases mem_of_mem_setKey h with heq | h
    · cases heq
      rfl
    · exact hd.filed name c' h
  commands name c' h := by
    rcases mem_of_mem_setKey h with heq | h
    · cases heq
      exact hc
    · exact hd.commands name c' h

theorem Consistent.addSignature {name source : String} (hd : d.Consistent)
    (h : d.addSignature name source = .ok d') : d'.Consistent := by
  obtain ⟨c, c', hc, hadd, rfl⟩ := addSignature_eq_ok h
  have hmem : (name, c) ∈ d.commands := mem_of_lookup_eq_some hc
  have hname : c'.name = name := by
    obtain ⟨s, -, rfl⟩ := Command.addSignature_eq_ok hadd
    exact hd.filed name c hmem
  subst hname
  exact hd.file ((hd.commands _ c hmem).addSignature hadd)

theorem Reachable.consistent (hd : d.Reachable) : d.Consistent := by
  induction hd with
  | empty =>
    exact
      { types := ⟨List.nodup_nil, fun _ h => absurd h List.not_mem_nil, fun _ h => absurd h List.not_mem_nil⟩
        ascending := List.Pairwise.nil
        filed := fun _ _ h => absurd h List.not_mem_nil
        commands := fun _ _ h => absurd h List.not_mem_nil }
  | settings _ _ ih => exact ⟨ih.types, ih.ascending, ih.filed, ih.commands⟩
  | type _ h ih => exact ih.registerType h
  | command _ h ih =>
    obtain ⟨c, hc, -, rfl⟩ := register_eq_ok h
    exact ih.file (Command.consistent_of_build hc)
  | signature _ h ih => exact ih.addSignature h

theorem Consistent.castsRegistered (hd : d.Consistent) : d.CastsRegistered := by
  intro name c hc s hs line symbol hcasts
  refine TypeRegistry.exists_get?_of_mem_symbols ?_
  have hregistered := (hd.commands name c hc).registered s hs
  generalize htype : ArgumentType.custom symbol = type at hcasts
  cases hcasts with
  | argument ha => exact hregistered _ ha symbol htype.symm
  | @items a ha first =>
    -- the type of items is inferred, or it is the type of the argument
    cases hany : a.type with
    | any =>
      rw [hany] at htype
      cases first with
      | none => cases htype
      | some token => exact TypeRegistry.mem_symbols_of_infer htype.symm
    | native type =>
      rw [hany] at htype
      cases htype
    | custom other =>
      rw [hany] at htype
      cases htype
      exact hregistered a ha symbol hany

/-- **After every run, types, commands and names fit together.** Whatever operations are performed on the
empty dispatcher, and whichever of them are refused: the dispatcher is consistent, and its calls cast to
registered types only. -/
theorem consistent_run (operations : List Operation) :
    (run operations).Consistent ∧ (run operations).CastsRegistered := by
  have hconsistent := (reachable_run operations).consistent
  exact ⟨hconsistent, hconsistent.castsRegistered⟩

end Dispatcher

end Invocation
