/-
  Adding signatures to a command that is registered.

  * `Dispatcher.addSignatures_file`: adding signatures to a command in a
    dispatcher is adding them to the command;
  * `Dispatcher.registerFirst`: a declaration is registered with its first
    signatures, and the others are added in turn. `register_split`: this is
    the same as registering all of them at once, wherever the declaration is
    split;
  * `Dispatcher.firstMatch?_append`: signatures at the end are tried last;
  * `Dispatcher.Extends`: what a call comes to when a signature is added;
    `resolve_addSignature`: where a signature matched before, nothing changes,
    and where none did, the new one answers as if it were alone.
-/
import Invocation.Proofs.Dispatcher.Overloads

namespace Invocation

/-! ## Commands -/

namespace Command

theorem addSignatures_append (c : Command) (types : TypeRegistry) (xs ys : List String) :
    c.addSignatures types (xs ++ ys) =
      (c.addSignatures types xs).bind fun c' => c'.addSignatures types ys := by
  induction xs generalizing c with
  | nil => rfl
  | cons source rest ih =>
    rw [List.cons_append, addSignatures, addSignatures]
    cases c.addSignature types source with
    | error e => rfl
    | ok c' => exact ih c'

variable {c : Command} {types : TypeRegistry}

/-- Signatures are compiled in order. Either all of them compile, or the first that does not is named in
the error. -/
theorem addSignatures_eq_error_iff {sources : List String} {e : RegistrationError} :
    c.addSignatures types sources = .error e ↔
      ∃ before source after cause, sources = before ++ source :: after ∧
        (∀ t ∈ before, ∃ s, c.metadata.compile types t = .ok s) ∧
        c.metadata.compile types source = .error cause ∧ e = .invalidSignature c.name source cause := by
  induction sources generalizing c with
  | nil => simp [addSignatures]
  | cons first rest ih =>
    rw [addSignatures]
    cases hfirst : c.metadata.compile types first with
    | error cause =>
      have hadd : c.addSignature types first = .error (.invalidSignature c.name first cause) := by
        rw [addSignature, hfirst]
      rw [hadd]
      constructor
      · rintro h
        cases h
        exact ⟨[], first, rest, cause, rfl, fun _ ht => absurd ht List.not_mem_nil, hfirst, rfl⟩
      · rintro ⟨before, source, after, cause', hsources, hbefore, hcause, rfl⟩
        cases before with
        | nil =>
          cases hsources
          rw [hfirst] at hcause
          cases hcause
          rfl
        | cons t before =>
          cases hsources
          obtain ⟨s, hs⟩ := hbefore _ List.mem_cons_self
          rw [hfirst] at hs
          cases hs
    | ok s =>
      have hadd : c.addSignature types first = .ok { c with signatures := c.signatures ++ [s] } := by
        rw [addSignature, hfirst]
      rw [hadd]
      refine ih.trans ?_
      constructor
      · rintro ⟨before, source, after, cause, rfl, hbefore, hcause, rfl⟩
        exact ⟨first :: before, source, after, cause, rfl,
          List.forall_mem_cons.2 ⟨⟨s, hfirst⟩, hbefore⟩, hcause, rfl⟩
      · rintro ⟨before, source, after, cause, hsources, hbefore, hcause, rfl⟩
        cases before with
        | nil =>
          cases hsources
          rw [hfirst] at hcause
          cases hcause
        | cons t before =>
          cases hsources
          exact ⟨before, source, after, cause, rfl, (List.forall_mem_cons.1 hbefore).2, hcause, rfl⟩

end Command

namespace Dispatcher

/-! ## Registering in parts -/

/-- The dispatcher with more signatures of a command, added in turn, up to the first that is refused. -/
def addSignatures (d : Dispatcher) (name : String) : List String → Except RegistrationError Dispatcher
  | [] => .ok d
  | source :: rest =>
    match d.addSignature name source with
    | .ok d' => d'.addSignatures name rest
    | .error e => .error e

/-- The dispatcher with a command registered with its first `k` signatures, to which the others are then
added in turn. -/
def registerFirst (d : Dispatcher) (declaration : Declaration) (k : Nat) :
    Except RegistrationError Dispatcher :=
  match d.register { declaration with sources := declaration.sources.take k } with
  | .ok d' => d'.addSignatures declaration.name (declaration.sources.drop k)
  | .error e => .error e

theorem file_file (d : Dispatcher) (name : String) (c c' : Command) :
    (d.file name c).file name c' = d.file name c' := by
  rw [file, file, file, setKey_setKey]

theorem addSignature_file (d : Dispatcher) (name : String) (c : Command) (source : String) :
    (d.file name c).addSignature name source = (c.addSignature d.types source).map (d.file name) := by
  have htypes : (d.file name c).types = d.types := rfl
  simp only [addSignature, command?_file_self, htypes]
  cases c.addSignature d.types source with
  | error e => rfl
  | ok c' => exact congrArg Except.ok (file_file d name c c')

/-- Adding signatures to a command in a dispatcher is adding them to the command. -/
theorem addSignatures_file (d : Dispatcher) (name : String) (c : Command) (sources : List String) :
    (d.file name c).addSignatures name sources =
      (c.addSignatures d.types sources).map (d.file name) := by
  induction sources generalizing c with
  | nil => rfl
  | cons source rest ih =>
    rw [addSignatures, addSignature_file, Command.addSignatures]
    cases c.addSignature d.types source with
    | error e => rfl
    | ok c' => exact ih c'

theorem register_of_new {d : Dispatcher} {declaration : Declaration}
    (h : d.command? declaration.name = none) :
    d.register declaration = (declaration.build d.types).map (d.file declaration.name) := by
  rw [register]
  cases hbuild : declaration.build d.types with
  | error e => rfl
  | ok c =>
    have hname : c.name = declaration.name := (soundCommand_of_build hbuild).name_eq
    simp only [hname, h, Option.isSome_none, Bool.false_eq_true, if_false]
    rfl

/-- Under a name that is not taken, a declaration can be split anywhere. -/
theorem registerFirst_of_new {d : Dispatcher} {declaration : Declaration}
    (h : d.command? declaration.name = none) (k : Nat) :
    d.registerFirst declaration k = d.register declaration := by
  have hbuild : declaration.build d.types =
      (Declaration.build { declaration with sources := declaration.sources.take k } d.types).bind
        fun c => c.addSignatures d.types (declaration.sources.drop k) := by
    rw [Declaration.build, Declaration.build, ← Command.addSignatures_append, List.take_append_drop]
  have hfirst : d.register { declaration with sources := declaration.sources.take k } =
      (Declaration.build { declaration with sources := declaration.sources.take k } d.types).map
        (d.file declaration.name) := register_of_new h
  rw [registerFirst, register_of_new h, hbuild, hfirst]
  cases Declaration.build { declaration with sources := declaration.sources.take k } d.types with
  | error e => rfl
  | ok c => exact addSignatures_file d declaration.name c (declaration.sources.drop k)

/-- Under a name that is taken, no declaration is registered. -/
theorem command?_of_register {d d' : Dispatcher} {declaration : Declaration}
    (h : d.register declaration = .ok d') : d.command? declaration.name = none := by
  obtain ⟨c, hc, hnew, -⟩ := register_eq_ok h
  rwa [(soundCommand_of_build hc).name_eq] at hnew

/-- **Signatures can be registered together or in turn.** Wherever a declaration is split, registering its
first signatures and then adding the others gives the same dispatcher as registering all of them at once,
or neither gives one. Under a name that is not taken both fail in the same way: with the error of the first
signature that does not compile. -/
theorem register_split (d : Dispatcher) (declaration : Declaration) (k : Nat) :
    (∀ d', d.register declaration = .ok d' ↔ d.registerFirst declaration k = .ok d') ∧
      (d.command? declaration.name = none → ∀ e,
        (d.register declaration = .error e ↔ d.registerFirst declaration k = .error e) ∧
        (d.register declaration = .error e ↔
          ∃ before source after cause, declaration.sources = before ++ source :: after ∧
            (∀ t ∈ before, ∃ s, declaration.metadata.compile d.types t = .ok s) ∧
            declaration.metadata.compile d.types source = .error cause ∧
            e = .invalidSignature declaration.name source cause)) := by
  constructor
  · intro d'
    constructor
    · intro h
      rwa [registerFirst_of_new (command?_of_register h)]
    · intro h
      have hnew : d.command? declaration.name = none := by
        rw [registerFirst] at h
        split at h
        · next hfirst =>
          have hfree := command?_of_register hfirst
          exact hfree
        · cases h
      rwa [registerFirst_of_new hnew] at h
  · intro hnew e
    refine ⟨by rw [registerFirst_of_new hnew], ?_⟩
    have herror : ∀ built : Except RegistrationError Command,
        built.map (d.file declaration.name) = .error e ↔ built = .error e := by
      intro built
      cases built with
      | error e' => exact ⟨fun h => by cases h; rfl, fun h => by cases h; rfl⟩
      | ok c => exact ⟨nofun, nofun⟩
    rw [register_of_new hnew, herror]
    exact Command.addSignatures_eq_error_iff

/-- A declaration whose second signature declares a type without a name, and whose third is not closed. -/
def unnamedDeclaration : Declaration where
  name := "roll"
  sources := ["(int) sides", "(int)", "[text"]

/-- Adding the second signature is refused as registering the declaration is. -/
theorem register_split_unnamed :
    command? {} unnamedDeclaration.name = none ∧
      registerFirst {} unnamedDeclaration 1 = .error (.invalidSignature "roll" "(int)" (.missingName 0)) ∧
      register {} unnamedDeclaration = .error (.invalidSignature "roll" "(int)" (.missingName 0)) := by
  have hnew : command? {} unnamedDeclaration.name = none := rfl
  have hfirst : registerFirst {} unnamedDeclaration 1 =
      .error (.invalidSignature "roll" "(int)" (.missingName 0)) := by cbv
  exact ⟨hnew, hfirst, (((register_split {} unnamedDeclaration 1).2 hnew _).1).2 hfirst⟩

/-! ## Calls after a signature is added -/

/-- The first match among signatures and others after them. -/
theorem firstMatch?_append (types : TypeRegistry) (settings : EffectiveSettings) (input : Input)
    (index : Nat) (xs ys : List Signature) :
    firstMatch? types settings input index (xs ++ ys) =
      (firstMatch? types settings input index xs).or
        (firstMatch? types settings input (index + xs.length) ys) := by
  induction xs generalizing index with
  | nil => rfl
  | cons s rest ih =>
    simp only [List.cons_append, firstMatch?]
    cases (Search.of s input types settings).solve? with
    | some values => rfl
    | none => rw [ih, List.length_cons, Nat.add_assoc, Nat.add_comm 1]

/-- What comes of a match: validators are called on the values that the signature is bound to. -/
def conclude (command : String) : Nat × Signature × List (Nat × Value) → Outcome Binding
  | (index, s, values) =>
    let table := Binding.named s values
    let validation := validate command table s.arguments
    let events := validation.called.map fun (argument, value) => Event.validated argument value
    match validation.error with
    | some e => ⟨.error e, events⟩
    | none => ⟨.ok ⟨command, index, s.source, table⟩, events⟩

theorem resolveWith_of_some {d : Dispatcher} {c : Command} {line : String} {settings : EffectiveSettings}
    {found : Nat × Signature × List (Nat × Value)}
    (h : firstMatch? d.types settings (Input.ofLine line) 0 c.signatures = some found) :
    d.resolveWith c line settings = conclude c.name found := by
  obtain ⟨index, s, values⟩ := found
  simp only [resolveWith, h]
  rfl

theorem resolveWith_of_none {d : Dispatcher} {c : Command} {line : String} {settings : EffectiveSettings}
    (h : firstMatch? d.types settings (Input.ofLine line) 0 c.signatures = none) :
    d.resolveWith c line settings =
      ⟨.error (.noMatch c.name (c.signatures.map Signature.source)), []⟩ := by
  simp only [resolveWith, h]

/-- A match is rejected or bound. The place of the signature stands in the binding only. -/
theorem conclude_cases (command : String) (s : Signature) (values : List (Nat × Value)) :
    (∃ argument reason events, ∀ index, conclude command (index, s, values) =
      ⟨.error (.validation command argument reason), events⟩) ∨
    ∃ table events, ∀ index, conclude command (index, s, values) =
      ⟨.ok ⟨command, index, s.source, table⟩, events⟩ := by
  rcases validate_cases command (Binding.named s values) s.arguments with
    ⟨-, hval⟩ | ⟨accepted, k, later, reason, -, -, -, hval⟩
  · exact Or.inr ⟨_, _, fun index => by simp only [conclude, hval]; rfl⟩
  · exact Or.inl ⟨_, _, _, fun index => by simp only [conclude, hval]; rfl⟩

/-- What a call comes to after a signature is added behind `count` others, given what it comes to before
and what it comes to with the new signature alone. -/
inductive Extends (command : String) (s : Signature) (count : Nat) :
    Outcome Binding → Outcome Binding → Outcome Binding → Prop
  /-- A call that was bound is bound as before. -/
  | keptBound (b events alone) : Extends command s count ⟨.ok b, events⟩ alone ⟨.ok b, events⟩
  /-- A call that was rejected by a validator is rejected as before. -/
  | keptRejected (argument reason events alone) :
      Extends command s count ⟨.error (.validation command argument reason), events⟩ alone
        ⟨.error (.validation command argument reason), events⟩
  /-- Nothing matched, nor does the new signature. -/
  | noMatch (attempted) :
      Extends command s count ⟨.error (.noMatch command attempted), []⟩
        ⟨.error (.noMatch command [s.source]), []⟩
        ⟨.error (.noMatch command (attempted ++ [s.source])), []⟩
  /-- Nothing matched, and the new signature is bound. Its place is the last. -/
  | bound (attempted values events) :
      Extends command s count ⟨.error (.noMatch command attempted), []⟩
        ⟨.ok ⟨command, 0, s.source, values⟩, events⟩ ⟨.ok ⟨command, count, s.source, values⟩, events⟩
  /-- Nothing matched, and a validator rejects what the new signature is bound to. -/
  | rejected (attempted argument reason events) :
      Extends command s count ⟨.error (.noMatch command attempted), []⟩
        ⟨.error (.validation command argument reason), events⟩
        ⟨.error (.validation command argument reason), events⟩

theorem extends_resolveWith (d : Dispatcher) (c : Command) (s : Signature) (line : String)
    (settings : EffectiveSettings) :
    Extends c.name s c.signatures.length (d.resolveWith c line settings)
      (d.resolveWith { c with signatures := [s] } line settings)
      (d.resolveWith { c with signatures := c.signatures ++ [s] } line settings) := by
  have happend := firstMatch?_append d.types settings (Input.ofLine line) 0 c.signatures [s]
  cases hbefore : firstMatch? d.types settings (Input.ofLine line) 0 c.signatures with
  | some found =>
    rw [hbefore, Option.some_or] at happend
    have hafter := resolveWith_of_some (c := { c with signatures := c.signatures ++ [s] }) happend
    rw [resolveWith_of_some hbefore, hafter]
    obtain ⟨index, t, values⟩ := found
    rcases conclude_cases c.name t values with ⟨argument, reason, events, h⟩ | ⟨table, events, h⟩
    · rw [h]
      exact .keptRejected argument reason events _
    · rw [h]
      exact .keptBound _ events _
  | none =>
    rw [hbefore, Option.none_or, Nat.zero_add] at happend
    rw [resolveWith_of_none hbefore]
    cases hs : (Search.of s (Input.ofLine line) d.types settings).solve? with
    | none =>
      have hnone : ∀ index, firstMatch? d.types settings (Input.ofLine line) index [s] = none := by
        intro index
        simp only [firstMatch?, hs]
      rw [hnone] at happend
      have halone := resolveWith_of_none (c := { c with signatures := [s] }) (hnone 0)
      have hafter := resolveWith_of_none (c := { c with signatures := c.signatures ++ [s] }) happend
      rw [hafter, halone, List.map_append]
      exact .noMatch _
    | some values =>
      have hsome : ∀ index, firstMatch? d.types settings (Input.ofLine line) index [s] =
          some (index, s, values) := by
        intro index
        simp only [firstMatch?, hs]
      rw [hsome] at happend
      have halone := resolveWith_of_some (c := { c with signatures := [s] }) (hsome 0)
      have hafter := resolveWith_of_some (c := { c with signatures := c.signatures ++ [s] }) happend
      rw [hafter, halone]
      rcases conclude_cases c.name s values with ⟨argument, reason, events, h⟩ | ⟨table, events, h⟩
      · rw [h, h]
        exact .rejected _ argument reason events
      · rw [h, h]
        exact .bound _ table events

variable {d d' : Dispatcher} {name : String}

theorem resolve_file_self (d : Dispatcher) (name line : String) (c : Command) :
    (d.file name c).resolve name line = d.resolveWith c line (d.effective c) := by
  simp only [resolve, command?_file_self]
  rfl

theorem resolve_file_of_ne {other : String} (h : other ≠ name) (d : Dispatcher) (c : Command)
    (line : String) : (d.file name c).resolve other line = d.resolve other line := by
  simp only [resolve, command?_file_of_ne h]
  rfl

theorem dispatch_file_of_ne {other : String} (h : other ≠ name) (d : Dispatcher) (c : Command)
    (line : String) : (d.file name c).dispatch other line = d.dispatch other line := by
  simp only [dispatch, command?_file_of_ne h]
  rfl

/-- **A signature that is added answers only calls that none matched before.** Every call of the command
comes to what `Extends` says, and calls of the other commands come to what they came to before. -/
theorem resolve_addSignature {source : String} (hd : d.Reachable)
    (h : d.addSignature name source = .ok d') :
    ∃ c s, d.command? name = some c ∧ c.metadata.compile d.types source = .ok s ∧
      (∀ line, Extends name s c.signatures.length (d.resolve name line)
        ((d.file name { c with signatures := [s] }).resolve name line) (d'.resolve name line)) ∧
      ∀ other, other ≠ name → ∀ line,
        d'.resolve other line = d.resolve other line ∧ d'.dispatch other line = d.dispatch other line := by
  obtain ⟨c, c', hc, hadd, rfl⟩ := addSignature_eq_ok h
  obtain ⟨s, hs, rfl⟩ := Command.addSignature_eq_ok hadd
  obtain rfl : c.name = name := (hd.sound name c hc).name_eq
  refine ⟨c, s, hc, hs, fun line => ?_, fun other hother line =>
    ⟨resolve_file_of_ne hother d _ line, dispatch_file_of_ne hother d _ line⟩⟩
  have hbefore : d.resolve c.name line = d.resolveWith c line (d.effective c) := by
    simp only [resolve, hc]
  rw [hbefore, resolve_file_self, resolve_file_self]
  exact extends_resolveWith d c s line (d.effective c)

set_option maxRecDepth 4000 in
/-- No signature takes a word for a number. The signature that is added takes it as a text, and its place
is the second. -/
theorem resolve_addSignature_of_word :
    ∃ (d d' : Dispatcher) (c : Command) (s : Signature),
      register {} { name := "roll", sources := ["(int) sides"] } = .ok d ∧ d.Reachable ∧
      d.addSignature "roll" "(str) text" = .ok d' ∧
      d.resolve "roll" "many" = ⟨.error (.noMatch "roll" ["(int) sides"]), []⟩ ∧
      d'.resolve "roll" "many" = ⟨.ok ⟨"roll", 1, "(str) text", [("text", .str "many")]⟩, []⟩ ∧
      Extends "roll" s c.signatures.length (d.resolve "roll" "many")
        ((d.file "roll" { c with signatures := [s] }).resolve "roll" "many") (d'.resolve "roll" "many") ∧
      d'.resolve "help" "many" = d.resolve "help" "many" := by
  have hline : Input.ofLine "many" = ⟨["many"], []⟩ := by cbv
  obtain ⟨d, d', hregister, hadd, hbefore, hafter⟩ : ∃ d d',
      register {} { name := "roll", sources := ["(int) sides"] } = .ok d ∧
      d.addSignature "roll" "(str) text" = .ok d' ∧
      d.resolve "roll" "many" = ⟨.error (.noMatch "roll" ["(int) sides"]), []⟩ ∧
      d'.resolve "roll" "many" = ⟨.ok ⟨"roll", 1, "(str) text", [("text", .str "many")]⟩, []⟩ := by
    refine ⟨_, _, by cbv, by cbv, ?_⟩
    simp only [resolve, resolveWith, hline]
    exact ⟨rfl, rfl⟩
  have hd : d.Reachable := .command .empty hregister
  obtain ⟨c, s, -, -, hextends, hother⟩ := resolve_addSignature hd hadd
  exact ⟨d, d', c, s, hregister, hd, hadd, hbefore, hafter, hextends "many",
    (hother "help" (by decide) "many").1⟩

end Dispatcher

end Invocation
