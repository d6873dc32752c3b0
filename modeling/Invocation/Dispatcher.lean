/-
  The dispatcher: registered types and commands, and calls of the commands.

  * `Dispatcher.registerType`, `Dispatcher.register` and
    `Dispatcher.addSignature` change the dispatcher, or refuse and say why;
  * `Dispatcher.resolve` tries the signatures of a command in order: the
    first that matches is validated, and no other is tried after it;
  * `Dispatcher.dispatch` lets the fallback in force decide about a call
    that does not match or is rejected.

  The answer of a call is an `Outcome`: besides the result it lists the
  validators and handlers that were called.
-/
import Invocation.Command
import Invocation.Matching.Search
import Invocation.Validation

namespace Invocation

/-- A call of something registered by the user. -/
inductive Event where
  /-- The validator of an argument was called on a value. -/
  | validated (argument : String) (value : Value)
  /-- A handler was called with an error. -/
  | handled (handler : Handler) (error : CallError)

/-- The answer of a call, and what was called for it, in order. -/
structure Outcome (α : Type) where
  result : Except CallError α
  events : List Event := []

/-- Registered types and commands, and the global settings. -/
structure Dispatcher where
  types : TypeRegistry := {}
  settings : Settings := {}
  /-- The commands in the order of their names. -/
  commands : List (String × Command) := []

namespace Dispatcher

/-! ## Registration -/

/-- The dispatcher with one more custom type. -/
def registerType (d : Dispatcher) (t : CustomType) : Except RegistrationError Dispatcher :=
  (d.types.register t).map fun types => { d with types }

/-- The command with a name. -/
def command? (d : Dispatcher) (name : String) : Option Command := d.commands.lookup name

/-- The dispatcher with one more command. Its signatures are compiled before its name is looked up. -/
def register (d : Dispatcher) (declaration : Declaration) : Except RegistrationError Dispatcher :=
  match declaration.build d.types with
  | .error e => .error e
  | .ok command =>
    if (d.command? command.name).isSome then .error (.duplicateCommand command.name)
    else .ok { d with commands := setKey command.name command d.commands }

/-- The dispatcher with one more signature of a command, which is tried last. -/
def addSignature (d : Dispatcher) (name source : String) : Except RegistrationError Dispatcher :=
  match d.command? name with
  | none => .error (.unknownCommand name)
  | some command =>
    (command.addSignature d.types source).map fun command =>
      { d with commands := setKey name command d.commands }

/-! ## Calls -/

/-- The settings in force for a command. -/
def effective (d : Dispatcher) (command : Command) : EffectiveSettings :=
  EffectiveSettings.resolve command.settings d.settings

/-- The first signature that matches, with its place and the values that it binds. -/
def firstMatch? (types : TypeRegistry) (settings : EffectiveSettings) (input : Input) (index : Nat) :
    List Signature → Option (Nat × Signature × List (Nat × Value))
  | [] => none
  | s :: rest =>
    match (Search.of s input types settings).solve? with
    | some values => some (index, s, values)
    | none => firstMatch? types settings input (index + 1) rest

/-- The outcome of a call of a command under settings. -/
def resolveWith (d : Dispatcher) (command : Command) (line : String) (settings : EffectiveSettings) :
    Outcome Binding :=
  match firstMatch? d.types settings (Input.ofLine line) 0 command.signatures with
  | none => ⟨.error (.noMatch command.name (command.signatures.map Signature.source)), []⟩
  | some (index, s, values) =>
    let values := Binding.named s values
    let validation := validate command.name values s.arguments
    let events := validation.called.map fun (argument, value) => Event.validated argument value
    match validation.error with
    | some e => ⟨.error e, events⟩
    | none => ⟨.ok ⟨command.name, index, s.source, values⟩, events⟩

/-- The outcome of a call before any fallback. -/
def resolve (d : Dispatcher) (name line : String) : Outcome Binding :=
  match d.command? name with
  | none => ⟨.error (.unknownCommand name), []⟩
  | some command => d.resolveWith command line (d.effective command)

/-- What the fallback makes of an error: the error itself, or nothing, after the handler if one is to be
called. -/
def fallBack (settings : EffectiveSettings) (e : CallError) : Outcome (Option Binding) :=
  match settings.fallback with
  | .raise => ⟨.error e, []⟩
  | .ignore => ⟨.ok none, []⟩
  | .handle => ⟨.ok none, (settings.resolvedHandler.map fun h => Event.handled h e).toList⟩

/-- The outcome of a call. Nothing comes of a call whose error was ignored or handled; an unknown
command is always an error. -/
def dispatch (d : Dispatcher) (name line : String) : Outcome (Option Binding) :=
  match d.command? name with
  | none => ⟨.error (.unknownCommand name), []⟩
  | some command =>
    let settings := d.effective command
    let outcome := d.resolveWith command line settings
    match outcome.result with
    | .ok binding => ⟨.ok (some binding), outcome.events⟩
    | .error e =>
      if e.isRouted then
        let after := fallBack settings e
        ⟨after.result, outcome.events ++ after.events⟩
      else ⟨.error e, outcome.events⟩

end Dispatcher

end Invocation
