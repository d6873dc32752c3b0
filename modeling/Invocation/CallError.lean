/-
  What can go wrong when a command is called.

  * `CallError` lists the causes, `CallError.message` words them;
  * `CallError.isRouted` tells which of them the fallback of the settings
    decides about: all but an unknown command.
-/

namespace Invocation

/-- The reason why a call gives no binding. -/
inductive CallError where
  | unknownCommand (command : String)
  /-- No signature matches; the texts of all of them are listed. -/
  | noMatch (command : String) (attempted : List String)
  /-- The value of an argument is rejected. -/
  | validation (command argument reason : String)
  deriving DecidableEq, Repr

namespace CallError

/-- The wording of an error. -/
def message : CallError → String
  | unknownCommand command => s!"unknown command: {command}"
  | noMatch command attempted =>
    let sources := String.intercalate "; " attempted
    s!"no signature of '{command}' matches the input (tried: {sources})"
  | validation command argument reason =>
    s!"argument '{argument}' of '{command}' failed validation: {reason}"

/-- The command that was called. -/
def command : CallError → String
  | unknownCommand command => command
  | noMatch command _ => command
  | validation command _ _ => command

/-- Whether the fallback of the settings decides what happens. -/
def isRouted : CallError → Bool
  | unknownCommand _ => false
  | noMatch _ _ => true
  | validation _ _ _ => true

end CallError

end Invocation
