/-
  What can go wrong when types and commands are registered.

  * `RegistrationError` lists the causes, `RegistrationError.message` words
    them.
-/
import Invocation.Signature.Error

namespace Invocation

/-- The reason why a registration is refused. -/
inductive RegistrationError where
  | duplicateType (symbol : String)
  | reservedType (symbol : String)
  | invalidTypeSymbol (symbol : String)
  | duplicateCommand (command : String)
  | unknownCommand (command : String)
  /-- A signature of a command is refused; the signature is quoted as it was given. -/
  | invalidSignature (command source : String) (cause : SignatureError)
  deriving DecidableEq, Repr

/-- The wording of an error. -/
def RegistrationError.message : RegistrationError → String
  | duplicateType symbol => s!"custom type '{symbol}' is already registered"
  | reservedType symbol => s!"'{symbol}' is a reserved type name"
  | invalidTypeSymbol symbol => s!"invalid custom type symbol '{symbol}'"
  | duplicateCommand command => s!"command '{command}' is already registered"
  | unknownCommand command => s!"command '{command}' is not registered"
  | invalidSignature command source cause =>
    s!"invalid signature '{source}' for command '{command}': {cause.message}"

end Invocation
