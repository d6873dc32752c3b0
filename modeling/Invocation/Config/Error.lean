/-
  What can go wrong with a configuration.

  * `ConfigError` lists the causes, `ConfigError.message` words them.
-/
import Invocation.RegistrationError

namespace Invocation

/-- The reason why a configuration gives no dispatcher. -/
inductive ConfigError where
  /-- The file cannot be read or written. -/
  | file (reason : String)
  /-- The text is no configuration in JSON. -/
  | json (reason : String)
  /-- The text is no configuration in YAML. -/
  | yaml (reason : String)
  /-- The pattern of a type is no pattern. -/
  | invalidPattern (symbol reason : String)
  /-- A type or a command is refused. -/
  | registration (cause : RegistrationError)
  deriving DecidableEq, Repr

/-- The wording of an error. -/
def ConfigError.message : ConfigError → String
  | file reason => s!"I/O error: {reason}"
  | json reason => s!"JSON error: {reason}"
  | yaml reason => s!"YAML error: {reason}"
  | invalidPattern symbol reason => s!"invalid pattern for type '{symbol}': {reason}"
  | registration cause => cause.message

end Invocation
