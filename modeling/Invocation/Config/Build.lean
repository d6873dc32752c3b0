/-
  Dispatchers of configurations.

  * `Matcher.cast` casts a token to the text of the first group of a match, or
    to that of the match if the group takes no part in it;
  * `Config.TypeEntry.build` is the custom type of an entry: it accepts the
    tokens that hold a match;
  * `Config.dispatcher` registers the types of a configuration and then its
    commands, up to the first error.
-/
import Invocation.Config.Basic
import Invocation.Config.Error
import Invocation.Dispatcher
import Invocation.Libraries

namespace Invocation

/-- The cast of a type that is given by a pattern. -/
def Matcher.cast (m : Matcher) (token : String) : Except String Data :=
  match m.captures? token with
  | some c => .ok (.text (((c 1).or (c 0)).elim "" fun e => e.textIn token))
  | none => .error s!"'{token}' does not match"

namespace Config

variable (libs : Libraries)

/-- The custom type of an entry. -/
def TypeEntry.build (t : TypeEntry) : Except ConfigError CustomType :=
  match libs.compile t.pattern with
  | .ok m => .ok ⟨t.symbol, m.isMatch, m.cast⟩
  | .error reason => .error (.invalidPattern t.symbol reason)

/-- What an entry declares for arguments. -/
def CommandEntry.metadata (c : CommandEntry) : Metadata :=
  let withAliases := c.aliases.foldl (fun m (argument, names) => m.addAliases argument names) {}
  c.descriptions.foldl (fun m (argument, text) => m.setDescription argument text) withAliases

/-- The declaration of an entry. -/
def CommandEntry.declaration (c : CommandEntry) : Declaration :=
  ⟨c.name, c.signatures, c.settings, c.metadata⟩

/-- The dispatcher with the types of entries, in order. -/
def registerTypes (d : Dispatcher) : List TypeEntry → Except ConfigError Dispatcher
  | [] => .ok d
  | t :: rest =>
    match t.build libs with
    | .error e => .error e
    | .ok type =>
      match d.registerType type with
      | .error e => .error (.registration e)
      | .ok d => registerTypes d rest

/-- The dispatcher with the commands of entries, in order. -/
def registerCommands (d : Dispatcher) : List CommandEntry → Except ConfigError Dispatcher
  | [] => .ok d
  | c :: rest =>
    match d.register c.declaration with
    | .error e => .error (.registration e)
    | .ok d => registerCommands d rest

/-- The dispatcher of a configuration. -/
def dispatcher (c : Config) : Except ConfigError Dispatcher :=
  match registerTypes libs { settings := c.settings } c.types with
  | .error e => .error e
  | .ok d => registerCommands d c.commands

end Config

end Invocation
