/-
  Configurations: settings, custom types and commands as they are kept in a
  file.

  * `Config` is a configuration, `Config.toData` its data tree; tables of
    aliases and descriptions, and local settings, are left out if they are
    empty or absent;
  * `Config.command?` is the first command with a name.
-/
import Invocation.Settings

namespace Invocation

namespace Config

/-- A custom type that is given by a pattern. -/
structure TypeEntry where
  symbol : String
  pattern : String
  deriving DecidableEq, Repr

/-- The data tree of a type. -/
def TypeEntry.toData (t : TypeEntry) : Data :=
  .object [("symbol", .text t.symbol), ("pattern", .text t.pattern)]

/-- A command. -/
structure CommandEntry where
  name : String
  /-- The texts of the signatures in the order in which they are tried. -/
  signatures : List String := []
  /-- The aliases of arguments, in the order of the names of the arguments. -/
  aliases : List (String × List String) := []
  /-- The descriptions of arguments, in the order of the names of the arguments. -/
  descriptions : List (String × String) := []
  /-- The local layer of settings. -/
  settings : Option Settings := none
  deriving DecidableEq, Repr

/-- The field of a table, unless the table is empty. -/
def tableField (name : String) (fields : List (String × Data)) : List (String × Data) :=
  if fields.isEmpty then [] else [(name, .object fields)]

/-- The data tree of a command. -/
def CommandEntry.toData (c : CommandEntry) : Data :=
  .object
    ([("name", .text c.name), ("signatures", .texts c.signatures)] ++
      tableField "aliases" (c.aliases.map fun (argument, names) => (argument, .texts names)) ++
      tableField "descriptions" (c.descriptions.map fun (argument, text) => (argument, .text text)) ++
      (c.settings.map fun s => ("settings", s.toData)).toList)

end Config

/-- A configuration. -/
structure Config where
  /-- The global settings. -/
  settings : Settings := {}
  /-- The custom types in the order of their precedence. -/
  types : List Config.TypeEntry := []
  commands : List Config.CommandEntry := []
  deriving DecidableEq, Repr

namespace Config

/-- The data tree of a configuration. -/
def toData (c : Config) : Data :=
  .object
    [("settings", c.settings.toData), ("types", .list (c.types.map TypeEntry.toData)),
      ("commands", .list (c.commands.map CommandEntry.toData))]

/-- The first command with a name. -/
def command? (c : Config) (name : String) : Option CommandEntry := c.commands.find? (·.name == name)

end Config

end Invocation
