/-
  Reading configurations from documents.

  * `Config.ofDocument?` is the configuration that a document is.

  A record is a table whose keys are the names of its fields: other keys do
  not count, but no field may stand twice. In JSON a record may also be a
  list of its fields in their order, of which the last ones may be missing.
  A field without a default must be there.
-/
import Invocation.Config.Basic
import Invocation.Document

namespace Invocation

/-- The formats of configuration files. -/
inductive Format where
  | json
  | yaml
  deriving DecidableEq, Repr

namespace Config

/-! ## Records -/

/-- The entry with a name, if it stands there; no name may stand twice. -/
def fieldOf? (entries : List (String × Document)) (name : String) : Option (Option Document) :=
  match entries.filter (·.1 == name) with
  | [] => some none
  | [(_, d)] => some (some d)
  | _ => none

/-- The fields of a record that have the given names, each if it is there. -/
def fields? (format : Format) (names : List String) (d : Document) : Option (List (Option Document)) :=
  match format, d with
  | .json, .list items =>
    if items.length ≤ names.length then
      some (items.map some ++ List.replicate (names.length - items.length) none)
    else none
  | _, d => d.entries?.bind fun entries => names.mapM (fieldOf? entries)

/-- A field that has a default. -/
def orElse {α : Type} (default : α) (read : Document → Option α) : Option Document → Option α
  | none => some default
  | some d => read d

/-- A part that may be left out. -/
def ifPresent {α : Type} (read : Document → Option α) (d : Document) : Option (Option α) :=
  if d.isAbsent then some none else (read d).map some

/-- A list of texts. -/
def texts? (d : Document) : Option (List String) := d.items?.bind fun items => items.mapM Document.text?

/-- A set of texts. -/
def textSet? (d : Document) : Option (List String) := (texts? d).map textSet

/-- A table whose values are read alike; of two entries with one key the later one counts. -/
def table? {α : Type} (read : Document → Option α) (d : Document) : Option (List (String × α)) := do
  let entries ← d.entries?
  let pairs ← entries.mapM fun (key, value) => (read value).map fun v => (key, v)
  some (keyTable pairs)

/-! ## The parts of a configuration -/

/-- A fallback: its name. In JSON the name may be the key of nothing. -/
def fallback? (format : Format) (d : Document) : Option Fallback :=
  match format, d with
  | .json, .table [(name, .null none)] => Fallback.ofName? name
  | _, d => d.text?.bind Fallback.ofName?

/-- A layer of settings. Words are kept as they are written. -/
def settings? (format : Format) (d : Document) : Option Settings := do
  match ← fields? format ["fallback", "truthy", "falsy", "types"] d with
  | [fallback, truthy, falsy, typeOrder] =>
    some
      { fallback := ← orElse none (ifPresent (fallback? format)) fallback
        truthy := ← orElse none (ifPresent textSet?) truthy
        falsy := ← orElse none (ifPresent textSet?) falsy
        typeOrder := ← orElse none (ifPresent texts?) typeOrder }
  | _ => none

/-- A type. -/
def readType? (format : Format) (d : Document) : Option TypeEntry := do
  match ← fields? format ["symbol", "pattern"] d with
  | [symbol, pattern] =>
    some { symbol := ← symbol.bind Document.text?, pattern := ← pattern.bind Document.text? }
  | _ => none

/-- A command. -/
def readCommand? (format : Format) (d : Document) : Option CommandEntry := do
  match ← fields? format ["name", "signatures", "aliases", "descriptions", "settings"] d with
  | [name, signatures, aliases, descriptions, settings] =>
    some
      { name := ← name.bind Document.text?
        signatures := ← orElse [] texts? signatures
        aliases := ← orElse [] (table? texts?) aliases
        descriptions := ← orElse [] (table? Document.text?) descriptions
        settings := ← orElse none (ifPresent (settings? format)) settings }
  | _ => none

/-- Items that are read alike. -/
def entries? {α : Type} (read : Document → Option α) (d : Document) : Option (List α) :=
  d.items?.bind fun items => items.mapM read

/-- The configuration that a document is. -/
def ofDocument? (format : Format) (d : Document) : Option Config := do
  match ← fields? format ["settings", "types", "commands"] d with
  | [settings, types, commands] =>
    some
      { settings := ← orElse {} (settings? format) settings
        types := ← orElse [] (entries? (readType? format)) types
        commands := ← orElse [] (entries? (readCommand? format)) commands }
  | _ => none

end Config

end Invocation
