/-
  Commands: signatures under one name, with what is declared for their
  arguments.

  * `Metadata` holds aliases, validators and descriptions by the names of
    arguments; it applies to every signature that declares the argument;
  * `Declaration` is a command before its signatures are compiled, `Command`
    after;
  * `Command.compile` compiles one signature: its types must be registered,
    all aliases must be names, and no alias may stand for two arguments;
  * `Declaration.build` compiles all of them, up to the first error.
-/
import Invocation.Signature.Compile
import Invocation.TypeRegistry

namespace Invocation

open Invocation.Text

/-! ## Metadata -/

/-- What is declared for arguments by their names, in the order of the names. -/
structure Metadata where
  aliases : List (String × List String) := []
  validators : List (String × Validator) := []
  descriptions : List (String × String) := []

namespace Metadata

/-- The aliases declared for an argument, in order. -/
def aliasesOf (m : Metadata) (argument : String) : List String := (m.aliases.lookup argument).getD []

/-- Adds an alias of an argument. The marker of keywords in front of it is left out. -/
def addAlias (m : Metadata) (argument byname : String) : Metadata :=
  { m with aliases := setKey argument (m.aliasesOf argument ++ [dropMarker byname]) m.aliases }

/-- Adds aliases of an argument in order. -/
def addAliases (m : Metadata) (argument : String) (aliases : List String) : Metadata :=
  aliases.foldl (fun m byname => m.addAlias argument byname) m

/-- Sets the validator of an argument. -/
def setValidator (m : Metadata) (argument : String) (validator : Validator) : Metadata :=
  { m with validators := setKey argument validator m.validators }

/-- Sets the description of an argument. -/
def setDescription (m : Metadata) (argument text : String) : Metadata :=
  { m with descriptions := setKey argument text m.descriptions }

/-- The first alias that is no name. -/
def invalidAlias? (m : Metadata) : Option String :=
  (m.aliases.flatMap Prod.snd).find? (!isIdentifier ·)

/-- The argument with what is declared for it. -/
def decorate (m : Metadata) (a : Argument) : Argument :=
  { a with
    aliases := a.aliases ++ m.aliasesOf a.name
    validator := m.validators.lookup a.name
    description := (m.descriptions.lookup a.name).getD a.description }

end Metadata

/-! ## Names of arguments -/

/-- Adds the aliases of the argument at an index to a table of names. -/
def addAliasNames (argument : String) (index : Nat) (names : List (String × Nat)) :
    List String → Except SignatureError (List (String × Nat))
  | [] => .ok names
  | byname :: rest =>
    if (names.lookup byname).isSome then .error (.duplicateAlias byname argument)
    else addAliasNames argument index (names ++ [(byname, index)]) rest

/-- Adds the aliases of arguments, the first of which has the given index, to a table of names. -/
def addAllAliasNames (m : Metadata) (names : List (String × Nat)) (index : Nat) :
    List Argument → Except SignatureError (List (String × Nat))
  | [] => .ok names
  | argument :: rest =>
    match addAliasNames argument.name index names (m.aliasesOf argument.name) with
    | .ok names => addAllAliasNames m names (index + 1) rest
    | .error e => .error e

/-- The first custom type of arguments that is not registered. -/
def unknownType? (types : TypeRegistry) (arguments : List Argument) : Option String :=
  arguments.findSome? fun argument =>
    match argument.type with
    | .custom symbol => if types.contains symbol then none else some symbol
    | _ => none

/-- The signature of a text with what is declared for its arguments. -/
def Metadata.compile (m : Metadata) (types : TypeRegistry) (source : String) :
    Except SignatureError Signature :=
  match Signature.compile source with
  | .error e => .error e
  | .ok s =>
    match unknownType? types s.arguments, m.invalidAlias? with
    | some symbol, _ => .error (.unknownType symbol)
    | none, some byname => .error (.invalidName byname 0)
    | none, none =>
      (addAllAliasNames m s.lookup 0 s.arguments).map fun names =>
        { s with arguments := s.arguments.map m.decorate, lookup := names }

/-! ## Commands -/

/-- A command: signatures in the order in which they are tried. -/
structure Command where
  name : String
  signatures : List Signature := []
  /-- The local layer of settings. -/
  settings : Option Settings := none
  metadata : Metadata := {}

namespace Command

/-- The description of an argument. -/
def description (c : Command) (argument : String) : String :=
  (c.metadata.descriptions.lookup argument).getD defaultDescription

/-- The command with one more signature at the end. -/
def addSignature (c : Command) (types : TypeRegistry) (source : String) :
    Except RegistrationError Command :=
  match c.metadata.compile types source with
  | .ok s => .ok { c with signatures := c.signatures ++ [s] }
  | .error e => .error (.invalidSignature c.name source e)

/-- The command with more signatures at the end, in order. -/
def addSignatures (c : Command) (types : TypeRegistry) : List String → Except RegistrationError Command
  | [] => .ok c
  | source :: rest =>
    match c.addSignature types source with
    | .ok c => c.addSignatures types rest
    | .error e => .error e

end Command

/-- A command as it is declared. -/
structure Declaration where
  name : String
  /-- The texts of the signatures, in order. -/
  sources : List String := []
  settings : Option Settings := none
  metadata : Metadata := {}

/-- The command of a declaration, or the first error in its signatures. -/
def Declaration.build (d : Declaration) (types : TypeRegistry) : Except RegistrationError Command :=
  Command.addSignatures ⟨d.name, [], d.settings, d.metadata⟩ types d.sources

end Invocation
