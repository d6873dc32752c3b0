/-
  Texts and data trees of signatures.

  * `Argument.usage` writes an argument as it is declared;
  * `Signature.renderTree` writes the logic tree, one node a line and two
    spaces for each level;
  * `Signature.toData` is the data tree of a signature.
-/
import Invocation.Signature.Basic

namespace Invocation

/-! ## Text -/

/-- The text of a shape after the type. -/
def Shape.text : Shape → String
  | scalar => ""
  | greedy => "[]"
  | fixed count => s!"[{count}]"

/-- The marker in front of the name of an argument. -/
def Kind.marker : Kind → String
  | positional => ""
  | keyword => "--"

/-- An argument as it is declared in a signature. -/
def Argument.usage (a : Argument) : String :=
  s!"({a.type.name}{a.shape.text}) {a.kind.marker}{a.name}"

/-- The line of a group, without indentation. -/
def groupLine (combinator : Combinator) (required : Bool) : String :=
  let presence := if required then "required" else "optional"
  s!"{combinator.name} ({presence})"

/-- A text at an indentation level, as a line. -/
def indented (level : Nat) (text : String) : String :=
  String.ofList (List.replicate (2 * level) ' ') ++ text ++ "\n"

mutual

/-- The lines of a node at an indentation level. -/
def Node.render (arguments : List Argument) (level : Nat) : Node → String
  | .leaf index => indented level ((arguments[index]?).elim "" Argument.usage)
  | .group combinator required children =>
    indented level (groupLine combinator required) ++
      Node.renderAll arguments (level + 1) children

/-- The lines of nodes at an indentation level. -/
def Node.renderAll (arguments : List Argument) (level : Nat) : List Node → String
  | [] => ""
  | node :: rest => Node.render arguments level node ++ Node.renderAll arguments level rest

end

/-- The logic tree of a signature, one node a line. -/
def Signature.renderTree (s : Signature) : String := s.root.toNode.render s.arguments 0

/-! ## Data -/

/-- The native types in data trees. -/
def NativeType.dataName : NativeType → String
  | bool => "bool"
  | int => "int"
  | float => "float"
  | str => "string"

/-- The data tree of a type. -/
def ArgumentType.toData : ArgumentType → Data
  | any => .text "any"
  | native type => .tagged "native" (.text type.dataName)
  | custom symbol => .tagged "custom" (.text symbol)

/-- The native type with a name in data trees. -/
def NativeType.ofDataName? : String → Option NativeType
  | "bool" => some bool
  | "int" => some int
  | "float" => some float
  | "string" => some str
  | _ => none

/-- The native type that a data tree stands for: its name, alone or as the only field of an object. -/
def NativeType.ofData? : Data → Option NativeType
  | .text name => ofDataName? name
  | .object [(name, .null)] => ofDataName? name
  | _ => none

/-- The type that a data tree stands for. -/
def ArgumentType.ofData? : Data → Option ArgumentType
  | .text "any" => some any
  | .object [("any", .null)] => some any
  | .object [("native", type)] => (NativeType.ofData? type).map native
  | .object [("custom", .text symbol)] => some (custom symbol)
  | _ => none

/-- The data tree of a shape. -/
def Shape.toData : Shape → Data
  | scalar => .text "scalar"
  | greedy => .text "greedy"
  | fixed count => .tagged "fixed" (.int count)

/-- The data tree of a kind. -/
def Kind.toData : Kind → Data
  | positional => .text "positional"
  | keyword => .text "keyword"

/-- The data tree of an argument. -/
def Argument.toData (a : Argument) : Data :=
  .object
    [("name", .text a.name), ("kind", a.kind.toData), ("type", a.type.toData),
      ("array", a.shape.toData), ("aliases", .texts a.aliases), ("description", .text a.description)]

/-- The data tree of a group with the data trees of its children. -/
def groupData (combinator : Combinator) (required : Bool) (children : List Data) : Data :=
  .object
    [("children", .list children), ("combinator", .text combinator.name), ("required", .bool required)]

mutual

/-- The data tree of a node. -/
def Node.toData : Node → Data
  | .leaf index => .tagged "leaf" (.int index)
  | .group combinator required children =>
    .tagged "group" (groupData combinator required (Node.allToData children))

/-- The data trees of nodes. -/
def Node.allToData : List Node → List Data
  | [] => []
  | node :: rest => Node.toData node :: Node.allToData rest

end

/-- The data tree of a signature. -/
def Signature.toData (s : Signature) : Data :=
  .object
    [("source", .text s.source),
      ("root", groupData s.root.combinator s.root.required (Node.allToData s.root.children)),
      ("arguments", .list (s.arguments.map Argument.toData))]

end Invocation
