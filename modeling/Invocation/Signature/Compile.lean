/-
  Compiling a signature text.

  The lexemes are read once from left to right. A `Level` holds what has been
  read since the innermost open bracket: units side by side, which are the
  operand that is being read, and the chain of operators before them, folded
  from the left. A bracket opens a new level; when it is closed, the node of
  the level becomes a unit of the level around it.

  * `Reading.step` reads one lexeme, `Reading.finish` ends the text;
  * `Signature.compile` is the whole: the signature of a text, or the first
    error in it.
-/
import Invocation.Signature.Specifier

namespace Invocation

open Invocation.Text

/-! ## Levels -/

/-- What has been read since the innermost open bracket. -/
structure Level where
  /-- The operand left of the last operator, that operator and its offset. -/
  chain : Option (Node × Operator × Nat) := none
  /-- The units after the last operator. -/
  units : List Node := []

namespace Level

/-- The operand that the units make: a single unit is itself, several are an `and` group. -/
def operand? (level : Level) : Option Node :=
  match level.units with
  | [] => none
  | [unit] => some unit
  | units => some (.group .and true units)

/-- The chain with an operand at its end. -/
def join (level : Level) (operand : Node) : Node :=
  match level.chain with
  | none => operand
  | some (left, op, _) => .group op.combinator true [left, operand]

/-- The level with a unit at its end. -/
def addUnit (level : Level) (unit : Node) : Level := { level with units := level.units ++ [unit] }

/-- The level after an operator. -/
def addOperator (level : Level) (operand : Node) (op : Operator) (offset : Nat) : Level :=
  ⟨some (level.join operand, op, offset), []⟩

end Level

/-- An open bracket and the level around it. -/
structure OpenGroup where
  bracket : Bracket
  offset : Nat
  outer : Level

/-! ## Reading -/

/-- How far a text has been read. -/
structure Reading where
  level : Level := {}
  /-- The open brackets, the innermost first. -/
  enclosing : List OpenGroup := []
  arguments : List Argument := []
  /-- A specifier whose argument has not been read, and its offset. -/
  pending : Option (Specifier × Nat) := none

namespace Reading

/-- Ends an operand that is missing. -/
def missingOperand (r : Reading) (otherwise : SignatureError) : SignatureError :=
  match r.level.chain with
  | some (_, op, offset) => .danglingOperator op.symbol offset
  | none => otherwise

/-- The kind of an argument and its name without the marker. -/
def splitMarker : List Char → Kind × List Char
  | '-' :: '-' :: name => (.keyword, name)
  | name => (.positional, name)

/-- Declares an argument and puts its leaf at the end of the level. -/
def addArgument (r : Reading) (text : List Char) (offset : Nat) : Except SignatureError Reading :=
  let (kind, chars) := splitMarker text
  let name := String.ofList chars
  if !isIdentifierChars chars then .error (.invalidName (String.ofList text) offset)
  else if r.arguments.any (·.name == name) then .error (.duplicateName name)
  else
    let specifier := (r.pending.map Prod.fst).getD (Specifier.default kind)
    .ok
      { r with
        level := r.level.addUnit (.leaf r.arguments.length)
        arguments := r.arguments ++ [{ name, kind, type := specifier.type, shape := specifier.shape }]
        pending := none }

/-- Opens a bracket. -/
def openGroup (r : Reading) (bracket : Bracket) (offset : Nat) : Reading :=
  { r with level := {}, enclosing := ⟨bracket, offset, r.level⟩ :: r.enclosing }

/-- Ends an operand with an operator. -/
def addOperator (r : Reading) (op : Operator) (offset : Nat) : Except SignatureError Reading :=
  match r.level.operand? with
  | none => .error (r.missingOperand (.danglingOperator op.symbol offset))
  | some operand => .ok { r with level := r.level.addOperator operand op offset }

/-- Closes the innermost bracket. -/
def closeGroup (r : Reading) (bracket : Bracket) (offset : Nat) : Except SignatureError Reading :=
  match r.level.operand?, r.enclosing with
  | none, [] => .error (r.missingOperand (.unmatchedClose bracket.closer offset))
  | none, group :: _ => .error (r.missingOperand (.emptyGroup group.offset))
  | some _, [] => .error (.unmatchedClose bracket.closer offset)
  | some operand, group :: outer =>
    if group.bracket = bracket then
      let unit := (Group.ofNode bracket.isRequired (r.level.join operand)).toNode
      .ok { r with level := group.outer.addUnit unit, enclosing := outer }
    else .error (.mismatchedGroup group.bracket.opener bracket.closer group.offset)

/-- Reads one lexeme. After a specifier only a name may come. -/
def step (r : Reading) (placed : Placed) : Except SignatureError Reading :=
  match r.pending, placed.lexeme with
  | _, .name text => r.addArgument text placed.offset
  | some (_, offset), _ => .error (.missingName offset)
  | none, .specifier text =>
    (Specifier.ofChars text placed.offset).map fun a => { r with pending := some (a, placed.offset) }
  | none, .opening bracket => .ok (r.openGroup bracket placed.offset)
  | none, .operator op => r.addOperator op placed.offset
  | none, .closing bracket => r.closeGroup bracket placed.offset

/-- Reads lexemes from left to right. -/
def steps (r : Reading) : List Placed → Except SignatureError Reading
  | [] => .ok r
  | placed :: rest =>
    match r.step placed with
    | .ok r => r.steps rest
    | .error e => .error e

/-- The node of a text that has been read to its end. -/
def finish (r : Reading) : Except SignatureError Node :=
  match r.pending, r.level.operand?, r.enclosing with
  | some (_, offset), _, _ => .error (.missingName offset)
  | none, none, [] => .error (r.missingOperand .emptySignature)
  | none, none, group :: _ => .error (r.missingOperand (.emptyGroup group.offset))
  | none, some operand, [] => .ok (r.level.join operand)
  | none, some _, group :: _ => .error (.unbalancedGroup group.bracket.opener group.offset)

end Reading

/-- The group at the root of a tree: a leaf is the only child of a required `and` group. -/
def Group.ofRoot : Node → Group
  | .group combinator required children => ⟨children, combinator, required⟩
  | leaf => ⟨[leaf], .and, true⟩

/-- The index of every argument under its name. -/
def nameTable (arguments : List Argument) : List (String × Nat) :=
  arguments.zipIdx.map fun (argument, index) => (argument.name, index)

/-- The signature of a text, or the first error in it. -/
def Signature.compile (source : String) : Except SignatureError Signature :=
  match Lexeme.scan source with
  | .error e => .error e
  | .ok lexemes =>
    match Reading.steps {} lexemes with
    | .error e => .error e
    | .ok r =>
      match r.finish with
      | .error e => .error e
      | .ok node => .ok ⟨trim source, Group.ofRoot node, r.arguments, nameTable r.arguments⟩

end Invocation
