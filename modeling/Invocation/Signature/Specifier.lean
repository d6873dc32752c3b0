/-
  Type specifiers: a type name, and for lists of native types a size in
  square brackets.

  * `Shape.ofSize?` reads what stands between the brackets: nothing, or a
    number from 1 to `2 ^ 64 - 1`;
  * `Specifier.ofChars` reads a whole specifier. A wrong size is reported
    before a wrong type.
-/
import Invocation.Signature.Lexeme
import Invocation.Decimal.Numeral

namespace Invocation

open Invocation.Text Invocation.Decimal

/-- The shape with a size between brackets. -/
def Shape.ofSize? (size : List Char) : Option Shape :=
  if size.isEmpty then some .greedy
  else if size.all isDigit && 0 < digitsValue size && digitsValue size ≤ 18446744073709551615 then
    some (.fixed (digitsValue size))
  else none

/-- What a specifier declares. -/
structure Specifier where
  type : ArgumentType
  shape : Shape
  deriving DecidableEq, Repr

namespace Specifier

/-- The characters before the closing bracket at the end, which blanks may follow. -/
def beforeCloser? (cs : List Char) : Option (List Char) :=
  match cs.reverse.dropWhile isBlank with
  | ']' :: size => some size.reverse
  | _ => none

/-- The name of the type and the shape; none if the size is malformed. -/
def split? (text : List Char) : Option (List Char × Shape) :=
  match text.dropWhile (· != '[') with
  | [] => some (trimChars text, .scalar)
  | _ :: rest => do
    let size ← beforeCloser? rest
    let shape ← Shape.ofSize? (trimChars size)
    some (trimChars (text.takeWhile (· != '[')), shape)

/-- The specifier with a text, at an offset. -/
def ofChars (text : List Char) (offset : Nat) : Except SignatureError Specifier :=
  match split? text with
  | none => .error (.malformedArraySize (String.ofList text) offset)
  | some (base, shape) =>
    let name := String.ofList base
    if name = "any" then .ok ⟨.any, shape⟩
    else
      match NativeType.ofName? name with
      | some type => .ok ⟨.native type, shape⟩
      | none =>
        if isIdentifierChars base then
          if shape = .scalar then .ok ⟨.custom name, shape⟩
          else .error (.customTypeArray name offset)
        else .error (.invalidType (String.ofList text) offset)

/-- What an argument without specifier is: a switch if it is a keyword, else one token of any type. -/
def default : Kind → Specifier
  | .positional => ⟨.any, .scalar⟩
  | .keyword => ⟨.native .bool, .scalar⟩

end Specifier

end Invocation
