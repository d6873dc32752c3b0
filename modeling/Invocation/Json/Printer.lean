/-
  JSON text of a data tree.

  * `Json.escapeChar` is the text of a character inside a string: only the
    quotation mark, the backslash and the controls below U+0020 are escaped;
  * `Json.numberLayout` is the layout of numbers with a point;
  * `Json.compact` writes a tree on one line without blanks, `Json.pretty`
    with one item a line and two spaces for each level.
-/
import Invocation.Data
import Invocation.Decimal.Layout

namespace Invocation.Json

open Invocation.Decimal

/-- Numbers are written without exponent from `1e-5` on and below `1e16`, a whole number ends in a point
and a zero, and a tie goes to the even digit. -/
def numberLayout : Layout := ⟨.toEven, fun point => -5 < point && point ≤ 16, ['.', '0']⟩

/-- The hexadecimal digit of a number below sixteen. -/
def hexDigit (n : Nat) : Char := if n < 10 then Char.ofNat (48 + n) else Char.ofNat (87 + n)

/-- The text of a character inside a string. -/
def escapeChar (c : Char) : List Char :=
  if c = '"' then ['\\', '"']
  else if c = '\\' then ['\\', '\\']
  else if 32 ≤ c.toNat then [c]
  else if c = '\x08' then ['\\', 'b']
  else if c = '\t' then ['\\', 't']
  else if c = '\n' then ['\\', 'n']
  else if c = '\x0c' then ['\\', 'f']
  else if c = '\r' then ['\\', 'r']
  else ['\\', 'u', '0', '0', hexDigit (c.toNat / 16), hexDigit (c.toNat % 16)]

/-- A string in quotation marks. -/
def quote (s : String) : List Char := '"' :: s.toList.flatMap escapeChar ++ ['"']

/-- The text of a whole number. -/
def intChars (n : Int) : List Char :=
  if n < 0 then '-' :: digitChars n.natAbs else digitChars n.natAbs

/-- The text of a number with a point; the infinities have none and are written as `null`. -/
def floatChars (x : Float) : List Char :=
  if isFinite x then (numberLayout.render x).toList else ['n', 'u', 'l', 'l']

/-- The text of a tree that holds no other tree. -/
def atomChars : Data → List Char
  | .bool true => ['t', 'r', 'u', 'e']
  | .bool false => ['f', 'a', 'l', 's', 'e']
  | .int n => intChars n
  | .float x => floatChars x
  | .text s => quote s
  | _ => ['n', 'u', 'l', 'l']

/-! ## On one line -/

mutual

/-- The text of a tree without blanks. -/
def compactChars : Data → List Char
  | .list items => '[' :: compactItems true items ++ [']']
  | .object fields => '{' :: compactFields true fields ++ ['}']
  | .tagged tag payload => '{' :: quote tag ++ ':' :: compactChars payload ++ ['}']
  | d => atomChars d

/-- Items after a comma each, the first one without. -/
def compactItems (first : Bool) : List Data → List Char
  | [] => []
  | d :: rest => (if first then [] else [',']) ++ compactChars d ++ compactItems false rest

/-- Fields after a comma each, the first one without. -/
def compactFields (first : Bool) : List (String × Data) → List Char
  | [] => []
  | (k, d) :: rest =>
    (if first then [] else [',']) ++ quote k ++ ':' :: compactChars d ++ compactFields false rest

end

/-- The JSON text of a tree on one line. -/
def compact (d : Data) : String := String.ofList (compactChars d)

/-! ## One item a line -/

/-- A line break and the indentation of a level. -/
def newLine (level : Nat) : List Char := '\n' :: List.replicate (2 * level) ' '

mutual

/-- The text of a tree that begins at an indentation level. -/
def prettyChars (level : Nat) : Data → List Char
  | .list [] => ['[', ']']
  | .list items => '[' :: prettyItems (level + 1) true items ++ newLine level ++ [']']
  | .object [] => ['{', '}']
  | .object fields => '{' :: prettyFields (level + 1) true fields ++ newLine level ++ ['}']
  | .tagged tag payload =>
    '{' :: newLine (level + 1) ++ quote tag ++ ':' :: ' ' :: prettyChars (level + 1) payload ++
      newLine level ++ ['}']
  | d => atomChars d

/-- Items on a line each. -/
def prettyItems (level : Nat) (first : Bool) : List Data → List Char
  | [] => []
  | d :: rest =>
    (if first then [] else [',']) ++ newLine level ++ prettyChars level d ++
      prettyItems level false rest

/-- Fields on a line each. -/
def prettyFields (level : Nat) (first : Bool) : List (String × Data) → List Char
  | [] => []
  | (k, d) :: rest =>
    (if first then [] else [',']) ++ newLine level ++ quote k ++ ':' :: ' ' :: prettyChars level d ++
      prettyFields level false rest

end

/-- The JSON text of a tree with one item a line. -/
def pretty (d : Data) : String := String.ofList (prettyChars 0 d)

end Invocation.Json
