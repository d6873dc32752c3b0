/-
  Reading JSON text.

  * `Json.read` reads a text that is one JSON value, with blanks around it.
    The fields of an object are kept in their order, also those that have one
    name; whole numbers within 64 bits are `int`, all others `float`;
  * `Json.parse` gives the data tree of that value, if its strings are texts.

  The readers of parts take the characters and give the part with what is
  left of them. They take fuel that bounds the length of strings and the
  nesting of values, for which a few more than twice the number of characters
  is always enough.
-/
import Invocation.Decimal.Numeral
import Invocation.Json.Tree

namespace Invocation.Json

open Invocation.Decimal

/-- Whether a character may stand between the parts of a value. -/
def isSpace (c : Char) : Bool := c == ' ' || c == '\n' || c == '\t' || c == '\r'

/-- The characters without the space in front. -/
def skipSpace (cs : List Char) : List Char := cs.dropWhile isSpace

/-! ## Strings -/

/-- The value of a hexadecimal digit. -/
def hexValue? (c : Char) : Option Nat :=
  if isDigit c then some (c.toNat - 48)
  else if 'a' ≤ c && c ≤ 'f' then some (c.toNat - 87)
  else if 'A' ≤ c && c ≤ 'F' then some (c.toNat - 55)
  else none

/-- Four hexadecimal digits, and what follows them. -/
def hexUnit? : List Char → Option (Nat × List Char)
  | a :: b :: c :: d :: rest => do
    let a ← hexValue? a
    let b ← hexValue? b
    let c ← hexValue? c
    let d ← hexValue? d
    some (((a * 16 + b) * 16 + c) * 16 + d, rest)
  | _ => none

/-- What stands after `\u`: the character of one unit, or of a pair of surrogates with an escape each.
Half of a pair is no character. -/
def unicodeEscape? (cs : List Char) : Option (Option Char × List Char) := do
  let (unit, rest) ← hexUnit? cs
  if 0xD800 ≤ unit && unit < 0xDC00 then
    match rest with
    | '\\' :: 'u' :: rest' =>
      match hexUnit? rest' with
      | some (low, left) =>
        if 0xDC00 ≤ low && low < 0xE000 then
          some (some (Char.ofNat (0x10000 + (unit - 0xD800) * 0x400 + (low - 0xDC00))), left)
        else some (none, rest)
      | none => none
    | _ => some (none, rest)
  else if 0xDC00 ≤ unit && unit < 0xE000 then some (none, rest)
  else some (some (Char.ofNat unit), rest)

/-- The character that an escape of one letter stands for. -/
def simpleEscape? : Char → Option Char
  | '"' => some '"'
  | '\\' => some '\\'
  | '/' => some '/'
  | 'b' => some '\x08'
  | 'f' => some '\x0c'
  | 'n' => some '\n'
  | 'r' => some '\r'
  | 't' => some '\t'
  | _ => none

/-- The characters of a string up to its closing quotation mark, and what follows that; `fuel` bounds
the length of the string. -/
def stringBody : Nat → List Char → Option (List (Option Char) × List Char)
  | 0, _ => none
  | fuel + 1, cs =>
    match cs with
    | [] => none
    | '"' :: rest => some ([], rest)
    | '\\' :: 'u' :: rest => do
      let (c, rest') ← unicodeEscape? rest
      let (tail, left) ← stringBody fuel rest'
      some (c :: tail, left)
    | '\\' :: letter :: rest => do
      let c ← simpleEscape? letter
      let (tail, left) ← stringBody fuel rest
      some (some c :: tail, left)
    | c :: rest => do
      if c.toNat < 32 || c == '\\' then none
      else
        let (tail, left) ← stringBody fuel rest
        some (some c :: tail, left)

/-- A string after its opening quotation mark. It is a text if each of its parts is a character. -/
def string? (fuel : Nat) (cs : List Char) : Option (Option String × List Char) :=
  (stringBody fuel cs).map fun (parts, rest) => ((parts.mapM id).map String.ofList, rest)

/-! ## Numbers -/

/-- The digits before the point: a zero alone, or a run that does not begin with one. -/
def wholePart? (cs : List Char) : Option (List Char × List Char) :=
  match cs with
  | '0' :: rest => if rest.head?.any isDigit then none else some (['0'], rest)
  | _ =>
    let digits := cs.takeWhile isDigit
    if digits.isEmpty then none else some (digits, cs.dropWhile isDigit)

/-- The digits after a point; none without a point. -/
def fractionPart? (cs : List Char) : Option (List Char × List Char) :=
  match cs with
  | '.' :: rest =>
    let digits := rest.takeWhile isDigit
    if digits.isEmpty then none else some (digits, rest.dropWhile isDigit)
  | _ => some ([], cs)

/-- An exponent; none where no letter `e` stands. -/
def exponentPart? (cs : List Char) : Option (Option Int × List Char) :=
  match cs with
  | c :: rest =>
    if c == 'e' || c == 'E' then
      let (negative, body) := takeSign rest
      let digits := body.takeWhile isDigit
      if digits.isEmpty then none
      else
        let n : Int := digitsValue digits
        some (some (if negative then -n else n), body.dropWhile isDigit)
    else some (none, cs)
  | [] => some (none, [])

/-- A number: `int` if it is whole, within 64 bits and not a negative zero, else `float`. -/
def number? (cs : List Char) : Option (Tree × List Char) := do
  let (negative, body) := match cs with
    | '-' :: rest => (true, rest)
    | _ => (false, cs)
  let (whole, rest) ← wholePart? body
  let (fraction, rest) ← fractionPart? rest
  let (exponent, rest) ← exponentPart? rest
  let n := digitsValue whole
  let isWhole := fraction.isEmpty && exponent.isNone
  if isWhole && !negative && n ≤ 18446744073709551615 then some (.int n, rest)
  else if isWhole && negative && 0 < n && n ≤ 9223372036854775808 then some (.int (-n), rest)
  else
    let numeral : Numeral := ⟨negative, whole ++ fraction, exponent.getD 0 - fraction.length⟩
    some (.float numeral.toFloat, rest)

/-! ## Values -/

mutual

/-- A value and what follows it. -/
def value? : Nat → List Char → Option (Tree × List Char)
  | 0, _ => none
  | fuel + 1, cs =>
    match cs with
    | 'n' :: 'u' :: 'l' :: 'l' :: rest => some (.null, rest)
    | 't' :: 'r' :: 'u' :: 'e' :: rest => some (.bool true, rest)
    | 'f' :: 'a' :: 'l' :: 's' :: 'e' :: rest => some (.bool false, rest)
    | '"' :: rest => (string? fuel rest).map fun (s, left) => (.string s, left)
    | '[' :: rest =>
      match skipSpace rest with
      | ']' :: left => some (.list [], left)
      | rest' => (items? fuel rest').map fun (items, left) => (.list items, left)
    | '{' :: rest =>
      match skipSpace rest with
      | '}' :: left => some (.object [], left)
      | rest' => (fields? fuel rest').map fun (fields, left) => (.object fields, left)
    | _ => number? cs

/-- The items of a list, from the first one on to the closing bracket. -/
def items? : Nat → List Char → Option (List Tree × List Char)
  | 0, _ => none
  | fuel + 1, cs => do
    let (item, rest) ← value? fuel cs
    match skipSpace rest with
    | ',' :: rest' =>
      let (items, left) ← items? fuel (skipSpace rest')
      some (item :: items, left)
    | ']' :: left => some ([item], left)
    | _ => none

/-- The fields of an object, from the first one on to the closing brace. -/
def fields? : Nat → List Char → Option (List (Option String × Tree) × List Char)
  | 0, _ => none
  | fuel + 1, cs =>
    match cs with
    | '"' :: rest => do
      let (name, rest) ← string? fuel rest
      match skipSpace rest with
      | ':' :: rest =>
        let (item, rest) ← value? fuel (skipSpace rest)
        match skipSpace rest with
        | ',' :: rest' =>
          let (fields, left) ← fields? fuel (skipSpace rest')
          some ((name, item) :: fields, left)
        | '}' :: left => some ([(name, item)], left)
        | _ => none
      | _ => none
    | _ => none

end

/-- The value that a text is, with blanks around it. -/
def read (s : String) : Option Tree := do
  let cs := skipSpace s.toList
  let (t, rest) ← value? (2 * cs.length + 2) cs
  if (skipSpace rest).isEmpty then some t else none

/-- The data tree that a text is, with blanks around it. -/
def parse (s : String) : Option Data := (read s).bind Tree.data?

end Invocation.Json
