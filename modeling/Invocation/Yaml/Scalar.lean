/-
  Texts as YAML scalars.

  * `isBreak`, `isGap` and `isPrintable` are the classes of characters;
  * `readsAsOther` tells whether a plain scalar would be read as nothing, a
    truth value or a number;
  * `Style.ofText` chooses the style of a text: plain if it may be, else in
    single quotation marks if it may be, else in double ones; a text of
    several lines is written literally if it may be;
  * `scalarChars` is the text of a scalar.
-/
import Invocation.Decimal.Layout
import Invocation.Decimal.Numeral
import Invocation.Json.Parser

namespace Invocation.Yaml

open Invocation.Decimal

/-! ## Characters -/

/-- Whether a character ends a line. -/
def isBreak (c : Char) : Bool :=
  c == '\n' || c == '\r' || c == '\u0085' || c == '\u2028' || c == '\u2029'

/-- Whether a character separates words on one line. -/
def isGap (c : Char) : Bool := c == ' ' || c == '\t'

/-- Whether a word may not go on with a character: a gap, a break or nothing. -/
def isEnd : Option Char → Bool
  | none => true
  | some c => isGap c || isBreak c

/-- Whether a character is written as it is. -/
def isPrintable (c : Char) : Bool :=
  let n := c.toNat
  c == '\n' || (0x20 ≤ n && n ≤ 0x7E) || (0xA0 ≤ n && n ≤ 0xD7FF) ||
    (0xE000 ≤ n && n ≤ 0xFFFD && n != 0xFEFF) || 0x10000 ≤ n

/-! ## What plain scalars are read as -/

/-- Whether a word stands for nothing. -/
def isNullWord (s : String) : Bool := ["null", "Null", "NULL", "~"].contains s

/-- Whether a word stands for a truth value. -/
def isTruthWord (s : String) : Bool := ["true", "True", "TRUE", "false", "False", "FALSE"].contains s

/-- Whether a word stands for an infinity or for no number. -/
def isInfinityWord (s : String) : Bool :=
  [".inf", ".Inf", ".INF", "+.inf", "+.Inf", "+.INF", "-.inf", "-.Inf", "-.INF", ".nan", ".NaN",
    ".NAN"].contains s

/-- The number that digits of a radix denote. -/
def radixValue? (radix : Nat) (cs : List Char) : Option Nat :=
  if cs.isEmpty then none
  else cs.foldlM (fun n c => (Json.hexValue? c).bind fun d => if d < radix then some (radix * n + d) else none) 0

/-- The number after the mark of its radix: hexadecimal, octal or binary. -/
def markedValue? : List Char → Option Nat
  | '0' :: 'x' :: digits => radixValue? 16 digits
  | '0' :: 'o' :: digits => radixValue? 8 digits
  | '0' :: 'b' :: digits => radixValue? 2 digits
  | _ => none

/-- Whether the characters are a whole number with a mark of its radix, within 128 bits. -/
def isMarkedNumber : List Char → Bool
  | '+' :: body => (markedValue? body).any (· < Nat.pow 2 128)
  | '-' :: body => (markedValue? body).any (· ≤ Nat.pow 2 127)
  | cs => (markedValue? cs).any (· < Nat.pow 2 128)

/-- Whether the characters are digits with a needless zero in front. -/
def isPadded (cs : List Char) : Bool :=
  match (takeSign cs).2 with
  | '0' :: d :: rest => (d :: rest).all isDigit
  | _ => false

/-- Whether the characters are a decimal numeral of a finite number. -/
def isDecimalNumber (cs : List Char) : Bool :=
  (Numeral.ofChars? cs).any fun n => isFinite n.toFloat

/-- Whether a plain scalar is read as something else than a text. -/
def readsAsOther (s : String) : Bool :=
  let cs := s.toList
  cs.isEmpty || isNullWord s || isTruthWord s || isInfinityWord s || isMarkedNumber cs ||
    isPadded cs || isDecimalNumber cs

/-! ## Styles -/

/-- How a scalar is written. -/
inductive Style where
  | plain
  | single
  | double
  | literal
  deriving DecidableEq, Repr

/-- Whether two neighbours are related. -/
def anyNeighbours (r : Char → Char → Bool) : List Char → Bool
  | c :: d :: rest => r c d || anyNeighbours r (d :: rest)
  | _ => false

/-- Whether a line begins with a space. -/
def hasIndentedLine (cs : List Char) : Bool := anyNeighbours (fun c d => isBreak c && d == ' ') cs

/-- Whether a line ends in a space. -/
def hasTrailingSpace (cs : List Char) : Bool := anyNeighbours (fun c d => c == ' ' && isBreak d) cs

/-- Whether the first characters have a meaning of their own. -/
def beginsWithIndicator : List Char → Bool
  | '-' :: '-' :: '-' :: _ => true
  | '.' :: '.' :: '.' :: _ => true
  | c :: rest =>
    "#,[]\x7b\x7d&*!|>'\"%@`".toList.contains c || ((c == '?' || c == ':' || c == '-') && isEnd rest.head?)
  | [] => false

/-- Whether a colon stands before a blank or at the end, or a number sign after a blank. -/
def holdsIndicator (cs : List Char) : Bool :=
  cs.getLast? == some ':' ||
    anyNeighbours (fun c d => (c == ':' && isEnd (some d)) || (isEnd (some c) && d == '#')) cs

/-- Whether a text may be written plainly. -/
def mayBePlain (cs : List Char) : Bool :=
  !beginsWithIndicator cs && !holdsIndicator cs && cs.head? != some ' ' && cs.getLast? != some ' ' &&
    cs.all fun c => isPrintable c && !isBreak c

/-- Whether a text may be written in single quotation marks. -/
def mayBeSingle (cs : List Char) : Bool :=
  !hasIndentedLine cs && !hasTrailingSpace cs && cs.all isPrintable

/-- Whether a text may be written literally. -/
def mayBeLiteral (cs : List Char) : Bool :=
  cs.getLast? != some ' ' && !hasTrailingSpace cs && cs.all isPrintable

/-- The style of a text. -/
def Style.ofText (s : String) : Style :=
  let cs := s.toList
  if cs.contains '\n' then if mayBeLiteral cs then literal else double
  else if !readsAsOther s && mayBePlain cs then plain
  else if mayBeSingle cs then single
  else double

/-! ## Texts of scalars -/

/-- A run of spaces. -/
def spaces (n : Nat) : List Char := List.replicate n ' '

/-- The hexadecimal digit of a number below sixteen. -/
def upperHexDigit (n : Nat) : Char := if n < 10 then Char.ofNat (48 + n) else Char.ofNat (55 + n)

/-- The last hexadecimal digits of a number. -/
def upperHex (n : Nat) : Nat → List Char
  | 0 => []
  | width + 1 => upperHex (n / 16) width ++ [upperHexDigit (n % 16)]

/-- The letter of the escape of a character. -/
def escapeLetter? : Char → Option Char
  | '\x00' => some '0'
  | '\x07' => some 'a'
  | '\x08' => some 'b'
  | '\t' => some 't'
  | '\n' => some 'n'
  | '\x0b' => some 'v'
  | '\x0c' => some 'f'
  | '\r' => some 'r'
  | '\x1b' => some 'e'
  | '"' => some '"'
  | '\\' => some '\\'
  | '\u0085' => some 'N'
  | '\u2028' => some 'L'
  | '\u2029' => some 'P'
  | _ => none

/-- A character between double quotation marks. -/
def escapeChar (c : Char) : List Char :=
  match escapeLetter? c with
  | some letter => ['\\', letter]
  | none =>
    if isPrintable c then [c]
    else if c.toNat < 0x100 then '\\' :: 'x' :: upperHex c.toNat 2
    else if c.toNat < 0x10000 then '\\' :: 'u' :: upperHex c.toNat 4
    else '\\' :: 'U' :: upperHex c.toNat 8

/-- Characters between single quotation marks: the mark is written twice, and a new line is indented. -/
def singleBody (indent : Nat) (fresh : Bool) : List Char → List Char
  | [] => if fresh then spaces indent else []
  | c :: rest =>
    if isBreak c then c :: singleBody indent true rest
    else
      (if fresh then spaces indent else []) ++ (if c == '\'' then ['\'', '\''] else [c]) ++
        singleBody indent false rest

/-- Characters of a literal scalar: every line that is not empty is indented. -/
def literalBody (indent : Nat) (fresh : Bool) : List Char → List Char
  | [] => []
  | c :: rest =>
    if isBreak c then c :: literalBody indent true rest
    else (if fresh then spaces indent else []) ++ c :: literalBody indent false rest

/-- What the mark of a literal scalar says about its end: no break, one, or more. -/
def literalEnd (cs : List Char) : List Char :=
  match cs.reverse with
  | [] => ['-']
  | c :: before =>
    if !isBreak c then ['-']
    else if before.isEmpty || before.head?.any isBreak then ['+']
    else []

/-- The first line of a literal scalar. It tells the indentation if the text begins with a blank. -/
def literalMark (cs : List Char) : List Char :=
  '|' :: (if cs.head?.any (fun c => c == ' ' || isBreak c) then ['2'] else []) ++ literalEnd cs

/-- A text as a scalar whose further lines have the given indentation. -/
def scalarChars (indent : Nat) (s : String) : List Char :=
  let cs := s.toList
  match Style.ofText s with
  | .plain => cs
  | .single => '\'' :: singleBody indent false cs ++ ['\'']
  | .double => '"' :: cs.flatMap escapeChar ++ ['"']
  | .literal => literalMark cs ++ '\n' :: literalBody indent true cs

/-- The end of the line after a text as a scalar: a literal scalar may bring its own. -/
def scalarEnd (s : String) : List Char :=
  if Style.ofText s = .literal && s.toList.getLast?.any isBreak then [] else ['\n']

/-- Whether a text may stand as a key on one line with its colon: it is not long and has no break. -/
def isSimpleKey (s : String) : Bool := s.utf8ByteSize ≤ 128 && !s.toList.any isBreak

end Invocation.Yaml
