/-
  Reading decimal numerals.

  * `digitsValue` is the number that a run of digits denotes;
  * `Numeral` is a sign, digits and a power of ten; `Numeral.toFloat` is the
    floating-point number nearest to it;
  * `Numeral.ofChars?` reads the whole of a list of characters: an optional
    sign, digits with an optional point, and an optional exponent.
-/
import Invocation.Decimal.Binary

namespace Invocation.Decimal

/-- Whether a character is one of the ten ASCII digits. -/
def isDigit (c : Char) : Bool := '0' ≤ c && c ≤ '9'

/-- The value of an ASCII digit. -/
def digitValue (c : Char) : Nat := c.toNat - 48

/-- The number denoted by digits, the most significant first. -/
def digitsValue (cs : List Char) : Nat := cs.foldl (fun value c => 10 * value + digitValue c) 0

/-- A signed decimal numeral `± digits * 10 ^ exponent`. -/
structure Numeral where
  negative : Bool
  digits : List Char
  exponent : Int
  deriving DecidableEq, Repr

/-- The bits of the magnitude nearest to `digits * 10 ^ exponent`. A numeral far outside the range is
settled by its size alone, so that no huge power is computed. -/
def magnitudeBits (digits : List Char) (exponent : Int) : Nat :=
  let significant := digits.dropWhile (· == '0')
  let size := significant.length + exponent
  if significant.isEmpty || size < -400 then 0
  else if 400 < size then infiniteBits
  else nearestBits (digitsValue significant * Nat.pow 10 exponent.toNat) (Nat.pow 10 (-exponent).toNat)

/-- The floating-point number nearest to a numeral. -/
def Numeral.toFloat (n : Numeral) : Float :=
  let bits := magnitudeBits n.digits n.exponent
  Float.ofBits (UInt64.ofNat (if n.negative then signBit + bits else bits))

/-- An optional sign in front: whether it is a minus, and what follows. -/
def takeSign : List Char → Bool × List Char
  | '-' :: rest => (true, rest)
  | '+' :: rest => (false, rest)
  | cs => (false, cs)

/-- The exponent at the end of a numeral, `e` or `E` and a signed run of digits; zero if nothing is left. -/
def exponentOfChars? : List Char → Option Int
  | [] => some 0
  | c :: rest =>
    let (negative, digits) := takeSign rest
    if (c == 'e' || c == 'E') && !digits.isEmpty && digits.all isDigit then
      some (if negative then -(digitsValue digits : Int) else digitsValue digits)
    else none

/-- The numeral that the characters are, all of them. -/
def Numeral.ofChars? (cs : List Char) : Option Numeral :=
  let (negative, body) := takeSign cs
  let whole := body.takeWhile isDigit
  let rest := body.dropWhile isDigit
  let (fraction, tail) :=
    match rest with
    | '.' :: after => (after.takeWhile isDigit, after.dropWhile isDigit)
    | _ => ([], rest)
  if whole.isEmpty && fraction.isEmpty then none
  else (exponentOfChars? tail).map fun e => ⟨negative, whole ++ fraction, e - fraction.length⟩

/-- The floating-point number with the given text: a numeral or an infinity. -/
def floatOfText? (s : String) : Option Float :=
  let (negative, body) := takeSign s.toList
  if body == ['i', 'n', 'f'] then
    some (Float.ofBits (UInt64.ofNat ((if negative then signBit else 0) + infiniteBits)))
  else (Numeral.ofChars? s.toList).map Numeral.toFloat

end Invocation.Decimal
