/-
  The shortest decimal that reads back as a given magnitude.

  The numbers that round to a magnitude form an interval: it reaches halfway
  to both neighbours, and its ends belong to it if the significand is even.
  `Binary.shortest` tries one digit, then two, and so on: at each count the
  two decimals around the magnitude are the only candidates, and of two that
  read back the nearer one is taken. Where both are equally near a `Tie`
  decides.

  * `Scaled` is `digits * 10 ^ exponent`;
  * `Binary.readsBack` is the test, `Binary.shortest` the search.
-/
import Invocation.Decimal.Binary

namespace Invocation.Decimal

/-- A decimal number `digits * 10 ^ exponent`. -/
structure Scaled where
  digits : Nat
  exponent : Int
  deriving DecidableEq, Repr

/-- Which of two equally near decimals is taken. -/
inductive Tie where
  /-- The larger one. -/
  | up
  /-- The one whose last digit is even. -/
  | toEven
  deriving DecidableEq, Repr

/-- The decimal digits of a number, the most significant first. -/
def digitChars (n : Nat) : List Char := Nat.toDigits 10 n

/-- Compares `a * 10 ^ i` with `b * 2 ^ j`. -/
def compareScaled (a : Nat) (i : Int) (b : Nat) (j : Int) : Ordering :=
  compare (a * Nat.pow 10 i.toNat * Nat.pow 2 (-j).toNat) (b * Nat.pow 2 j.toNat * Nat.pow 10 (-i).toNat)

namespace Binary

/-- Whether a decimal lies among the numbers that round to `x`. -/
def readsBack (x : Binary) (d : Scaled) : Bool :=
  let lower := if x.closerBelow then 4 * x.significand - 1 else 4 * x.significand - 2
  let upper := 4 * x.significand + 2
  let below := compareScaled d.digits d.exponent lower (x.exponent - 2)
  let above := compareScaled d.digits d.exponent upper (x.exponent - 2)
  if x.significand % 2 = 0 then below != .lt && above != .gt else below == .gt && above == .lt

/-- The magnitude as a fraction. -/
def fraction (x : Binary) : Nat × Nat :=
  (x.significand * Nat.pow 2 x.exponent.toNat, Nat.pow 2 (-x.exponent).toNat)

/-- The least `k` with `x < 10 ^ k`, for a magnitude that is not zero. -/
def pointPosition (x : Binary) : Int :=
  let (num, den) := x.fraction
  let guess : Int := (digitChars num).length - (digitChars den).length
  if compareScaled 1 guess x.significand x.exponent == .gt then guess else guess + 1

/-- The integer part of `x / 10 ^ exponent`. -/
def floorAt (x : Binary) (exponent : Int) : Nat :=
  let (num, den) := x.fraction
  (num * Nat.pow 10 (-exponent).toNat) / (den * Nat.pow 10 exponent.toNat)

/-- The nearer one of `low` and `low + 1` at the exponent. -/
def nearer (x : Binary) (tie : Tie) (low : Nat) (exponent : Int) : Nat :=
  match compareScaled (2 * low + 1) exponent (2 * x.significand) x.exponent, tie with
  | .gt, _ => low
  | .lt, _ => low + 1
  | .eq, .up => low + 1
  | .eq, .toEven => low + low % 2

/-- The decimal at the exponent that reads back as `x`, if there is one. -/
def candidate (x : Binary) (tie : Tie) (exponent : Int) : Option Scaled :=
  let low := x.floorAt exponent
  match x.readsBack ⟨low, exponent⟩, x.readsBack ⟨low + 1, exponent⟩ with
  | true, true => some ⟨x.nearer tie low exponent, exponent⟩
  | true, false => some ⟨low, exponent⟩
  | false, true => some ⟨low + 1, exponent⟩
  | false, false => none

/-- The exact value of `x`. -/
def exact (x : Binary) : Scaled :=
  if 0 ≤ x.exponent then ⟨x.significand * Nat.pow 2 x.exponent.toNat, 0⟩
  else ⟨x.significand * Nat.pow 5 (-x.exponent).toNat, x.exponent⟩

/-- The decimal of the fewest digits that reads back as `x`; seventeen are always enough. -/
def shortest (x : Binary) (tie : Tie) : Scaled :=
  if x.significand = 0 then ⟨0, 0⟩
  else
    let point := x.pointPosition
    ((List.range 17).findSome? fun (n : Nat) => x.candidate tie (point - (n + 1))).getD x.exact

end Binary

/-- Moves the zeros at the end of the digits into the exponent; `fuel` bounds their number. -/
def Scaled.strip (fuel : Nat) (d : Scaled) : Scaled :=
  match fuel with
  | 0 => d
  | fuel + 1 =>
    if d.digits % 10 = 0 && d.digits != 0 then strip fuel ⟨d.digits / 10, d.exponent + 1⟩ else d

end Invocation.Decimal
