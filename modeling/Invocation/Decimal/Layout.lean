/-
  The text of a floating-point number: its shortest digits, laid out.

  * `Layout` holds the decisions a format makes: which of two equally near
    decimals is written, where positional notation ends, and what is written
    after a whole number;
  * `Layout.render` writes a number that is not infinite; `plain` is the
    layout of messages, which never uses an exponent.
-/
import Invocation.Decimal.Shortest

namespace Invocation.Decimal

/-- The decisions of a format on how digits are laid out. -/
structure Layout where
  tie : Tie
  /-- Whether a number whose point stands after that many digits is written without exponent. -/
  positional : Int → Bool
  /-- What follows a whole number. -/
  wholeEnd : List Char

/-- Numbers in messages: never an exponent, whole numbers without a point, and a tie goes up. -/
def Layout.plain : Layout := ⟨.up, fun _ => true, []⟩

/-- The digits with the point after `point` of them, filled up with zeros. -/
def Layout.layPositional (layout : Layout) (digits : List Char) (point : Int) : List Char :=
  if point ≤ 0 then '0' :: '.' :: (List.replicate (-point).toNat '0' ++ digits)
  else if digits.length ≤ point.toNat then
    digits ++ List.replicate (point.toNat - digits.length) '0' ++ layout.wholeEnd
  else digits.take point.toNat ++ '.' :: digits.drop point.toNat

/-- One digit before the point and a signed exponent. -/
def layScientific (digits : List Char) (point : Int) : List Char :=
  let exponent := point - 1
  let fraction := digits.drop 1
  digits.take 1 ++ (if fraction.isEmpty then [] else '.' :: fraction) ++
    'e' :: (if exponent < 0 then '-' else '+') :: digitChars exponent.natAbs

/-- The text of a finite magnitude. -/
def Layout.magnitude (layout : Layout) (x : Binary) : List Char :=
  let d := (x.shortest layout.tie).strip 17
  let digits := digitChars d.digits
  if d.digits = 0 then '0' :: layout.wholeEnd
  else
    let point := digits.length + d.exponent
    if layout.positional point then layout.layPositional digits point
    else layScientific digits point

/-- The text of a number; the infinities are `inf` and `-inf`. -/
def Layout.render (layout : Layout) (x : Float) : String :=
  if x.isNaN then "NaN"
  else
    let bits := x.toBits.toNat
    let magnitude := bits % signBit
    let body :=
      if magnitude / fieldUnit = infiniteField then ['i', 'n', 'f']
      else layout.magnitude (Binary.ofBits magnitude)
    String.ofList (if magnitude < bits then '-' :: body else body)

/-- Whether a number is neither infinite nor undefined. -/
def isFinite (x : Float) : Bool :=
  (x.toBits.toNat % signBit) / fieldUnit != infiniteField

end Invocation.Decimal
