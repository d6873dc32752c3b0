/-
  The finite magnitudes of 64-bit floating-point numbers, as exact numbers.

  * `Binary` is `significand * 2 ^ exponent`; `Binary.ofBits` takes it from
    the 63 bits of a finite magnitude;
  * `nearestBits num den` are the 63 bits of the magnitude nearest to
    `num / den`, a tie going to the even significand. It works on natural
    numbers only, so that no digit of a long decimal is lost on the way.
-/

namespace Invocation.Decimal

/-- A finite magnitude `significand * 2 ^ exponent`. -/
structure Binary where
  significand : Nat
  exponent : Int
  /-- The magnitude is a power of two, whose neighbour below is half as far as the one above. -/
  closerBelow : Bool
  deriving DecidableEq, Repr

/-- The number of bits of a significand below its leading bit. -/
def fractionWidth : Nat := 52

/-- The least exponent of a magnitude. -/
def leastExponent : Int := -1074

/-- The exponent field of the infinities. -/
def infiniteField : Nat := 2047

/-- The least significand of full width; in bits, the place of the exponent field. -/
def fieldUnit : Nat := 4503599627370496

/-- The bits of infinity. -/
def infiniteBits : Nat := infiniteField * fieldUnit

/-- The sign bit. -/
def signBit : Nat := 9223372036854775808

/-- The finite magnitude with the given exponent field and fraction. -/
def Binary.ofFields (field fraction : Nat) : Binary :=
  if field = 0 then ⟨fraction, leastExponent, false⟩
  else ⟨fieldUnit + fraction, leastExponent + (field - 1 : Nat), fraction == 0 && field != 1⟩

/-- The finite magnitude with the given bits; the sign bit is left out of them. -/
def Binary.ofBits (bits : Nat) : Binary :=
  Binary.ofFields (bits / fieldUnit) (bits % fieldUnit)

/-! ## Rounding a fraction -/

/-- The fraction `num / den` divided by a power of two. -/
def scaleFraction (num den : Nat) (exponent : Int) : Nat × Nat :=
  (num * Nat.pow 2 (-exponent).toNat, den * Nat.pow 2 exponent.toNat)

/-- The integer nearest to `num / den`, a tie going to the even one. -/
def roundToEven (num den : Nat) : Nat :=
  let floor := num / den
  let rest := 2 * (num % den)
  if rest < den then floor
  else if den < rest then floor + 1
  else floor + floor % 2

/-- The exponent at which `num / den` has a significand of full width, or the least one. -/
def exponentOf (num den : Nat) : Int :=
  let guess : Int := (num.log2 : Int) - den.log2 - fractionWidth
  let (n, d) := scaleFraction num den guess
  max leastExponent (if n / d < fieldUnit then guess - 1 else guess)

/-- The bits of the magnitude nearest to `num / den`, a tie going to the even significand; the bits
of infinity if it is too large. A carry out of the significand moves into the exponent field. -/
def nearestBits (num den : Nat) : Nat :=
  if num = 0 then 0
  else
    let exponent := exponentOf num den
    let field := (exponent - leastExponent).toNat
    let (n, d) := scaleFraction num den exponent
    min infiniteBits (field * fieldUnit + roundToEven n d)

end Invocation.Decimal
