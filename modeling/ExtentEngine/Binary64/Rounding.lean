import ExtentEngine.Binary64.Basic

/-!
# Rounding to binary64

`ofRatio` delivers the binary64 number nearest to a ratio of natural numbers; of two
nearest numbers it takes the one with the even significand.  A ratio at or above the
midpoint between the largest finite number and `2 ^ 1024` becomes infinity.

**Method.**  `gridExponent` finds the power of two that the result is a multiple of, such
that the quotient on this grid has 53 bits, or fewer when the result is subnormal.
`roundedQuotient` rounds the quotient, and the magnitude of the result is the rounded
quotient laid over the exponent field: a quotient that rounds up to `2 ^ 53` carries into
the exponent by itself.

Everything else is a ratio: integers (`ofInt`), decimal numerals (`ofDecimal`) and scaled
integers (`ofScaled`).
-/

namespace ExtentEngine
namespace Binary64

-- Powers are those of the core library, whatever algebra is in scope.
attribute [local instance (high)] instPowNat

/-- The quotient rounded to the nearest integer, a half going to the even neighbour. -/
def roundedQuotient (numerator denominator : Nat) : Nat :=
  let quotient := numerator / denominator
  let twice := 2 * (numerator % denominator)
  if twice < denominator then quotient
  else if denominator < twice then quotient + 1
  else quotient + quotient % 2

/-- `numerator / (denominator * 2 ^ e)` as a numerator and a denominator. -/
def scaleDown (numerator denominator : Nat) (e : Int) : Nat × Nat :=
  (numerator * 2 ^ (-e).toNat, denominator * 2 ^ e.toNat)

/-- The power of two of the grid that the nearest number of a positive ratio lies on. -/
def gridExponent (numerator denominator : Nat) : Int :=
  let guess : Int := (numerator.log2 : Int) - denominator.log2 - 53
  let (n, d) := scaleDown numerator denominator guess
  let exact := if 2 ^ (53 : Nat) * d ≤ n then guess + 1 else guess
  max exact (-1074)

/-- The magnitude of the number nearest to a ratio. -/
def roundMagnitude (numerator denominator : Nat) : Nat :=
  if numerator = 0 then 0
  else
    let e := gridExponent numerator denominator
    let (n, d) := scaleDown numerator denominator e
    let quotient := roundedQuotient n d
    min infinityMagnitude ((e + 1074).toNat * 2 ^ (52 : Nat) + quotient)

/-- The number nearest to `±numerator / denominator`. -/
def ofRatio (negative : Bool) (numerator denominator : Nat) : Binary64 :=
  ofParts negative (roundMagnitude numerator denominator)

/-- The number nearest to `±significand · 2 ^ exponent`. -/
def ofScaled (negative : Bool) (significand : Nat) (exponent : Int) : Binary64 :=
  ofRatio negative (significand * 2 ^ exponent.toNat) (2 ^ (-exponent).toNat)

/-- The number nearest to an integer. -/
def ofInt (n : Int) : Binary64 := ofRatio (n < 0) n.natAbs 1

/-- The number nearest to `±digits · 10 ^ exponent`.  The powers of ten beyond the range
of the format are settled without being computed. -/
def ofDecimal (negative : Bool) (digits : Nat) (exponent : Int) : Binary64 :=
  let places : Int := digits.log2 / 3 + 1
  if digits = 0 ∨ places + exponent < -400 then zeroOf negative
  else if 400 < exponent then infinityOf negative
  else ofRatio negative (digits * 10 ^ exponent.toNat) (10 ^ (-exponent).toNat)

end Binary64
end ExtentEngine
