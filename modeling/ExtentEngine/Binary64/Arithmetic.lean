import ExtentEngine.Binary64.Rounding

/-!
# Binary64 arithmetic

Every operation on finite numbers is the exact operation on their values, rounded once.
The exact values are integers scaled by powers of two, so the exact sum and product are
integers too, the exact quotient is a ratio, and the root is an integer root with one
more bit that tells whether a remainder was left.

**Special operands.**  An operation with a NaN delivers that NaN made quiet, the first one
if both are.  An operation without a result, such as the difference of two equal
infinities, delivers `invalid`.  A sum of opposite finite values is positive zero.
-/

namespace ExtentEngine
namespace Binary64

-- Powers are those of the core library, whatever algebra is in scope.
attribute [local instance (high)] instPowNat

/-- The NaN that a binary operation hands on, if an operand is one. -/
def handedOn (x y : Binary64) : Option Binary64 :=
  if x.isNaN then some x.quiet else if y.isNaN then some y.quiet else none

/-- The number nearest to an integer scaled by a power of two; `zeroSign` is the sign of an
exact zero. -/
def roundScaled (zeroSign : Bool) (n : Int) (exponent : Int) : Binary64 :=
  if n = 0 then zeroOf zeroSign else ofScaled (n < 0) n.natAbs exponent

/-- The exact sum of two finite numbers, rounded. -/
def addFinite (x y : Binary64) : Binary64 :=
  let e := min x.exponent y.exponent
  let sum := x.signedSignificand * 2 ^ (x.exponent - e).toNat
    + y.signedSignificand * 2 ^ (y.exponent - e).toNat
  roundScaled (x.isNegative && y.isNegative) sum e

protected def add (x y : Binary64) : Binary64 :=
  match handedOn x y with
  | some nan => nan
  | none =>
    if x.isInfinite then
      if y.isInfinite && x.isNegative != y.isNegative then invalid else x
    else if y.isInfinite then y
    else addFinite x y

/-- The number with the other sign. -/
protected def neg (x : Binary64) : Binary64 := ofParts (!x.isNegative) x.magnitude

/-- A NaN operand is handed on with the sign it has, so the second operand of a difference
changes its sign only when it is a number. -/
protected def sub (x y : Binary64) : Binary64 :=
  match handedOn x y with
  | some nan => nan
  | none => x.add y.neg

protected def mul (x y : Binary64) : Binary64 :=
  let negative := x.isNegative != y.isNegative
  match handedOn x y with
  | some nan => nan
  | none =>
    if x.isInfinite || y.isInfinite then
      if x.isZero || y.isZero then invalid else infinityOf negative
    else if x.isZero || y.isZero then zeroOf negative
    else ofScaled negative (x.significand * y.significand) (x.exponent + y.exponent)

protected def div (x y : Binary64) : Binary64 :=
  let negative := x.isNegative != y.isNegative
  match handedOn x y with
  | some nan => nan
  | none =>
    if x.isInfinite then
      if y.isInfinite then invalid else infinityOf negative
    else if y.isInfinite then zeroOf negative
    else if y.isZero then
      if x.isZero then invalid else infinityOf negative
    else
      let e := x.exponent - y.exponent
      ofRatio negative (x.significand * 2 ^ e.toNat) (y.significand * 2 ^ (-e).toNat)

/-- The integer part of the square root. -/
def rootFloor (n : Nat) : Nat :=
  if h : n = 0 then 0
  else
    let half := 2 * rootFloor (n / 4)
    if (half + 1) * (half + 1) ≤ n then half + 1 else half
termination_by n

/-- The root of `significand · 2 ^ exponent` for an even exponent, with one more bit that
is set when a remainder is left. -/
def rootWithRest (n : Nat) : Nat :=
  let root := rootFloor n
  2 * root + if root * root = n then 0 else 1

protected def sqrt (x : Binary64) : Binary64 :=
  if x.isNaN then x.quiet
  else if x.isZero then x
  else if x.isNegative then invalid
  else if x.isInfinite then x
  else
    let shift := 120 + (x.exponent % 2).toNat
    let root := rootWithRest (x.significand * 2 ^ shift)
    ofScaled false root ((x.exponent - shift) / 2 - 1)

instance : Add Binary64 := ⟨Binary64.add⟩
instance : Sub Binary64 := ⟨Binary64.sub⟩
instance : Mul Binary64 := ⟨Binary64.mul⟩
instance : Div Binary64 := ⟨Binary64.div⟩
instance : Neg Binary64 := ⟨Binary64.neg⟩

end Binary64
end ExtentEngine
