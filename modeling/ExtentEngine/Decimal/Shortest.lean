import ExtentEngine.Decimal.Numeral

/-!
# Shortest decimals

The shortest decimal of a binary64 number is the decimal with the fewest digits that reads
back to it.  Of two with equally many digits it is the nearer one, and a tie goes as the
format asks.

**Method.**  For one digit, two digits, and so on up to seventeen, the two neighbours of
the value on that decimal grid are tried; the first grid with a hit wins.  A candidate is
a hit if reading it gives the number back, so the result reads back by construction.  The
exact decimal value stands behind the search.
-/

namespace ExtentEngine

-- Powers are those of the core library, whatever algebra is in scope.
attribute [local instance (high)] instPowNat

/-- Which of two equally near decimals is written. -/
inductive TieRule
  /-- The one with the even last digit. -/
  | even
  /-- The larger one. -/
  | up
deriving DecidableEq, Repr

namespace Shortest

/-- How many decimal digits a number has. -/
def decimalLength (n : Nat) : Nat := (Digits.ofNat 10 n).length

/-- The power of ten of the leading digit of a positive ratio that is at least `10 ^ -400`. -/
def leadingPlace (numerator denominator : Nat) : Int :=
  (decimalLength (numerator * 10 ^ (400 : Nat) / denominator) : Int) - 401

/-- Whether a decimal reads back to the number. -/
def readsBack (x : Binary64) (d : Decimal) : Bool := d.normalized.toBinary64 false == x.abs

/-- The hit among the two neighbours of `numerator / denominator` on the grid of the
multiples of `10 ^ place`. -/
def onGrid (tie : TieRule) (x : Binary64) (numerator denominator : Nat) (place : Int) :
    Option Decimal :=
  let n := numerator * 10 ^ (-place).toNat
  let d := denominator * 10 ^ place.toNat
  let below : Decimal := ⟨n / d, place⟩
  let above : Decimal := ⟨n / d + 1, place⟩
  match readsBack x below, readsBack x above with
  | true, false => some below
  | false, true => some above
  | false, false => none
  | true, true =>
    let twice := 2 * (n % d)
    if twice < d then some below
    else if d < twice then some above
    else match tie with
      | .up => some above
      | .even => if below.digits % 2 = 0 then some below else some above

/-- The exact value of `significand · 2 ^ exponent`. -/
def exact (significand : Nat) (exponent : Int) : Decimal :=
  if 0 ≤ exponent then ⟨significand * 2 ^ exponent.toNat, 0⟩
  else ⟨significand * 5 ^ (-exponent).toNat, exponent⟩

/-- The shortest decimal of the magnitude of a finite number that is not zero, without
trailing zeros. -/
def decimal (tie : TieRule) (x : Binary64) : Decimal :=
  let numerator := x.significand * 2 ^ x.exponent.toNat
  let denominator := 2 ^ (-x.exponent).toNat
  let leading := leadingPlace numerator denominator
  let hit := (List.range 17).findSome? fun (count : Nat) =>
    onGrid tie x numerator denominator (leading - count)
  (hit.getD (exact x.significand x.exponent)).normalized

end Shortest
end ExtentEngine
