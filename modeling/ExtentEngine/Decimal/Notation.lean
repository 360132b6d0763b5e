import ExtentEngine.Decimal.Shortest

/-!
# Notations for binary64 numbers

A `FloatNotation` holds what a text format decides about a number once its digits are
known: which numbers are written with an exponent, whether a whole number keeps `.0`, and
how the exponent is marked.
-/

namespace ExtentEngine

/-- What a text format decides about the writing of numbers. -/
structure FloatNotation where
  /-- The tie between two shortest decimals. -/
  tie : TieRule
  /-- The places of the leading digit that are written without an exponent, as an inclusive
  range; without a range no number has an exponent. -/
  positional : Option (Int × Int)
  /-- Whether a whole number written without an exponent ends in `.0`. -/
  keepsPoint : Bool
  /-- Whether an exponent that is not negative has a plus sign. -/
  marksPlus : Bool

namespace FloatNotation

/-- The fraction of a whole number. -/
def wholeFraction (f : FloatNotation) : List Char := if f.keepsPoint then ['0'] else []

/-- Whether a number with this leading place is written without an exponent. -/
def isPositional (f : FloatNotation) (leading : Int) : Bool :=
  match f.positional with
  | none => true
  | some (low, high) => low ≤ leading && leading ≤ high

/-- Digits around a point, the leading one at the given place. -/
def positionalNumeral (f : FloatNotation) (negative : Bool) (digits : List Char)
    (leading : Int) : Numeral :=
  if leading < 0 then
    ⟨negative, ['0'], List.replicate (-leading - 1).toNat '0' ++ digits, none⟩
  else
    let count := leading.toNat + 1
    if digits.length ≤ count then
      ⟨negative, digits ++ List.replicate (count - digits.length) '0', f.wholeFraction, none⟩
    else ⟨negative, digits.take count, digits.drop count, none⟩

/-- One digit, a point, the other digits and an exponent. -/
def scientificNumeral (f : FloatNotation) (negative : Bool) (digits : List Char)
    (leading : Int) : Numeral :=
  let sign : ExponentSign :=
    if leading < 0 then .minus else if f.marksPlus then .plus else .unmarked
  ⟨negative, digits.take 1, digits.drop 1, some (sign, Digits.ofNat 10 leading.natAbs)⟩

/-- The numeral of a finite number. -/
def numeral (f : FloatNotation) (x : Binary64) : Numeral :=
  if x.isZero then ⟨x.isNegative, ['0'], f.wholeFraction, none⟩
  else
    let d := Shortest.decimal f.tie x
    let digits := Digits.ofNat 10 d.digits
    let leading := d.exponent + digits.length - 1
    if f.isPositional leading then f.positionalNumeral x.isNegative digits leading
    else f.scientificNumeral x.isNegative digits leading

/-- The text of any number; a NaN has no sign. -/
def text (f : FloatNotation) (x : Binary64) : List Char :=
  if x.isNaN then ['N', 'a', 'N']
  else if x.isInfinite then (if x.isNegative then ['-'] else []) ++ ['i', 'n', 'f']
  else (f.numeral x).text

end FloatNotation
end ExtentEngine
