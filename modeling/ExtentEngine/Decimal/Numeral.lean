import ExtentEngine.Binary64.Rounding
import ExtentEngine.Text.Digits

/-!
# Decimal numerals

A `Decimal` is the value `digits · 10 ^ exponent`.  A `Numeral` is a written number: a
sign, the digits before the point, those after it, and an exponent mark.  Several numerals
stand for one decimal; `Numeral.decimal` reads a numeral as the decimal without trailing
zeros, so all of them are read alike.
-/

namespace ExtentEngine

/-- The value `digits · 10 ^ exponent`. -/
structure Decimal where
  digits : Nat
  exponent : Int
deriving DecidableEq, Repr

namespace Decimal

/-- Moves the trailing zeros of a number into an exponent. -/
def stripZeros (digits : Nat) (exponent : Int) : Decimal :=
  if digits = 0 then ⟨0, 0⟩
  else if digits % 10 = 0 then stripZeros (digits / 10) (exponent + 1)
  else ⟨digits, exponent⟩
termination_by digits

/-- The same value without trailing zeros; zero has the exponent zero. -/
def normalized (d : Decimal) : Decimal := stripZeros d.digits d.exponent

/-- The binary64 number nearest to a decimal. -/
def toBinary64 (negative : Bool) (d : Decimal) : Binary64 :=
  Binary64.ofDecimal negative d.digits d.exponent

end Decimal

/-- How the sign of an exponent is written. -/
inductive ExponentSign
  | unmarked
  | plus
  | minus
deriving DecidableEq, Repr

namespace ExponentSign

def text : ExponentSign → List Char
  | unmarked => []
  | plus => ['+']
  | minus => ['-']

end ExponentSign

/-- A written decimal number. -/
structure Numeral where
  negative : Bool
  /-- Digits before the point. -/
  whole : List Char
  /-- Digits after the point; without any, no point is written. -/
  fraction : List Char
  /-- The sign and the digits of the exponent, if one is written. -/
  exponent : Option (ExponentSign × List Char)
deriving DecidableEq, Repr

namespace Numeral

/-- Whether neither a point nor an exponent is written. -/
def isWhole (n : Numeral) : Bool := n.fraction.isEmpty && n.exponent.isNone

/-- The value of the exponent mark. -/
def exponentValue (n : Numeral) : Int :=
  match n.exponent with
  | none => 0
  | some (.minus, digits) => -(Digits.toNat 10 digits : Int)
  | some (_, digits) => Digits.toNat 10 digits

/-- The value of the numeral without its sign. -/
def decimal (n : Numeral) : Decimal :=
  Decimal.normalized
    ⟨Digits.toNat 10 (n.whole ++ n.fraction), n.exponentValue - n.fraction.length⟩

/-- The binary64 number nearest to the numeral. -/
def toBinary64 (n : Numeral) : Binary64 := n.decimal.toBinary64 n.negative

/-- The digits of the whole part with the sign, read as an integer. -/
def wholeValue (n : Numeral) : Int :=
  let value := Digits.toNat 10 n.whole
  if n.negative then -(value : Int) else value

/-- The numeral of an integer. -/
def ofInt (n : Int) : Numeral := ⟨n < 0, Digits.ofNat 10 n.natAbs, [], none⟩

def text (n : Numeral) : List Char :=
  (if n.negative then ['-'] else []) ++ n.whole
    ++ (if n.fraction.isEmpty then [] else '.' :: n.fraction)
    ++ match n.exponent with
      | none => []
      | some (sign, digits) => 'e' :: (sign.text ++ digits)

end Numeral
end ExtentEngine
