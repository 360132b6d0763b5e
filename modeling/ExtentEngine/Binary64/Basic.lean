/-!
# Binary64 numbers

A binary64 number is its 64 bits.  Equality of numbers is equality of bits, so the
two zeros differ, and so do two NaNs with different payloads.

**Views.**
* `magnitude` and `isNegative`: the low 63 bits and the sign bit.
* `significand` and `exponent`: a finite number is `±significand · 2 ^ exponent`.
* `totalRank`: the integer that places a number in the total order, from the negative
  NaNs through the numbers to the positive NaNs.

**Results.**
* `bits_ofParts`: a number is given back by its sign bit and its magnitude.
* `totalRank_injective`: numbers of one rank are the same number.
-/

namespace ExtentEngine

-- Powers are those of the core library, whatever algebra is in scope.
attribute [local instance (high)] instPowNat

/-- A binary64 floating-point number, given by its bits. -/
structure Binary64 where
  /-- Sign, exponent and fraction fields, from the highest bit to the lowest. -/
  bits : UInt64
deriving DecidableEq, Repr, Inhabited

namespace Binary64

/-- The weight of the sign bit. -/
def signWeight : Nat := 2 ^ (63 : Nat)

/-- The magnitude of the infinities: every larger magnitude is a NaN. -/
def infinityMagnitude : Nat := 0x7ff0000000000000

/-- The bits below the sign bit. -/
def magnitude (x : Binary64) : Nat := x.bits.toNat % signWeight

/-- Whether the sign bit is set. -/
def isNegative (x : Binary64) : Bool := signWeight ≤ x.bits.toNat

/-- The number with the given sign bit and magnitude. -/
def ofParts (negative : Bool) (magnitude : Nat) : Binary64 :=
  ⟨UInt64.ofNat (magnitude + if negative then signWeight else 0)⟩

/-- The number whose bits are the given word. -/
def ofBits (bits : UInt64) : Binary64 := ⟨bits⟩

/-- Zero with the given sign. -/
def zeroOf (negative : Bool) : Binary64 := ofParts negative 0

/-- Infinity with the given sign. -/
def infinityOf (negative : Bool) : Binary64 := ofParts negative infinityMagnitude

/-- Positive zero. -/
def zero : Binary64 := zeroOf false

/-- The NaN that an operation without a result delivers. -/
def invalid : Binary64 := ⟨0xfff8000000000000⟩

def isNaN (x : Binary64) : Bool := infinityMagnitude < x.magnitude

def isInfinite (x : Binary64) : Bool := x.magnitude == infinityMagnitude

def isFinite (x : Binary64) : Bool := x.magnitude < infinityMagnitude

/-- Whether the number is one of the two zeros. -/
def isZero (x : Binary64) : Bool := x.magnitude == 0

/-- The number with the quiet bit set, which turns a signalling NaN into a quiet one. -/
def quiet (x : Binary64) : Binary64 := ⟨x.bits ||| 0x0008000000000000⟩

/-- The number of the same magnitude with the sign bit cleared. -/
def abs (x : Binary64) : Binary64 := ofParts false x.magnitude

/-- The integer significand of a finite number: the fraction field, with the leading one
of a normal number. -/
def significand (x : Binary64) : Nat :=
  if x.magnitude / 2 ^ (52 : Nat) = 0 then x.magnitude
  else x.magnitude % 2 ^ (52 : Nat) + 2 ^ (52 : Nat)

/-- The power of two that the significand of a finite number is scaled by. -/
def exponent (x : Binary64) : Int :=
  if x.magnitude / 2 ^ (52 : Nat) = 0 then -1074 else (x.magnitude / 2 ^ (52 : Nat) : Nat) - 1075

/-- The significand with the sign of the number. -/
def signedSignificand (x : Binary64) : Int :=
  if x.isNegative then -(x.significand : Int) else x.significand

/-- The place of a number in the total order: negative numbers below positive ones, and
within one sign by magnitude. -/
def totalRank (x : Binary64) : Int :=
  if x.isNegative then -(x.magnitude : Int) - 1 else x.magnitude

/-- The total order of all numbers, NaNs included. -/
def totalCompare (x y : Binary64) : Ordering := compare x.totalRank y.totalRank

/-- The usual order of numbers: the zeros are equal, and a NaN is comparable to nothing. -/
def le (x y : Binary64) : Bool :=
  !x.isNaN && !y.isNaN && (x.isZero && y.isZero || x.totalRank ≤ y.totalRank)

theorem bits_toNat (x : Binary64) :
    x.bits.toNat = x.magnitude + if x.isNegative then signWeight else 0 := by
  have h := x.bits.toNat_lt
  unfold magnitude isNegative signWeight
  by_cases hs : 2 ^ (63 : Nat) ≤ x.bits.toNat
  · simp only [hs, decide_true, if_true]
    omega
  · simp only [hs, decide_false, Bool.false_eq_true, if_false]
    omega

/-- A number is given back by its sign bit and its magnitude. -/
theorem bits_ofParts (x : Binary64) : ofParts x.isNegative x.magnitude = x := by
  have h := bits_toNat x
  cases x with
  | mk bits =>
      simp only [ofParts, Binary64.mk.injEq]
      rw [← h]
      simp

/-- Numbers of one rank are the same number. -/
theorem totalRank_injective {x y : Binary64} (h : x.totalRank = y.totalRank) : x = y := by
  rw [← bits_ofParts x, ← bits_ofParts y]
  unfold totalRank at h
  cases hx : x.isNegative <;> cases hy : y.isNegative <;>
    simp only [hx, hy, Bool.false_eq_true, if_true, if_false] at h
  · have hm : x.magnitude = y.magnitude := by omega
    rw [hm]
  · omega
  · omega
  · have hm : x.magnitude = y.magnitude := by omega
    rw [hm]

end Binary64

end ExtentEngine
