import ExtentEngine.Binary64.Arithmetic
import ExtentEngine.Scalar.Basic

/-!
# Totals

A total is an exact integer of 128 bits until a float is added to it.  The width keeps any
feasible number of 64-bit integers within range, so whether a sum of integers overflows does
not depend on the order of its terms.  A total beyond 64 bits is delivered as a float.

**Results.**
* `ofInt?_eq_some_iff`: which integers have 128 bits.
-/

namespace ExtentEngine

-- Powers are those of the core library, whatever algebra is in scope.
attribute [local instance (high)] instPowNat

/-- An integer of 128 bits. -/
structure Int128 where
  val : Int
  low : -2 ^ (127 : Nat) ≤ val
  high : val < 2 ^ (127 : Nat)
deriving DecidableEq

namespace Int128

/-- The integer, if it has 128 bits. -/
def ofInt? (n : Int) : Option Int128 :=
  if h : -2 ^ (127 : Nat) ≤ n ∧ n < 2 ^ (127 : Nat) then some ⟨n, h.1, h.2⟩ else none

/-- An integer of 64 bits. -/
def ofInt64 (n : Int64) : Int128 :=
  ⟨n.toInt, by have := n.le_toInt; omega, by have := n.toInt_lt; omega⟩

theorem ofInt?_eq_some_iff {n : Int} {m : Int128} : ofInt? n = some m ↔ m.val = n := by
  unfold ofInt?
  constructor
  · intro h
    split at h
    · cases h
      rfl
    · cases h
  · rintro rfl
    exact dif_pos ⟨m.low, m.high⟩

end Int128

/-- A running sum. -/
inductive Total
  | int (n : Int128)
  | float (x : Binary64)
deriving DecidableEq

namespace Total

/-- The total of one number. -/
def ofScalar : Scalar → Attempt Total
  | .int n => .ok (.int (.ofInt64 n))
  | .float x => .ok (.float x)
  | value => .error (.notSummable value.dataType)

/-- The sum of two totals; a float takes the other one to a float. -/
def add : Total → Total → Attempt Total
  | int a, int b =>
    match Int128.ofInt? (a.val + b.val) with
    | some sum => .ok (int sum)
    | none => .error (.needed .sumInRange)
  | int a, float b => .ok (float (Binary64.ofInt a.val + b))
  | float a, int b => .ok (float (Binary64.ofInt b.val + a))
  | float a, float b => .ok (float (a + b))

/-- The scalar of a total. -/
def toScalar : Total → Scalar
  | int n =>
    if -2 ^ (63 : Nat) ≤ n.val ∧ n.val < 2 ^ (63 : Nat) then .int (Int64.ofInt n.val)
    else .float (Binary64.ofInt n.val)
  | float x => .float x

end Total
end ExtentEngine
