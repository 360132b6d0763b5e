import ExtentEngine.Fault

/-!
# Scalars

A scalar is one cell of a record.

**Order.**  `Scalar.compare` puts null first, then booleans, then numbers, then texts.
Integers and floats are compared as floats, an integer being rounded to the nearest one;
where this finds them equal the integer is the smaller.  Texts are compared by code points,
which is the order of their encodings.

**Results.**
* `compare_self`: a scalar is in its own place.
* `dataType_eq_null_iff`: null is the one value of its type.
-/

namespace ExtentEngine

/-- The value of a cell. -/
inductive Scalar
  | null
  | bool (b : Bool)
  | int (n : Int64)
  | float (x : Binary64)
  | text (s : String)
deriving DecidableEq, Repr, Inhabited

namespace Scalar

def dataType : Scalar → DataType
  | null => .null
  | bool _ => .boolean
  | int _ => .int64
  | float _ => .float64
  | text _ => .utf8

def isNull : Scalar → Bool
  | null => true
  | _ => false

/-- The place of a kind of scalars among the others. -/
def rank : Scalar → Nat
  | null => 0
  | bool _ => 1
  | int _ => 2
  | float _ => 2
  | text _ => 3

/-- The binary64 number nearest to an integer. -/
def floatOfInt (n : Int64) : Binary64 := Binary64.ofInt n.toInt

/-- The order of all scalars. -/
def compare : Scalar → Scalar → Ordering
  | bool a, bool b => Ord.compare a b
  | int a, int b => Ord.compare a.toInt b.toInt
  | float a, float b => a.totalCompare b
  | int a, float b => ((floatOfInt a).totalCompare b).then .lt
  | float a, int b => (a.totalCompare (floatOfInt b)).then .gt
  | text a, text b => Ord.compare a b
  | a, b => Ord.compare a.rank b.rank

/-- Whether the first scalar may stand before the second in a sorted list. -/
def le (a b : Scalar) : Bool := a.compare b != .gt

/-- The number that a scalar stands for in arithmetic, `none` for null. -/
def number? : Scalar → Attempt (Option Binary64)
  | null => .ok none
  | int n => .ok (some (floatOfInt n))
  | float x => .ok (some x)
  | a => .error (.notNumeric a.dataType)

/-- The truth value of a scalar, `none` for null. -/
def truth? : Scalar → Attempt (Option Bool)
  | null => .ok none
  | bool b => .ok (some b)
  | a => .error (.notBoolean a.dataType)

/-- The data that a hash of the scalar is computed from: its kind, then its contents. -/
def hashData : Scalar → List Nat
  | null => [0]
  | bool b => [1, if b then 1 else 0]
  | int n => [2, n.toUInt64.toNat]
  | float x => [3, x.bits.toNat]
  | text s => 4 :: s.toUTF8.toList.map UInt8.toNat ++ [255]

/-- The list in order; of equal scalars none changes its place among them. -/
def sort (values : List Scalar) : List Scalar := values.mergeSort le

theorem dataType_eq_null_iff {a : Scalar} : a.dataType = .null ↔ a = null := by
  cases a <;> simp [dataType]

theorem isNull_iff {a : Scalar} : a.isNull = true ↔ a = null := by
  cases a <;> simp [isNull]

theorem compare_self (a : Scalar) : a.compare a = .eq := by
  cases a <;> simp [compare, Binary64.totalCompare, rank]

end Scalar
end ExtentEngine
