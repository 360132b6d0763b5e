import ExtentEngine.Text.Digits

/-!
# Data types and column references

The types that a column may have, and the references by which an expression names a column
of one of the two rows that it is evaluated on.
-/

namespace ExtentEngine

/-- The type of a column. -/
inductive DataType
  | null
  | boolean
  | int64
  | float64
  | utf8
deriving DecidableEq, Repr

namespace DataType

def name : DataType → String
  | null => "Null"
  | boolean => "Boolean"
  | int64 => "Int64"
  | float64 => "Float64"
  | utf8 => "Utf8"

/-- Every type under its name. -/
def byName : List (String × DataType) :=
  [null, boolean, int64, float64, utf8].map fun t => (t.name, t)

theorem mem_byName_iff {s : String} {t : DataType} : (s, t) ∈ byName ↔ s = t.name := by
  cases t <;> simp [byName, name]

end DataType

/-- Which of the two rows a column belongs to.  An operation on one input has the left row
only. -/
inductive Side
  | left
  | right
deriving DecidableEq, Repr

/-- A column of one of the two rows. -/
structure ColumnRef where
  side : Side
  index : Nat
deriving DecidableEq, Repr

namespace ColumnRef

def text (c : ColumnRef) : List Char :=
  (match c.side with | .left => 'l' | .right => 'r') :: '#' :: Digits.ofNat 10 c.index

end ColumnRef
end ExtentEngine
