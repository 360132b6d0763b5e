import ExtentEngine.Expr.Basic
import ExtentEngine.Record.Schema

/-!
# Types of expressions

`Expr.typeIn` is the type of the values that an expression has on rows of two schemas.
Comparisons and connectives are boolean whatever they are made of.  Arithmetic on a null
column is null, arithmetic on integers other than division is an integer, and everything
else is a float.
-/

namespace ExtentEngine

/-- The schemas of both sides. -/
structure SchemaPair where
  left : Schema
  right : Schema
deriving DecidableEq, Repr

namespace SchemaPair

def schema (pair : SchemaPair) : Side → Schema
  | .left => pair.left
  | .right => pair.right

/-- The field that a column reference names. -/
def field? (pair : SchemaPair) (ref : ColumnRef) : Option Field :=
  (pair.schema ref.side)[ref.index]?

end SchemaPair

namespace Arithmetic

/-- The type of arithmetic on operands of the given types. -/
def resultType (op : Arithmetic) : DataType → DataType → DataType
  | .null, _ => .null
  | _, .null => .null
  | .int64, .int64 => if op = .div then .float64 else .int64
  | _, _ => .float64

end Arithmetic

namespace Expr

/-- The type of an expression on rows of two schemas. -/
def typeIn (pair : SchemaPair) : Expr → Attempt DataType
  | column ref =>
    match pair.field? ref with
    | some field => .ok field.dataType
    | none => .error (.columnUnknown ref (pair.schema ref.side).length)
  | literal value => .ok value.dataType
  | compare _ _ _ => .ok .boolean
  | connect _ _ => .ok .boolean
  | not _ => .ok .boolean
  | isNull _ => .ok .boolean
  | arithmetic op left right => do
    let a ← typeIn pair left
    let b ← typeIn pair right
    pure (op.resultType a b)

end Expr
end ExtentEngine
