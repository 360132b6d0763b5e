import ExtentEngine.Expr.Evaluation
import ExtentEngine.Record.Terse

/-!
# Terse expressions

A terse expression is an array of its head and its operands: `col` and `rcol` with the index
of a column of the left and of the right row, `lit` with a terse scalar, `and` and `or` with
any number of members, `not` and `isnull` with one operand, and the symbol of a comparison
or of an arithmetic operation with two.
-/

namespace ExtentEngine
namespace Expr

/-- The expression of a symbol and two operands. -/
def ofSymbol? (symbol : String) (left right : Expr) : Option Expr :=
  match Comparison.ofSymbol? symbol with
  | some op => some (compare op left right)
  | none => (Arithmetic.ofSymbol? symbol).map fun op => arithmetic op left right

/-- The expression of a head and what follows it; `operands` is what follows it read as
expressions, if it can be read so. -/
def ofHead? (head : String) (args : List Json) (operands : Option (List Expr)) :
    Option Expr :=
  match head, args, operands with
  | "col", [index], _ => index.index?.map leftColumn
  | "rcol", [index], _ => index.index?.map rightColumn
  | "lit", [value], _ => (Scalar.ofTerse? value).map literal
  | "and", _, some members => some (connect .and members)
  | "or", _, some members => some (connect .or members)
  | "not", _, some [operand] => some (not operand)
  | "isnull", _, some [operand] => some (isNull operand)
  | symbol, _, some [left, right] => ofSymbol? symbol left right
  | _, _, _ => none

mutual

def ofTerse? : Json → Option Expr
  | .array (head :: args) =>
    head.text?.bind fun head => ofHead? (String.ofList head) args (operandsOfTerse? args)
  | _ => none

/-- Values that are all expressions. -/
def operandsOfTerse? : List Json → Option (List Expr)
  | [] => some []
  | j :: js =>
    match ofTerse? j, operandsOfTerse? js with
    | some operand, some operands => some (operand :: operands)
    | _, _ => none

end

end Expr

namespace Predicate

def ofTerse? (j : Json) : Option Predicate := (Expr.ofTerse? j).map Predicate.mk

end Predicate

namespace Projection

def ofTerse? (j : Json) : Option Projection := j.items? Expr.ofTerse?

end Projection
end ExtentEngine
