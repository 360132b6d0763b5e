/-!
# Operators of expressions

Comparisons, the connectives of three-valued logic, and arithmetic, with the symbols that
they are written by.

**Results.**
* `Comparison.ofSymbol?_symbol` and `Arithmetic.ofSymbol?_symbol`: an operator is found by
  its symbol.
-/

namespace ExtentEngine

/-- A comparison of two values. -/
inductive Comparison
  | eq
  | ne
  | lt
  | le
  | gt
  | ge
deriving DecidableEq, Repr

namespace Comparison

/-- Whether the comparison holds of values in the given order. -/
def holds : Comparison → Ordering → Bool
  | eq, o => o == .eq
  | ne, o => o != .eq
  | lt, o => o == .lt
  | le, o => o != .gt
  | gt, o => o == .gt
  | ge, o => o != .lt

def symbol : Comparison → String
  | eq => "="
  | ne => "!="
  | lt => "<"
  | le => "<="
  | gt => ">"
  | ge => ">="

/-- The comparison of a symbol. -/
def ofSymbol? (symbol : String) : Option Comparison :=
  [eq, ne, lt, le, gt, ge].find? (·.symbol = symbol)

theorem ofSymbol?_symbol (op : Comparison) : ofSymbol? op.symbol = some op := by
  cases op <;> rfl

end Comparison

/-- A connective over any number of members. -/
inductive Connective
  | and
  | or
deriving DecidableEq, Repr

namespace Connective

/-- The truth value of one member that decides the whole. -/
def deciding : Connective → Bool
  | and => false
  | or => true

def symbol : Connective → String
  | and => "AND"
  | or => "OR"

end Connective

/-- An arithmetic operation. -/
inductive Arithmetic
  | add
  | sub
  | mul
  | div
deriving DecidableEq, Repr

namespace Arithmetic

def symbol : Arithmetic → String
  | add => "+"
  | sub => "-"
  | mul => "*"
  | div => "/"

/-- The operation of a symbol. -/
def ofSymbol? (symbol : String) : Option Arithmetic :=
  [add, sub, mul, div].find? (·.symbol = symbol)

theorem ofSymbol?_symbol (op : Arithmetic) : ofSymbol? op.symbol = some op := by
  cases op <;> rfl

end Arithmetic
end ExtentEngine
