import ExtentEngine.Binary64.Arithmetic
import ExtentEngine.Expr.Basic
import ExtentEngine.Register

/-!
# Evaluation of expressions

`Expr.evaluate` computes the value of an expression on the rows of a binding.  A predicate is an
expression that rows are chosen by: it holds where the expression is true, and neither where it is
false nor where it is null.  A projection computes a record, one expression a cell.

* A comparison with a null is null.
* A connective goes through its members from left to right and stops at the first one that
  decides it.  Without such a member it is null if a member was null.
* Arithmetic with a null is null.  Integers give integers, except in a division, and must
  stay within 64 bits.  Everything else is computed on floats, and a division by zero is
  null.
-/

namespace ExtentEngine

-- Powers are those of the core library, whatever algebra is in scope.
attribute [local instance (high)] instPowNat

namespace Arithmetic

/-- The exact result on integers.  Division has none. -/
def onIntegers? : Arithmetic → Int → Int → Option Int
  | add, a, b => some (a + b)
  | sub, a, b => some (a - b)
  | mul, a, b => some (a * b)
  | div, _, _ => none

/-- The result on floats; `none` for a division by zero. -/
def onFloats? : Arithmetic → Binary64 → Binary64 → Option Binary64
  | add, a, b => some (a + b)
  | sub, a, b => some (a - b)
  | mul, a, b => some (a * b)
  | div, a, b => if b.isZero then none else some (a / b)

/-- The integer if it has 64 bits. -/
def fit64? (n : Int) : Option Int64 :=
  if -2 ^ (63 : Nat) ≤ n ∧ n < 2 ^ (63 : Nat) then some (Int64.ofInt n) else none

/-- Arithmetic on the numbers that two scalars stand for. -/
def applyFloats (op : Arithmetic) (left right : Scalar) : Attempt Scalar := do
  let a ← left.number?
  let b ← right.number?
  match op.onFloats? (a.getD Binary64.zero) (b.getD Binary64.zero) with
  | some x => pure (.float x)
  | none => pure .null

/-- Arithmetic on scalars. -/
def apply (op : Arithmetic) : Scalar → Scalar → Attempt Scalar
  | .null, _ => .ok .null
  | _, .null => .ok .null
  | .int a, .int b =>
    match op.onIntegers? a.toInt b.toInt with
    | none => op.applyFloats (.int a) (.int b)
    | some n =>
      match fit64? n with
      | some n => .ok (.int n)
      | none => .error (.integerOverflow a.toInt op b.toInt)
  | left, right => op.applyFloats left right

end Arithmetic

namespace Comparison

/-- The comparison of two scalars, null if one of them is. -/
def apply (op : Comparison) (left right : Scalar) : Scalar :=
  if left.isNull || right.isNull then .null else .bool (op.holds (left.compare right))

end Comparison

namespace Scalar

/-- A truth value as a scalar. -/
def ofTruth : Option Bool → Scalar
  | some b => .bool b
  | none => .null

end Scalar

namespace Connective

/-- The truth value of a connective none of whose members decides it. -/
def undecided (op : Connective) (sawNull : Bool) : Option Bool :=
  if sawNull then none else some (!op.deciding)

end Connective

namespace Expr

mutual

/-- The value of an expression on the rows of a binding. -/
def evaluate (binding : Binding) : Expr → Attempt Scalar
  | column ref => do
    let record ← (binding.register ref.side).current
    record.cell ref.index
  | literal value => .ok value
  | compare op left right => do
    let a ← evaluate binding left
    let b ← evaluate binding right
    pure (op.apply a b)
  | connect op members => evaluateMembers binding op false members
  | arithmetic op left right => do
    let a ← evaluate binding left
    let b ← evaluate binding right
    op.apply a b
  | not operand => do
    let value ← evaluate binding operand
    let truth ← value.truth?
    pure (Scalar.ofTruth (truth.map (! ·)))
  | isNull operand => do
    let value ← evaluate binding operand
    pure (.bool value.isNull)

/-- The value of a connective from here on; `sawNull` tells whether a member before was
null. -/
def evaluateMembers (binding : Binding) (op : Connective) (sawNull : Bool) :
    List Expr → Attempt Scalar
  | [] => .ok (Scalar.ofTruth (op.undecided sawNull))
  | member :: members => do
    let value ← evaluate binding member
    match ← value.truth? with
    | none => evaluateMembers binding op true members
    | some b =>
      if b = op.deciding then pure (.bool b) else evaluateMembers binding op sawNull members

end

end Expr

/-- A condition on the rows of a binding. -/
structure Predicate where
  expr : Expr
deriving DecidableEq, Repr

namespace Predicate

/-- The predicate that holds of every row. -/
def always : Predicate := ⟨.alwaysTrue⟩

/-- Whether the predicate is the literal that is true. -/
def isAlways (p : Predicate) : Bool := p.expr = .alwaysTrue

/-- The predicate that the columns of two keys are equal pair by pair. -/
def keyEquality (left right : Key) : Attempt Predicate :=
  if left.length = right.length then
    .ok ⟨.connect .and ((left.zip right).map fun (l, r) =>
      .compare .eq (.leftColumn l) (.rightColumn r))⟩
  else .error (.keyArities left.length right.length)

/-- The predicate that holds where both do; one that always holds is left out. -/
def and (p q : Predicate) : Predicate :=
  if p.isAlways then q else if q.isAlways then p else ⟨.connect .and [p.expr, q.expr]⟩

/-- Whether the predicate holds of the rows of a binding. -/
def holds (p : Predicate) (binding : Binding) : Attempt Bool :=
  if p.isAlways then .ok true
  else do
    let value ← p.expr.evaluate binding
    let truth ← value.truth?
    pure (truth.getD false)

end Predicate

/-- The expressions of an output record. -/
abbrev Projection := List Expr

namespace Projection

/-- The first columns of the left row. -/
def identity (arity : Nat) : Projection := (List.range arity).map .leftColumn

/-- The columns of the left row, then those of the right row. -/
def both (left right : Nat) : Projection :=
  (List.range left).map .leftColumn ++ (List.range right).map .rightColumn

/-- The record that the projection computes. -/
def evaluate (projection : Projection) (binding : Binding) : Attempt Record :=
  projection.mapM fun expr => expr.evaluate binding

end Projection
end ExtentEngine
