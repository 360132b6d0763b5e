import ExtentEngine.Aggregate.Accumulator
import ExtentEngine.Expr.Evaluation
import ExtentEngine.Scalar.Format

/-!
# Aggregates

An aggregate is a function applied to input expressions.  It is built with as many inputs
as its function accepts, and it gives each group a fresh accumulator.
-/

namespace ExtentEngine

/-- The aggregate functions. -/
inductive AggregateFunction
  /-- The number of rows, or of values that are not null. -/
  | count
  | sum
  | avg
  | min
  | max
  | varSamp
  | varPop
  | stddevSamp
  | covarSamp
  | covarPop
  /-- The slope of the least squares line; the inputs are the second coordinate and the
  first. -/
  | regrSlope
deriving DecidableEq, Repr

namespace AggregateFunction

def name : AggregateFunction → String
  | count => "count"
  | sum => "sum"
  | avg => "avg"
  | min => "min"
  | max => "max"
  | varSamp => "var_samp"
  | varPop => "var_pop"
  | stddevSamp => "stddev_samp"
  | covarSamp => "covar_samp"
  | covarPop => "covar_pop"
  | regrSlope => "regr_slope"

def all : List AggregateFunction :=
  [count, sum, avg, min, max, varSamp, varPop, stddevSamp, covarSamp, covarPop, regrSlope]

/-- The function of a name. -/
def ofName? (name : String) : Option AggregateFunction := all.find? (·.name = name)

/-- The least number of inputs. -/
def leastInputs : AggregateFunction → Nat
  | count => 0
  | covarSamp => 2
  | covarPop => 2
  | regrSlope => 2
  | _ => 1

/-- The greatest number of inputs. -/
def mostInputs : AggregateFunction → Nat
  | covarSamp => 2
  | covarPop => 2
  | regrSlope => 2
  | _ => 1

/-- Whether the function can be applied to a number of inputs. -/
def accepts (f : AggregateFunction) (inputs : Nat) : Bool :=
  f.leastInputs ≤ inputs && inputs ≤ f.mostInputs

/-- The accumulator of no rows. -/
def start (f : AggregateFunction) (inputs : Nat) : Accumulator :=
  match f with
  | count => .count 0 (inputs != 0)
  | sum => .sum none
  | avg => .average Binary64.zero 0
  | min => .least none
  | max => .greatest none
  | varSamp => .variance .sample .empty
  | varPop => .variance .population .empty
  | stddevSamp => .variance .stddevSample .empty
  | covarSamp => .covariance .sample .empty
  | covarPop => .covariance .population .empty
  | regrSlope => .slope .empty

end AggregateFunction

/-- An aggregate function applied to expressions. -/
structure Aggregate where
  function : AggregateFunction
  inputs : List Expr
  accepted : function.accepts inputs.length = true
deriving DecidableEq

namespace Aggregate

/-- Applies a function to expressions. -/
def new (function : AggregateFunction) (inputs : List Expr) : Attempt Aggregate :=
  if h : function.accepts inputs.length = true then .ok ⟨function, inputs, h⟩
  else .error (.inputCount function.name inputs.length function.leastInputs
    function.mostInputs)

/-- The number of rows. -/
def countRows : Aggregate := ⟨.count, [], rfl⟩

/-- A function applied to a column. -/
def onColumn (function : AggregateFunction) (column : Nat) : Attempt Aggregate :=
  new function [.leftColumn column]

/-- The accumulator of a new group. -/
def start (aggregate : Aggregate) : Accumulator :=
  aggregate.function.start aggregate.inputs.length

/-- The inputs of a row. -/
def evaluateInputs (aggregate : Aggregate) (binding : Binding) : Attempt (List Scalar) :=
  aggregate.inputs.mapM fun input => input.evaluate binding

def display (aggregate : Aggregate) : List Char :=
  let inputs :=
    if aggregate.inputs.isEmpty && aggregate.function = .count then ['*']
    else separated [',', ' '] (aggregate.inputs.map Expr.display)
  aggregate.function.name.toList ++ '(' :: inputs ++ [')']

end Aggregate
end ExtentEngine
