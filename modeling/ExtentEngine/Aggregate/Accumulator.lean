import ExtentEngine.Aggregate.Moments
import ExtentEngine.Aggregate.Total
import ExtentEngine.Step

/-!
# Accumulators

An accumulator is the state of one aggregate in one group.  It is updated row by row and can
be merged with the accumulator of other rows of the group.

A row with a null among its inputs is passed over, except where rows are counted.
-/

namespace ExtentEngine

/-- What is made of the moments of one variable in the end. -/
inductive VarianceKind
  | sample
  | population
  | stddevSample
deriving DecidableEq, Repr

namespace VarianceKind

def name : VarianceKind → String
  | sample => "Sample"
  | population => "Population"
  | stddevSample => "StddevSample"

end VarianceKind

/-- What is made of the moments of two variables in the end. -/
inductive CovarianceKind
  | sample
  | population
deriving DecidableEq, Repr

namespace CovarianceKind

def name : CovarianceKind → String
  | sample => "Sample"
  | population => "Population"

end CovarianceKind

instance : OfNat Binary64 0 := ⟨Binary64.zero⟩

instance : Countable Int64 Binary64 := ⟨fun n => Binary64.ofInt n.toInt, Binary64.isZero⟩

/-- The state of one aggregate in one group. -/
inductive Accumulator
  /-- Counts rows, or with `skipsNulls` the rows without a null. -/
  | count (count : Int64) (skipsNulls : Bool)
  | sum (total : Option Total)
  | average (sum : Binary64) (count : Int64)
  | least (value : Option Scalar)
  | greatest (value : Option Scalar)
  | variance (kind : VarianceKind) (moments : Variance Int64 Binary64)
  | covariance (kind : CovarianceKind) (moments : Covariance Int64 Binary64)
  | slope (moments : Slope Int64 Binary64)
deriving DecidableEq

namespace Accumulator

/-- The first input. -/
def firstInput : List Scalar → Attempt Scalar
  | input :: _ => .ok input
  | [] => .error (.needed .aggregateInput)

/-- The number that an input stands for, which must not be null. -/
def numberInput (input : Scalar) : Attempt Binary64 := do
  match ← input.number? with
  | some x => pure x
  | none => throw (.needed .presentInput)

/-- The numbers that two inputs stand for. -/
def pairInput : List Scalar → Attempt (Binary64 × Binary64)
  | [y, x] => do
    let y ← numberInput y
    let x ← numberInput x
    pure (y, x)
  | inputs => .error (.inputsNotPaired inputs.length)

/-- The new value of an extremum: the input if it is better than what is there. -/
def better (order : Ordering) (value : Option Scalar) (input : Scalar) : Option Scalar :=
  match value with
  | none => some input
  | some current => if input.compare current = order then some input else some current

/-- Adds to a running sum.  The sum is taken out of the accumulator before it is added to,
so a sum that cannot be added to is gone. -/
def addTotal (total : Option Total) (input : Total) : Attempt Unit × Accumulator :=
  match total with
  | none => (.ok (), sum (some input))
  | some current =>
    match current.add input with
    | .ok next => (.ok (), sum (some next))
    | .error fault => (.error fault, sum none)

/-- Puts another accumulator in place of one, if it can be computed. -/
def replaceBy (state : Accumulator) (next : Attempt Accumulator) :
    Attempt Unit × Accumulator :=
  match next with
  | .ok next => (.ok (), next)
  | .error fault => (.error fault, state)

/-- Takes the inputs of a row none of which is null. -/
def updatePresent (inputs : List Scalar) : Step Accumulator Unit
  | count n skips => (.ok (), count (n + 1) skips)
  | sum total =>
    match firstInput inputs >>= Total.ofScalar with
    | .error fault => (.error fault, sum total)
    | .ok input => addTotal total input
  | average total n => (average total n).replaceBy do
    let x ← firstInput inputs >>= numberInput
    pure (average (total + x) (n + 1))
  | least value => (least value).replaceBy do
    pure (least (better .lt value (← firstInput inputs)))
  | greatest value => (greatest value).replaceBy do
    pure (greatest (better .gt value (← firstInput inputs)))
  | variance kind moments => (variance kind moments).replaceBy do
    let x ← firstInput inputs >>= numberInput
    pure (variance kind (moments.update x))
  | covariance kind moments => (covariance kind moments).replaceBy do
    let (y, x) ← pairInput inputs
    pure (covariance kind (moments.update y x))
  | slope moments => (slope moments).replaceBy do
    let (y, x) ← pairInput inputs
    pure (slope (moments.update y x))

/-- Takes the inputs of a row. -/
def update (inputs : List Scalar) : Step Accumulator Unit
  | count n false => (.ok (), count (n + 1) false)
  | state => if inputs.any Scalar.isNull then (.ok (), state) else updatePresent inputs state

/-- The value in the end. -/
def finish : Accumulator → Scalar
  | count n _ => .int n
  | sum none => .null
  | sum (some total) => total.toScalar
  | average total n => if n = 0 then .null else .float (total / Binary64.ofInt n.toInt)
  | least value => value.getD .null
  | greatest value => value.getD .null
  | variance .sample moments => (moments.sample.map Scalar.float).getD .null
  | variance .population moments => (moments.population.map Scalar.float).getD .null
  | variance .stddevSample moments =>
    ((moments.sample.map Binary64.sqrt).map Scalar.float).getD .null
  | covariance .sample moments => (moments.sample.map Scalar.float).getD .null
  | covariance .population moments => (moments.population.map Scalar.float).getD .null
  | slope moments => (moments.slope.map Scalar.float).getD .null

end Accumulator
end ExtentEngine
