import ExtentEngine.Aggregate.Codec
import ExtentEngine.Expr.Terse

/-!
# Terse aggregates and accumulators

A terse aggregate is an array of the name of its function and its inputs.  A terse
accumulator is an array of the name of its kind and its parts; moments are arrays of their
numbers, floats being shown by their bits and integers of 128 bits by their digits.
-/

namespace ExtentEngine

/-- A number shown by its bits. -/
def terseNumber (x : Binary64) : Json := .ofText x.commonWord

namespace Variance

def toTerse (v : Variance Int64 Binary64) : Json :=
  .array [int64ToJson v.count, terseNumber v.mean, terseNumber v.m2]

end Variance

namespace Covariance

def toTerse (c : Covariance Int64 Binary64) : Json :=
  .array [int64ToJson c.count, terseNumber c.meanX, terseNumber c.meanY, terseNumber c.coMoment]

end Covariance

namespace Scalar

/-- A scalar that may be absent, which is not the same as null. -/
def optionToTerse (value : Option Scalar) : Json :=
  optionToJson (fun v => .record [("some", v.toTerse Binary64.commonWord)]) value

end Scalar

namespace Total

/-- The name of the kind of a total, and the total. -/
def toTerse : Total → List Json
  | int n => [.chooseBare "int", .ofText (Digits.ofInt n.val)]
  | float x => [.chooseBare "float", terseNumber x]

end Total

namespace Accumulator

def toTerse : Accumulator → Json
  | count n skipsNulls => .array [.chooseBare "count", int64ToJson n, .bool skipsNulls]
  | sum none => .array [.chooseBare "sum", .null]
  | sum (some total) => .array (.chooseBare "sum" :: total.toTerse)
  | average total n => .array [.chooseBare "avg", terseNumber total, int64ToJson n]
  | least value => .array [.chooseBare "min", Scalar.optionToTerse value]
  | greatest value => .array [.chooseBare "max", Scalar.optionToTerse value]
  | variance kind moments =>
    .array [.chooseBare "variance", .chooseBare kind.name, moments.toTerse]
  | covariance kind moments =>
    .array [.chooseBare "covar", .chooseBare kind.name, moments.toTerse]
  | slope moments =>
    .array [.chooseBare "regr_slope", moments.covariance.toTerse, moments.variance.toTerse]

end Accumulator

namespace Group

/-- The key values and the accumulators. -/
def toTerse (group : Group) : Json :=
  .array [Record.toTerse Binary64.commonWord group.key,
    .array (group.states.map Accumulator.toTerse)]

end Group

namespace Aggregate

/-- Reads a function and its inputs, which need not be as many as the function accepts. -/
def ofTerse? : Json → Option (Attempt Aggregate)
  | .array (name :: inputs) => do
    let function ← AggregateFunction.ofName? (String.ofList (← name.text?))
    pure (new function (← Expr.operandsOfTerse? inputs))
  | _ => none

end Aggregate
end ExtentEngine
