import ExtentEngine.Aggregate.Table
import ExtentEngine.Record.Codec

/-!
# Groups in JSON

Groups that are written to disk are read back as they were, accumulators with all their
parts.
-/

namespace ExtentEngine

namespace Int128

def toJson (n : Int128) : Json := .ofInt n.val

def ofJson? : Json → Option Int128
  | .number n => if n.isWhole then ofInt? n.wholeValue else none
  | _ => none

end Int128

namespace Total

def toJson : Total → Json
  | int n => .choose "Int" n.toJson
  | float x => .choose "Float" x.toJson

def ofJson? (j : Json) : Option Total :=
  match j.choice? with
  | some (name, some contents) =>
    if name = "Int".toList then (Int128.ofJson? contents).map int
    else if name = "Float".toList then (Binary64.ofJson? contents).map float
    else none
  | _ => none

end Total

/-- A value that may be absent. -/
def optionToJson {α : Type} (toJson : α → Json) : Option α → Json
  | none => .null
  | some value => toJson value

/-- A value that may be absent, in a field that may be missing. -/
def optionOfJson? {α : Type} (ofJson? : Json → Option α) : Option Json → Option (Option α)
  | none => some none
  | some .null => some none
  | some j => (ofJson? j).map some

def int64ToJson (n : Int64) : Json := .ofInt n.toInt

namespace Variance

def toJson (v : Variance Int64 Binary64) : Json :=
  .record [("count", int64ToJson v.count), ("mean", v.mean.toJson), ("m2", v.m2.toJson)]

def ofJson? (j : Json) : Option (Variance Int64 Binary64) :=
  match j.fields? ["count", "mean", "m2"] with
  | some [some count, some mean, some m2] => do
    pure ⟨← count.int64?, ← Binary64.ofJson? mean, ← Binary64.ofJson? m2⟩
  | _ => none

end Variance

namespace Covariance

def toJson (c : Covariance Int64 Binary64) : Json :=
  .record [("count", int64ToJson c.count), ("meanx", c.meanX.toJson),
    ("meany", c.meanY.toJson), ("co_moment", c.coMoment.toJson)]

def ofJson? (j : Json) : Option (Covariance Int64 Binary64) :=
  match j.fields? ["count", "meanx", "meany", "co_moment"] with
  | some [some count, some meanX, some meanY, some coMoment] => do
    pure ⟨← count.int64?, ← Binary64.ofJson? meanX, ← Binary64.ofJson? meanY,
      ← Binary64.ofJson? coMoment⟩
  | _ => none

end Covariance

namespace Slope

def toJson (s : Slope Int64 Binary64) : Json :=
  .record [("cov", s.covariance.toJson), ("var", s.variance.toJson)]

def ofJson? (j : Json) : Option (Slope Int64 Binary64) :=
  match j.fields? ["cov", "var"] with
  | some [some covariance, some variance] => do
    pure ⟨← Covariance.ofJson? covariance, ← Variance.ofJson? variance⟩
  | _ => none

end Slope

namespace VarianceKind

def byName : List (String × VarianceKind) :=
  [sample, population, stddevSample].map fun kind => (kind.name, kind)

end VarianceKind

namespace CovarianceKind

def byName : List (String × CovarianceKind) :=
  [sample, population].map fun kind => (kind.name, kind)

end CovarianceKind

namespace Accumulator

def toJson : Accumulator → Json
  | count n skipsNulls => .choose "Count" (.record
    [("count", int64ToJson n), ("skip_nulls", .bool skipsNulls)])
  | sum total => .choose "Sum" (.record [("sum", optionToJson Total.toJson total)])
  | average total n => .choose "Avg" (.record
    [("sum", total.toJson), ("count", int64ToJson n)])
  | least value => .choose "Min" (.record [("value", optionToJson Scalar.toJson value)])
  | greatest value => .choose "Max" (.record [("value", optionToJson Scalar.toJson value)])
  | variance kind moments => .choose "Variance" (.record
    [("finalize", .chooseBare kind.name), ("state", moments.toJson)])
  | covariance kind moments => .choose "Covar" (.record
    [("finalize", .chooseBare kind.name), ("state", moments.toJson)])
  | slope moments => .choose "RegrSlope" (.record [("state", moments.toJson)])

def countOfJson? (j : Json) : Option Accumulator :=
  match j.fields? ["count", "skip_nulls"] with
  | some [some n, some skipsNulls] => do pure (count (← n.int64?) (← skipsNulls.bool?))
  | _ => none

def sumOfJson? (j : Json) : Option Accumulator :=
  match j.fields? ["sum"] with
  | some [total] => (optionOfJson? Total.ofJson? total).map sum
  | _ => none

def averageOfJson? (j : Json) : Option Accumulator :=
  match j.fields? ["sum", "count"] with
  | some [some total, some n] => do pure (average (← Binary64.ofJson? total) (← n.int64?))
  | _ => none

/-- The value of an extremum. -/
def valueOfJson? (j : Json) : Option (Option Scalar) :=
  match j.fields? ["value"] with
  | some [value] => optionOfJson? Scalar.ofJson? value
  | _ => none

def varianceOfJson? (j : Json) : Option Accumulator :=
  match j.fields? ["finalize", "state"] with
  | some [some kind, some moments] => do
    pure (variance (← kind.oneOf? VarianceKind.byName) (← Variance.ofJson? moments))
  | _ => none

def covarianceOfJson? (j : Json) : Option Accumulator :=
  match j.fields? ["finalize", "state"] with
  | some [some kind, some moments] => do
    pure (covariance (← kind.oneOf? CovarianceKind.byName) (← Covariance.ofJson? moments))
  | _ => none

def slopeOfJson? (j : Json) : Option Accumulator :=
  match j.fields? ["state"] with
  | some [some moments] => (Slope.ofJson? moments).map slope
  | _ => none

def ofJson? (j : Json) : Option Accumulator :=
  match j.choice? with
  | some (name, some contents) =>
    if name = "Count".toList then countOfJson? contents
    else if name = "Sum".toList then sumOfJson? contents
    else if name = "Avg".toList then averageOfJson? contents
    else if name = "Min".toList then (valueOfJson? contents).map least
    else if name = "Max".toList then (valueOfJson? contents).map greatest
    else if name = "Variance".toList then varianceOfJson? contents
    else if name = "Covar".toList then covarianceOfJson? contents
    else if name = "RegrSlope".toList then slopeOfJson? contents
    else none
  | _ => none

end Accumulator

namespace Group

def toJson (group : Group) : Json :=
  .record [("key", cellsToJson group.key),
    ("states", .array (group.states.map Accumulator.toJson))]

def ofJson? (j : Json) : Option Group :=
  match j.fields? ["key", "states"] with
  | some [some key, some states] => do
    pure ⟨← cellsOfJson? key, ← states.items? Accumulator.ofJson?⟩
  | _ => none

end Group
end ExtentEngine
