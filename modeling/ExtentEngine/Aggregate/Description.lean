import ExtentEngine.Aggregate.Accumulator
import ExtentEngine.Scalar.Format

/-!
# Descriptions of accumulators

The text by which an accumulator is shown to those who look into the engine: the name of
its kind, and its fields by their names.
-/

namespace ExtentEngine

/-- A name with named values behind it in braces. -/
def describeFields (name : String) (fields : List (String × List Char)) : List Char :=
  name.toList ++ [' ', '\x7b', ' ']
    ++ separated [',', ' '] (fields.map fun f => f.1.toList ++ [':', ' '] ++ f.2)
    ++ [' ', '\x7d']

/-- A name with one value behind it in parentheses. -/
def describeWrapped (name : String) (value : List Char) : List Char :=
  name.toList ++ '(' :: value ++ [')']

/-- A value that may be absent. -/
def describeOption {α : Type} (describe : α → List Char) : Option α → List Char
  | none => "None".toList
  | some value => describeWrapped "Some" (describe value)

def describeInt64 (n : Int64) : List Char := Digits.ofInt n.toInt

namespace Binary64

def describe (x : Binary64) : List Char := detailedNotation.text x

end Binary64

namespace Total

def describe : Total → List Char
  | int n => describeWrapped "Int" (Digits.ofInt n.val)
  | float x => describeWrapped "Float" x.describe

end Total

namespace Variance

def describe (v : Variance Int64 Binary64) : List Char :=
  describeFields "VarianceState"
    [("count", describeInt64 v.count), ("mean", v.mean.describe), ("m2", v.m2.describe)]

end Variance

namespace Covariance

def describe (c : Covariance Int64 Binary64) : List Char :=
  describeFields "CovarState"
    [("count", describeInt64 c.count), ("meanx", c.meanX.describe),
      ("meany", c.meanY.describe), ("co_moment", c.coMoment.describe)]

end Covariance

namespace Slope

def describe (s : Slope Int64 Binary64) : List Char :=
  describeFields "RegrSlopeState"
    [("cov", s.covariance.describe), ("var", s.variance.describe)]

end Slope

namespace Accumulator

def describe : Accumulator → List Char
  | count n skipsNulls =>
    describeFields "Count" [("count", describeInt64 n), ("skip_nulls", truthText skipsNulls)]
  | sum total => describeFields "Sum" [("sum", describeOption Total.describe total)]
  | average total n =>
    describeFields "Avg" [("sum", total.describe), ("count", describeInt64 n)]
  | least value => describeFields "Min" [("value", describeOption Scalar.describe value)]
  | greatest value => describeFields "Max" [("value", describeOption Scalar.describe value)]
  | variance kind moments =>
    describeFields "Variance" [("finalize", kind.name.toList), ("state", moments.describe)]
  | covariance kind moments =>
    describeFields "Covar" [("finalize", kind.name.toList), ("state", moments.describe)]
  | slope moments => describeFields "RegrSlope" [("state", moments.describe)]

end Accumulator
end ExtentEngine
