/-!
# Running moments

The moments of a sample are kept up to date sample by sample and can be merged with the
moments of another sample.  A new sample moves the mean by its share of the deviation, and
two means are merged with their counts for weights.  The formulas are stated over any type
of numbers, and over any type of counts that can be turned into numbers.

* `Variance` keeps the count, the mean, and the sum of squared deviations.
* `Covariance` keeps the count, both means, and the sum of products of deviations.
* `Slope` keeps what the least squares line needs.
-/

namespace ExtentEngine

/-- Numbers of type `α` that are computed with counts of type `κ`. -/
class Countable (κ α : Type) where
  /-- A count as a number. -/
  ofCount : κ → α
  /-- Whether a number is zero. -/
  isZero : α → Bool

/-- Moments of one variable. -/
structure Variance (κ α : Type) where
  count : κ
  mean : α
  /-- The sum of the squared deviations from the mean. -/
  m2 : α
deriving DecidableEq, Repr

/-- Moments of two variables. -/
structure Covariance (κ α : Type) where
  count : κ
  meanX : α
  meanY : α
  /-- The sum of the products of the deviations from the means. -/
  coMoment : α
deriving DecidableEq, Repr

/-- Moments of a line through points. -/
structure Slope (κ α : Type) where
  covariance : Covariance κ α
  /-- The moments of the first coordinate. -/
  variance : Variance κ α
deriving DecidableEq, Repr

section Formulas

variable {κ α : Type} [Add κ] [Sub κ] [OfNat κ 0] [OfNat κ 1] [DecidableEq κ]
variable [Add α] [Sub α] [Mul α] [Div α] [OfNat α 0] [Countable κ α]

/-- A quantity over a count, if the count is not zero. -/
def perCount (quantity : α) (count : κ) : Option α :=
  if count = 0 then none else some (quantity / Countable.ofCount count)

/-- A quantity over one less than a count, if the count is neither zero nor one. -/
def perCountLessOne (quantity : α) (count : κ) : Option α :=
  if count = 0 ∨ count = 1 then none else some (quantity / Countable.ofCount (count - 1))

namespace Variance

/-- The moments of no samples. -/
def empty : Variance κ α := ⟨0, 0, 0⟩

/-- The moments with one more sample. -/
def update (v : Variance κ α) (x : α) : Variance κ α :=
  let count := v.count + 1
  let delta := x - v.mean
  let mean := v.mean + delta / Countable.ofCount count
  ⟨count, mean, v.m2 + delta * (x - mean)⟩

/-- The moments of two samples together. -/
def merge (v w : Variance κ α) : Variance κ α :=
  if w.count = 0 then v
  else if v.count = 0 then w
  else
    let n : α := Countable.ofCount v.count
    let m : α := Countable.ofCount w.count
    let total := n + m
    let delta := v.mean - w.mean
    ⟨v.count + w.count, (n * v.mean + m * w.mean) / total,
      v.m2 + w.m2 + delta * delta * n * m / total⟩

/-- The variance of a sample. -/
def sample (v : Variance κ α) : Option α := perCountLessOne v.m2 v.count

/-- The variance of a population. -/
def population (v : Variance κ α) : Option α := perCount v.m2 v.count

end Variance

namespace Covariance

/-- The moments of no samples. -/
def empty : Covariance κ α := ⟨0, 0, 0, 0⟩

/-- The moments with one more pair of samples. -/
def update (c : Covariance κ α) (y x : α) : Covariance κ α :=
  let count := c.count + 1
  let n : α := Countable.ofCount count
  let dx := x - c.meanX
  let meanX := c.meanX + dx / n
  let dy := y - c.meanY
  let meanY := c.meanY + dy / n
  ⟨count, meanX, meanY, c.coMoment + dx * (y - meanY)⟩

/-- The moments of two samples together. -/
def merge (c d : Covariance κ α) : Covariance κ α :=
  if d.count = 0 then c
  else if c.count = 0 then d
  else
    let count := c.count + d.count
    let total : α := Countable.ofCount count
    let n : α := Countable.ofCount c.count
    let m : α := Countable.ofCount d.count
    let deltaX := c.meanX - d.meanX
    let deltaY := c.meanY - d.meanY
    ⟨count, (m * d.meanX + n * c.meanX) / total, (m * d.meanY + n * c.meanY) / total,
      d.coMoment + c.coMoment + deltaX * deltaY * m * n / total⟩

/-- The covariance of a sample. -/
def sample (c : Covariance κ α) : Option α := perCountLessOne c.coMoment c.count

/-- The covariance of a population. -/
def population (c : Covariance κ α) : Option α := perCount c.coMoment c.count

end Covariance

namespace Slope

/-- The moments of no points. -/
def empty : Slope κ α := ⟨.empty, .empty⟩

/-- The moments with one more point. -/
def update (s : Slope κ α) (y x : α) : Slope κ α :=
  ⟨s.covariance.update y x, s.variance.update x⟩

/-- The moments of two sets of points together. -/
def merge (s t : Slope κ α) : Slope κ α :=
  ⟨s.covariance.merge t.covariance, s.variance.merge t.variance⟩

/-- The slope of the least squares line, if there is one. -/
def slope (s : Slope κ α) : Option α :=
  match s.covariance.population, s.variance.population with
  | some covariance, some variance =>
    if Countable.isZero κ variance then none else some (covariance / variance)
  | _, _ => none

end Slope

end Formulas
end ExtentEngine
