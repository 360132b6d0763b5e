import ExtentEngine.Aggregate.Description

/-!
# Merging accumulators

Two accumulators of one kind, the moments also being for one end, are merged into the
accumulator of all their rows.
-/

namespace ExtentEngine
namespace Accumulator

/-- The better of an extremum and another one, if the other one is there. -/
def betterOf (order : Ordering) (value other : Option Scalar) : Option Scalar :=
  match other with
  | none => value
  | some input => better order value input

/-- The failure to merge accumulators of different kinds. -/
def mismatch (state other : Accumulator) : Fault :=
  .statesMismatched (String.ofList state.describe) (String.ofList other.describe)

/-- Merges another accumulator into the state. -/
def merge (other : Accumulator) : Step Accumulator Unit := fun state =>
  match state, other with
  | count n skips, count m _ => (.ok (), count (n + m) skips)
  | sum total, sum none => (.ok (), sum total)
  | sum total, sum (some more) => addTotal total more
  | average total n, average more m => (.ok (), average (total + more) (n + m))
  | least value, least more => (.ok (), least (betterOf .lt value more))
  | greatest value, greatest more => (.ok (), greatest (betterOf .gt value more))
  | variance kind moments, variance otherKind more =>
    if kind = otherKind then (.ok (), variance kind (moments.merge more))
    else (.error (mismatch state other), state)
  | covariance kind moments, covariance otherKind more =>
    if kind = otherKind then (.ok (), covariance kind (moments.merge more))
    else (.error (mismatch state other), state)
  | slope moments, slope more => (.ok (), slope (moments.merge more))
  | state, other => (.error (mismatch state other), state)

/-- Merges accumulators pairwise, up to the first pair that cannot be merged; the pairs
before it are merged then. -/
def mergeEach : List Accumulator → List Accumulator → Attempt Unit × List Accumulator
  | state :: states, other :: others =>
    match (merge other).run state with
    | (.error fault, state) => (.error fault, state :: states)
    | (.ok (), state) =>
      let (result, states) := mergeEach states others
      (result, state :: states)
  | states, _ => (.ok (), states)

/-- Merges the accumulators of a group into those of the state, which must be as many. -/
def mergeAll (others : List Accumulator) : Step (List Accumulator) Unit := fun states =>
  if states.length = others.length then mergeEach states others
  else (.error (.stateCounts states.length others.length), states)

end Accumulator
end ExtentEngine
