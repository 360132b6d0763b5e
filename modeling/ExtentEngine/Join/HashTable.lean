import ExtentEngine.Join.Pairing
import ExtentEngine.Join.RowIndex

/-!
# Hash table

The hash table join builds a row index of each input and goes through the pairs of places
that share a key.  Flags are kept for the rows of a whole input, at the row's position in
it, and the rows without a partner follow at the end.
-/

namespace ExtentEngine
namespace HashTable

/-- The position of each extent's first row in the whole input, the first being `offset`,
for extents of the given lengths. -/
def extentOffsets (offset : Nat) : List Nat → List Nat
  | [] => []
  | length :: lengths => offset :: extentOffsets (offset + length) lengths

/-- The row at a place, which must be there. -/
def rowOf (extents : List Extent) (id : RowId) : Attempt Record :=
  match extents[id.extent]? with
  | some extent => rowAt extent id.row
  | none => .error .abandoned

/-- The position of a place in the whole input. -/
def positionOf (offsets : List Nat) (id : RowId) : Attempt Nat :=
  match offsets[id.extent]? with
  | some offset => .ok (offset + id.row)
  | none => .error .abandoned

/-- An input with the positions of its extents. -/
structure Side where
  extents : List Extent
  offsets : List Nat

/-- An input with the positions that go by the noted lengths. -/
def Side.ofNoted (side : JoinSide) : Side := ⟨side.extents, extentOffsets 0 side.lengths⟩

/-- Tests the pair of rows at a pair of places. -/
def testTuple (out : JoinOutput) (condition : Predicate) (lefts rights : Side)
    (flags : PairFlags) (tuple : RowId × RowId) : Emission PairFlags := do
  let left ← .ofAttempt (rowOf lefts.extents tuple.1)
  let right ← .ofAttempt (rowOf rights.extents tuple.2)
  let leftRow ← .ofAttempt (positionOf lefts.offsets tuple.1)
  let rightRow ← .ofAttempt (positionOf rights.offsets tuple.2)
  out.test condition left right leftRow rightRow flags

/-- Emits the join of two inputs. -/
def run (out : JoinOutput) (spec : JoinSpec) (lefts rights : JoinSide) : Emission Unit := do
  let tuples :=
    (RowIndex.build lefts.extents spec.leftKey).joinTuples (.build rights.extents spec.rightKey)
  let flags ← tuples.foldlM
    (testTuple out spec.residual (.ofNoted lefts) (.ofNoted rights))
    ⟨.cleared lefts.recordCount, .cleared rights.recordCount⟩
  if out.method.emitsLeftUnmatched then
    emitUnmatched out.leftUnmatched flags.left 0 lefts.extents
  if out.method.emitsRightUnmatched then
    emitUnmatched out.rightUnmatched flags.right 0 rights.extents

end HashTable
end ExtentEngine
