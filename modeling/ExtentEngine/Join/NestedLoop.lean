import ExtentEngine.Join.Pairing

/-!
# Nested loop

The nested loop tests every pair of rows against one condition.  The right input is gone
through once for every left extent, so a left extent's rows without a partner are known,
and emitted, when the right input has been gone through; those of the right input are known
at the very end.
-/

namespace ExtentEngine
namespace NestedLoop

/-- Tests a left row against the rows of a right extent, whose flags begin at `offset`. -/
def rowWithExtent (out : JoinOutput) (condition : Predicate) (left : Record) (leftRow : Nat)
    (right : Extent) (offset : Nat) (flags : PairFlags) : Emission PairFlags :=
  right.zipIdx.foldlM (fun flags (record, row) =>
    out.test condition left record leftRow (offset + row) flags) flags

/-- Tests the rows of a left extent against those of a right extent. -/
def extentWithExtent (out : JoinOutput) (condition : Predicate) (left right : Extent)
    (offset : Nat) (flags : PairFlags) : Emission PairFlags :=
  left.zipIdx.foldlM (fun flags (record, row) =>
    rowWithExtent out condition record row right offset flags) flags

/-- Tests the rows of a left extent against those of the right extents, the flags of the
first of which begin at `offset`. -/
def extentWithAll (out : JoinOutput) (condition : Predicate) (left : Extent) (offset : Nat)
    (flags : PairFlags) : List Extent → Emission PairFlags
  | [] => pure flags
  | right :: rights => do
    let flags ← extentWithExtent out condition left right offset flags
    extentWithAll out condition left (offset + right.length) flags rights

/-- Goes through the left extents; the flags of the right input are handed on. -/
def leftExtents (out : JoinOutput) (condition : Predicate) (rights : List Extent)
    (rightFlags : MatchFlags) : List Extent → Emission MatchFlags
  | [] => pure rightFlags
  | left :: lefts => do
    let flags ← extentWithAll out condition left 0 ⟨.cleared left.length, rightFlags⟩ rights
    if out.method.emitsLeftUnmatched then emitUnmatched out.leftUnmatched flags.left 0 [left]
    leftExtents out condition rights flags.right lefts

/-- Emits the join of two inputs. -/
def run (out : JoinOutput) (condition : Predicate) (lefts rights : JoinSide) :
    Emission Unit := do
  let rightFlags ←
    leftExtents out condition rights.extents (.cleared rights.recordCount) lefts.extents
  if out.method.emitsRightUnmatched then
    emitUnmatched out.rightUnmatched rightFlags 0 rights.extents

end NestedLoop
end ExtentEngine
