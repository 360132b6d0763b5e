import ExtentEngine.Join.Pairing

/-!
# Sort-merge

The sort-merge join goes through two inputs that are sorted by their keys.  It drops the
smaller of the two rows in front until their keys are equal; then the rows of both sides
with that key form a *run*, and the pairs of the run are tested left row by left row.  Rows
with a null in the key have no partner.
-/

namespace ExtentEngine
namespace SortMerge

/-- Tests a left row against the rows of a run.  The first flag of the result tells whether
it has found a partner. -/
def rowWithRun (out : JoinOutput) (condition : Predicate) (left : Record) (run : List Record)
    (runFlags : MatchFlags) : Emission PairFlags :=
  run.zipIdx.foldlM (fun flags (right, row) => out.test condition left right 0 row flags)
    ⟨.cleared 1, runFlags⟩

/-- Tests the left rows of a run; a row without a partner is emitted at once. -/
def leftRun (out : JoinOutput) (condition : Predicate) (run : List Record)
    (runFlags : MatchFlags) : List Record → Emission MatchFlags
  | [] => pure runFlags
  | left :: lefts => do
    let flags ← rowWithRun out condition left run runFlags
    if !flags.left.isMarked 0 then out.leftUnmatched left
    leftRun out condition run flags.right lefts

/-- Tests the pairs of a run and emits its right rows without a partner. -/
def emitRun (out : JoinOutput) (condition : Predicate) (lefts rights : List Record) :
    Emission Unit := do
  let flags ← leftRun out condition rights (.cleared rights.length) lefts
  if out.method.emitsRightUnmatched then emitUnmatched out.rightUnmatched flags 0 [rights]

/-- Whether the key of a left row is equal to the key of a right row. -/
def sameKey (spec : JoinSpec) (left right : Record) : Bool :=
  Record.compareOn left spec.leftKey right spec.rightKey == .eq

/-- Emits the join of two inputs that are sorted by their keys.  The run of the right input is
gathered first, and the left rows of the run are those with the key of its first row. -/
def run (out : JoinOutput) (spec : JoinSpec) : List Record → List Record → Emission Unit
  | [], [] => pure ()
  | left :: lefts, [] => do
    out.leftUnmatched left
    run out spec lefts []
  | [], right :: rights => do
    out.rightUnmatched right
    run out spec [] rights
  | left :: lefts, right :: rights =>
    if left.hasNullKey spec.leftKey then do
      out.leftUnmatched left
      run out spec lefts (right :: rights)
    else if right.hasNullKey spec.rightKey then do
      out.rightUnmatched right
      run out spec (left :: lefts) rights
    else
      match _horder : Record.compareOn left spec.leftKey right spec.rightKey with
      | .lt => do
        out.leftUnmatched left
        run out spec lefts (right :: rights)
      | .gt => do
        out.rightUnmatched right
        run out spec (left :: lefts) rights
      | .eq => do
        let buffer := (right :: rights).takeWhile (sameKey spec left)
        let first ← .ofAttempt (rowAt buffer 0)
        emitRun out spec.residual ((left :: lefts).takeWhile (sameKey spec · first)) buffer
        run out spec ((left :: lefts).dropWhile (sameKey spec · first))
          ((right :: rights).dropWhile (sameKey spec left))
termination_by lefts rights => lefts.length + rights.length
decreasing_by
  -- the first right row is in the run, whatever the left rows are
  all_goals first
    | simp only [List.length_cons]; omega
    | have hsame : sameKey spec left right = true := by rw [sameKey, _horder]; rfl
      rw [List.dropWhile_cons_of_pos hsame]
      have := (List.dropWhile_sublist (l := left :: lefts) (sameKey spec · first)).length_le
      have := (List.dropWhile_sublist (l := rights) (sameKey spec left)).length_le
      simp only [List.length_cons] at *
      omega

end SortMerge
end ExtentEngine
