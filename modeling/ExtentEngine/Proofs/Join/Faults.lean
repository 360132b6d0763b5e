import ExtentEngine.Proofs.Dataset.Faults
import ExtentEngine.Proofs.Join.Execute
import ExtentEngine.Proofs.Join.InBounds
import ExtentEngine.Proofs.Join.Parts

/-!
# Why joins fail

A join gives up if it looks for a flag, a range of flags, the place of an extent, an extent, a row
or the next row without a partner that is not there.  No join does: the flags are as many as the
lengths that a dataset has noted say, and extents that can be loaded have these lengths.

Nothing is asked of the inputs.  Their files may be lost or spoilt, the records may have any arity,
the keys and the columns may be missing and the expressions fail; a join that cannot go on for such
a reason says so.  Where files are lost or spoilt there is nothing to look for: all extents are
loaded before rows are paired.

**Results.**
* `HashTable.ofValues_run`, `SortMerge.ofValues_run`: emitting a join fails because of values only.
* `JoinSpec.endsIn_execute`: the reasons why a join may fail.
* `JoinSpec.execute_persists`: no join gives up.
-/

namespace ExtentEngine

open Emission (EndsIn)

variable {lefts rights : List Extent}

namespace HashTable

variable {out : JoinOutput} {spec : JoinSpec}

/-- The places that are tested are those of rows, and these have flags. -/
theorem ofValues_testTuple {tuple : RowId × RowId} (h : tuple ∈ tuples spec lefts rights)
    {flags : PairFlags} (hflags : flags.Fits lefts.flatten.length rights.flatten.length) :
    (testTuple out spec.residual ⟨lefts, offsetsOf lefts⟩ ⟨rights, offsetsOf rights⟩ flags
      tuple).OfValues (PairFlags.Fits lefts.flatten.length rights.flatten.length) := by
  obtain ⟨l, hl, r, hr, rfl, -, -⟩ := exists_of_mem_tuples h
  rw [testTuple_of_mem hl hr]
  exact JoinOutput.ofValues_test hflags (position_lt_of_mem hl) (position_lt_of_mem hr)

/-- A hash table join of extents of which the lengths are noted fails because of values only. -/
theorem ofValues_run (out : JoinOutput) (spec : JoinSpec) (lefts rights : List Extent) :
    (run out spec (.ofExtents lefts) (.ofExtents rights)).OfValues fun _ => True := by
  have hcleared : PairFlags.Fits lefts.flatten.length rights.flatten.length
      ⟨lefts.flatten.map fun _ => false, rights.flatten.map fun _ => false⟩ :=
    .of_maps _ _ _ _
  rw [run_ofExtents]
  refine EndsIn.bind (.foldlM (fun tuple htuple flags hflags =>
    ofValues_testTuple htuple hflags) hcleared) fun flags hflags => ?_
  have hlefts : 0 + lefts.flatten.length ≤ flags.left.length :=
    Nat.le_of_eq ((Nat.zero_add _).trans hflags.1.symm)
  have hrights : 0 + rights.flatten.length ≤ flags.right.length :=
    Nat.le_of_eq ((Nat.zero_add _).trans hflags.2.symm)
  rw [Emission.ite_bind]
  refine EndsIn.bind (.ite (fun _ => ofValues_emitUnmatched hlefts out.ofValues_leftUnmatched)
    trivial) fun _ _ => ?_
  exact .ite (fun _ => ofValues_emitUnmatched hrights out.ofValues_rightUnmatched) trivial

end HashTable

/-- A sort-merge join fails because of values only: its parts are nested loops. -/
theorem SortMerge.ofValues_run (out : JoinOutput) (spec : JoinSpec) (lefts rights : List Record) :
    (run out spec lefts rights).OfValues fun _ => True := by
  rw [run_eq_parts]
  exact .forEach fun part _ => NestedLoop.ofValues_run out spec.residual _ [part.rights]

/-- Whether a fault is a reason why two datasets cannot be joined. -/
def Fault.isOfJoining (fault : Fault) : Bool := fault.isOfSorting || fault.isOfValues

namespace Fault

variable {fault : Fault}

theorem isOfJoining_of_isOfSorting (h : fault.isOfSorting = true) : fault.isOfJoining = true := by
  rw [isOfJoining, h]
  rfl

theorem isOfJoining_of_isOfReading (h : fault.isOfReading = true) : fault.isOfJoining = true :=
  isOfJoining_of_isOfSorting (isOfSorting_of_isOfReading h)

theorem isOfJoining_of_isOfValues (h : fault.isOfValues = true) : fault.isOfJoining = true := by
  rw [isOfJoining, h, Bool.or_true]

end Fault

namespace JoinSpec

theorem endsIn_prepare (spec : JoinSpec) (options : JoinOptions) :
    (spec.prepare options).EndsIn fun fault => fault.isOfSorting = true := by
  have hsortLeft : (JoinInputs.sortLeft spec.leftKey).EndsIn
      fun fault => fault.isOfSorting = true :=
    fun inputs => Dataset.endsIn_sort spec.leftKey (inputs.left, inputs.disk)
  have hsortRight : (JoinInputs.sortRight spec.rightKey).EndsIn
      fun fault => fault.isOfSorting = true :=
    fun inputs => Dataset.endsIn_sort spec.rightKey (inputs.right, inputs.disk)
  refine .get_bind fun inputs => ?_
  have hvalidate : (spec.validate inputs.schemas).EndsIn fun fault => fault.isOfKeys = true :=
    (spec.leftKey.endsIn_validate _).bind fun _ => spec.rightKey.endsIn_validate _
  refine (Step.EndsIn.of_attempt (hvalidate.mono fun _ =>
    Fault.isOfSorting_of_isOfKeys)).bind fun _ => ?_
  simp only
  split
  · exact hsortLeft.bind fun _ => hsortRight.bind fun _ => .pure _
  · exact .pure _

/-- Whatever the algorithm is. -/
theorem ofValues_emitWith (spec : JoinSpec) (schemas : SchemaPair) (lefts rights : List Extent)
    (algorithm : JoinAlgorithm) :
    (spec.emitWith schemas (.ofExtents lefts) (.ofExtents rights) algorithm).OfValues
      fun _ => True := by
  cases algorithm with
  | nestedLoop =>
      obtain ⟨condition, hcondition⟩ := spec.exists_condition
      rw [emitWith, hcondition, Emission.bind_ofAttempt_ok]
      exact NestedLoop.ofValues_run _ condition _ rights
  | sortMerge => exact SortMerge.ofValues_run _ spec _ _
  | hashTable => exact HashTable.ofValues_run _ spec lefts rights

/-- The lengths that are noted are those of the extents, if these can be loaded. -/
theorem endsIn_emitJoin (spec : JoinSpec) (algorithm : JoinAlgorithm) (inputs : JoinInputs) :
    (spec.emitJoin algorithm inputs).result.EndsIn
      fun fault => fault.isOfReading = true ∨ fault.isOfValues = true := by
  have hlefts := inputs.left.ofReading_extents inputs.disk
  have hrights := inputs.right.ofReading_extents inputs.disk
  cases hleft : inputs.left.extents inputs.disk with
  | error fault =>
      rw [emitJoin, hleft]
      exact .error (Or.inl (hlefts fault hleft))
  | ok lefts =>
      cases hright : inputs.right.extents inputs.disk with
      | error fault =>
          rw [emitJoin, hleft, hright]
          exact .error (Or.inl (hrights fault hright))
      | ok rights =>
          rw [emitJoin_eq_emitWith algorithm hleft hright]
          have hemit := spec.ofValues_emitWith inputs.schemas lefts rights algorithm
          exact (hemit.fault_bind_pure _).mono fun _ => Or.inr

/-- A join fails only if its inputs cannot be sorted or read, or because of values. -/
theorem endsIn_execute (spec : JoinSpec) (options : JoinOptions) (inputs : JoinInputs) :
    (spec.execute options inputs).1.result.EndsIn fun fault => fault.isOfJoining = true := by
  have hprepare := spec.endsIn_prepare options inputs
  rw [execute]
  rcases hrun : (spec.prepare options).run inputs with ⟨result, prepared⟩
  rw [hrun] at hprepare
  cases result with
  | error fault => exact .error (Fault.isOfJoining_of_isOfSorting (hprepare fault rfl))
  | ok algorithm =>
      refine (spec.endsIn_emitJoin algorithm prepared).mono fun fault hfault => ?_
      rcases hfault with hreading | hvalues
      · exact Fault.isOfJoining_of_isOfReading hreading
      · exact Fault.isOfJoining_of_isOfValues hvalues

/-- No join gives up, whatever the specification, the algorithm, the options and the inputs are:
not by an algorithm that would not be taken either, or on inputs that are not sorted. -/
theorem execute_persists (spec : JoinSpec) (inputs : JoinInputs) :
    (∀ algorithm, (spec.emitJoin algorithm inputs).result ≠ .error .abandoned) ∧
      ∀ options, (spec.execute options inputs).1.result ≠ .error .abandoned := by
  constructor
  · intro algorithm
    refine (spec.endsIn_emitJoin algorithm inputs).ne_error ?_
    rintro (hreading | hvalues)
    · cases hreading
    · cases hvalues
  · exact fun options => (spec.endsIn_execute options inputs).ne_error Bool.false_ne_true

end JoinSpec
end ExtentEngine
