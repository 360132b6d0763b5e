import ExtentEngine.Proofs.Dataset.Outcomes
import ExtentEngine.Proofs.Faults

/-!
# Why operations on datasets fail

Reading fails because of what is stored, and writing because of the records that are written or of
the directory that they are to be in.  Sorting reads and writes, and it needs the columns of its
key.

**Results.**
* `Slot.ofReading_load`, `Dataset.ofReading_extents`: the faults of reading.
* `Dataset.ofWriting_append`: the faults of writing.
* `Dataset.endsIn_sort`: the faults of sorting.
-/

namespace ExtentEngine

section Reading

/-- Whether a fault says that stored records are not there, or not as it was noted. -/
def Fault.isOfReading : Fault → Bool
  | .fileNotOpened _ => true
  | .lineUnreadable _ => true
  | .extentMissing _ _ => true
  | .extentLength _ _ _ => true
  | _ => false

/-- Whether an attempt fails because of what is stored only. -/
abbrev Attempt.OfReading {α : Type} (attempt : Attempt α) : Prop :=
  attempt.EndsIn fun fault => fault.isOfReading = true

theorem Disk.ofReading_readItems {α : Type} (ofJson? : Json → Option α) (file : FileName)
    (disk : Disk) : (disk.readItems ofJson? file).OfReading := by
  rw [readItems]
  split
  · exact .error rfl
  · split
    · exact .error rfl
    · exact .ok _

theorem Slot.ofReading_load (slot : Slot) (disk : Disk) : (slot.load disk).OfReading := by
  cases slot with
  | memory extent => exact .ok extent
  | file name length =>
      rw [load]
      refine (Disk.ofReading_readItems _ _ _).bind fun records => ?_
      split
      · exact .ok _
      · exact .error rfl

namespace Dataset

theorem ofReading_extents (dataset : Dataset) (disk : Disk) :
    (dataset.extents disk).OfReading :=
  .mapM (fun slot => slot.ofReading_load disk) _

theorem ofReading_extent (dataset : Dataset) (disk : Disk) (number : Nat) :
    (dataset.extent disk number).OfReading := by
  refine Attempt.EndsIn.bind ?_ fun slot => slot.ofReading_load disk
  rw [slot]
  split
  · exact .ok _
  · exact .error rfl

end Dataset
end Reading

section Writing

/-- Whether a fault says that records cannot be put into a dataset, or not be removed from it. -/
def Fault.isOfWriting : Fault → Bool
  | .datasetArity _ _ => true
  | .extentTooLong _ _ => true
  | .fileNotCreated _ => true
  | .fileNotRemoved _ => true
  | .transferBroken _ => true
  | _ => false

/-- Whether a step fails because records cannot be put into a dataset, or not be removed, only. -/
abbrev Step.OfWriting {σ α : Type} (step : Step σ α) : Prop :=
  step.EndsIn fun fault => fault.isOfWriting = true

theorem Dataset.ofWriting_push (extent : Extent) : (push extent).OfWriting := by
  intro s
  rcases push_cases extent s with
    ⟨-, t, hrun, -⟩ | ⟨-, hrun⟩ | ⟨-, -, fault, t, hrun, hfault, -⟩ <;> rw [hrun]
  · exact .ok ()
  · exact .error rfl
  · refine .error ?_
    cases fault <;> first | rfl | cases hfault

theorem Dataset.ofWriting_clear : clear.OfWriting := by
  intro s
  rcases clear_cases s with hrun | ⟨-, _, _, _, -, hrun⟩ <;> rw [hrun]
  · exact .ok ()
  · exact .error rfl

namespace Writer

theorem ofWriting_flush : flush.OfWriting := by
  intro s
  by_cases hempty : s.1.buffer.isEmpty = true
  · rw [run_flush_of_isEmpty hempty]
    exact .ok ()
  · rw [run_flush_of_not_isEmpty hempty]
    exact Dataset.ofWriting_push s.1.buffer (s.1.dataset, s.2)

theorem ofWriting_insert (record : Record) : (insert record).OfWriting := by
  refine .get_bind fun s => ?_
  simp only
  split
  · refine (Step.EndsIn.modify _).bind fun _ => ?_
    split
    · exact ofWriting_flush
    · exact .pure ()
  · exact .fail rfl

theorem ofWriting_close : close.OfWriting :=
  ofWriting_flush.bind fun _ => .get_bind fun _ => .pure _

end Writer

namespace Dataset

theorem ofWriting_append (records : List Record) : (append records).OfWriting := by
  intro s
  exact ((Step.EndsIn.forEach Writer.ofWriting_insert records).bind fun _ =>
    Writer.ofWriting_close) (Writer.start s.1, s.2)

theorem ofWriting_replace (records : List Record) : (replace records).OfWriting :=
  ofWriting_clear.bind fun _ => (ofWriting_append records).bind fun _ => .pure ()

end Dataset
end Writing

section Sorting

/-- Whether a fault says that a column of a key is missing. -/
def Fault.isOfKeys : Fault → Bool
  | .keyColumnMissing _ _ => true
  | _ => false

theorem Key.endsIn_validate (key : Key) (arity : Nat) :
    (key.validate arity).EndsIn fun fault => fault.isOfKeys = true := by
  rw [validate]
  split
  · exact .error rfl
  · exact .ok ()

/-- Whether a fault is a reason why a dataset cannot be sorted. -/
def Fault.isOfSorting (fault : Fault) : Bool :=
  fault.isOfKeys || fault.isOfReading || fault.isOfWriting

namespace Fault

variable {fault : Fault}

theorem isOfSorting_of_isOfKeys (h : fault.isOfKeys = true) : fault.isOfSorting = true := by
  rw [isOfSorting, h]
  rfl

theorem isOfSorting_of_isOfReading (h : fault.isOfReading = true) : fault.isOfSorting = true := by
  rw [isOfSorting, h, Bool.or_true]
  rfl

theorem isOfSorting_of_isOfWriting (h : fault.isOfWriting = true) : fault.isOfSorting = true := by
  rw [isOfSorting, h, Bool.or_true]

end Fault

/-- Sorting a dataset fails because of its key, of what is stored or of what is written only. -/
theorem Dataset.endsIn_sort (key : Key) :
    (sort key).EndsIn fun fault => fault.isOfSorting = true := by
  refine .get_bind fun s => ?_
  have hvalidate := (key.endsIn_validate s.1.schema.length).mono fun _ =>
    Fault.isOfSorting_of_isOfKeys
  refine (Step.EndsIn.of_attempt hvalidate).bind fun _ => ?_
  split
  · exact .pure ()
  · have hread : readAll.EndsIn fun fault => fault.isOfReading = true :=
      .get_bind fun s => .of_attempt ((s.1.ofReading_extents s.2).bind fun _ => .ok _)
    refine (hread.mono fun _ => Fault.isOfSorting_of_isOfReading).bind fun records => ?_
    have hreplace := ofWriting_replace (Record.sortOn key records)
    exact (hreplace.mono fun _ => Fault.isOfSorting_of_isOfWriting).bind fun _ => .modify _

end Sorting
end ExtentEngine
