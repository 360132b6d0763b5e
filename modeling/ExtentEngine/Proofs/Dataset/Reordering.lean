import ExtentEngine.Dataset.Action
import ExtentEngine.Proofs.Dataset.Outcomes

/-!
# Reordering that fails

A dataset is put in another order by removing all extents and writing the records again, and the
writer takes only records with the arity of the schema.  Extents that are pushed may have other
records.  If there is one, reordering fails when the extents are gone already, and of the records
before it only those stay that fill extents.  In the same way records are lost if a file cannot be
removed or an extent cannot be written.  Any other failure comes before that and leaves the dataset
as it was.

**Results.**
* `Reordering.run_cases`: reordering is refused, there is nothing to do, or the records are
  replaced.
* `Reordering.run_of_records`: what is left of a dataset whose records can be read.
* `failed_reordering`: what is left of a dataset if reordering fails.
* `misfit_loses_records`: so a reordering that fails may lose records that would have fitted.
-/

namespace ExtentEngine
namespace Dataset

/-- The ways of putting the records of a dataset in another order. -/
inductive Reordering
  | sort (key : Key)
  | reverse
deriving DecidableEq, Repr

namespace Reordering

/-- What is done to the dataset. -/
def step : Reordering → Step (Dataset × Disk) Unit
  | sort key => Dataset.sort key
  | reverse => Dataset.reverse

/-- The order in which the records are put. -/
def order : Reordering → List Record → List Record
  | sort key => Record.sortOn key
  | reverse => List.reverse

/-- Whether records of some arity can be put in the order. -/
def validate : Reordering → Nat → Attempt Unit
  | sort key => key.validate
  | reverse => fun _ => .ok ()

/-- What is noted when the records are in place. -/
def mark : Reordering → Step (Dataset × Disk) Unit
  | sort key => Step.modify fun (dataset, disk) => ({ dataset with sortedBy := some key }, disk)
  | reverse => pure ()

theorem order_perm (reordering : Reordering) (records : List Record) :
    (reordering.order records).Perm records := by
  cases reordering with
  | sort key => exact Record.sortOn_perm key records
  | reverse => exact records.reverse_perm

/-- A mark concerns only the order of the records. -/
theorem run_mark (reordering : Reordering) (s : Dataset × Disk) :
    ∃ sortedBy, reordering.mark.run s = (.ok (), ({ s.1 with sortedBy := sortedBy }, s.2)) := by
  cases reordering with
  | sort key => exact ⟨some key, rfl⟩
  | reverse => exact ⟨s.1.sortedBy, rfl⟩

/-- Reordering is refused, there is nothing to do, or the records are replaced. -/
theorem run_cases (reordering : Reordering) (s : Dataset × Disk) :
    (∃ fault, reordering.step.run s = (.error fault, s) ∧
      (reordering.validate s.1.schema.length = .error fault ∨ s.1.records s.2 = .error fault)) ∨
    reordering.step.run s = (.ok (), s) ∨
    ∃ records, reordering.validate s.1.schema.length = .ok () ∧ s.1.records s.2 = .ok records ∧
      reordering.step.run s =
        (do replace (reordering.order records); reordering.mark :
          Step (Dataset × Disk) Unit).run s := by
  cases reordering with
  | sort key =>
      cases hvalid : key.validate s.1.schema.length with
      | error fault =>
          refine Or.inl ⟨fault, ?_, Or.inl hvalid⟩
          simp only [step, Dataset.sort, Step.run_bind, Step.run_get, Step.run_ofAttempt, hvalid]
      | ok _ =>
          cases hsorted : s.1.isSortedBy key with
          | true =>
              refine Or.inr (Or.inl ?_)
              simp only [step, Dataset.sort, Step.run_bind, Step.run_get, Step.run_ofAttempt,
                hvalid, hsorted, if_true, Step.run_pure]
          | false =>
              cases hrecords : s.1.records s.2 with
              | error fault =>
                  refine Or.inl ⟨fault, ?_, Or.inr rfl⟩
                  simp only [step, Dataset.sort, readAll, Step.run_bind, Step.run_get,
                    Step.run_ofAttempt, hvalid, hsorted, Bool.false_eq_true, if_false, hrecords]
              | ok records =>
                  exact Or.inr (Or.inr ⟨records, hvalid, rfl, run_sort hvalid hsorted hrecords⟩)
  | reverse =>
      cases hrecords : s.1.records s.2 with
      | error fault =>
          refine Or.inl ⟨fault, ?_, Or.inr rfl⟩
          simp only [step, Dataset.reverse, rearrange, readAll, Step.run_bind, Step.run_get,
            Step.run_ofAttempt, hrecords]
      | ok records =>
          refine Or.inr (Or.inr ⟨records, rfl, rfl, ?_⟩)
          have hrun : (Dataset.reverse).run s = (replace records.reverse).run s := by
            simp only [Dataset.reverse, rearrange, readAll, Step.run_bind, Step.run_get,
              Step.run_ofAttempt, hrecords]
          rw [step, hrun, Step.run_bind, order]
          rcases (replace records.reverse).run s with ⟨_ | _, t⟩ <;> rfl

end Reordering

/-- What becomes of a dataset whose records can be read, if it fails to be reordered by a key that
is in range: a file of it cannot be removed, and no records are left, or the records are cut
short. -/
theorem Reordering.run_of_records {reordering : Reordering} {s after : Dataset × Disk}
    {fault : Fault} {records : List Record}
    (hvalid : reordering.validate s.1.schema.length = .ok ())
    (hrecords : s.1.records s.2 = .ok records)
    (hrun : reordering.step.run s = (.error fault, after)) :
    (∃ done file rest, s.1.files = done ++ file :: rest ∧ fault = .fileNotRemoved file.path ∧
      after = ({ s.1 with slots := [] }, s.2.removeAll (done ++ [file]))) ∨
    ∃ left, CutShort s.1.limit s.1.schema.length (reordering.order records) fault left ∧
      after.1.records after.2 = .ok left := by
  rcases reordering.run_cases s with ⟨other, -, hrefused⟩ | hnothing | ⟨found, -, hfound, hreplace⟩
  · rw [hvalid, hrecords] at hrefused
    rcases hrefused with hrefused | hrefused <;> cases hrefused
  · cases hnothing.symm.trans hrun
  · cases hfound.symm.trans hrecords
    rw [hrun, Step.run_bind] at hreplace
    rcases replace_cases (reordering.order records) s with
      ⟨t, -, hok, -⟩ | ⟨-, done, file, rest, hfiles, hfailed⟩ |
      ⟨_, t, left, hfailed, hleft, hcut, -⟩
    · obtain ⟨sortedBy, hmark⟩ := reordering.run_mark t
      rw [hok] at hreplace
      simp only [hmark] at hreplace
      cases hreplace
    · rw [hfailed] at hreplace
      cases hreplace
      exact Or.inl ⟨done, file, rest, hfiles, rfl, rfl⟩
    · rw [hfailed] at hreplace
      cases hreplace
      exact Or.inr ⟨left, hcut, hleft⟩

variable {s after : Dataset × Disk} {reordering : Reordering} {fault : Fault}

/-- If reordering fails, the dataset is as it was if the key is out of range, if the records cannot
be read, or if all of them have the arity of the schema and no file operation failed.  Else either
a file of the dataset could not be removed, and it has no extents any more, or the records were cut
short in the new order, at the first one that does not fit or at an extent that could not be
written, and those behind that are lost. -/
theorem failed_reordering (hrun : reordering.step.run s = (.error fault, after)) :
    (reordering.validate s.1.schema.length ≠ .ok () ∨
      (∀ records, s.1.records s.2 = .ok records → fault.isFileFailure = false ∧
        ∀ record ∈ records, record.length = s.1.schema.length) → after = s) ∧
    ∀ records, reordering.validate s.1.schema.length = .ok () →
      s.1.records s.2 = .ok records →
      (∃ done file rest, s.1.files = done ++ file :: rest ∧ fault = .fileNotRemoved file.path ∧
        after = ({ s.1 with slots := [] }, s.2.removeAll (done ++ [file]))) ∨
      ∃ left, CutShort s.1.limit s.1.schema.length (reordering.order records) fault left ∧
        after.1.records after.2 = .ok left ∧ left.length < records.length := by
  constructor
  · intro hfits
    rcases reordering.run_cases s with
      ⟨other, hrefused, -⟩ | hnothing | ⟨records, hvalid, hrecords, -⟩
    · cases hrefused.symm.trans hrun
      rfl
    · cases hnothing.symm.trans hrun
    · obtain ⟨hfault, hfits⟩ := hfits.resolve_left (absurd hvalid) records hrecords
      rcases Reordering.run_of_records hvalid hrecords hrun with
        ⟨_, file, _, -, rfl, -⟩ | ⟨left, hcut, -⟩
      · cases hfault
      · have hwrite := hcut.isWriteFailure fun record hrecord =>
          hfits record ((reordering.order_perm records).mem_iff.1 hrecord)
        cases hfault.symm.trans (Fault.isFileFailure_of_isWriteFailure hwrite)
  · intro records hvalid hrecords
    rcases Reordering.run_of_records hvalid hrecords hrun with hremoval | ⟨left, hcut, hleft⟩
    · exact Or.inl hremoval
    · exact Or.inr ⟨left, hcut, hleft,
        (reordering.order_perm records).length_eq ▸ hcut.length_lt⟩

/-- The datasets that callers get by making one and by what they then do with it, and the disks
under them, while nothing goes wrong with any operation on a file. -/
inductive Reached : Dataset × Disk → Prop
  | new {schema : Schema} {limit : Nat} {dataset : Dataset} {disk : Disk} (hcalm : disk.Calm)
      (hnew : Dataset.new schema limit = .ok dataset) : Reached (dataset, disk)
  | onDisk {schema : Schema} {limit : Nat} {directory : String} {dataset : Dataset}
      {disk after : Disk} (hcalm : disk.Calm)
      (hrun : (Dataset.onDisk schema limit directory).run disk = (.ok dataset, after)) :
      Reached (dataset, after)
  | perform {s : Dataset × Disk} (action : Action) (h : Reached s) :
      Reached ((Dataset.perform action).run s).2

/-- A dataset for records of one column, into which a record of two columns was pushed. -/
def smallMixed : Dataset × Disk :=
  let empty := (⟨[⟨"x", .int64, true⟩], 2, Nat.two_pos, [], none, none⟩, Disk.empty)
  let first := ((perform (.push [[.int 1], [.int 2, .int 3]])).run empty).2
  ((perform (.write [[.int 4], [.int 5], [.int 6]] true)).run first).2

theorem reached_smallMixed : Reached smallMixed :=
  have hnew : Dataset.new [⟨"x", .int64, true⟩] 2 =
      .ok ⟨[⟨"x", .int64, true⟩], 2, Nat.two_pos, [], none, none⟩ := rfl
  .perform _ (.perform _ (.new rfl hnew))

theorem records_smallMixed : smallMixed.1.records smallMixed.2 =
    .ok [[.int 1], [.int 2, .int 3], [.int 4], [.int 5], [.int 6]] := by
  decide +kernel

/-- What is left of it after it could not be reversed. -/
def smallLeft : Dataset × Disk := (Reordering.reverse.step.run smallMixed).2

theorem run_reverse_small : Reordering.reverse.step.run smallMixed =
    (.error (.datasetArity 2 1), smallLeft) := by
  have hfails : (Reordering.reverse.step.run smallMixed).1 = .error (.datasetArity 2 1) := by
    decide +kernel
  rw [smallLeft, ← hfails]

/-- A dataset on disk.  When it is reversed, its two files can be removed and the first extent can
be written again, but the second one cannot. -/
def smallBroken : Dataset × Disk :=
  let namer := (Namer.inDirectory "/tmp").withLabel "dataset"
  let empty : Dataset := ⟨[⟨"x", .int64, true⟩], 2, Nat.two_pos, [], some namer, none⟩
  let made := ((Disk.ensureDirectory "/tmp").run .empty).2
  let (dataset, disk) :=
    ((perform (.write [[.int 3], [.int 2], [.int 1]] true)).run (empty, made)).2
  (dataset, { disk with mishaps := [none, none, none, some (.broken 0 true)] })

/-- A key out of range is refused.  If the dataset with the record that does not fit is turned
around, the records behind that one come to the front, and two of them fill an extent.  On the disk
that gives out, the records stay for which there was room. -/
theorem failed_reordering_small :
    ((Reordering.sort [1]).step.run smallMixed).2 = smallMixed ∧
    (∃ left, CutShort 2 1 [[.int 6], [.int 5], [.int 4], [.int 2, .int 3], [.int 1]]
      (.datasetArity 2 1) left ∧ smallLeft.1.records smallLeft.2 = .ok left) ∧
    ∃ after left, Reordering.reverse.step.run smallBroken = (.error (.transferBroken true), after) ∧
      CutShort 2 1 [[.int 1], [.int 2], [.int 3]] (.transferBroken true) left ∧
      after.1.records after.2 = .ok left ∧ left.length < 3 := by
  have hschema : smallMixed.1.schema.length = 1 := by decide +kernel
  have hlimit : smallMixed.1.limit = 2 := by decide +kernel
  refine ⟨?_, ?_, ?_⟩
  · have hinvalid : (Reordering.sort [1]).validate smallMixed.1.schema.length ≠ .ok () := by
      decide +kernel
    have hrefused : ((Reordering.sort [1]).step.run smallMixed).1 =
        .error (.keyColumnMissing 1 1) := by
      decide +kernel
    obtain ⟨hkept, -⟩ := failed_reordering (Prod.ext hrefused rfl)
    exact hkept (Or.inl hinvalid)
  · obtain ⟨-, hlost⟩ := failed_reordering run_reverse_small
    rcases hlost _ rfl records_smallMixed with ⟨_, _, _, -, hremoval, -⟩ | ⟨left, hcut, hleft, -⟩
    · cases hremoval
    · rw [hschema, hlimit] at hcut
      exact ⟨left, hcut, hleft⟩
  · have hfails : (Reordering.reverse.step.run smallBroken).1 = .error (.transferBroken true) := by
      decide +kernel
    have hrecords : smallBroken.1.records smallBroken.2 = .ok [[.int 3], [.int 2], [.int 1]] := by
      decide +kernel
    have hschema' : smallBroken.1.schema.length = 1 := by decide +kernel
    have hlimit' : smallBroken.1.limit = 2 := by decide +kernel
    have hrun : Reordering.reverse.step.run smallBroken =
        (.error (.transferBroken true), (Reordering.reverse.step.run smallBroken).2) :=
      Prod.ext hfails rfl
    obtain ⟨-, hlost⟩ := failed_reordering hrun
    rcases hlost _ rfl hrecords with ⟨_, _, _, -, hremoval, -⟩ | ⟨left, hcut, hleft, hfewer⟩
    · cases hremoval
    · rw [hschema', hlimit'] at hcut
      exact ⟨_, left, hrun, hcut, hleft, hfewer⟩

/-- So a reordering that fails may lose records, also such as would have fitted. -/
theorem misfit_loses_records :
    ¬∀ s, Reached s → ∀ (reordering : Reordering) fault after,
      reordering.step.run s = (.error fault, after) →
        after.1.records after.2 = s.1.records s.2 := by
  intro hsame
  have hlost : smallLeft.1.records smallLeft.2 ≠ smallMixed.1.records smallMixed.2 := by
    decide +kernel
  exact hlost (hsame _ reached_smallMixed _ _ _ run_reverse_small)

end Dataset
end ExtentEngine
