import ExtentEngine.Proofs.Disk.Frame
import Mathlib.Data.List.Basic

/-!
# What directories list

**Results.**
* `filesIn_put`: a file that was not there before is listed once more.
* `filesIn_removeAll`: on a calm disk files that were removed are not listed any more.
* `filesIn_ensureDirectory`: making directories changes no listing.
-/

namespace ExtentEngine
namespace Disk

/-- A file that was not there before is listed once more. -/
theorem filesIn_put {disk : Disk} {file : FileName} (contents : List Char)
    (hfile : file ∉ disk.filesIn file.directory) :
    (disk.put file contents).filesIn file.directory = file :: disk.filesIn file.directory := by
  have hother : ∀ entry ∈ disk.files, decide (entry.1 ≠ file) = true := by
    intro entry hentry
    refine decide_eq_true fun heq => hfile (List.mem_filter.2 ⟨?_, decide_eq_true rfl⟩)
    exact heq ▸ List.mem_map_of_mem hentry
  simp only [filesIn, put, List.filter_eq_self.2 hother, List.map_cons, List.filter_cons,
    decide_true, if_true]

theorem filesIn_remove (disk : Disk) (file : FileName) (directory : String) :
    (disk.remove file).filesIn directory = (disk.filesIn directory).filter (· ≠ file) := by
  simp only [filesIn, remove, List.filter_map, List.filter_filter, Function.comp_def,
    Bool.and_comm]

/-- Files that were removed are not listed any more. -/
theorem filesIn_removeAll (files : List FileName) {disk : Disk} (h : disk.Calm)
    (directory : String) :
    (disk.removeAll files).filesIn directory =
      (disk.filesIn directory).filter (· ∉ files) := by
  induction files generalizing disk with
  | nil => simp [removeAll]
  | cons file files ih =>
      have hremove : ((disk.remove file).removeAll files).filesIn directory =
          ((disk.remove file).filesIn directory).filter (· ∉ files) := ih h
      rw [filesIn_remove, List.filter_filter] at hremove
      rw [removeAll_cons, delete_of_calm file h]
      refine hremove.trans (List.filter_congr fun other _ => ?_)
      simp only [List.mem_cons, not_or, Bool.decide_and, Bool.and_comm]

theorem files_makeAlong (fault : Fault) (here : Location) (steps : List PathStep) (disk : Disk) :
    ((makeAlong fault here steps).run disk).2.files = disk.files := by
  induction steps generalizing here disk with
  | nil => rfl
  | cons step steps ih =>
      cases step with
      | stay => exact ih here disk
      | up => exact ih here.tail disk
      | into name =>
          simp only [Step.run, makeAlong]
          split
          · exact ih (name :: here) disk
          · split
            · rfl
            · exact ih (name :: here) _

/-- Making directories changes no listing. -/
theorem filesIn_ensureDirectory (path : String) (disk : Disk) (directory : String) :
    ((ensureDirectory path).run disk).2.filesIn directory = disk.filesIn directory := by
  have hfiles : ((ensureDirectory path).run disk).2.files = disk.files := by
    unfold ensureDirectory
    split
    · exact files_makeAlong _ _ _ disk
    · rfl
  rw [filesIn, hfiles, filesIn]

end Disk
end ExtentEngine
