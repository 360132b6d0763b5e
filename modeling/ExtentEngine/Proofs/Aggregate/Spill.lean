import ExtentEngine.Aggregate.Spill
import ExtentEngine.Proofs.Aggregate.Codec
import ExtentEngine.Proofs.Aggregate.Groups
import ExtentEngine.Proofs.Disk.Frame

/-!
# What spill files hold

**Results.**
* `Holds.frame`: operations that do not own a file leave its groups in it.
* `create_cases`: groups are put into a new file, or a file operation fails.
* `load_cases`: the groups of a file are read, or a file operation fails.
* `replace_cases`: other groups are put into a file that holds some, or a file operation fails.
-/

namespace ExtentEngine

/-- An attempt that no file operation made fail. -/
def FilesWork {α : Type} (result : Attempt α) : Prop :=
  ∀ fault, result = .error fault → fault.isFileFailure = false

theorem filesWork_ok {α : Type} (a : α) : FilesWork (.ok a : Attempt α) := nofun

theorem filesWork_or {α : Type} (result : Attempt α) :
    FilesWork result ∨ ∃ fault, result = .error fault ∧ fault.isFileFailure = true := by
  cases result with
  | ok a => exact Or.inl (filesWork_ok a)
  | error fault =>
      cases hfault : fault.isFileFailure with
      | true => exact Or.inr ⟨fault, rfl, hfault⟩
      | false =>
          refine Or.inl fun other hother => ?_
          cases hother
          exact hfault

/-- What comes to pass unless a file operation fails. -/
theorem FilesWork.resolve {α : Type} {result : Attempt α} {p : Prop} (h : FilesWork result)
    (hcases : p ∨ ∃ fault, result = .error fault ∧ fault.isFileFailure = true) : p :=
  hcases.resolve_right fun ⟨fault, hfault, hfile⟩ => by
    cases (h fault hfault).symm.trans hfile

/-- If no file operation fails, none fails that would make the whole fail. -/
theorem FilesWork.of_error {α β : Type} {result : Attempt α} {part : Attempt β}
    (h : FilesWork result) (hpart : ∀ fault, part = .error fault → result = .error fault) :
    FilesWork part :=
  fun fault hfault => h fault (hpart fault hfault)

namespace SpillFile

/-- A file that holds groups in order. -/
structure Holds (disk : Disk) (spill : SpillFile) (groups : List Group) : Prop where
  read : spill.read disk = .ok groups
  size : spill.size = groups.length
  sorted : Groups.Sorted groups
  directory : disk.hasDirectory spill.file.directory = true
  allocated : disk.Allocated spill.file

variable {disk after : Disk} {spill : SpillFile} {groups others : List Group}

/-- Operations that do not own a file leave its groups in it. -/
theorem Holds.frame {own : FileName → Prop} (h : spill.Holds disk groups)
    (hframe : Disk.Frame own disk after) (hown : ¬own spill.file) : spill.Holds after groups where
  read := (hframe.readItems h.allocated hown).trans h.read
  size := h.size
  sorted := h.sorted
  directory := hframe.hasDirectory h.directory
  allocated := hframe.allocated h.allocated

theorem Holds.turn (h : spill.Holds disk groups) : spill.Holds disk.turn groups :=
  h.frame (Disk.frame_turn (fun _ => False) disk) id

/-- Reading the groups of a file, or failing to do so, changes nothing. -/
theorem exists_load (spill : SpillFile) (disk : Disk) :
    ∃ result, spill.load.run disk = (result, disk.turn) := by
  rcases Disk.loadItems_cases Group.ofJson? spill.file disk with hrun | ⟨fault, hrun, -⟩
  · exact ⟨_, hrun⟩
  · exact ⟨_, hrun⟩

/-- The groups of a file are read, or a file operation fails. -/
theorem load_cases (h : spill.Holds disk groups) :
    spill.load.run disk = (.ok groups, disk.turn) ∨
      ∃ fault, spill.load.run disk = (.error fault, disk.turn) ∧ fault.isFileFailure = true := by
  rcases Disk.loadItems_cases Group.ofJson? spill.file disk with hrun | hfailed
  · exact Or.inl (hrun.trans (congrArg (·, disk.turn) h.read))
  · exact Or.inr hfailed

theorem replace_of_written {result : Attempt Nat} (spill : SpillFile)
    (h : (Disk.writeItems Group.toJson spill.file groups).run disk = (result, after)) :
    (replace groups).run (spill, disk) = match result with
      | .error fault => (.error fault, (spill, after))
      | .ok size => (.ok (), ({ spill with size }, after)) := by
  simp only [Step.run] at h
  simp only [Step.run, replace, h]
  cases result <;> rfl

/-- Other groups are put into a file, or a file operation fails. -/
theorem replace_cases (h : spill.Holds disk groups) (hsorted : Groups.Sorted others) :
    (∃ after, (replace others).run (spill, disk) =
        (.ok (), ({ spill with size := others.length }, after)) ∧
      Holds after { spill with size := others.length } others ∧
      Disk.Frame (· = spill.file) disk after) ∨
    ∃ fault, ((replace others).run (spill, disk)).1 = .error fault ∧
      fault.isFileFailure = true := by
  have hframe := Disk.frame_writeItems Group.toJson spill.file others disk
  rcases Disk.writeItems_cases Group.toJson spill.file others disk with
    ⟨-, hrun⟩ | ⟨-, _, amidItem, hrun⟩ | hrun
  · refine Or.inl ⟨_, replace_of_written spill hrun, ?_, ?_⟩
    · rw [hrun] at hframe
      exact ⟨Group.readItems_of_read? (Disk.read?_put _ _ _), rfl, hsorted,
        hframe.hasDirectory h.directory, hframe.allocated h.allocated⟩
    · rw [hrun] at hframe
      exact hframe
  · exact Or.inr ⟨.transferBroken amidItem, by rw [replace_of_written spill hrun], rfl⟩
  · exact Or.inr ⟨.fileNotCreated spill.file.path, by rw [replace_of_written spill hrun], rfl⟩

/-- Whatever becomes of it, a file is written under the name that it has. -/
theorem frame_replace (spill : SpillFile) (groups : List Group) (disk : Disk) :
    Disk.Frame (· = spill.file) disk ((replace groups).run (spill, disk)).2.2 ∧
      ((replace groups).run (spill, disk)).2.1.file = spill.file := by
  have hframe := Disk.frame_writeItems Group.toJson spill.file groups disk
  rcases hrun : (Disk.writeItems Group.toJson spill.file groups).run disk with ⟨_ | _, after⟩ <;>
    rw [hrun] at hframe <;> rw [replace_of_written spill hrun]
  · exact ⟨hframe, rfl⟩
  · exact ⟨hframe, rfl⟩

/-- Groups are put into a new file, or a file operation fails.  The files that there were are left
alone. -/
theorem create_cases (namer : Namer) (groups : List Group) (disk : Disk) :
    Disk.Frame (fun _ => False) disk ((create namer groups).run disk).2 ∧
      ((∃ spill after, (create namer groups).run disk = (.ok spill, after) ∧
        (Groups.Sorted groups → spill.Holds after groups) ∧ ¬disk.Allocated spill.file ∧
        spill.file.directory = namer.directory) ∨
      ∃ fault, ((create namer groups).run disk).1 = .error fault ∧
        fault.isFileFailure = true) := by
  have hframe := Disk.frame_ensureDirectory (fun _ => False) namer.directory disk
  rcases hmade : (Disk.ensureDirectory namer.directory).run disk with ⟨result, middle⟩
  rw [hmade] at hframe
  cases result with
  | error fault =>
      have hrun : (create namer groups).run disk = (.error fault, middle) := by
        rw [create, Step.run_bind, hmade]
      rw [hrun]
      refine ⟨hframe, Or.inr ⟨fault, rfl, ?_⟩⟩
      rw [Disk.ensureDirectory_error (congrArg Prod.fst hmade)]
      rfl
  | ok _ =>
      have hdirectory := Disk.hasDirectory_of_ensureDirectory hmade
      obtain ⟨hstored, hcases⟩ :=
        Disk.store_cases SpillFile.mk Group.toJson namer "spill" groups middle
      rw [create, Step.run_bind, hmade]
      refine ⟨hframe.trans hstored, ?_⟩
      rcases hcases with ⟨after, hstore, hread, hallocated⟩ | ⟨fault, hfault, hfile⟩
      · rw [hstore] at hstored
        refine Or.inl ⟨_, after, hstore, fun hsorted => ⟨Group.readItems_of_read? hread, rfl,
          hsorted, hstored.hasDirectory hdirectory, hallocated⟩, fun hbefore => ?_, rfl⟩
        exact Nat.lt_irrefl _ (Nat.lt_of_lt_of_le hbefore hframe.serial)
      · exact Or.inr ⟨fault, hfault, Fault.isFileFailure_of_isWriteFailure hfile⟩

end SpillFile
end ExtentEngine
