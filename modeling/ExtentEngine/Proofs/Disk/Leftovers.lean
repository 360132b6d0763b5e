import ExtentEngine.Proofs.Disk.Owners

/-!
# Files that are left on a disk

An operation of an owner cleans up if every file that is on the disk then belongs to the owner, or
was there before and did not belong to the owner.  So no file is left without an owner, whether the
operation makes files or gives them up.

**Results.**
* `has_put` and `has_removeAll`: which files are there after a file was written or some were
  removed.
* `files_ensureDirectory`: making a directory has nothing to do with files.
* `CleansUp.trans` and `CleansUp.append`: operations one after the other, of one owner or of two.
-/

namespace ExtentEngine

namespace Disk

/-- Whether there is a file of a name. -/
def Has (disk : Disk) (file : FileName) : Prop := disk.read? file ≠ none

variable {disk : Disk} {file other : FileName} {files : List FileName}

theorem has_put {contents : List Char} : (disk.put file contents).Has other ↔
    other = file ∨ disk.Has other := by
  by_cases h : other = file
  · subst h
    simp [Has]
  · simp [Has, h]

theorem has_remove : (disk.remove file).Has other ↔ disk.Has other ∧ other ≠ file := by
  by_cases h : other = file
  · subst h
    simp [Has]
  · simp [Has, read?_remove_of_ne disk h, h]

/-- On a calm disk all of the files are removed. -/
theorem has_removeAll (h : disk.Calm) :
    (disk.removeAll files).Has other ↔ disk.Has other ∧ other ∉ files := by
  induction files generalizing disk with
  | nil => simp [removeAll]
  | cons file files ih =>
      have hrest : ((disk.remove file).removeAll files).Has other ↔
          (disk.remove file).Has other ∧ other ∉ files := ih h
      rw [removeAll_cons, delete_of_calm file h, hrest, has_remove, List.mem_cons, not_or,
        and_assoc]

theorem nextSerial_removeAll (files : List FileName) (disk : Disk) :
    (disk.removeAll files).nextSerial = disk.nextSerial := by
  induction files generalizing disk with
  | nil => rfl
  | cons file files ih =>
      rw [removeAll_cons, ih]
      rcases delete_cases file disk with hrun | ⟨-, hrun⟩ <;> rw [hrun] <;> rfl

/-- The same files and the same next name, whatever becomes of the directories. -/
structure SameFiles (disk after : Disk) : Prop where
  files : after.files = disk.files
  nextSerial : after.nextSerial = disk.nextSerial

theorem SameFiles.has {after : Disk} (h : SameFiles disk after) (file : FileName) :
    after.Has file ↔ disk.Has file := by
  rw [Has, Has, read?, read?, h.files]

theorem sameFiles_makeAlong (fault : Fault) {here : Location} {steps : List PathStep} :
    SameFiles disk ((makeAlong fault here steps).run disk).2 := by
  induction steps generalizing here disk with
  | nil => exact ⟨rfl, rfl⟩
  | cons step rest ih =>
      cases step with
      | stay => exact ih
      | up => exact ih
      | into name =>
          simp only [Step.run, makeAlong]
          split
          · exact ih
          · split
            · exact ⟨rfl, rfl⟩
            · have hmade : SameFiles { disk with directories := (name :: here) :: disk.directories }
                  ((makeAlong fault (name :: here) rest).run _).2 := ih
              exact ⟨hmade.files, hmade.nextSerial⟩

/-- Making a directory has nothing to do with files. -/
theorem files_ensureDirectory (path : String) (disk : Disk) :
    SameFiles disk ((ensureDirectory path).run disk).2 := by
  unfold ensureDirectory
  split
  · exact sameFiles_makeAlong _
  · exact ⟨rfl, rfl⟩

/-- A file is written at most, and under a name that was taken before. -/
structure WritesOver (names : List FileName) (disk after : Disk) : Prop where
  has : ∀ file, after.Has file → file ∈ names ∨ disk.Has file
  nextSerial : after.nextSerial = disk.nextSerial
  calm : disk.Calm → after.Calm

namespace WritesOver

variable {names names' : List FileName} {middle after : Disk}

theorem refl (names : List FileName) (disk : Disk) : WritesOver names disk disk :=
  ⟨fun _ => Or.inr, rfl, id⟩

theorem turn (names : List FileName) (disk : Disk) : WritesOver names disk disk.turn :=
  ⟨fun _ => Or.inr, rfl, (frame_turn (fun _ => False) disk).calm⟩

theorem trans (h : WritesOver names disk middle) (h' : WritesOver names middle after) :
    WritesOver names disk after where
  has file hfile := (h'.has file hfile).elim Or.inl (h.has file)
  nextSerial := h'.nextSerial.trans h.nextSerial
  calm hcalm := h'.calm (h.calm hcalm)

theorem mono (h : WritesOver names disk after) (hsub : names ⊆ names') :
    WritesOver names' disk after :=
  ⟨fun file hfile => (h.has file hfile).imp_left fun hmem => hsub hmem, h.nextSerial, h.calm⟩

end WritesOver

theorem writesOver_writeItems {α : Type} (toJson : α → Json) (file : FileName) (items : List α)
    (disk : Disk) : WritesOver [file] disk ((writeItems toJson file items).run disk).2 := by
  have hturn := WritesOver.turn [file] disk
  have hput : ∀ contents, WritesOver [file] disk (disk.turn.put file contents) := fun _ =>
    ⟨fun other hother => (has_put.1 hother).imp_left List.mem_singleton.2, rfl, hturn.calm⟩
  rcases writeItems_cases toJson file items disk with ⟨-, h⟩ | ⟨-, _, _, h⟩ | h <;> rw [h]
  · exact hput _
  · exact hput _
  · exact hturn

end Disk

/-- No file is left that does not belong to the owner of the names and is not older than that. -/
def CleansUp (names : List FileName) (disk : Disk) (names' : List FileName) (after : Disk) : Prop :=
  ∀ file, after.Has file → file ∈ names' ∨ disk.Has file ∧ file ∉ names

namespace CleansUp

variable {names names' names'' others others' : List FileName} {disk middle after : Disk}

theorem of_writesOver (h : Disk.WritesOver names disk after) : CleansUp names disk names after :=
  fun file hfile => by
    by_cases hmem : file ∈ names
    · exact Or.inl hmem
    · exact Or.inr ⟨(h.has file hfile).resolve_left hmem, hmem⟩

theorem refl (names : List FileName) (disk : Disk) : CleansUp names disk names disk :=
  .of_writesOver (.refl _ _)

theorem trans (h : CleansUp names disk names' middle) (h' : CleansUp names' middle names'' after) :
    CleansUp names disk names'' after := by
  intro file hfile
  rcases h' file hfile with hmem | ⟨hmiddle, hnot⟩
  · exact Or.inl hmem
  · exact (h file hmiddle).elim (absurd · hnot) Or.inr

/-- Two owners' operations one after the other. -/
theorem append (h : CleansUp names disk names' middle) (h' : CleansUp others middle others' after) :
    CleansUp (names ++ others) disk (names' ++ others') after := by
  intro file hfile
  rcases h' file hfile with hmem | ⟨hmiddle, hother⟩
  · exact Or.inl (List.mem_append_right _ hmem)
  · rcases h file hmiddle with hmem | ⟨hbefore, hnot⟩
    · exact Or.inl (List.mem_append_left _ hmem)
    · exact Or.inr ⟨hbefore, fun hmem => (List.mem_append.1 hmem).elim hnot hother⟩

/-- Files are removed, and the others stay with their owner. -/
theorem removed (names : List FileName) {disk after : Disk}
    (hafter : ∀ file, after.Has file → disk.Has file ∧ file ∉ others) :
    CleansUp (names ++ others) disk names after := by
  intro file hfile
  obtain ⟨hbefore, hother⟩ := hafter file hfile
  by_cases hmem : file ∈ names
  · exact Or.inl hmem
  · exact Or.inr ⟨hbefore, fun h => (List.mem_append.1 h).elim hmem hother⟩

end CleansUp
end ExtentEngine
