import ExtentEngine.Disk.Lines

/-!
# What operations leave of a disk

A file is allocated once its name was taken.  Operations change no allocated files but those
that they own, so what was read from other files before is read from them afterwards.  That is so
whether they succeed or fail.

**Results.**
* `Frame.trans`: one operation after another leaves what both of them leave.
* `frame_ensureDirectory`: making a directory changes no files.
* `writeItems_cases`: items are written to a file, or the first few characters of them, or nothing.
* `frame_writeItems`, `frame_removeAll`: writing and removing own the files in question.
* `store_cases`: items are put into a fresh file, unless it cannot be written.
-/

namespace ExtentEngine

/-- A failure of a file operation. -/
def Fault.isFileFailure : Fault → Bool
  | .directoryNotCreated _ => true
  | .fileNotCreated _ => true
  | .fileNotOpened _ => true
  | .fileNotRemoved _ => true
  | .transferBroken _ => true
  | .lineUnreadable _ => true
  | .extentLength _ _ _ => true
  | _ => false

/-- A failure of writing a file. -/
def Fault.isWriteFailure : Fault → Bool
  | .fileNotCreated _ => true
  | .transferBroken _ => true
  | _ => false

theorem Fault.isFileFailure_of_isWriteFailure {fault : Fault} (h : fault.isWriteFailure = true) :
    fault.isFileFailure = true := by
  cases fault <;> first | rfl | cases h

namespace Disk

/-- Whether the name of a file was taken. -/
def Allocated (disk : Disk) : FileName → Prop
  | .given _ _ => True
  | .fresh _ _ serial => serial < disk.nextSerial

/-- The names that were taken stay so. -/
theorem allocated_mono {disk after : Disk} (h : disk.nextSerial ≤ after.nextSerial)
    {file : FileName} (hfile : disk.Allocated file) : after.Allocated file := by
  cases file with
  | given => trivial
  | fresh namer kind serial => exact Nat.lt_of_lt_of_le hfile h

theorem canWalk_mono {disk after : Disk}
    (h : ∀ place, disk.isDirectory place = true → after.isDirectory place = true)
    {here : Location} {steps : List PathStep} (hwalk : disk.canWalk here steps = true) :
    after.canWalk here steps = true := by
  induction steps generalizing here with
  | nil => rfl
  | cons step rest ih =>
      cases step with
      | stay => exact ih hwalk
      | up => exact ih hwalk
      | into name =>
          obtain ⟨hplace, hrest⟩ := Bool.and_eq_true_iff.1 hwalk
          exact Bool.and_eq_true_iff.2 ⟨h _ hplace, ih hrest⟩

/-- A directory stays where all places with directories keep them. -/
theorem hasDirectory_mono {disk after : Disk}
    (h : ∀ place, disk.isDirectory place = true → after.isDirectory place = true) {path : String}
    (hpath : disk.hasDirectory path = true) : after.hasDirectory path = true := by
  obtain ⟨hname, hwalk⟩ := Bool.and_eq_true_iff.1 hpath
  exact Bool.and_eq_true_iff.2 ⟨hname, canWalk_mono h hwalk⟩

/-- What an operation that owns some files leaves of a disk. -/
structure Frame (own : FileName → Prop) (before after : Disk) : Prop where
  serial : before.nextSerial ≤ after.nextSerial
  obstacles : after.obstacles = before.obstacles
  directory : ∀ place, before.isDirectory place = true → after.isDirectory place = true
  read : ∀ file, before.Allocated file → ¬own file → after.read? file = before.read? file
  calm : before.Calm → after.Calm

namespace Frame

variable {own other : FileName → Prop} {first middle last : Disk}

theorem refl (own : FileName → Prop) (disk : Disk) : Frame own disk disk :=
  ⟨Nat.le_refl _, rfl, fun _ h => h, fun _ _ _ => rfl, id⟩

theorem allocated (h : Frame own first last) {file : FileName} (hfile : first.Allocated file) :
    last.Allocated file :=
  allocated_mono h.serial hfile

/-- Files that were not allocated before are of no account. -/
theorem mono (h : Frame own first last)
    (hown : ∀ file, first.Allocated file → own file → other file) : Frame other first last where
  serial := h.serial
  obstacles := h.obstacles
  directory := h.directory
  read file hfile hother := h.read file hfile fun hf => hother (hown file hfile hf)
  calm := h.calm

theorem trans (hfirst : Frame own first middle) (hlast : Frame own middle last) :
    Frame own first last where
  serial := Nat.le_trans hfirst.serial hlast.serial
  obstacles := hlast.obstacles.trans hfirst.obstacles
  directory place hplace := hlast.directory place (hfirst.directory place hplace)
  read file hfile hown :=
    (hlast.read file (hfirst.allocated hfile) hown).trans (hfirst.read file hfile hown)
  calm hcalm := hlast.calm (hfirst.calm hcalm)

theorem hasDirectory (h : Frame own first last) {path : String}
    (hpath : first.hasDirectory path = true) : last.hasDirectory path = true :=
  hasDirectory_mono h.directory hpath

theorem readItems (h : Frame own first last) {α : Type} {ofJson? : Json → Option α}
    {file : FileName} (hfile : first.Allocated file) (hown : ¬own file) :
    last.readItems ofJson? file = first.readItems ofJson? file := by
  rw [Disk.readItems, Disk.readItems, h.read file hfile hown]

end Frame

theorem isDirectory_cons {disk : Disk} {there place : Location} :
    ({ disk with directories := there :: disk.directories } : Disk).isDirectory place = true ↔
      place = there ∨ disk.isDirectory place = true := by
  simp only [isDirectory, Bool.or_eq_true, List.contains_eq_mem, decide_eq_true_eq, List.mem_cons]
  exact or_left_comm

theorem frame_makeAlong (own : FileName → Prop) (fault : Fault) {here : Location}
    {steps : List PathStep} {disk : Disk} :
    Frame own disk ((makeAlong fault here steps).run disk).2 := by
  induction steps generalizing here disk with
  | nil => exact .refl own disk
  | cons step rest ih =>
      cases step with
      | stay => exact ih
      | up => exact ih
      | into name =>
          simp only [Step.run, makeAlong]
          split
          · exact ih
          · split
            · exact .refl own disk
            · have hmade : Frame own disk
                  { disk with directories := (name :: here) :: disk.directories } :=
                ⟨Nat.le_refl _, rfl, fun _ hplace => isDirectory_cons.2 (Or.inr hplace),
                  fun _ _ _ => rfl, id⟩
              exact hmade.trans ih

theorem frame_ensureDirectory (own : FileName → Prop) (path : String) (disk : Disk) :
    Frame own disk ((ensureDirectory path).run disk).2 := by
  unfold ensureDirectory
  split
  · exact frame_makeAlong own _
  · exact .refl own disk

theorem makeAlong_error {fault other : Fault} {here : Location} {steps : List PathStep}
    {disk : Disk} (h : ((makeAlong fault here steps).run disk).1 = .error other) :
    other = fault := by
  induction steps generalizing here disk with
  | nil => cases h
  | cons step rest ih =>
      cases step with
      | stay => exact ih h
      | up => exact ih h
      | into name =>
          simp only [Step.run, makeAlong] at h
          split at h
          · exact ih h
          · split at h
            · cases h
              rfl
            · exact ih h

/-- There is one way in which making a directory fails. -/
theorem ensureDirectory_error {fault : Fault} {path : String} {disk : Disk}
    (h : ((ensureDirectory path).run disk).1 = .error fault) :
    fault = .directoryNotCreated path := by
  unfold ensureDirectory at h
  split at h
  · exact makeAlong_error h
  · cases h
    rfl

theorem frame_fresh (own : FileName → Prop) (namer : Namer) (kind : String) (disk : Disk) :
    Frame own disk ((fresh namer kind).run disk).2 :=
  ⟨Nat.le_succ _, rfl, fun _ h => h, fun _ _ _ => rfl, id⟩

theorem frame_turn (own : FileName → Prop) (disk : Disk) : Frame own disk disk.turn where
  serial := Nat.le_refl _
  obstacles := rfl
  directory _ hplace := hplace
  read _ _ _ := rfl
  calm hcalm := (turn_of_calm hcalm).symm ▸ hcalm

theorem frame_put (file : FileName) (contents : List Char) (disk : Disk) :
    Frame (· = file) disk (disk.put file contents) :=
  ⟨Nat.le_refl _, rfl, fun _ h => h, fun _ _ hne => read?_put_of_ne disk contents hne, id⟩

/-- Items are written to a file, or the first few characters of them, or nothing is. -/
theorem writeItems_cases {α : Type} (toJson : α → Json) (file : FileName) (items : List α)
    (disk : Disk) :
    (disk.hasDirectory file.directory = true ∧
      (writeItems toJson file items).run disk =
        (.ok items.length, disk.turn.put file (Lines.ofItems toJson items))) ∨
    (disk.hasDirectory file.directory = true ∧ ∃ written amidItem,
      (writeItems toJson file items).run disk = (.error (.transferBroken amidItem),
        disk.turn.put file ((Lines.ofItems toJson items).take written))) ∨
    (writeItems toJson file items).run disk = (.error (.fileNotCreated file.path), disk.turn) := by
  simp only [writeItems, Lines.countItems_eq, Step.run_bind]
  cases hdirectory : disk.hasDirectory file.directory with
  | false =>
      refine Or.inr (Or.inr ?_)
      simp only [Step.run, write, hdirectory]
  | true =>
      cases hmishap : disk.mishap? with
      | none =>
          refine Or.inl ⟨rfl, ?_⟩
          simp only [Step.run, write, hdirectory, hmishap]
          rfl
      | some mishap =>
          cases mishap with
          | refused =>
              refine Or.inr (Or.inr ?_)
              simp only [Step.run, write, hdirectory, hmishap]
          | broken written amidItem =>
              refine Or.inr (Or.inl ⟨rfl, written, amidItem, ?_⟩)
              simp only [Step.run, write, hdirectory, hmishap]

/-- On a calm disk items are written to a file if there is a directory for it. -/
theorem writeItems_of_calm {α : Type} (toJson : α → Json) {file : FileName} (items : List α)
    {disk : Disk} (hdirectory : disk.hasDirectory file.directory = true) (hcalm : disk.Calm) :
    (writeItems toJson file items).run disk =
      (.ok items.length, disk.put file (Lines.ofItems toJson items)) := by
  have hwrite : (write file (Lines.ofItems toJson items)).run disk =
      (.ok (), disk.put file (Lines.ofItems toJson items)) := by
    simp only [Step.run, write, hdirectory, mishap?_of_calm hcalm, turn_of_calm hcalm]
  simp only [writeItems, Lines.countItems_eq, Step.run_bind, hwrite, Step.run_pure]

theorem frame_writeItems {α : Type} (toJson : α → Json) (file : FileName) (items : List α)
    (disk : Disk) : Frame (· = file) disk ((writeItems toJson file items).run disk).2 := by
  have hturn := frame_turn (· = file) disk
  rcases writeItems_cases toJson file items disk with ⟨-, h⟩ | ⟨-, _, _, h⟩ | h <;> rw [h]
  · exact hturn.trans (frame_put file _ _)
  · exact hturn.trans (frame_put file _ _)
  · exact hturn

/-- Items are put into a fresh file, with which no operation before had to do, unless it cannot be
written.  What is made of the file knows its name and how many items it holds. -/
theorem store_cases {α β : Type} (make : FileName → Nat → β) (toJson : α → Json) (namer : Namer)
    (kind : String) (items : List α) (disk : Disk) :
    Frame (fun _ => False) disk ((do
        let file ← fresh namer kind
        let count ← writeItems toJson file items
        pure (make file count) : Step Disk β).run disk).2 ∧
      ((∃ after, (do
          let file ← fresh namer kind
          let count ← writeItems toJson file items
          pure (make file count) : Step Disk β).run disk =
            (.ok (make (.fresh namer kind disk.nextSerial) items.length), after) ∧
        after.read? (.fresh namer kind disk.nextSerial) = some (Lines.ofItems toJson items) ∧
        after.Allocated (.fresh namer kind disk.nextSerial)) ∨
      ∃ fault, ((do
          let file ← fresh namer kind
          let count ← writeItems toJson file items
          pure (make file count) : Step Disk β).run disk).1 = .error fault ∧
        fault.isWriteFailure = true) := by
  have hfresh := frame_fresh (fun _ => False) namer kind disk
  have hwrite := frame_writeItems toJson (.fresh namer kind disk.nextSerial) items
    ((fresh namer kind).run disk).2
  have hcases := writeItems_cases toJson (.fresh namer kind disk.nextSerial) items
    ((fresh namer kind).run disk).2
  have hunknown : ∀ file, disk.Allocated file → file ≠ .fresh namer kind disk.nextSerial := by
    rintro _ hfile rfl
    exact Nat.lt_irrefl _ hfile
  simp only [Step.run_bind, fresh_serial] at hfresh hwrite hcases ⊢
  rcases hrun : (writeItems toJson (.fresh namer kind disk.nextSerial) items).run
    { disk with nextSerial := disk.nextSerial + 1 } with ⟨result, after⟩
  rw [hrun] at hwrite hcases
  have hframe : Frame (fun _ => False) disk after :=
    ⟨Nat.le_trans hfresh.serial hwrite.serial, hwrite.obstacles.trans hfresh.obstacles,
      fun place hplace => hwrite.directory place (hfresh.directory place hplace),
      fun file hfile _ => (hwrite.read file (hfresh.allocated hfile) (hunknown file hfile)).trans
        (hfresh.read file hfile id), fun hcalm => hwrite.calm (hfresh.calm hcalm)⟩
  rcases hcases with ⟨-, h⟩ | ⟨-, _, _, h⟩ | h <;> cases h
  · exact ⟨hframe, Or.inl ⟨_, rfl, read?_put _ _ _, Nat.lt_succ_self disk.nextSerial⟩⟩
  · exact ⟨hframe, Or.inr ⟨_, rfl, rfl⟩⟩
  · exact ⟨hframe, Or.inr ⟨_, rfl, rfl⟩⟩

/-- On a calm disk items are put into a fresh file if there is a directory for it. -/
theorem run_store {α β : Type} (make : FileName → Nat → β) (toJson : α → Json) (namer : Namer)
    (kind : String) (items : List α) {disk : Disk}
    (hdirectory : disk.hasDirectory namer.directory = true) (hcalm : disk.Calm) :
    (do
      let file ← fresh namer kind
      let count ← writeItems toJson file items
      pure (make file count) : Step Disk β).run disk =
        (.ok (make (.fresh namer kind disk.nextSerial) items.length),
          ((fresh namer kind).run disk).2.put (.fresh namer kind disk.nextSerial)
            (Lines.ofItems toJson items)) := by
  have hfresh := frame_fresh (fun _ => False) namer kind disk
  have hwrite : (writeItems toJson (.fresh namer kind disk.nextSerial) items).run
      ((fresh namer kind).run disk).2 = _ :=
    writeItems_of_calm toJson items (hfresh.hasDirectory hdirectory) (hfresh.calm hcalm)
  rw [fresh_serial] at hwrite
  simp only [Step.run_bind, fresh_serial, hwrite, Step.run_pure]

theorem read?_remove_of_ne {file other : FileName} (disk : Disk) (h : other ≠ file) :
    (disk.remove file).read? other = disk.read? other := by
  simp only [remove, read?, List.find?_filter]
  congr 2
  funext entry
  by_cases he : entry.1 = other
  · simp [he, h]
  · simp [he]

theorem frame_remove (file : FileName) (disk : Disk) :
    Frame (· = file) disk (disk.remove file) :=
  ⟨Nat.le_refl _, rfl, fun _ h => h, fun _ _ hne => read?_remove_of_ne disk hne, id⟩

/-- A file is removed, or a mishap keeps it. -/
theorem delete_cases (file : FileName) (disk : Disk) :
    (delete file).run disk = (.ok (), disk.turn.remove file) ∨
      ¬disk.Calm ∧ (delete file).run disk = (.error (.fileNotRemoved file.path), disk.turn) := by
  cases hmishap : disk.mishap? with
  | none =>
      refine Or.inl ?_
      simp only [Step.run, delete, hmishap]
  | some mishap =>
      refine Or.inr ⟨fun hcalm => ?_, ?_⟩
      · rw [mishap?_of_calm hcalm] at hmishap
        cases hmishap
      · simp only [Step.run, delete, hmishap]

theorem delete_of_calm (file : FileName) {disk : Disk} (h : disk.Calm) :
    (delete file).run disk = (.ok (), disk.remove file) := by
  rcases delete_cases file disk with hrun | ⟨hstormy, -⟩
  · rw [hrun, turn_of_calm h]
  · exact absurd h hstormy

theorem frame_delete (file : FileName) (disk : Disk) :
    Frame (· = file) disk ((delete file).run disk).2 := by
  have hturn := frame_turn (· = file) disk
  rcases delete_cases file disk with h | ⟨-, h⟩ <;> rw [h]
  · exact hturn.trans (frame_remove file _)
  · exact hturn

theorem removeAll_cons (file : FileName) (files : List FileName) (disk : Disk) :
    disk.removeAll (file :: files) = ((delete file).run disk).2.removeAll files := rfl

theorem frame_removeAll (files : List FileName) (disk : Disk) :
    Frame (· ∈ files) disk (disk.removeAll files) := by
  induction files generalizing disk with
  | nil => exact .refl _ disk
  | cons file files ih =>
      have hfirst : Frame (· ∈ file :: files) disk ((delete file).run disk).2 :=
        (frame_delete file disk).mono fun _ _ hfile => List.mem_cons.2 (Or.inl hfile)
      rw [removeAll_cons]
      exact hfirst.trans ((ih _).mono fun _ _ hfile => List.mem_cons_of_mem _ hfile)

/-- Files are removed one after the other, or one of them cannot be removed. -/
theorem deleteAll_cases (files : List FileName) (disk : Disk) :
    (deleteAll files).run disk = (.ok (), disk.removeAll files) ∨
      ¬disk.Calm ∧ ∃ done file rest, files = done ++ file :: rest ∧
        (deleteAll files).run disk =
          (.error (.fileNotRemoved file.path), disk.removeAll (done ++ [file])) := by
  induction files generalizing disk with
  | nil => exact Or.inl rfl
  | cons file files ih =>
      have hcons : (deleteAll (file :: files)).run disk =
          (do delete file; deleteAll files : Step Disk Unit).run disk := rfl
      have hframe := frame_delete file disk
      rw [hcons, Step.run_bind]
      rcases delete_cases file disk with h | ⟨hstormy, h⟩
      · rw [h] at hframe ⊢
        rcases ih (disk.turn.remove file) with hrest | ⟨hstormy, done, other, rest, rfl, hrest⟩
        · refine Or.inl (hrest.trans ?_)
          rw [removeAll_cons, h]
        · refine Or.inr ⟨fun hcalm => hstormy (hframe.calm hcalm), file :: done, other, rest, rfl,
            hrest.trans ?_⟩
          rw [List.cons_append, removeAll_cons, h]
      · refine Or.inr ⟨hstormy, [], file, files, rfl, ?_⟩
        rw [List.nil_append, removeAll_cons, h]
        rfl

/-- The items of a file are read as they are there, unless a mishap keeps them. -/
theorem loadItems_cases {α : Type} (ofJson? : Json → Option α) (file : FileName) (disk : Disk) :
    (loadItems ofJson? file).run disk = (disk.readItems ofJson? file, disk.turn) ∨
      ∃ fault, (loadItems ofJson? file).run disk = (.error fault, disk.turn) ∧
        fault.isFileFailure = true := by
  cases hmishap : disk.mishap? with
  | none =>
      refine Or.inl ?_
      simp only [Step.run, loadItems, hmishap]
  | some mishap =>
      refine Or.inr ?_
      cases mishap with
      | refused =>
          refine ⟨.fileNotOpened file.path, ?_, rfl⟩
          simp only [Step.run, loadItems, hmishap]
      | broken =>
          refine ⟨.transferBroken false, ?_, rfl⟩
          simp only [Step.run, loadItems, hmishap]

end Disk
end ExtentEngine
