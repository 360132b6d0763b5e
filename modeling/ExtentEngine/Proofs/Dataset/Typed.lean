import ExtentEngine.Proofs.Arity
import ExtentEngine.Proofs.Dataset.Faults
import ExtentEngine.Proofs.Expr.Typing

/-!
# Typed datasets

A dataset is typed if its schema admits every record that can be read of it.  Operations by which
records that the schema admits are appended or put in another order leave it typed, and so they
leave any other dataset on the disk: its files stay as they are, or they are removed.  No such
operation ends in a fault of arity.

**Results.**
* `Typed.disturb`: a dataset stays typed while others leave its files alone or remove them.
* `Writer.keeps_insert`, `Writer.keeps_flush`: what the steps of a writer keep.
* `keeps_sort`: what sorting keeps.
-/

namespace ExtentEngine

theorem Disk.read?_removeAll (files : List FileName) (disk : Disk) (file : FileName) :
    (disk.removeAll files).read? file = disk.read? file ∨
      (disk.removeAll files).read? file = none := by
  induction files generalizing disk with
  | nil => exact Or.inl rfl
  | cons other files ih =>
      have hfirst : ((delete other).run disk).2.read? file = disk.read? file ∨
          ((delete other).run disk).2.read? file = none := by
        rcases delete_cases other disk with h | ⟨-, h⟩ <;> rw [h]
        · by_cases hfile : file = other
          · exact Or.inr (hfile ▸ read?_remove _ _)
          · exact Or.inl (read?_remove_of_ne disk.turn hfile)
        · exact Or.inl rfl
      rw [removeAll_cons]
      rcases ih ((delete other).run disk).2 with h | h
      · rw [h]
        exact hfirst
      · exact Or.inr h

theorem Disk.nextSerial_le_removeAll (files : List FileName) (disk : Disk) :
    disk.nextSerial ≤ (disk.removeAll files).nextSerial :=
  (frame_removeAll files disk).serial

theorem Fault.isArity_of_isOfReading {fault : Fault} (h : fault.isOfReading = true) :
    fault.isArity = false := by
  cases fault <;> first | rfl | cases h

theorem Key.arityFree_validate (key : Key) (arity : Nat) : (key.validate arity).ArityFree := by
  rw [validate]
  split
  · exact .error rfl
  · exact .ok ()

namespace Slot

variable {disk after : Disk} {slot : Slot} {extent : Extent}

/-- What is loaded after others left the file of a slot as it was, or removed it, was there
before. -/
theorem load_of_disturbed
    (hfile : ∀ file, slot.file? = some file →
      after.read? file = disk.read? file ∨ after.read? file = none)
    (hload : slot.load after = .ok extent) : slot.load disk = .ok extent := by
  rw [← hload]
  refine (load_congr fun file hslot => (hfile file hslot).resolve_right fun hlost => ?_).symm
  cases (load_of_lost hslot hlost).symm.trans hload

end Slot

namespace Dataset

/-- Every record that can be read of a dataset is admitted by its schema, and none of its files
will be made anew. -/
structure Typed (disk : Disk) (dataset : Dataset) : Prop where
  records : ∀ slot ∈ dataset.slots, ∀ extent, slot.load disk = .ok extent →
    ∀ record ∈ extent, dataset.schema.Admits record
  allocated : ∀ file ∈ dataset.files, disk.Allocated file

/-- A dataset that can be read is typed if its schema admits the records that are read. -/
theorem Readable.typed {disk : Disk} {dataset : Dataset} {extents : List Extent}
    (h : dataset.Readable disk extents)
    (hextents : ∀ record ∈ extents.flatten, dataset.schema.Admits record) :
    dataset.Typed disk where
  records slot hslot extent hload record hrecord := by
    obtain ⟨found, hfound, hloads⟩ := exists_of_mem_left (extents_eq_ok.1 h.loads) hslot
    cases hloads.symm.trans hload
    exact hextents record (List.mem_flatten.2 ⟨_, hfound, hrecord⟩)
  allocated := h.allocated

namespace Typed

variable {disk after : Disk} {dataset : Dataset} {extents : List Extent}

/-- A dataset without extents is typed, whatever its schema is. -/
theorem empty (hslots : dataset.slots = []) (disk : Disk) : dataset.Typed disk where
  records := by
    rw [hslots]
    exact List.forall_mem_nil _
  allocated := by
    rw [files, hslots]
    exact List.forall_mem_nil _

/-- A dataset stays typed while others leave its files alone or remove them. -/
theorem disturb (h : dataset.Typed disk) (hserial : disk.nextSerial ≤ after.nextSerial)
    (hfiles : ∀ file, disk.Allocated file →
      after.read? file = disk.read? file ∨ after.read? file = none) : dataset.Typed after where
  records slot hslot extent hload := by
    refine h.records slot hslot extent (Slot.load_of_disturbed (fun file hfile => ?_) hload)
    exact hfiles file (h.allocated file (mem_files.2 ⟨slot, hslot, hfile⟩))
  allocated file hfile := Disk.allocated_mono hserial (h.allocated file hfile)

theorem frame (h : dataset.Typed disk) (hframe : Disk.Frame (fun _ => False) disk after) :
    dataset.Typed after :=
  h.disturb hframe.serial fun file hfile => Or.inl (hframe.read file hfile id)

theorem removeAll (h : dataset.Typed disk) (files : List FileName) :
    dataset.Typed (disk.removeAll files) :=
  h.disturb (Disk.nextSerial_le_removeAll files disk) fun file _ =>
    Disk.read?_removeAll files disk file

/-- The records of a typed dataset are admitted by its schema. -/
theorem of_extents (h : dataset.Typed disk) (hextents : dataset.extents disk = .ok extents) :
    ∀ record ∈ extents.flatten, dataset.schema.Admits record := by
  intro record hrecord
  obtain ⟨extent, hextent, hrecord⟩ := List.mem_flatten.1 hrecord
  obtain ⟨slot, hslot, hload⟩ := exists_of_mem_right (extents_eq_ok.1 hextents) hextent
  exact h.records slot hslot extent hload record hrecord

end Typed

theorem arityFree_extents (dataset : Dataset) (disk : Disk) :
    (dataset.extents disk).ArityFree :=
  (dataset.ofReading_extents disk).mono fun _ => Fault.isArity_of_isOfReading

/-- What was appended to a typed dataset leaves it typed if its schema admits the records. -/
theorem Appended.typed {extents : List Extent} {s t : Dataset × Disk} (h : Appended extents s t)
    (hs : s.1.Typed s.2) (hextents : ∀ record ∈ extents.flatten, s.1.schema.Admits record) :
    t.1.Typed t.2 := by
  have hkept := hs.frame h.frame
  obtain ⟨slots, sortedBy, hdataset, hloads, -⟩ := h.dataset
  have hslots : t.1.slots = s.1.slots ++ slots := congrArg Dataset.slots hdataset
  refine ⟨fun slot hslot extent hload record hrecord => ?_, h.allocated hkept.allocated⟩
  rw [h.schema]
  rw [hslots] at hslot
  rcases List.mem_append.1 hslot with hold | hslot
  · exact hkept.records slot hold extent hload record hrecord
  · obtain ⟨found, hfound, hnewload⟩ := exists_of_mem_left hloads hslot
    cases hnewload.symm.trans hload
    exact hextents record (List.mem_flatten.2 ⟨_, hfound, hrecord⟩)

/-- A dataset of a schema that is operated on beside another one on the same disk, both typed. -/
structure Beside (other : Dataset) (schema : Schema) (s : Dataset × Disk) : Prop where
  schema : s.1.schema = schema
  typed : s.1.Typed s.2
  other : other.Typed s.2

variable {other : Dataset} {schema : Schema} {s : Dataset × Disk}

theorem Appended.beside {extents : List Extent} {t : Dataset × Disk} (h : Appended extents s t)
    (hs : Beside other schema s) (hextents : ∀ record ∈ extents.flatten, schema.Admits record) :
    Beside other schema t where
  schema := h.schema.trans hs.schema
  typed := h.typed hs.typed (hs.schema.symm ▸ hextents)
  other := hs.other.frame h.frame

theorem keeps_push {extent : Extent} (hs : Beside other schema s)
    (hextent : ∀ record ∈ extent, schema.Admits record) :
    (push extent).Keeps (Beside other schema) s := by
  have hnone : ∀ record ∈ ([] : List Extent).flatten, schema.Admits record :=
    List.forall_mem_nil _
  rcases push_cases extent s with ⟨-, t, hrun, happended⟩ | ⟨-, hrun⟩ |
    ⟨-, -, fault, t, hrun, hfault, -, happended⟩
  · have hflatten : ∀ record ∈ [extent].flatten, schema.Admits record := by simpa using hextent
    constructor
    · rw [hrun]
      exact happended.beside hs hflatten
    · rw [hrun]
      exact .ok ()
  · constructor
    · rw [hrun]
      exact hs
    · rw [hrun]
      exact .error rfl
  · constructor
    · rw [hrun]
      exact happended.beside hs hnone
    · rw [hrun]
      refine .error ?_
      cases fault <;> first | rfl | cases hfault

end Dataset

namespace Writer

/-- A writer to a dataset of a schema beside another dataset that holds records which the schema
admits. -/
structure Beside (other : Dataset) (schema : Schema) (s : Writer × Disk) : Prop where
  dataset : Dataset.Beside other schema (s.1.dataset, s.2)
  buffer : ∀ record ∈ s.1.buffer, schema.Admits record

variable {other : Dataset} {schema : Schema} {s : Writer × Disk}

theorem keeps_flush (hs : Beside other schema s) : flush.Keeps (Beside other schema) s := by
  obtain ⟨hdataset, hresult⟩ := Dataset.keeps_push hs.dataset hs.buffer
  by_cases hempty : s.1.buffer.isEmpty = true
  · constructor
    · rw [run_flush_of_isEmpty hempty]
      exact hs
    · rw [run_flush_of_isEmpty hempty]
      exact .ok ()
  · constructor
    · rw [run_flush_of_not_isEmpty hempty]
      exact ⟨hdataset, List.forall_mem_nil _⟩
    · rw [run_flush_of_not_isEmpty hempty]
      exact hresult

theorem keeps_insert {record : Record} (hs : Beside other schema s)
    (hrecord : schema.Admits record) : (insert record).Keeps (Beside other schema) s := by
  obtain ⟨writer, disk⟩ := s
  have hlength : record.length = writer.dataset.schema.length :=
    hrecord.length_eq.trans (congrArg List.length hs.dataset.schema).symm
  have hkept : Beside other schema (writer.keep record, disk) :=
    ⟨hs.dataset, List.forall_mem_append.2 ⟨hs.buffer, List.forall_mem_singleton.2 hrecord⟩⟩
  obtain ⟨hstate, hresult⟩ := keeps_flush hkept
  constructor
  · rw [run_insert hlength]
    split
    · exact hstate
    · exact hkept
  · rw [run_insert hlength]
    split
    · exact hresult
    · exact .ok ()

theorem keeps_insertAll {records : List Record} (hs : Beside other schema s)
    (hrecords : ∀ record ∈ records, schema.Admits record) :
    (insertAll records).Keeps (Beside other schema) s :=
  .forEach (fun record hrecord _ ht => keeps_insert ht (hrecords record hrecord)) hs

theorem keeps_close (hs : Beside other schema s) : close.Keeps (Beside other schema) s :=
  (keeps_flush hs).bind fun _ _ _ ht => ⟨ht, .ok _⟩

end Writer

namespace Dataset

variable {other : Dataset} {schema : Schema} {s : Dataset × Disk} {records : List Record}

/-- What is kept with a writer is kept of its dataset. -/
theorem keeps_writing {α : Type} {step : Step (Writer × Disk) α}
    (h : step.Keeps (Writer.Beside other schema) (Writer.start s.1, s.2)) :
    (writing step).Keeps (Beside other schema) s :=
  ⟨h.state.dataset, h.result⟩

theorem Beside.start (hs : Beside other schema s) :
    Writer.Beside other schema (Writer.start s.1, s.2) :=
  ⟨hs, List.forall_mem_nil _⟩

theorem keeps_append (hs : Beside other schema s)
    (hrecords : ∀ record ∈ records, schema.Admits record) :
    (append records).Keeps (Beside other schema) s :=
  keeps_writing ((Writer.keeps_insertAll hs.start hrecords).bind fun _ _ _ ht =>
    Writer.keeps_close ht)

theorem keeps_clear (hs : Beside other schema s) : clear.Keeps (Beside other schema) s := by
  rcases clear_cases s with hrun | ⟨-, _, _, _, -, hrun⟩
  · constructor
    · rw [hrun]
      exact ⟨hs.schema, .empty rfl _, hs.other.removeAll _⟩
    · rw [hrun]
      exact .ok ()
  · constructor
    · rw [hrun]
      exact ⟨hs.schema, .empty rfl _, hs.other.removeAll _⟩
    · rw [hrun]
      exact .error rfl

theorem keeps_replace (hs : Beside other schema s)
    (hrecords : ∀ record ∈ records, schema.Admits record) :
    (replace records).Keeps (Beside other schema) s :=
  (keeps_clear hs).bind fun _ _ _ ht =>
    (keeps_append ht hrecords).bind fun _ _ _ hu => .pure hu ()

theorem keeps_readAll (hs : Beside other schema s) : readAll.Keeps (Beside other schema) s where
  state := hs
  result := (arityFree_extents s.1 s.2).bind fun _ => .ok _

/-- Sorting keeps a dataset typed, and another one on the same disk. -/
theorem keeps_sort (key : Key) (hs : Beside other schema s) :
    (sort key).Keeps (Beside other schema) s := by
  refine Step.Keeps.get_bind ?_
  refine (Step.Keeps.of_attempt hs (key.arityFree_validate _)).bind fun _ u _ hu => ?_
  split
  · exact .pure hu ()
  · refine (keeps_readAll hu).bind fun records v hread hv => ?_
    -- The records that are put in place of those that were read are the same ones.
    obtain ⟨hrecords, rfl⟩ := Prod.mk.inj (show (u.1.records u.2, u) = (.ok records, v) from hread)
    obtain ⟨extents, hextents, rfl⟩ := exists_extents_of_records hrecords
    refine (keeps_replace hu fun record hrecord => ?_).bind fun _ w _ hw => ?_
    · rw [← hu.schema]
      exact hu.typed.of_extents hextents record ((Record.sortOn_perm key _).mem_iff.1 hrecord)
    · exact ⟨⟨hw.schema, ⟨hw.typed.records, hw.typed.allocated⟩, hw.other⟩, .ok ()⟩

end Dataset
end ExtentEngine
