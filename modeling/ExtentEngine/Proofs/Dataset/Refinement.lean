import ExtentEngine.Proofs.Dataset.Replacing
import ExtentEngine.Proofs.Dataset.SameExtents
import ExtentEngine.Proofs.Disk.Listing

/-!
# Datasets on disk refine datasets in memory

Whatever callers do, a dataset on disk answers them as a dataset in memory does, failures
included.  `Mirrors` is what holds between the two after every action, also after one that
failed half-way: the same extents, of which those on disk have a file each.

**Results.**
* `Mirrors.perform`: one action is answered alike and keeps the two datasets in step.
* `onDisk_refines`: so is every sequence of actions on new datasets.
-/

namespace ExtentEngine

/-- A slot that stores an extent in a file. -/
inductive Slot.Stores (disk : Disk) : Slot → Extent → Prop
  | file {name : FileName} {extent : Extent}
      (read : disk.readItems Record.ofJson? name = .ok extent) (allocated : disk.Allocated name) :
      Stores disk (.file name extent.length) extent

theorem Slot.Stores.load {disk : Disk} {slot : Slot} {extent : Extent}
    (h : slot.Stores disk extent) : slot.load disk = .ok extent := by
  cases h with
  | file read _ =>
      rw [Slot.load, read]
      exact if_pos rfl

theorem Slot.Stores.frame {disk after : Disk} {slot : Slot} {extent : Extent}
    (h : slot.Stores disk extent) (hframe : Disk.Frame (fun _ => False) disk after) :
    slot.Stores after extent := by
  cases h with
  | file read allocated =>
      exact .file ((hframe.readItems allocated id).trans read) (hframe.allocated allocated)

/-- Slots that store extents have a file each. -/
theorem Slot.map_file?_eq {disk : Disk} {slots : List Slot} {extents : List Extent}
    (h : List.Forall₂ (Slot.Stores disk) slots extents) :
    slots.map Slot.file? = (slots.filterMap Slot.file?).map some := by
  induction h with
  | nil => rfl
  | cons hslot _ ih =>
      cases hslot
      exact congrArg _ ih

namespace Dataset

/-- A dataset in memory and one on disk that are in step.  Beside the files of the dataset its
directory has those that others left there, and the disk under the one in memory is idle. -/
structure Mirrors (namer : Namer) (others : List FileName) (idle : Disk)
    (memory stored : Dataset × Disk) : Prop where
  schema : stored.1.schema = memory.1.schema
  limit : stored.1.limit = memory.1.limit
  sortedBy : stored.1.sortedBy = memory.1.sortedBy
  idle : memory.2 = idle
  inMemory : memory.1.namer = none
  onDisk : stored.1.namer = some namer
  writable : Writable stored
  extents : ∃ extents, memory.1.slots = extents.map Slot.memory ∧
    List.Forall₂ (Slot.Stores stored.2) stored.1.slots extents
  listed : (stored.2.filesIn namer.directory).Perm (others ++ stored.1.files)
  nodup : stored.1.files.Nodup
  apart : ∀ file ∈ others, stored.2.Allocated file ∧ file ∉ stored.1.files

variable {namer : Namer} {others : List FileName} {idle : Disk} {s t : Dataset × Disk}

namespace Mirrors

/-- The extents of the two datasets can be loaded and are the same. -/
theorem exists_extents (h : Mirrors namer others idle s t) :
    ∃ extents, s.1.extents s.2 = .ok extents ∧ t.1.extents t.2 = .ok extents := by
  obtain ⟨extents, hmemory, hstored⟩ := h.extents
  refine ⟨extents, ?_, extents_eq_ok.2 (hstored.imp fun _ _ => Slot.Stores.load)⟩
  rw [extents_eq_ok, hmemory, List.forall₂_map_left_iff, List.forall₂_same]
  exact fun _ _ => rfl

/-- Whoever looks at the extents sees the same. -/
theorem sameExtents (h : Mirrors namer others idle s t) : s.1.SameExtents s.2 t.2 t.1 := by
  obtain ⟨extents, hmemory, hstored⟩ := h.exists_extents
  exact sameExtents_of_extents hmemory hstored

theorem records_eq (h : Mirrors namer others idle s t) : t.1.records t.2 = s.1.records s.2 := by
  obtain ⟨extents, hmemory, hstored⟩ := h.exists_extents
  rw [records_eq_ok hmemory, records_eq_ok hstored]

/-- The files of the dataset on disk are allocated. -/
theorem allocated (h : Mirrors namer others idle s t) {file : FileName}
    (hfile : file ∈ t.2.filesIn namer.directory) : t.2.Allocated file := by
  rcases List.mem_append.1 (h.listed.mem_iff.1 hfile) with hother | hown
  · exact (h.apart file hother).1
  · obtain ⟨extents, -, hstored⟩ := h.extents
    obtain ⟨slot, hslot, hfile⟩ := mem_files.1 hown
    obtain ⟨extent, -, hstores⟩ := exists_of_mem_left hstored hslot
    cases hstores with
    | file _ allocated =>
        cases hfile
        exact allocated

/-- Extents are appended, or are too long for both datasets. -/
theorem push (extent : Extent) (h : Mirrors namer others idle s t) :
    Alike (Mirrors namer others idle) ((Dataset.push extent).run s)
      ((Dataset.push extent).run t) := by
  obtain ⟨memory, memoryDisk⟩ := s
  obtain ⟨stored, disk⟩ := t
  have hnamer : memory.namer = none := h.inMemory
  have hnamer' : stored.namer = some namer := h.onDisk
  have hlimit : stored.limit = memory.limit := h.limit
  by_cases hlong : memory.limit < extent.length
  · rw [run_push_of_lt hlong, run_push_of_lt (hlimit ▸ hlong), hlimit]
    exact ⟨rfl, h⟩
  · have hfits : extent.length ≤ memory.limit := Nat.not_lt.1 hlong
    have hnew : ¬disk.Allocated (.fresh namer "extent" disk.nextSerial) := Nat.lt_irrefl _
    have hunlisted : .fresh namer "extent" disk.nextSerial ∉ disk.filesIn namer.directory :=
      fun hlisted => hnew (h.allocated hlisted)
    have hunused : .fresh namer "extent" disk.nextSerial ∉ stored.files :=
      fun hused => hunlisted (h.listed.mem_iff.2 (List.mem_append_right _ hused))
    obtain ⟨extents, hmemory, hstored⟩ := h.extents
    have hstore := Disk.run_store Slot.file Record.toJson namer "extent" extent
      (h.writable.directory namer hnamer') h.writable.calm
    obtain ⟨hframe, -⟩ := Disk.store_cases Slot.file Record.toJson namer "extent" extent disk
    rw [hstore] at hframe
    rw [run_push_inMemory hfits hnamer, run_push_of_stored (hlimit ▸ hfits) hnamer' hstore]
    have hfiles : files { stored with
        slots := stored.slots ++ [.file (.fresh namer "extent" disk.nextSerial) extent.length]
        sortedBy := none } = stored.files ++ [.fresh namer "extent" disk.nextSerial] :=
      List.filterMap_append
    refine ⟨rfl, { h with
      sortedBy := rfl
      writable := h.writable.frame hframe rfl
      extents := ⟨extents ++ [extent], ?_, ?_⟩
      listed := ?_
      nodup := ?_
      apart := fun file hfile => ⟨hframe.allocated (h.apart file hfile).1, ?_⟩ }⟩
    · rw [List.map_append, ← hmemory]
      rfl
    · refine List.rel_append (hstored.imp fun _ _ hslot => hslot.frame hframe) (.cons ?_ .nil)
      exact .file (Record.readItems_of_read? (Disk.read?_put _ _ _))
        (Nat.lt_succ_self disk.nextSerial)
    · rw [hfiles, ← List.append_assoc]
      refine (List.Perm.of_eq (Disk.filesIn_put _ hunlisted)).trans ?_
      exact (h.listed.cons _).trans (List.perm_append_singleton _ _).symm
    · rw [hfiles]
      exact List.concat_eq_append ▸ h.nodup.concat hunused
    · rw [hfiles, List.mem_append, List.mem_singleton]
      rintro (hused | rfl)
      · exact (h.apart file hfile).2 hused
      · exact hnew (h.apart _ hfile).1

/-- Without extents the directory has only the files of others. -/
theorem clear (h : Mirrors namer others idle s t) :
    Alike (Mirrors namer others idle) (Dataset.clear.run s) (Dataset.clear.run t) := by
  have hframe := Disk.frame_removeAll t.1.files t.2
  have hkept : others.filter (· ∉ t.1.files) = others :=
    List.filter_eq_self.2 fun file hfile => decide_eq_true (h.apart file hfile).2
  have hgone : t.1.files.filter (· ∉ t.1.files) = [] :=
    List.filter_eq_nil_iff.2 fun file hfile => by simpa using hfile
  have hnone : s.1.files = [] := by
    obtain ⟨extents, hmemory, -⟩ := h.extents
    rw [files, hmemory, List.filterMap_map]
    exact List.filterMap_none extents
  have hlisted := h.listed.filter (· ∉ t.1.files)
  rw [List.filter_append, hkept, hgone, ← Disk.filesIn_removeAll _ h.writable.calm] at hlisted
  rw [run_clear_of_files_eq_nil hnone, h.writable.run_clear]
  exact ⟨rfl, { h with
    sortedBy := rfl
    writable := h.writable.removed
    extents := ⟨[], rfl, .nil⟩
    listed := hlisted
    nodup := .nil
    apart := fun file hfile =>
      ⟨hframe.allocated (h.apart file hfile).1, List.not_mem_nil⟩ }⟩

end Mirrors
end Dataset

namespace Writer

/-- A writer to a dataset in memory and one to a dataset on disk that are in step. -/
structure Mirrors (namer : Namer) (others : List FileName) (idle : Disk)
    (memory stored : Writer × Disk) : Prop where
  dataset : Dataset.Mirrors namer others idle (memory.1.dataset, memory.2)
    (stored.1.dataset, stored.2)
  buffer : stored.1.buffer = memory.1.buffer
  accepted : stored.1.accepted = memory.1.accepted

namespace Mirrors

variable {namer : Namer} {others : List FileName} {idle : Disk} {s t : Writer × Disk}

theorem flush (h : Mirrors namer others idle s t) :
    Alike (Mirrors namer others idle) (Writer.flush.run s) (Writer.flush.run t) := by
  have hbuffer := h.buffer
  simp only [Step.run, Writer.flush, hbuffer]
  split
  · exact ⟨rfl, h⟩
  · have hpush := h.dataset.push s.1.buffer
    simp only [Step.run] at hpush
    exact ⟨hpush.result, hpush.state, rfl, h.accepted⟩

theorem insert (record : Record) (h : Mirrors namer others idle s t) :
    Alike (Mirrors namer others idle) ((Writer.insert record).run s)
      ((Writer.insert record).run t) := by
  have hschema : t.1.dataset.schema = s.1.dataset.schema := h.dataset.schema
  have hlimit : t.1.dataset.limit = s.1.dataset.limit := h.dataset.limit
  simp only [Writer.insert, Step.run_bind, Step.run_get, hschema, hlimit, h.buffer]
  split
  · have hkept : Mirrors namer others idle
        ({ s.1 with buffer := s.1.buffer ++ [record], accepted := s.1.accepted + 1 }, s.2)
        ({ t.1 with buffer := s.1.buffer ++ [record], accepted := t.1.accepted + 1 }, t.2) :=
      ⟨h.dataset, rfl, congrArg (· + 1) h.accepted⟩
    simp only [Step.run_bind, Step.run_modify]
    split
    · exact hkept.flush
    · exact ⟨rfl, hkept⟩
  · exact ⟨rfl, h⟩

theorem close (h : Mirrors namer others idle s t) :
    Alike (Mirrors namer others idle) (Writer.close.run s) (Writer.close.run t) := by
  refine h.flush.bind fun _ s t h => ?_
  simp only [Step.run_bind, Step.run_get, Step.run_pure, h.accepted]
  exact ⟨rfl, h⟩

theorem offer (records : List Record) (h : Mirrors namer others idle s t) :
    Alike (Mirrors namer others idle) ((Writer.offer records).run s)
      ((Writer.offer records).run t) := by
  induction records generalizing s t with
  | nil => exact ⟨rfl, h⟩
  | cons record records ih =>
      refine (h.insert record).attempt.bind fun _ _ _ h => ?_
      exact (ih h).bind fun _ _ _ h => ⟨rfl, h⟩

theorem session (records : List Record) (closes : Bool) (h : Mirrors namer others idle s t) :
    Alike (Mirrors namer others idle) ((Writer.session records closes).run s)
      ((Writer.session records closes).run t) := by
  refine (h.offer records).bind fun _ _ _ h => ?_
  cases closes with
  | true => exact h.close.attempt.bind fun _ _ _ h => ⟨rfl, h⟩
  | false => exact ⟨rfl, h⟩

end Mirrors

section Answers

theorem exists_offer (records : List Record) (s : Writer × Disk) :
    ∃ results t, (offer records).run s = (.ok results, t) := by
  induction records generalizing s with
  | nil => exact ⟨_, _, rfl⟩
  | cons record records ih =>
      obtain ⟨results, t, hrest⟩ := ih ((insert record).run s).2
      refine ⟨((insert record).run s).1 :: results, t, ?_⟩
      simp only [offer, Step.run_bind, Step.run_attempt, hrest, Step.run_pure]

/-- A session with a writer is answered, whether or not records are taken. -/
theorem exists_session (records : List Record) (closes : Bool) (s : Writer × Disk) :
    ∃ answer t, (session records closes).run s = (.ok answer, t) := by
  obtain ⟨results, t, hoffer⟩ := exists_offer records s
  cases closes with
  | true =>
      refine ⟨(results, some (close.run t).1), (close.run t).2, ?_⟩
      simp only [session, Step.run_bind, hoffer, if_true, Step.run_attempt, Step.run_pure]
  | false =>
      refine ⟨(results, none), t, ?_⟩
      simp only [session, Step.run_bind, hoffer, Bool.false_eq_true, if_false, Step.run_pure]

end Answers
end Writer

namespace Dataset
namespace Mirrors

variable {namer : Namer} {others : List FileName} {idle : Disk} {s t : Dataset × Disk}

theorem writing {α : Type} {step : Step (Writer × Disk) α} (h : Mirrors namer others idle s t)
    (hstep : ∀ s t, Writer.Mirrors namer others idle s t →
      Alike (Writer.Mirrors namer others idle) (step.run s) (step.run t)) :
    Alike (Mirrors namer others idle) ((Dataset.writing step).run s)
      ((Dataset.writing step).run t) := by
  have hstart : Writer.Mirrors namer others idle (Writer.start s.1, s.2) (Writer.start t.1, t.2) :=
    ⟨h, rfl, rfl⟩
  have hdone := hstep _ _ hstart
  exact ⟨hdone.result, hdone.state.dataset⟩

theorem replace (records : List Record) (h : Mirrors namer others idle s t) :
    Alike (Mirrors namer others idle) ((Dataset.replace records).run s)
      ((Dataset.replace records).run t) := by
  refine h.clear.bind fun _ s t h => ?_
  have happend : Alike (Mirrors namer others idle) ((append records).run s)
      ((append records).run t) := h.writing fun _ _ h =>
    (alike_forEach (fun record _ _ h => h.insert record) records h).bind fun _ _ _ h => h.close
  exact happend.bind fun _ _ _ h => ⟨rfl, h⟩

theorem readAll (h : Mirrors namer others idle s t) :
    Alike (Mirrors namer others idle) (Dataset.readAll.run s) (Dataset.readAll.run t) :=
  ⟨h.records_eq.symm, h⟩

theorem rearrange (order : List Record → List Record) (h : Mirrors namer others idle s t) :
    Alike (Mirrors namer others idle) ((Dataset.rearrange order).run s)
      ((Dataset.rearrange order).run t) :=
  h.readAll.bind fun records _ _ h => h.replace (order records)

theorem sort (key : Key) (h : Mirrors namer others idle s t) :
    Alike (Mirrors namer others idle) ((Dataset.sort key).run s) ((Dataset.sort key).run t) := by
  have hsorted : t.1.isSortedBy key = s.1.isSortedBy key := by
    rw [isSortedBy, isSortedBy, h.sortedBy]
  simp only [Dataset.sort, Step.run_bind, Step.run_get, Step.run_ofAttempt, h.schema, hsorted]
  cases key.validate s.1.schema.length with
  | error fault => exact ⟨rfl, h⟩
  | ok _ =>
      cases s.1.isSortedBy key with
      | true => exact ⟨rfl, h⟩
      | false =>
          refine h.readAll.bind fun records _ _ h => ?_
          refine (h.replace (Record.sortOn key records)).bind fun _ _ _ h => ?_
          exact ⟨rfl, { h with
            sortedBy := rfl
            writable := h.writable.frame (.refl (fun _ => False) _) rfl }⟩

/-- One action is answered alike and keeps the two datasets in step. -/
theorem perform (action : Action) (h : Mirrors namer others idle s t) :
    Alike (Mirrors namer others idle) ((Dataset.perform action).run s)
      ((Dataset.perform action).run t) := by
  cases action with
  | write records closes =>
      exact (h.writing fun _ _ h => h.session records closes).bind fun _ _ _ h => ⟨rfl, h⟩
  | push extent => exact (h.push extent).attempt.map _
  | sort key => exact (h.sort key).attempt.map _
  | reverse => exact (h.rearrange List.reverse).attempt.map _
  | clear => exact h.clear.attempt.map _
  | extent index =>
      exact ⟨congrArg (fun result => Except.ok (Answer.extent result))
        (h.sameExtents.extent index).symm, h⟩
  | extentLength index =>
      exact ⟨congrArg (fun result => Except.ok (Answer.length result))
        (h.sameExtents.length index).symm, h⟩
  | records =>
      exact ⟨congrArg (fun result => Except.ok (Answer.records result)) h.records_eq.symm, h⟩
  | read filter moves =>
      exact ⟨congrArg Except.ok (browse_eq h.sameExtents filter moves).symm, h⟩

/-- Actions performed one after the other are answered alike. -/
theorem performAll (actions : List Action) (h : Mirrors namer others idle s t) :
    Alike (Mirrors namer others idle) ((Dataset.performAll actions).run s)
      ((Dataset.performAll actions).run t) := by
  induction actions generalizing s t with
  | nil => exact ⟨rfl, h⟩
  | cons action actions ih =>
      refine (h.perform action).bind fun _ _ _ h => ?_
      exact (ih h).bind fun _ _ _ h => ⟨rfl, h⟩

end Mirrors

section Answers

/-- Every action is answered. -/
theorem exists_perform (action : Action) (s : Dataset × Disk) :
    ∃ answer t, (perform action).run s = (.ok answer, t) := by
  cases action with
  | write records closes =>
      obtain ⟨answer, t, hsession⟩ := Writer.exists_session records closes (Writer.start s.1, s.2)
      simp only [Step.run] at hsession
      refine ⟨.written answer.1 answer.2, (t.1.dataset, t.2), ?_⟩
      simp only [perform, Step.run_bind]
      simp only [Step.run, writing, hsession]
      rfl
  | _ => exact ⟨_, _, rfl⟩

theorem exists_performAll (actions : List Action) (s : Dataset × Disk) :
    ∃ answers t, (performAll actions).run s = (.ok answers, t) := by
  induction actions generalizing s with
  | nil => exact ⟨_, _, rfl⟩
  | cons action actions ih =>
      obtain ⟨answer, t, hfirst⟩ := exists_perform action s
      obtain ⟨answers, u, hrest⟩ := ih t
      refine ⟨answer :: answers, u, ?_⟩
      simp only [performAll, Step.run_bind, hfirst, hrest, Step.run_pure]

end Answers

/-- What callers find of a dataset in memory and of one on disk.  The directory of the latter has
a file for every extent, beside those that others left there. -/
structure Reflects (directory : String) (others : List FileName)
    (memory stored : Dataset × Disk) : Prop where
  extentLengths : stored.1.extentLengths = memory.1.extentLengths
  records : ∃ records, memory.1.records memory.2 = .ok records ∧
    stored.1.records stored.2 = .ok records
  sortedBy : stored.1.sortedBy = memory.1.sortedBy
  files : ∃ files : List FileName, stored.1.slots.map Slot.file? = files.map some ∧
    files.Nodup ∧ (stored.2.filesIn directory).Perm (others ++ files)

variable {namer : Namer} {others : List FileName} {idle : Disk} {s t : Dataset × Disk}

theorem Mirrors.reflects (h : Mirrors namer others idle s t) :
    Reflects namer.directory others s t := by
  obtain ⟨extents, hmemory, hstored⟩ := h.exists_extents
  obtain ⟨_, -, hslots⟩ := h.extents
  refine ⟨?_, ⟨extents.flatten, records_eq_ok hmemory, records_eq_ok hstored⟩, h.sortedBy,
    t.1.files, Slot.map_file?_eq hslots, h.nodup, h.listed⟩
  rw [extentLengths_eq hmemory, extentLengths_eq hstored]

section New

variable {schema : Schema} {limit : Nat} {directory : String} {disk : Disk} {memory : Dataset}

/-- A new dataset on a calm disk is in step with a new one in memory. -/
theorem mirrors_new (hnew : new schema limit = .ok memory) (hcalm : disk.Calm)
    (hmade : ((Disk.ensureDirectory directory).run disk).1 = .ok ())
    (hnames : ∀ file ∈ disk.filesIn directory, disk.Allocated file) (idle : Disk) :
    ∃ namer stored made, (onDisk schema limit directory).run disk = (.ok stored, made) ∧
      namer.directory = directory ∧
      Mirrors namer (disk.filesIn directory) idle (memory, idle) (stored, made) := by
  have hframe := Disk.frame_ensureDirectory (fun _ => False) directory disk
  have hlisted := Disk.filesIn_ensureDirectory directory disk directory
  have hrun : (Disk.ensureDirectory directory).run disk =
      (.ok (), ((Disk.ensureDirectory directory).run disk).2) := Prod.ext hmade rfl
  generalize ((Disk.ensureDirectory directory).run disk).2 = made at hframe hlisted hrun
  have hstored : (onDisk schema limit directory).run disk = (.ok { memory with
      namer := some ((Namer.inDirectory directory).withLabel "dataset") }, made) := by
    rw [onDisk, Step.run_bind, Step.run_ofAttempt, hnew]
    simp only [Step.run_bind, hrun, Step.run_pure]
  refine ⟨(Namer.inDirectory directory).withLabel "dataset", _, made, hstored, rfl, ?_⟩
  · rw [new] at hnew
    split at hnew
    · cases hnew
      exact {
        schema := rfl
        limit := rfl
        sortedBy := rfl
        idle := rfl
        inMemory := rfl
        onDisk := rfl
        writable := (valid_onDisk hstored hcalm).writable
        extents := ⟨[], rfl, .nil⟩
        listed := (List.Perm.of_eq hlisted).trans (List.Perm.of_eq (List.append_nil _).symm)
        nodup := .nil
        apart := fun file hfile => ⟨hframe.allocated (hnames file hfile), List.not_mem_nil⟩ }
    · cases hnew

theorem onDisk_of_not_new {fault : Fault} (hnew : new schema limit = .error fault) :
    (onDisk schema limit directory).run disk = (.error fault, disk) := by
  rw [onDisk, Step.run_bind, Step.run_ofAttempt, hnew]

end New

/-- Whatever callers do, a dataset on a calm disk answers them as a dataset in memory does, and has
a file for each extent.  `idle` is the disk that the dataset in memory has no use for. -/
theorem onDisk_refines {schema : Schema} {limit : Nat} {directory : String} {disk : Disk}
    (hcalm : disk.Calm) (hmade : ((Disk.ensureDirectory directory).run disk).1 = .ok ())
    (hnames : ∀ file ∈ disk.filesIn directory, disk.Allocated file) (idle : Disk) :
    match new schema limit with
    | .error fault => ((onDisk schema limit directory).run disk).1 = .error fault
    | .ok memory => ∃ stored made,
      (onDisk schema limit directory).run disk = (.ok stored, made) ∧
      ∀ actions, ∃ answers memory' stored' after,
        (performAll actions).run (memory, idle) = (.ok answers, (memory', idle)) ∧
        (performAll actions).run (stored, made) = (.ok answers, (stored', after)) ∧
        Reflects directory (disk.filesIn directory) (memory', idle) (stored', after) := by
  cases hnew : new schema limit with
  | error fault => rw [onDisk_of_not_new hnew]
  | ok memory =>
      obtain ⟨namer, stored, made, hrun, rfl, hmirrors⟩ := mirrors_new hnew hcalm hmade hnames idle
      refine ⟨stored, made, hrun, fun actions => ?_⟩
      obtain ⟨hresult, hstate⟩ := hmirrors.performAll actions
      obtain ⟨answers, ⟨memory', idle'⟩, hmemory⟩ := exists_performAll actions (memory, idle)
      rcases hstored : (performAll actions).run (stored, made) with ⟨answers', stored', after⟩
      rw [hmemory, hstored] at hresult hstate
      cases hresult
      obtain rfl : idle' = idle := hstate.idle
      exact ⟨answers, memory', stored', after, hmemory, rfl, hstate.reflects⟩

/-- A writer that is dropped after it refused a record, an extent that is too long, a sort, and
a cursor that goes back too far. -/
def smallActions : List Action :=
  [.write [[.float ⟨0xfff0000000000123⟩], [], [.float ⟨0x8000000000000000⟩], [.null]] false,
    .push [[.null], [.null], [.null]], .push [[.text "a\"\n"]], .sort [0],
    .records, .read none [.advance, .next, .revert 3], .reverse, .extentLength 7, .clear]

theorem onDisk_refines_small : ∃ stored made,
    (onDisk [⟨"x", .float64, true⟩] 2 "/tmp").run .empty = (.ok stored, made) ∧
      ∃ answers memory' stored' after,
        (performAll smallActions).run
          (⟨[⟨"x", .float64, true⟩], 2, by decide, [], none, none⟩, .empty) =
          (.ok answers, (memory', .empty)) ∧
        (performAll smallActions).run (stored, made) = (.ok answers, (stored', after)) ∧
        Reflects "/tmp" [] (memory', .empty) (stored', after) := by
  have hnames : ∀ file ∈ Disk.empty.filesIn "/tmp", Disk.empty.Allocated file :=
    List.forall_mem_nil _
  obtain ⟨stored, made, hrun, hactions⟩ :=
    @onDisk_refines [⟨"x", .float64, true⟩] 2 "/tmp" .empty rfl rfl hnames .empty
  exact ⟨stored, made, hrun, hactions smallActions⟩

end Dataset
end ExtentEngine
