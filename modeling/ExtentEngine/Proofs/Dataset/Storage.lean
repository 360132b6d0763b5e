import ExtentEngine.Dataset.Writer
import ExtentEngine.Proofs.Attempt
import ExtentEngine.Proofs.Disk.Frame
import ExtentEngine.Proofs.Lists
import ExtentEngine.Proofs.Record.Codec
import ExtentEngine.Proofs.Record.Order

/-!
# Datasets and the disk

`Dataset.Valid` is what holds of every dataset: its extents can be loaded, its records have
the arity of the schema and are sorted as the dataset claims, and its files are its own.

**Results.**
* `Valid.frame`: operations that own none of its files leave a dataset as it is.
* `valid_new` and `valid_onDisk`: a new dataset is valid, in memory and on disk.
* `push_cases`: an extent is appended, or nothing is, and why.
* `Appended.valid`: appending records of the right arity keeps a dataset valid.
-/

namespace ExtentEngine

/-- What is loaded from a slot depends on its file only. -/
theorem Slot.load_congr {disk after : Disk} {slot : Slot}
    (h : ∀ file, slot.file? = some file → after.read? file = disk.read? file) :
    slot.load after = slot.load disk := by
  cases slot with
  | memory extent => rfl
  | file name length => rw [load, load, Disk.readItems, Disk.readItems, h name rfl]

theorem Slot.load_frame {own : FileName → Prop} {disk after : Disk}
    (hframe : Disk.Frame own disk after) {slot : Slot}
    (hfile : ∀ file, slot.file? = some file → disk.Allocated file ∧ ¬own file) :
    slot.load after = slot.load disk :=
  load_congr fun file hslot => hframe.read file (hfile file hslot).1 (hfile file hslot).2

theorem Slot.length_of_load {disk : Disk} {slot : Slot} {extent : Extent}
    (h : slot.load disk = .ok extent) : slot.length = extent.length := by
  cases slot with
  | memory other =>
      cases h
      rfl
  | file name length =>
      rw [load, Attempt.bind_eq_ok] at h
      obtain ⟨records, -, h⟩ := h
      split at h
      · next heq =>
          cases h
          exact heq.symm
      · cases h

namespace Dataset

/-- The files of the extents. -/
def files (dataset : Dataset) : List FileName := dataset.slots.filterMap Slot.file?

theorem mem_files {dataset : Dataset} {file : FileName} :
    file ∈ dataset.files ↔ ∃ slot ∈ dataset.slots, slot.file? = some file :=
  List.mem_filterMap

theorem extents_eq_ok {disk : Disk} {dataset : Dataset} {extents : List Extent} :
    dataset.extents disk = .ok extents ↔
      List.Forall₂ (fun slot extent => slot.load disk = .ok extent) dataset.slots extents :=
  Attempt.mapM_eq_ok

theorem extentCount_eq {disk : Disk} {dataset : Dataset} {extents : List Extent}
    (h : dataset.extents disk = .ok extents) : dataset.extentCount = extents.length :=
  (extents_eq_ok.1 h).length_eq

theorem exists_slot {disk : Disk} {dataset : Dataset} {extents : List Extent}
    (h : dataset.extents disk = .ok extents) {index : Nat} {extent : Extent}
    (hextent : extents[index]? = some extent) :
    ∃ slot, dataset.slot index = .ok slot ∧ slot.load disk = .ok extent := by
  have hloads := extents_eq_ok.1 h
  obtain ⟨hindex, rfl⟩ := List.getElem?_eq_some_iff.1 hextent
  have hslot : index < dataset.slots.length := hloads.length_eq ▸ hindex
  refine ⟨dataset.slots[index], ?_, hloads.get hslot hindex⟩
  rw [slot, List.getElem?_eq_getElem hslot]

theorem extent_eq_ok {disk : Disk} {dataset : Dataset} {extents : List Extent}
    (h : dataset.extents disk = .ok extents) {index : Nat} {extent : Extent}
    (hextent : extents[index]? = some extent) : dataset.extent disk index = .ok extent := by
  obtain ⟨slot, hslot, hload⟩ := exists_slot h hextent
  rw [Dataset.extent, hslot]
  exact hload

/-- Extents that can be loaded are as long as it is noted. -/
theorem extentLengths_eq {disk : Disk} {dataset : Dataset} {extents : List Extent}
    (h : dataset.extents disk = .ok extents) :
    dataset.extentLengths = extents.map List.length := by
  rw [extentLengths, ← List.forall₂_eq_eq_eq, List.forall₂_map_left_iff, List.forall₂_map_right_iff]
  exact (extents_eq_ok.1 h).imp fun _ _ => Slot.length_of_load

theorem recordCount_eq {disk : Disk} {dataset : Dataset} {extents : List Extent}
    (h : dataset.extents disk = .ok extents) : dataset.recordCount = extents.flatten.length := by
  rw [recordCount, extentLengths_eq h]
  exact List.length_flatten.symm

theorem records_eq_ok {disk : Disk} {dataset : Dataset} {extents : List Extent}
    (h : dataset.extents disk = .ok extents) : dataset.records disk = .ok extents.flatten := by
  rw [records, h]
  rfl

/-- Records come from extents. -/
theorem exists_extents_of_records {disk : Disk} {dataset : Dataset} {records : List Record}
    (h : dataset.records disk = .ok records) :
    ∃ extents, dataset.extents disk = .ok extents ∧ extents.flatten = records := by
  obtain ⟨extents, hextents, hpure⟩ := Attempt.bind_eq_ok.1 h
  cases hpure
  exact ⟨extents, hextents, rfl⟩

/-- The extents of a dataset can be loaded, and none of its files will be made anew. -/
structure Readable (disk : Disk) (dataset : Dataset) (extents : List Extent) : Prop where
  loads : dataset.extents disk = .ok extents
  allocated : ∀ file ∈ dataset.files, disk.Allocated file

/-- Whether extents can be appended to a dataset and removed: nothing goes wrong with any operation
to come, and if the dataset is on disk its directory is there. -/
structure Writable (s : Dataset × Disk) : Prop where
  calm : s.2.Calm
  directory : ∀ namer, s.1.namer = some namer → s.2.hasDirectory namer.directory = true

/-- What holds of a dataset with the given extents. -/
structure Valid (disk : Disk) (dataset : Dataset) (extents : List Extent) : Prop
    extends Readable disk dataset extents where
  arity : ∀ record ∈ extents.flatten, record.length = dataset.schema.length
  sorted : ∀ key, dataset.sortedBy = some key →
    extents.flatten.Pairwise fun a b => Record.leOn key a b = true
  writable : Writable (dataset, disk)

section Frame

variable {own : FileName → Prop} {disk after : Disk} {dataset : Dataset} {extents : List Extent}

/-- Operations leave a dataset writable. -/
theorem Writable.frame {s t : Dataset × Disk} (hs : Writable s)
    (hframe : Disk.Frame own s.2 t.2) (hnamer : t.1.namer = s.1.namer) : Writable t where
  calm := hframe.calm hs.calm
  directory namer h := hframe.hasDirectory (hs.directory namer (hnamer.symm.trans h))

/-- Operations that own none of its files leave the extents of a dataset as they are. -/
theorem Readable.frame (h : dataset.Readable disk extents) (hframe : Disk.Frame own disk after)
    (hown : ∀ file ∈ dataset.files, ¬own file) : dataset.Readable after extents where
  loads := by
    have hloads := extents_eq_ok.1 h.loads
    refine extents_eq_ok.2 (List.forall₂_iff_get.2 ⟨hloads.length_eq, fun i hi hi' => ?_⟩)
    rw [Slot.load_frame hframe]
    · exact hloads.get hi hi'
    · intro file hfile
      have hmem : file ∈ dataset.files := mem_files.2 ⟨_, List.get_mem _ _, hfile⟩
      exact ⟨h.allocated file hmem, hown file hmem⟩
  allocated file hfile := hframe.allocated (h.allocated file hfile)

/-- Operations that own none of its files leave a dataset as it is. -/
theorem Valid.frame (h : dataset.Valid disk extents) (hframe : Disk.Frame own disk after)
    (hown : ∀ file ∈ dataset.files, ¬own file) : dataset.Valid after extents where
  toReadable := h.toReadable.frame hframe hown
  arity := h.arity
  sorted := h.sorted
  writable := h.writable.frame hframe rfl

end Frame

section New

variable {schema : Schema} {limit : Nat} {dataset : Dataset}

/-- A new dataset on a calm disk is valid. -/
theorem valid_new {disk : Disk} (h : new schema limit = .ok dataset) (hcalm : disk.Calm) :
    dataset.Valid disk [] := by
  rw [new] at h
  split at h
  · cases h
    exact ⟨⟨rfl, nofun⟩, nofun, nofun, hcalm, nofun⟩
  · cases h

theorem slots_new (h : new schema limit = .ok dataset) : dataset.slots = [] := by
  rw [new] at h
  split at h
  · cases h
    rfl
  · cases h

/-- A dataset on disk is a new one, with a directory that was made for its files. -/
theorem exists_new_of_onDisk {directory : String} {disk after : Disk}
    (h : (onDisk schema limit directory).run disk = (.ok dataset, after)) :
    ∃ fresh, new schema limit = .ok fresh ∧
      (Disk.ensureDirectory directory).run disk = (.ok (), after) ∧
      dataset =
        { fresh with namer := some ((Namer.inDirectory directory).withLabel "dataset") } := by
  rw [onDisk, Step.run_bind, Step.run_ofAttempt] at h
  cases hnew : new schema limit with
  | error fault =>
      rw [hnew] at h
      cases h
  | ok fresh =>
      rw [hnew] at h
      simp only [Step.run_bind] at h
      rcases hensure : (Disk.ensureDirectory directory).run disk with ⟨result, made⟩
      rw [hensure] at h
      cases result with
      | error fault => cases h
      | ok _ =>
          cases h
          exact ⟨fresh, rfl, rfl, rfl⟩

/-- A new dataset on a calm disk is valid. -/
theorem valid_onDisk {directory : String} {disk after : Disk}
    (h : (onDisk schema limit directory).run disk = (.ok dataset, after)) (hcalm : disk.Calm) :
    dataset.Valid after [] := by
  obtain ⟨fresh, hnew, hensure, rfl⟩ := exists_new_of_onDisk h
  have hframe := Disk.frame_ensureDirectory (fun _ => False) directory disk
  rw [hensure] at hframe
  have hvalid := valid_new hnew (hframe.calm hcalm)
  refine ⟨⟨hvalid.loads, hvalid.allocated⟩, hvalid.arity, hvalid.sorted, hvalid.writable.calm, ?_⟩
  rintro namer ⟨⟩
  exact Disk.hasDirectory_of_ensureDirectory hensure

/-- A dataset on disk is made without touching any files. -/
theorem frame_onDisk (own : FileName → Prop) (schema : Schema) (limit : Nat) (directory : String)
    (disk : Disk) : Disk.Frame own disk ((onDisk schema limit directory).run disk).2 := by
  have hframe := Disk.frame_ensureDirectory own directory disk
  rw [onDisk, Step.run_bind, Step.run_ofAttempt]
  cases new schema limit with
  | error fault => exact .refl _ _
  | ok fresh =>
      simp only [Step.run_bind]
      rcases hensure : (Disk.ensureDirectory directory).run disk with ⟨result, made⟩
      rw [hensure] at hframe
      cases result <;> exact hframe

end New

/-- What appending extents makes of a dataset and the disk. -/
structure Appended (extents : List Extent) (before after : Dataset × Disk) : Prop where
  dataset : ∃ slots sortedBy,
    after.1 = { before.1 with slots := before.1.slots ++ slots, sortedBy := sortedBy } ∧
    List.Forall₂ (fun slot extent => slot.load after.2 = .ok extent) slots extents ∧
    ∀ slot ∈ slots, ∀ file, slot.file? = some file →
      ¬before.2.Allocated file ∧ after.2.Allocated file
  marker : after.1.sortedBy = none ∨ after.1 = before.1
  frame : Disk.Frame (fun _ => False) before.2 after.2

/-- Nothing is appended, whatever becomes of the disk beside allocated files. -/
theorem Appended.idle {disk after : Disk} (dataset : Dataset)
    (h : Disk.Frame (fun _ => False) disk after) :
    Appended [] (dataset, disk) (dataset, after) where
  dataset := ⟨[], dataset.sortedBy, by rw [List.append_nil], .nil, nofun⟩
  marker := Or.inr rfl
  frame := h

theorem Appended.refl (s : Dataset × Disk) : Appended [] s s := .idle s.1 (.refl _ _)

theorem Appended.trans {first last : List Extent} {s t u : Dataset × Disk}
    (hfirst : Appended first s t) (hlast : Appended last t u) : Appended (first ++ last) s u where
  dataset := by
    obtain ⟨slots, sortedBy, hdataset, hloads, hnew⟩ := hfirst.dataset
    obtain ⟨slots', sortedBy', hdataset', hloads', hnew'⟩ := hlast.dataset
    refine ⟨slots ++ slots', sortedBy', ?_, List.rel_append ?_ hloads', ?_⟩
    · rw [hdataset', hdataset, List.append_assoc]
    · refine List.forall₂_iff_get.2 ⟨hloads.length_eq, fun i hi hi' => ?_⟩
      rw [Slot.load_frame hlast.frame]
      · exact hloads.get hi hi'
      · exact fun file hfile => ⟨(hnew _ (List.get_mem _ _) file hfile).2, id⟩
    · intro slot hslot file hfile
      rcases List.mem_append.1 hslot with hslot | hslot
      · obtain ⟨hbefore, hafter⟩ := hnew slot hslot file hfile
        exact ⟨hbefore, hlast.frame.allocated hafter⟩
      · obtain ⟨hbefore, hafter⟩ := hnew' slot hslot file hfile
        exact ⟨fun h => hbefore (hfirst.frame.allocated h), hafter⟩
  marker := by
    rcases hlast.marker with hnone | hsame
    · exact Or.inl hnone
    · rw [hsame]
      exact hfirst.marker
  frame := hfirst.frame.trans hlast.frame

theorem Appended.namer {extents : List Extent} {s t : Dataset × Disk}
    (h : Appended extents s t) : t.1.namer = s.1.namer := by
  obtain ⟨slots, sortedBy, hdataset, -, -⟩ := h.dataset
  rw [hdataset]

theorem Appended.writable {extents : List Extent} {s t : Dataset × Disk}
    (h : Appended extents s t) (hs : Writable s) : Writable t :=
  hs.frame h.frame h.namer

theorem Appended.schema {extents : List Extent} {s t : Dataset × Disk}
    (h : Appended extents s t) : t.1.schema = s.1.schema := by
  obtain ⟨slots, sortedBy, hdataset, -, -⟩ := h.dataset
  rw [hdataset]

theorem Appended.limit {extents : List Extent} {s t : Dataset × Disk}
    (h : Appended extents s t) : t.1.limit = s.1.limit := by
  obtain ⟨slots, sortedBy, hdataset, -, -⟩ := h.dataset
  rw [hdataset]

/-- The files of what was appended to a dataset are new. -/
theorem Appended.not_allocated {extents : List Extent} {s t : Dataset × Disk}
    (h : Appended extents s t) {file : FileName} (hfile : file ∈ t.1.files) :
    file ∈ s.1.files ∨ ¬s.2.Allocated file := by
  obtain ⟨slots, sortedBy, hdataset, -, hnew⟩ := h.dataset
  obtain ⟨slot, hslot, hfile⟩ := mem_files.1 hfile
  rw [hdataset] at hslot
  rcases List.mem_append.1 hslot with hold | hslot
  · exact Or.inl (mem_files.2 ⟨slot, hold, hfile⟩)
  · exact Or.inr (hnew slot hslot file hfile).1

/-- The files of the extents that were appended have names that are in use. -/
theorem Appended.allocated {extents : List Extent} {s t : Dataset × Disk}
    (h : Appended extents s t) (hkept : ∀ file ∈ s.1.files, t.2.Allocated file) :
    ∀ file ∈ t.1.files, t.2.Allocated file := by
  intro file hfile
  obtain ⟨slots, sortedBy, hdataset, -, hnew⟩ := h.dataset
  obtain ⟨slot, hslot, hfile⟩ := mem_files.1 hfile
  rw [hdataset] at hslot
  rcases List.mem_append.1 hslot with hold | hslot
  · exact hkept file (mem_files.2 ⟨slot, hold, hfile⟩)
  · exact (hnew slot hslot file hfile).2

/-- Nothing was appended to a dataset that is known to be sorted. -/
theorem Appended.of_marked {extents : List Extent} {s t : Dataset × Disk} {key : Key}
    (h : Appended extents s t) (hkey : t.1.sortedBy = some key) :
    extents = [] ∧ s.1.sortedBy = some key := by
  rcases h.marker with hnone | hsame
  · rw [hnone] at hkey
    cases hkey
  · obtain ⟨slots, sortedBy, hdataset, hloads, -⟩ := h.dataset
    have hslots : s.1.slots = s.1.slots ++ slots :=
      congrArg Dataset.slots (hsame.symm.trans hdataset)
    cases List.append_right_eq_self.1 hslots.symm
    cases hloads
    exact ⟨rfl, hsame ▸ hkey⟩

/-- Appending records of the right arity keeps a dataset valid. -/
theorem Appended.valid {extents extents' : List Extent} {s t : Dataset × Disk}
    (h : Appended extents' s t) (hs : s.1.Valid s.2 extents)
    (harity : ∀ record ∈ extents'.flatten, record.length = s.1.schema.length) :
    t.1.Valid t.2 (extents ++ extents') := by
  have hkept := hs.frame h.frame fun _ _ => id
  obtain ⟨slots, sortedBy, hdataset, hloads, -⟩ := h.dataset
  have hslots : t.1.slots = s.1.slots ++ slots := congrArg Dataset.slots hdataset
  refine ⟨⟨?_, h.allocated hkept.allocated⟩, ?_, fun key hkey => ?_, h.writable hs.writable⟩
  · rw [extents_eq_ok, hslots]
    exact List.rel_append (extents_eq_ok.1 hkept.loads) hloads
  · rw [List.flatten_append, h.schema]
    exact List.forall_mem_append.2 ⟨hs.arity, harity⟩
  · obtain ⟨rfl, hkey⟩ := h.of_marked hkey
    rw [List.append_nil]
    exact hs.sorted key hkey

section Push

variable {extent : Extent} {dataset : Dataset} {disk : Disk}

theorem run_push_of_lt (hlimit : dataset.limit < extent.length) :
    (push extent).run (dataset, disk) =
      (.error (.extentTooLong extent.length dataset.limit), (dataset, disk)) := if_pos hlimit

theorem run_push_inMemory (hlimit : extent.length ≤ dataset.limit) (hnamer : dataset.namer = none) :
    (push extent).run (dataset, disk) =
      (.ok (), ({ dataset with
        slots := dataset.slots ++ [.memory extent], sortedBy := none }, disk)) := by
  have hlimit' : ¬dataset.limit < extent.length := Nat.not_lt.2 hlimit
  simp only [Step.run, push, hlimit', if_false, hnamer]

theorem run_push_of_stored {namer : Namer} {slot : Slot} {after : Disk}
    (hlimit : extent.length ≤ dataset.limit) (hnamer : dataset.namer = some namer)
    (hstore : (storeExtent namer extent).run disk = (.ok slot, after)) :
    (push extent).run (dataset, disk) =
      (.ok (), ({ dataset with slots := dataset.slots ++ [slot], sortedBy := none }, after)) := by
  have hlimit' : ¬dataset.limit < extent.length := Nat.not_lt.2 hlimit
  rw [Step.run] at hstore
  simp only [Step.run, push, hlimit', if_false, hnamer, hstore]

theorem run_push_of_not_stored {namer : Namer} {fault : Fault} {after : Disk}
    (hlimit : extent.length ≤ dataset.limit) (hnamer : dataset.namer = some namer)
    (hstore : (storeExtent namer extent).run disk = (.error fault, after)) :
    (push extent).run (dataset, disk) = (.error fault, (dataset, after)) := by
  have hlimit' : ¬dataset.limit < extent.length := Nat.not_lt.2 hlimit
  rw [Step.run] at hstore
  simp only [Step.run, push, hlimit', if_false, hnamer, hstore]

/-- An extent is appended, or nothing is: it is too long, or its file cannot be written. -/
theorem push_cases (extent : Extent) (s : Dataset × Disk) :
    (extent.length ≤ s.1.limit ∧ ∃ t, (push extent).run s = (.ok (), t) ∧ Appended [extent] s t) ∨
    (s.1.limit < extent.length ∧
      (push extent).run s = (.error (.extentTooLong extent.length s.1.limit), s)) ∨
    (extent.length ≤ s.1.limit ∧ ¬Writable s ∧ ∃ fault t, (push extent).run s = (.error fault, t) ∧
      fault.isWriteFailure = true ∧ t.1 = s.1 ∧ Appended [] s t) := by
  obtain ⟨dataset, disk⟩ := s
  rcases Nat.lt_or_ge dataset.limit extent.length with hlong | hlimit
  · exact Or.inr (Or.inl ⟨hlong, run_push_of_lt hlong⟩)
  · cases hnamer : dataset.namer with
    | none =>
        refine Or.inl ⟨hlimit, _, run_push_inMemory hlimit hnamer,
          ⟨[.memory extent], none, rfl, .cons rfl .nil, ?_⟩, Or.inl rfl, .refl _ _⟩
        rintro slot hslot file hfile
        rw [List.mem_singleton.1 hslot] at hfile
        cases hfile
    | some namer =>
        obtain ⟨hframe, hcases⟩ :=
          Disk.store_cases Slot.file Record.toJson namer "extent" extent disk
        rcases hstore : (storeExtent namer extent).run disk with ⟨result, after⟩
        rw [← storeExtent, hstore] at hframe hcases
        rcases hcases with ⟨_, hrun, hread, hallocated⟩ | ⟨fault, hfault, hfile⟩
        · cases hrun
          refine Or.inl ⟨hlimit, _, run_push_of_stored hlimit hnamer hstore,
            ⟨[_], none, rfl, .cons ?_ .nil, ?_⟩, Or.inl rfl, hframe⟩
          · rw [Slot.load, Record.readItems_of_read? hread]
            exact if_pos rfl
          · rintro slot hslot file hfile
            rw [List.mem_singleton.1 hslot] at hfile
            cases hfile
            exact ⟨Nat.lt_irrefl _, hallocated⟩
        · cases hfault
          refine Or.inr (Or.inr ⟨hlimit, fun hs => ?_, fault, _,
            run_push_of_not_stored hlimit hnamer hstore, hfile, rfl, .idle dataset hframe⟩)
          have hstored := Disk.run_store Slot.file Record.toJson namer "extent" extent
            (hs.directory namer hnamer) hs.calm
          rw [← storeExtent, hstore] at hstored
          cases hstored

end Push

end Dataset
end ExtentEngine
