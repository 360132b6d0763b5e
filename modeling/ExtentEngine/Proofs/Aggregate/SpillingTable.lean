import ExtentEngine.Aggregate.SpillingTable
import ExtentEngine.Proofs.Aggregate.Consolidation
import ExtentEngine.Proofs.Aggregate.Table
import ExtentEngine.Proofs.Disk.Owners
import ExtentEngine.Proofs.Lists

/-!
# What spilling tables hold

The groups of a spilling table are in memory and in its files.  Spilling puts the groups in
memory into a further file, and consolidating leaves one group of every key, made from all
that belonged to the key.

**Results.**
* `exists_spill`: groups are spilled, unless a file operation fails.
* `exists_close` and `exists_consolidate`: closing and consolidating keep what belongs to
  every key.
-/

namespace ExtentEngine

section Files

variable {β : Type} {disk : Disk} {files : List SpillFile} {contents : List (List (Part β))}

theorem FilesStore.allocated {contents : List (List Group)} (h : FilesStore disk files contents) :
    ∀ name ∈ namesOf files, disk.Allocated name := by
  intro name hname
  obtain ⟨file, hfile, rfl⟩ := List.mem_map.1 hname
  obtain ⟨groups, -, hholds⟩ := exists_of_mem_left h hfile
  exact hholds.allocated

theorem FilesHold.allocated (h : FilesHold disk files contents) :
    ∀ name ∈ namesOf files, disk.Allocated name :=
  (filesStore_iff.2 h).allocated

/-- Files without groups may be left out. -/
theorem FilesStore.filter {contents : List (List Group)} (h : FilesStore disk files contents) :
    FilesStore disk (files.filter fun file => !decide (file.size = 0))
      (contents.filter fun groups => !groups.isEmpty) := by
  refine forall₂_filter h fun file groups hfile => ?_
  rw [hfile.size]
  cases groups <;> rfl

theorem FilesHold.exists_filter (h : FilesHold disk files contents) :
    ∃ contents', FilesHold disk (files.filter fun file => !decide (file.size = 0)) contents' ∧
      contents'.flatten = contents.flatten := by
  refine ⟨contents.filter fun parts => !parts.isEmpty, ?_, List.flatten_filter_not_isEmpty⟩
  have hsame : contents.filter ((fun groups => !groups.isEmpty) ∘ groupsOf) =
      contents.filter fun parts => !parts.isEmpty :=
    List.filter_congr fun _ _ => congrArg not List.isEmpty_map
  have hfilter := (filesStore_iff.2 h).filter
  rw [List.filter_map, hsame] at hfilter
  exact filesStore_iff.1 hfilter

theorem namesOf_append (files others : List SpillFile) :
    namesOf (files ++ others) = namesOf files ++ namesOf others :=
  List.map_append

end Files

namespace SpillingTable

variable {β : Type}

/-- A table with the parts of its groups in memory and in its files. -/
structure Holds (disk : Disk) (s : SpillingTable) (parts : List (Part β))
    (contents : List (List (Part β))) : Prop where
  table : s.table.groups = groupsOf parts
  sorted : Groups.Sorted (groupsOf parts)
  files : FilesHold disk s.spills contents
  names : (namesOf s.spills).Nodup
  /-- Once consolidated, there is nothing in memory beside the files. -/
  settled : s.consolidated = true → s.spills ≠ [] → parts = [] ∧ (keysOf contents.flatten).Nodup

/-- Tables with the same grouping, capacity and place of files. -/
structure SameSettings (s s' : SpillingTable) : Prop where
  grouping : s'.table.grouping = s.table.grouping
  capacity : s'.table.capacity = s.table.capacity
  namer : s'.namer = s.namer

variable {made : Group → List β → Prop} {bound : Nat} {disk after : Disk} {s s' : SpillingTable}
  {parts : List (Part β)} {contents : List (List (Part β))}

theorem SameSettings.refl (s : SpillingTable) : SameSettings s s := ⟨rfl, rfl, rfl⟩

theorem SameSettings.trans {s'' : SpillingTable} (h : SameSettings s s')
    (h' : SameSettings s' s'') : SameSettings s s'' :=
  ⟨h'.grouping.trans h.grouping, h'.capacity.trans h.capacity, h'.namer.trans h.namer⟩

theorem holds_new {grouping : Grouping} {maxGroups : Nat} {namer : Namer}
    (h : new grouping maxGroups namer = .ok s) (disk : Disk) :
    s.Holds disk ([] : List (Part β)) [] := by
  rw [new] at h
  split at h
  · cases h
  · cases h
    exact ⟨rfl, .nil, .nil, .nil, nofun⟩

/-- Operations that own none of its files leave the groups of a table where they are. -/
theorem Holds.frame (h : s.Holds disk parts contents) {own : FileName → Prop}
    (hframe : Disk.Frame own disk after) (hown : ∀ name ∈ namesOf s.spills, ¬own name) :
    s.Holds after parts contents :=
  ⟨h.table, h.sorted, h.files.frame hframe hown, h.names, h.settled⟩

theorem Holds.contents_eq_nil (h : s.Holds disk parts contents) (hspills : s.spills = []) :
    contents = [] := by
  have hfiles := h.files
  rw [hspills] at hfiles
  exact List.forall₂_nil_left_iff.1 hfiles

section Spill

theorem spill_of_isEmpty (h : s.table.groups.isEmpty = true) (disk : Disk) :
    spill.run (s, disk) = (.ok (), s, disk) := by
  rw [Step.run, spill, h]
  rfl

theorem spill_of_create (h : s.table.groups.isEmpty = false) {file : SpillFile}
    (hcreate : (SpillFile.create s.namer s.table.groups).run disk = (.ok file, after)) :
    spill.run (s, disk) = (.ok (), { s with
      table := s.table.newEmpty, spills := s.spills ++ [file], spillCount := s.spillCount + 1 },
      after) := by
  rw [Step.run, spill, h]
  simp only [Bool.false_eq_true, if_false, hcreate]

/-- Groups that cannot be written to a file have been taken out of memory. -/
theorem spill_of_create_error (h : s.table.groups.isEmpty = false) {fault : Fault}
    (hcreate : (SpillFile.create s.namer s.table.groups).run disk = (.error fault, after)) :
    spill.run (s, disk) = (.error fault, { s with table := s.table.newEmpty }, after) := by
  rw [Step.run, spill, h]
  simp only [Bool.false_eq_true, if_false, hcreate]

theorem spill_of_error (h : s.table.groups.isEmpty = false) {fault : Fault}
    (hcreate : ((SpillFile.create s.namer s.table.groups).run disk).1 = .error fault) :
    (spill.run (s, disk)).1 = .error fault := by
  rw [spill_of_create_error h (Prod.ext hcreate rfl)]

/-- Groups in memory are put into a new file, unless a file operation fails. -/
theorem spill_cases (hsorted : Groups.Sorted s.table.groups)
    (hfiles : FilesWork (spill.run (s, disk)).1) :
    (s.table.groups = [] ∧ spill.run (s, disk) = (.ok (), s, disk)) ∨
      s.table.groups ≠ [] ∧ ∃ file after, spill.run (s, disk) = (.ok (), { s with
          table := s.table.newEmpty, spills := s.spills ++ [file],
          spillCount := s.spillCount + 1 }, after) ∧
        file.Holds after s.table.groups ∧ Disk.Frame (fun _ => False) disk after ∧
        ¬disk.Allocated file.file := by
  cases hempty : s.table.groups.isEmpty with
  | true => exact Or.inl ⟨List.isEmpty_iff.1 hempty, spill_of_isEmpty hempty disk⟩
  | false =>
      have hne : s.table.groups ≠ [] := fun hnil => by
        rw [hnil] at hempty
        cases hempty
      obtain ⟨hframe, hcases⟩ := SpillFile.create_cases s.namer s.table.groups disk
      obtain ⟨file, after, hcreate, hholds, hnew, -⟩ :=
        (hfiles.of_error fun fault hfault => spill_of_error hempty hfault).resolve hcases
      rw [hcreate] at hframe
      exact Or.inr ⟨hne, file, after, spill_of_create hempty hcreate, hholds hsorted, hframe, hnew⟩

/-- The names of an owner's files when a new one is added. -/
theorem nodup_spilled {files : List SpillFile} {file : SpillFile}
    (hnames : (namesOf files).Nodup) (hallocated : ∀ name ∈ namesOf files, disk.Allocated name)
    (hnew : ¬disk.Allocated file.file) : (namesOf (files ++ [file])).Nodup := by
  rw [namesOf_append]
  refine List.nodup_append.2 ⟨hnames, List.nodup_singleton _, ?_⟩
  rintro name hname _ hfile rfl
  exact hnew (List.mem_singleton.1 hfile ▸ hallocated name hname)

theorem handsOn_spilled {files : List SpillFile} {file : SpillFile}
    (hframe : Disk.Frame (fun _ => False) disk after) (hnew : ¬disk.Allocated file.file) :
    HandsOn (namesOf files) disk (namesOf (files ++ [file])) after where
  frame := hframe.mono fun _ _ => False.elim
  names name hname := by
    rw [namesOf_append, List.mem_append] at hname
    rcases hname with hname | hfile
    · exact Or.inl hname
    · rw [List.mem_singleton.1 hfile]
      exact Or.inr hnew

/-- Groups are spilled, unless a file operation fails. -/
theorem exists_spill (h : s.Holds disk parts contents)
    (hfiles : FilesWork (spill.run (s, disk)).1) :
    ∃ s' after contents', spill.run (s, disk) = (.ok (), s', after) ∧
      s'.Holds after [] contents' ∧ contents'.flatten = contents.flatten ++ parts ∧
      SameSettings s s' ∧ s'.consolidated = s.consolidated ∧
      HandsOn (namesOf s.spills) disk (namesOf s'.spills) after := by
  have hsorted : Groups.Sorted s.table.groups := h.table ▸ h.sorted
  rcases spill_cases hsorted hfiles with
    ⟨hempty, hrun⟩ | ⟨hgroups, file, after, hrun, hholds, hframe, hnew⟩
  · have hparts : parts = [] := by
      rw [h.table] at hempty
      exact List.map_eq_nil_iff.1 hempty
    subst hparts
    exact ⟨s, disk, contents, hrun, h, (List.append_nil _).symm, .refl s, rfl, .refl _ _⟩
  · rw [h.table] at hholds
    refine ⟨_, after, contents ++ [parts], hrun, ⟨rfl, .nil, ?_, ?_, ?_⟩, ?_, ⟨rfl, rfl, rfl⟩, rfl,
      handsOn_spilled hframe hnew⟩
    · exact List.rel_append (h.files.frame hframe fun _ _ => id) (.cons hholds .nil)
    · exact nodup_spilled h.names h.files.allocated hnew
    · intro hconsolidated _
      refine ⟨rfl, ?_⟩
      -- A consolidated table with groups in memory has no files.
      have hspills : s.spills = [] := by
        by_contra hspills
        exact hgroups (by rw [h.table, (h.settled hconsolidated hspills).1]; rfl)
      rw [h.contents_eq_nil hspills, List.nil_append, List.flatten_singleton]
      exact nodup_of_sorted h.sorted
    · rw [List.flatten_append, List.flatten_singleton]

end Spill

/-- Spilling leaves the files alone that there are. -/
theorem frame_spill (s : SpillingTable) (disk : Disk) :
    Disk.Frame (fun _ => False) disk (spill.run (s, disk)).2.2 := by
  cases hempty : s.table.groups.isEmpty with
  | true =>
      rw [spill_of_isEmpty hempty]
      exact .refl _ _
  | false =>
      have hframe := (SpillFile.create_cases s.namer s.table.groups disk).1
      rcases hcreate : (SpillFile.create s.namer s.table.groups).run disk with ⟨result, after⟩
      rw [hcreate] at hframe
      cases result with
      | ok file =>
          rw [spill_of_create hempty hcreate]
          exact hframe
      | error fault =>
          rw [spill_of_create_error hempty hcreate]
          exact hframe

/-- What is noted of a table does not change its groups. -/
theorem Holds.congr (h : s.Holds disk parts contents) (htable : s'.table = s.table)
    (hspills : s'.spills = s.spills)
    (hsettled : s'.consolidated = true → s'.spills ≠ [] →
      parts = [] ∧ (keysOf contents.flatten).Nodup) : s'.Holds disk parts contents :=
  ⟨htable ▸ h.table, h.sorted, hspills ▸ h.files, hspills ▸ h.names, hsettled⟩

section Close

theorem isSpilled_eq_false : s.isSpilled = false ↔ s.spills = [] := by
  rw [isSpilled, Bool.not_eq_false', List.isEmpty_iff]

theorem close_of_isSpilled (h : s.isSpilled = true) (disk : Disk) :
    close.run (s, disk) = spill.run (s, disk) := by
  rw [close, Step.run_bind, Step.run_get]
  simp only [h, if_true]

theorem close_of_not_isSpilled (h : s.isSpilled = false) (disk : Disk) :
    close.run (s, disk) = (.ok (), s, disk) := by
  rw [close, Step.run_bind, Step.run_get]
  simp only [h, Bool.false_eq_true, if_false, Step.run_pure]

/-- Closing keeps what belongs to every key. -/
theorem exists_close (h : s.Holds disk parts contents)
    (hfiles : FilesWork (close.run (s, disk)).1) :
    ∃ s' after parts' contents', close.run (s, disk) = (.ok (), s', after) ∧
      s'.Holds after parts' contents' ∧
      contents'.flatten ++ parts' = contents.flatten ++ parts ∧
      (s.isSpilled = true → parts' = []) ∧ SameSettings s s' ∧ s'.consolidated = s.consolidated ∧
      HandsOn (namesOf s.spills) disk (namesOf s'.spills) after := by
  cases hspilled : s.isSpilled with
  | true =>
      rw [close_of_isSpilled hspilled] at hfiles ⊢
      obtain ⟨s', after, contents', hrun, hholds, hflatten, hsettings, hsame, hhands⟩ :=
        exists_spill h hfiles
      refine ⟨s', after, [], contents', hrun, hholds, ?_, fun _ => rfl, hsettings, hsame, hhands⟩
      rw [hflatten, List.append_nil]
  | false =>
      rw [close_of_not_isSpilled hspilled]
      exact ⟨s, disk, parts, contents, rfl, h, rfl, nofun, .refl s, rfl, .refl _ _⟩

end Close

section Consolidate

theorem Holds.markConsolidated (h : s.Holds disk parts contents)
    (hsettled : s.spills ≠ [] → parts = [] ∧ (keysOf contents.flatten).Nodup) :
    Holds disk { s with consolidated := true } parts contents :=
  h.congr rfl rfl fun _ => hsettled

/-- The files that hold groups. -/
def filled (files : List SpillFile) : List SpillFile :=
  files.filter fun file => !decide (file.size = 0)

/-- The files that hold none. -/
def unfilled (files : List SpillFile) : List SpillFile :=
  files.filter fun file => decide (file.size = 0)

theorem run_dropEmptyFiles (s : SpillingTable) (disk : Disk) :
    dropEmptyFiles.run (s, disk) = (.ok (), { s with spills := filled s.spills },
      SpillFile.removeAll (unfilled s.spills) disk) := by
  rw [Step.run, dropEmptyFiles, List.partition_eq_filter_filter]
  rfl

/-- Files that are removed are not among those that stay. -/
theorem names_filled {files : List SpillFile} (hnames : (namesOf files).Nodup) :
    (namesOf (filled files)).Nodup ∧
      ∀ name ∈ namesOf (filled files), name ∉ namesOf (unfilled files) := by
  have hsplit := List.filter_append_perm (fun file : SpillFile => decide (file.size = 0)) files
  have hperm := hnames.perm (hsplit.map SpillFile.file).symm
  rw [List.map_append, List.nodup_append] at hperm
  obtain ⟨-, hfilled, hapart⟩ := hperm
  exact ⟨hfilled, fun name hname hempty => hapart name hempty name hname rfl⟩

theorem frame_unfilled (files : List SpillFile) (disk : Disk) :
    Disk.Frame (· ∈ namesOf (unfilled files)) disk (SpillFile.removeAll (unfilled files) disk) :=
  Disk.frame_removeAll (namesOf (unfilled files)) disk

theorem handsOn_filled (files : List SpillFile) (disk : Disk) :
    HandsOn (namesOf files) disk (namesOf (filled files))
      (SpillFile.removeAll (unfilled files) disk) where
  frame := (frame_unfilled files disk).mono fun _ _ hname =>
    (List.filter_sublist.map _).subset hname
  names _ hname := Or.inl ((List.filter_sublist.map _).subset hname)

/-- Files without groups are removed. -/
theorem exists_dropEmptyFiles (h : s.Holds disk parts contents)
    (hconsolidated : s.consolidated = false) :
    ∃ s' after contents', dropEmptyFiles.run (s, disk) = (.ok (), s', after) ∧
      s'.Holds after parts contents' ∧ contents'.flatten = contents.flatten ∧ SameSettings s s' ∧
      s'.consolidated = false ∧ HandsOn (namesOf s.spills) disk (namesOf s'.spills) after := by
  obtain ⟨contents', hholds, hflatten⟩ := h.files.exists_filter
  obtain ⟨hnodup, hapart⟩ := names_filled h.names
  refine ⟨_, _, contents', run_dropEmptyFiles s disk, ⟨h.table, h.sorted,
    hholds.frame (frame_unfilled s.spills disk) hapart, hnodup, fun htrue => ?_⟩, hflatten,
    ⟨rfl, rfl, rfl⟩, hconsolidated, handsOn_filled s.spills disk⟩
  rw [hconsolidated] at htrue
  cases htrue

theorem exists_consolidateSpills (hmerge : Mergeable made bound) (h : s.Holds disk [] contents)
    (hconsolidated : s.consolidated = false)
    (hmade : ∀ part ∈ contents.flatten, made part.1 part.2)
    (hbound : ∀ key, (partAt key contents.flatten).length ≤ bound)
    (hwork : FilesWork (consolidateSpills.run (s, disk)).1) :
    ∃ s' after contents', consolidateSpills.run (s, disk) = (.ok (), s', after) ∧
      s'.Holds after [] contents' ∧ Gathered made contents.flatten contents'.flatten ∧
      SameSettings s s' ∧ s'.consolidated = false ∧
      HandsOn (namesOf s.spills) disk (namesOf s'.spills) after := by
  obtain ⟨files, after, contents', hrun, hfiles, hnames, hgathered, hframe⟩ :=
    exists_consolidateFiles hmerge h.files h.names hmade hbound hwork
  refine ⟨{ s with spills := files }, after, contents', ?_, ⟨h.table, h.sorted, hfiles,
    hnames ▸ h.names, ?_⟩, hgathered, ⟨rfl, rfl, rfl⟩, hconsolidated, hframe, ?_⟩
  · rw [Step.run, consolidateSpills, hrun]
  · intro htrue
    rw [hconsolidated] at htrue
    cases htrue
  · exact fun name hname => Or.inl (hnames ▸ hname)

theorem consolidate_of_settled (h : (s.consolidated || !s.isSpilled) = true) (disk : Disk) :
    consolidate.run (s, disk) = (.ok (), { s with consolidated := true }, disk) := by
  rw [consolidate, Step.run_bind, Step.run_get]
  simp only [h, if_true]
  rfl

theorem consolidate_of_not_settled (h : (s.consolidated || !s.isSpilled) = false) (disk : Disk) :
    consolidate.run (s, disk) =
      (do close; consolidateSpills; dropEmptyFiles; markConsolidated :
        Step (SpillingTable × Disk) Unit).run (s, disk) := by
  rw [consolidate, Step.run_bind, Step.run_get]
  simp only [h, Bool.false_eq_true, if_false]

theorem consolidateSpills_of_consolidate_error {fault : Fault}
    (h : (s.consolidated || !s.isSpilled) = false)
    (hclose : close.run (s, disk) = (.ok (), s', after))
    (hspills : (consolidateSpills.run (s', after)).1 = .error fault) :
    (consolidate.run (s, disk)).1 = .error fault := by
  rw [consolidate_of_not_settled h, Step.run_bind, hclose]
  simp only [Step.run_bind]
  rcases hrun : consolidateSpills.run (s', after) with ⟨result, last⟩
  rw [hrun] at hspills
  cases hspills
  rfl

theorem close_of_consolidate_error {fault : Fault}
    (h : (s.consolidated || !s.isSpilled) = false)
    (hclose : (close.run (s, disk)).1 = .error fault) :
    (consolidate.run (s, disk)).1 = .error fault := by
  rw [consolidate_of_not_settled h, Step.run_bind]
  rcases hrun : close.run (s, disk) with ⟨result, after⟩
  rw [hrun] at hclose
  cases hclose
  rfl

/-- Consolidating keeps what belongs to every key, and leaves one group of it. -/
theorem exists_consolidate (hmerge : Mergeable made bound) (h : s.Holds disk parts contents)
    (hmade : ∀ part ∈ contents.flatten ++ parts, made part.1 part.2)
    (hbound : ∀ key, (partAt key (contents.flatten ++ parts)).length ≤ bound)
    (hfiles : FilesWork (consolidate.run (s, disk)).1) :
    ∃ s' after parts' contents', consolidate.run (s, disk) = (.ok (), s', after) ∧
      s'.Holds after parts' contents' ∧
      Gathered made (contents.flatten ++ parts) (contents'.flatten ++ parts') ∧
      (s.isSpilled = true → parts' = []) ∧ SameSettings s s' ∧
      HandsOn (namesOf s.spills) disk (namesOf s'.spills) after := by
  cases hsettled : s.consolidated || !s.isSpilled with
  | true =>
      have hnothing : s.spills ≠ [] → parts = [] ∧ (keysOf contents.flatten).Nodup := by
        rcases Bool.or_eq_true_iff.1 hsettled with hconsolidated | hunspilled
        · exact h.settled hconsolidated
        · rw [Bool.not_eq_true'] at hunspilled
          exact fun hspills => absurd (isSpilled_eq_false.1 hunspilled) hspills
      refine ⟨{ s with consolidated := true }, disk, parts, contents,
        consolidate_of_settled hsettled disk, h.markConsolidated hnothing, .refl ?_ hmade,
        fun hspilled => ?_, ⟨rfl, rfl, rfl⟩, .refl _ _⟩
      · by_cases hspills : s.spills = []
        · rw [h.contents_eq_nil hspills, List.flatten_nil, List.nil_append]
          exact nodup_of_sorted h.sorted
        · obtain ⟨rfl, hnodup⟩ := hnothing hspills
          rw [List.append_nil]
          exact hnodup
      · refine (hnothing fun hspills => ?_).1
        rw [isSpilled_eq_false.2 hspills] at hspilled
        cases hspilled
  | false =>
      obtain ⟨hconsolidated, hspilled⟩ := Bool.or_eq_false_iff.1 hsettled
      rw [Bool.not_eq_false'] at hspilled
      have hclose : FilesWork (close.run (s, disk)).1 := fun fault hfault =>
        hfiles fault (close_of_consolidate_error hsettled hfault)
      obtain ⟨s₁, disk₁, parts₁, contents₁, hrun₁, hholds₁, hflatten₁, hnone, hsettings₁, hsame,
        hhands₁⟩ := exists_close h hclose
      obtain rfl := hnone hspilled
      rw [List.append_nil] at hflatten₁
      rw [← hflatten₁] at hmade hbound ⊢
      obtain ⟨s₂, disk₂, contents₂, hrun₂, hholds₂, hgathered, hsettings₂, hsame₂, hhands₂⟩ :=
        exists_consolidateSpills hmerge hholds₁ (hsame.trans hconsolidated) hmade hbound
          (hfiles.of_error fun fault hfault =>
            consolidateSpills_of_consolidate_error hsettled hrun₁ hfault)
      obtain ⟨s₃, disk₃, contents₃, hrun₃, hholds₃, hflatten₃, hsettings₃, -, hhands₃⟩ :=
        exists_dropEmptyFiles hholds₂ hsame₂
      rw [← hflatten₃] at hgathered
      refine ⟨{ s₃ with consolidated := true }, disk₃, [], contents₃, ?_,
        hholds₃.markConsolidated fun _ => ⟨rfl, hgathered.nodup⟩, ?_, fun _ => rfl,
        (hsettings₁.trans hsettings₂).trans ⟨hsettings₃.grouping, hsettings₃.capacity,
          hsettings₃.namer⟩, (hhands₁.trans hhands₂).trans hhands₃⟩
      · rw [consolidate_of_not_settled hsettled]
        simp only [Step.run_bind, hrun₁, hrun₂, hrun₃]
        rfl
      · rw [List.append_nil]
        exact hgathered

end Consolidate
end SpillingTable
end ExtentEngine
