import ExtentEngine.Proofs.Aggregate.Spreading
import ExtentEngine.Proofs.Aggregate.SpillingRows

/-!
# What every operation keeps of a spilling table

The groups of a table conform to its grouping, in memory and in its files, there are no more in
memory than the capacity allows, and each file holds as many groups as it records, in order.
Every operation keeps this, whether it succeeds or fails, as long as file operations succeed.

**Results.**
* `Stores.insert`, `Stores.close`, `Stores.consolidate`, `Stores.render` and `Stores.merge`: what
  becomes of a table by an operation, whatever its result.
-/

namespace ExtentEngine
namespace SpillingTable

open Groups

/-- A table with its groups in memory and in its files. -/
structure Stores (disk : Disk) (s : SpillingTable) (contents : List (List Group)) : Prop where
  positive : 0 < s.table.capacity
  room : s.table.groups.length ≤ s.table.capacity
  sorted : Groups.Sorted s.table.groups
  conforms : ∀ group ∈ s.table.groups, group.Conforms s.table.grouping
  files : FilesStore disk s.spills contents
  names : (namesOf s.spills).Nodup
  stored : ∀ group ∈ contents.flatten, group.Conforms s.table.grouping

/-- All groups of a table. -/
def groupsWith (s : SpillingTable) (contents : List (List Group)) : List Group :=
  contents.flatten ++ s.table.groups

/-- A table that is marked as consolidated has each key in one place. -/
def Settled (s : SpillingTable) (contents : List (List Group)) : Prop :=
  s.consolidated = true → s.spills ≠ [] → s.table.groups = [] ∧ (keys contents.flatten).Nodup

/-- What becomes of a table and its files by an operation. -/
structure Moves (disk : Disk) (s : SpillingTable) (after : Disk) (s' : SpillingTable)
    (contents' : List (List Group)) : Prop where
  stores : s'.Stores after contents'
  settings : SameSettings s s'
  hands : HandsOn (namesOf s.spills) disk (namesOf s'.spills) after

variable {disk middle after : Disk} {s s' s'' other : SpillingTable}
  {contents contents' contents'' : List (List Group)}

theorem Stores.refl (h : s.Stores disk contents) : Moves disk s disk s contents :=
  ⟨h, .refl s, .refl _ _⟩

theorem Moves.trans (h : Moves disk s middle s' contents')
    (h' : Moves middle s' after s'' contents'') : Moves disk s after s'' contents'' :=
  ⟨h'.stores, h.settings.trans h'.settings, h.hands.trans h'.hands⟩

/-- What is noted of a table does not change its groups. -/
theorem Stores.congr (h : s.Stores disk contents) (htable : s'.table = s.table)
    (hspills : s'.spills = s.spills) : s'.Stores disk contents where
  positive := htable ▸ h.positive
  room := htable ▸ h.room
  sorted := htable ▸ h.sorted
  conforms := htable ▸ h.conforms
  files := hspills ▸ h.files
  names := hspills ▸ h.names
  stored := htable ▸ h.stored

/-- Operations that own none of its files leave the groups of a table where they are. -/
theorem Stores.frame (h : s.Stores disk contents) {own : FileName → Prop}
    (hframe : Disk.Frame own disk after) (hown : ∀ name ∈ namesOf s.spills, ¬own name) :
    s.Stores after contents :=
  { h with files := h.files.frame hframe hown }

theorem Stores.contents_eq_nil (h : s.Stores disk contents) (hspills : s.spills = []) :
    contents = [] := by
  have hfiles := h.files
  rw [hspills] at hfiles
  exact List.forall₂_nil_left_iff.1 hfiles

theorem stores_new {grouping : Grouping} {maxGroups : Nat} {namer : Namer}
    (h : new grouping maxGroups namer = .ok s) (disk : Disk) :
    s.Stores disk [] ∧ s.table = .new grouping maxGroups ∧ s.spills = [] ∧
      s.consolidated = false := by
  rw [new] at h
  split at h
  · cases h
  · next hpositive =>
      cases h
      exact ⟨⟨Nat.pos_of_ne_zero hpositive, Nat.zero_le _, .nil, List.forall_mem_nil _, .nil, .nil,
        List.forall_mem_nil _⟩, rfl, rfl, rfl⟩

section Spill

/-- Groups in memory are put into a file of their own. -/
theorem Stores.spill (h : s.Stores disk contents)
    (hfiles : FilesWork (SpillingTable.spill.run (s, disk)).1) :
    ∃ s' after contents', SpillingTable.spill.run (s, disk) = (.ok (), s', after) ∧
      Moves disk s after s' contents' ∧ s'.table.groups = [] ∧
      groupsWith s' contents' = groupsWith s contents ∧ ([] ∉ contents → [] ∉ contents') ∧
      s'.consolidated = s.consolidated := by
  rcases spill_cases h.sorted hfiles with
    ⟨hempty, hrun⟩ | ⟨hgroups, file, after, hrun, hholds, hframe, hnew⟩
  · exact ⟨s, disk, contents, hrun, h.refl, hempty, rfl, id, rfl⟩
  · refine ⟨_, after, contents ++ [s.table.groups], hrun, ⟨⟨h.positive, Nat.zero_le _, .nil, nofun,
      ?_, nodup_spilled h.names h.files.allocated hnew, ?_⟩, ⟨rfl, rfl, rfl⟩,
      handsOn_spilled hframe hnew⟩, rfl, ?_, ?_, rfl⟩
    · exact List.rel_append (h.files.frame hframe fun _ _ => id) (.cons hholds .nil)
    · rw [List.flatten_append, List.flatten_singleton]
      exact List.forall_mem_append.2 ⟨h.stored, h.conforms⟩
    · rw [groupsWith, groupsWith, List.flatten_append, List.flatten_singleton]
      exact List.append_nil _
    · intro hfull hmem
      rcases List.mem_append.1 hmem with hmem | hmem
      · exact hfull hmem
      · exact hgroups (List.mem_singleton.1 hmem).symm

/-- Closing puts the groups in memory into a file if there are files already. -/
theorem Stores.close (h : s.Stores disk contents)
    (hfiles : FilesWork (SpillingTable.close.run (s, disk)).1) :
    ∃ s' after contents', SpillingTable.close.run (s, disk) = (.ok (), s', after) ∧
      Moves disk s after s' contents' ∧ (s.isSpilled = true → s'.table.groups = []) ∧
      groupsWith s' contents' = groupsWith s contents ∧ ([] ∉ contents → [] ∉ contents') ∧
      s'.consolidated = s.consolidated ∧ (Settled s contents → Settled s' contents') := by
  cases hspilled : s.isSpilled with
  | true =>
      rw [close_of_isSpilled hspilled] at hfiles ⊢
      obtain ⟨s', after, contents', hrun, hmoves, hempty, hgroups, hfull, hsame⟩ := h.spill hfiles
      refine ⟨s', after, contents', hrun, hmoves, fun _ => hempty, hgroups, hfull, hsame,
        fun hsettled htrue _ => ⟨hempty, ?_⟩⟩
      have hspills : s.spills ≠ [] := fun hnone => by
        rw [isSpilled_eq_false.2 hnone] at hspilled
        cases hspilled
      obtain ⟨hnothing, hnodup⟩ := hsettled (hsame ▸ htrue) hspills
      rw [groupsWith, groupsWith, hempty, hnothing, List.append_nil, List.append_nil] at hgroups
      rw [hgroups]
      exact hnodup
  | false =>
      rw [close_of_not_isSpilled hspilled]
      exact ⟨s, disk, contents, rfl, h.refl, nofun, rfl, id, rfl, id⟩

end Spill
section Insert

theorem makeRoom_of_isFull (h : s.table.isFull = true) (disk : Disk) :
    makeRoom.run (s, disk) = SpillingTable.spill.run (s, disk) := by
  rw [Step.run, makeRoom, if_pos h]

theorem makeRoom_of_not_isFull (h : s.table.isFull = false) (disk : Disk) :
    makeRoom.run (s, disk) = (.ok (), s, disk) := by
  rw [Step.run, makeRoom, if_neg (h ▸ Bool.false_ne_true)]

theorem isFull_eq_false {table : GroupTable} :
    table.isFull = false ↔ table.groups.length < table.capacity := by
  rw [GroupTable.isFull, decide_eq_false_iff_not, Nat.not_le]
  rfl

/-- There is room for a group, after spilling if necessary. -/
theorem Stores.makeRoom (h : s.Stores disk contents)
    (hfiles : FilesWork (SpillingTable.makeRoom.run (s, disk)).1) :
    ∃ s' after contents', SpillingTable.makeRoom.run (s, disk) = (.ok (), s', after) ∧
      Moves disk s after s' contents' ∧ s'.table.groups.length < s'.table.capacity ∧
      groupsWith s' contents' = groupsWith s contents ∧ ([] ∉ contents → [] ∉ contents') ∧
      s'.consolidated = s.consolidated ∧ (s.table.isFull = false → s'.spills = s.spills) := by
  cases hfull : s.table.isFull with
  | true =>
      rw [makeRoom_of_isFull hfull] at hfiles ⊢
      obtain ⟨s', after, contents', hrun, hmoves, hempty, hgroups, hkept, hsame⟩ := h.spill hfiles
      refine ⟨s', after, contents', hrun, hmoves, ?_, hgroups, hkept, hsame, nofun⟩
      rw [hempty]
      exact hmoves.stores.positive
  | false =>
      rw [makeRoom_of_not_isFull hfull]
      exact ⟨s, disk, contents, rfl, h.refl, isFull_eq_false.1 hfull, rfl, id, rfl, fun _ => rfl⟩

/-- A row is added to a table with room for a group. -/
theorem Stores.insertInMemory (h : s.Stores disk contents)
    (hroom : s.table.groups.length < s.table.capacity) (record : Record) :
    Stores disk { s with table := ((GroupTable.insert record).run s.table).2 } contents ∧
      weight (groupsWith { s with table := ((GroupTable.insert record).run s.table).2 } contents) ≤
        weight (groupsWith s contents) + 2 ^ 63 := by
  have hgrown := GroupTable.grown_insert h.sorted h.conforms record
  refine ⟨⟨h.positive, ?_, hgrown.sorted, hgrown.conforms, h.files, h.names, h.stored⟩, ?_⟩
  · have hlength := hgrown.length_le (fun _ hkey _ => hkey)
    exact Nat.le_trans hlength hroom
  · have hweight := hgrown.weight
    rw [groupsWith, groupsWith, weight_append, weight_append]
    dsimp only
    omega

/-- What becomes of a table when a row is added to it, even if that fails. -/
theorem Stores.insert (h : s.Stores disk contents) (record : Record)
    (hfiles : FilesWork ((SpillingTable.insert record).run (s, disk)).1) :
    ∃ result s' after contents', (SpillingTable.insert record).run (s, disk) = (result, s', after) ∧
      Moves disk s after s' contents' ∧
      weight (groupsWith s' contents') ≤ weight (groupsWith s contents) + 2 ^ 63 ∧
      ([] ∉ contents → [] ∉ contents') ∧
      (s'.consolidated = true → s.consolidated = true ∧ result ≠ .ok ()) ∧
      (s.table.isFull = false → s'.spills = s.spills) := by
  have hroom : FilesWork (SpillingTable.makeRoom.run (s, disk)).1 := fun fault hfault =>
    hfiles fault (makeRoom_error hfault)
  obtain ⟨s₁, disk₁, contents₁, hrun, hmoves, hlength, hgroups, hkept, hsame, hspills⟩ :=
    h.makeRoom hroom
  obtain ⟨hstores, hweight⟩ := hmoves.stores.insertInMemory hlength record
  rw [← hgroups]
  cases hresult : ((GroupTable.insert record).run s₁.table).1 with
  | error fault =>
      refine ⟨.error fault, _, disk₁, contents₁, insert_of_error hrun (Prod.ext hresult rfl),
        hmoves.trans ⟨hstores, ⟨rfl, rfl, rfl⟩, .refl _ _⟩, hweight, hkept, fun htrue => ?_,
        hspills⟩
      exact ⟨hsame ▸ htrue, nofun⟩
  | ok _ =>
      exact ⟨.ok (), _, disk₁, contents₁, insert_of_ok hrun (Prod.ext hresult rfl),
        hmoves.trans ⟨hstores.congr rfl rfl, ⟨rfl, rfl, rfl⟩, .refl _ _⟩, hweight, hkept, nofun,
        hspills⟩

end Insert

section Consolidate

/-- The files by their names, each with the keys of its groups. -/
def placesOf (files : List SpillFile) (contents : List (List Group)) :
    List (FileName × List (List Scalar)) :=
  (namesOf files).zip (contents.map keys)

/-- The places that have keys. -/
def occupied (places : List (FileName × List (List Scalar))) :
    List (FileName × List (List Scalar)) :=
  places.filter fun place => !place.2.isEmpty

theorem placesOf_filled {files : List SpillFile} (h : FilesStore disk files contents) :
    placesOf (filled files) (contents.filter fun groups => !groups.isEmpty) =
      occupied (placesOf files contents) := by
  induction h with
  | nil => rfl
  | @cons file groups files contents hfile _ ih =>
      have hplaces : placesOf (file :: files) (groups :: contents) =
          (file.file, keys groups) :: placesOf files contents := rfl
      rw [hplaces, occupied, List.filter_cons, filled, List.filter_cons, List.filter_cons,
        hfile.size]
      cases groups with
      | nil => exact ih
      | cons group groups => exact congrArg ((file.file, keys (group :: groups)) :: ·) ih

/-- Files without groups are removed. -/
theorem Stores.dropEmptyFiles (h : s.Stores disk contents) :
    ∃ s' after contents', SpillingTable.dropEmptyFiles.run (s, disk) = (.ok (), s', after) ∧
      Moves disk s after s' contents' ∧ s'.table = s.table ∧
      contents'.flatten = contents.flatten ∧ [] ∉ contents' ∧
      placesOf s'.spills contents' = occupied (placesOf s.spills contents) := by
  obtain ⟨hnodup, hapart⟩ := names_filled h.names
  have hflatten : (contents.filter fun groups => !groups.isEmpty).flatten = contents.flatten :=
    List.flatten_filter_not_isEmpty
  refine ⟨_, _, contents.filter fun groups => !groups.isEmpty, run_dropEmptyFiles s disk,
    ⟨{ h with
      files := h.files.filter.frame (frame_unfilled s.spills disk) hapart
      names := hnodup
      stored := hflatten.symm ▸ h.stored }, ⟨rfl, rfl, rfl⟩, handsOn_filled s.spills disk⟩, rfl,
    hflatten, fun hmem => ?_, placesOf_filled h.files⟩
  cases (List.mem_filter.1 hmem).2

/-- The files are consolidated, unless a total overflows or a file operation fails. -/
theorem Stores.consolidateSpills (h : s.Stores disk contents)
    (hfiles : FilesWork (SpillingTable.consolidateSpills.run (s, disk)).1) :
    ∃ result s' after contents',
      SpillingTable.consolidateSpills.run (s, disk) = (result, s', after) ∧
      Moves disk s after s' contents' ∧ s'.table = s.table ∧
      s'.consolidated = s.consolidated ∧ FailsByOverflow (weight contents.flatten) result ∧
      (result = .ok () → GathersInto contents.flatten contents'.flatten ∧
        placesOf s'.spills contents' = (namesOf s.spills).zip (keptKeys (contents.map keys))) := by
  obtain ⟨result, files, after, contents', hrun, hrewritten, hfails, hgathers⟩ :=
    consolidateFiles_spec h.files h.names h.stored hfiles
  refine ⟨result, { s with spills := files }, after, contents', ?_, ⟨⟨h.positive, h.room, h.sorted,
    h.conforms, hrewritten.stores, ?_, hrewritten.conforms⟩, ⟨rfl, rfl, rfl⟩,
    ⟨hrewritten.frame, ?_⟩⟩,
    rfl, rfl, hfails, fun hok => ⟨(hgathers hok).1, ?_⟩⟩
  · rw [Step.run, SpillingTable.consolidateSpills, hrun]
  · rw [hrewritten.names]
    exact h.names
  · exact fun name hname => Or.inl (hrewritten.names ▸ hname)
  · rw [placesOf, hrewritten.names, (hgathers hok).2]

/-- What is done to consolidate a table with nothing in memory. -/
def gatherFiles : Step (SpillingTable × Disk) Unit := do
  SpillingTable.consolidateSpills
  SpillingTable.dropEmptyFiles
  markConsolidated

theorem gatherFiles_of_error {fault : Fault}
    (h : (SpillingTable.consolidateSpills.run (s, disk)).1 = .error fault) :
    (gatherFiles.run (s, disk)).1 = .error fault := by
  rw [gatherFiles, Step.run_bind]
  rcases hrun : SpillingTable.consolidateSpills.run (s, disk) with ⟨result, state⟩
  rw [hrun] at h
  cases h
  rfl

/-- The groups of each key are brought together in the last file that has one, unless a total
overflows or a file operation fails. -/
theorem Stores.gatherFiles (h : s.Stores disk contents) (hunmarked : s.consolidated = false)
    (hfiles : FilesWork (SpillingTable.gatherFiles.run (s, disk)).1) :
    ∃ result s' after contents', SpillingTable.gatherFiles.run (s, disk) = (result, s', after) ∧
      Moves disk s after s' contents' ∧ s'.table = s.table ∧
      FailsByOverflow (weight contents.flatten) result ∧
      (s'.consolidated = true ↔ result = .ok ()) ∧
      (result = .ok () → [] ∉ contents' ∧ GathersInto contents.flatten contents'.flatten ∧
        placesOf s'.spills contents' =
          occupied ((namesOf s.spills).zip (keptKeys (contents.map keys)))) := by
  obtain ⟨result, s₁, disk₁, contents₁, hrun₁, hmoves₁, htable₁, hsame₁, hfails, hgathers⟩ :=
    h.consolidateSpills (hfiles.of_error fun _ => gatherFiles_of_error)
  cases result with
  | error fault =>
      refine ⟨.error fault, s₁, disk₁, contents₁, ?_, hmoves₁, htable₁, hfails, ?_, nofun⟩
      · rw [SpillingTable.gatherFiles, Step.run_bind, hrun₁]
      · rw [hsame₁, hunmarked]
        exact iff_of_false Bool.false_ne_true nofun
  | ok _ =>
      obtain ⟨hgathered, hplaces⟩ := hgathers rfl
      obtain ⟨s₂, disk₂, contents₂, hrun₂, hmoves₂, htable₂, hflatten₂, hfull, hplaces₂⟩ :=
        hmoves₁.stores.dropEmptyFiles
      have hmoves := hmoves₁.trans hmoves₂
      refine ⟨.ok (), { s₂ with consolidated := true }, disk₂, contents₂, ?_,
        ⟨hmoves.stores.congr rfl rfl, ⟨hmoves.settings.grouping, hmoves.settings.capacity,
          hmoves.settings.namer⟩, hmoves.hands⟩, htable₂.trans htable₁, failsByOverflow_ok _ _,
        iff_of_true rfl rfl, fun _ => ⟨hfull, hflatten₂ ▸ hgathered, ?_⟩⟩
      · simp only [SpillingTable.gatherFiles, Step.run_bind, hrun₁, hrun₂]
        rfl
      · rw [← hplaces, ← hplaces₂]

/-- The groups of each key are brought together in one file, unless a total overflows. -/
theorem Stores.gather (h : s.Stores disk contents)
    (hsettled : (s.consolidated || !s.isSpilled) = false)
    (hfiles : FilesWork (SpillingTable.consolidate.run (s, disk)).1) :
    ∃ result s' after contents', SpillingTable.consolidate.run (s, disk) = (result, s', after) ∧
      Moves disk s after s' contents' ∧ FailsByOverflow (weight (groupsWith s contents)) result ∧
      (s'.consolidated = true → result = .ok ()) ∧
      (result = .ok () → s'.table.groups = [] ∧ [] ∉ contents' ∧
        GathersInto (groupsWith s contents) contents'.flatten) := by
  obtain ⟨hconsolidated, hspilled⟩ := Bool.or_eq_false_iff.1 hsettled
  rw [Bool.not_eq_false'] at hspilled
  have hclose : FilesWork (SpillingTable.close.run (s, disk)).1 := fun fault hfault =>
    hfiles fault (close_of_consolidate_error hsettled hfault)
  obtain ⟨s₁, disk₁, contents₁, hrun₁, hmoves₁, hempty, hgroups, -, hsame₁, -⟩ := h.close hclose
  have hflatten : groupsWith s contents = contents₁.flatten := by
    rw [← hgroups, groupsWith, hempty hspilled, List.append_nil]
  obtain ⟨result, s₂, disk₂, contents₂, hrun₂, hmoves₂, htable₂, hfails, hmarked, hgathers⟩ :=
    hmoves₁.stores.gatherFiles (hsame₁.trans hconsolidated) <| by
      rw [consolidate_of_not_settled hsettled, Step.run_bind, hrun₁] at hfiles
      exact hfiles
  rw [hflatten, consolidate_of_not_settled hsettled, Step.run_bind, hrun₁]
  refine ⟨result, s₂, disk₂, contents₂, hrun₂, hmoves₁.trans hmoves₂, hfails, hmarked.1,
    fun hok => ⟨?_, (hgathers hok).1, (hgathers hok).2.1⟩⟩
  rw [htable₂, hempty hspilled]

/-- What becomes of the groups of a table that is consolidated. -/
structure Consolidates (s : SpillingTable) (contents : List (List Group)) (result : Attempt Unit)
    (s' : SpillingTable) (contents' : List (List Group)) : Prop where
  fails : FailsByOverflow (weight (groupsWith s contents)) result
  weight : result = .ok () → weight (groupsWith s' contents') ≤ weight (groupsWith s contents)
  filled : result = .ok () → [] ∉ contents → [] ∉ contents'
  settled : Settled s contents → Settled s' contents'
  gathers : Settled s contents → result = .ok () →
    GathersInto (groupsWith s contents) (groupsWith s' contents')
  emptied : Settled s contents → result = .ok () → s.isSpilled = true → s'.table.groups = []

/-- A settled table that is consolidated and has files has nothing in memory. -/
theorem Settled.emptied (hsettled : Settled s contents)
    (hplace : (s.consolidated || !s.isSpilled) = true) (hspills : s.spills ≠ []) :
    s.table.groups = [] ∧ (keys contents.flatten).Nodup := by
  rcases Bool.or_eq_true_iff.1 hplace with hconsolidated | hunspilled
  · exact hsettled hconsolidated hspills
  · rw [Bool.not_eq_true'] at hunspilled
    exact absurd (isSpilled_eq_false.1 hunspilled) hspills

/-- A table that is consolidated or has no files may stay as it is. -/
theorem Stores.stays (h : s.Stores disk contents)
    (hplace : (s.consolidated || !s.isSpilled) = true) (htable : s'.table = s.table)
    (hspills : s'.spills = s.spills) : Consolidates s contents (.ok ()) s' contents where
  fails := failsByOverflow_ok _ _
  weight _ := by
    rw [groupsWith, htable]
    exact Nat.le_refl _
  filled _ := id
  settled hsettled _ hne := by
    rw [hspills] at hne
    rw [htable]
    exact hsettled.emptied hplace hne
  gathers hsettled _ := by
    have hsame : groupsWith s' contents = groupsWith s contents := by
      rw [groupsWith, htable, groupsWith]
    rw [hsame]
    refine .refl ?_
    by_cases hnone : s.spills = []
    · rw [groupsWith, h.contents_eq_nil hnone]
      exact h.sorted.nodup
    · obtain ⟨hempty, hnodup⟩ := hsettled.emptied hplace hnone
      rw [groupsWith, hempty, List.append_nil]
      exact hnodup
  emptied hsettled _ hspilled := by
    rw [htable]
    refine (hsettled.emptied hplace fun hnone => ?_).1
    rw [isSpilled_eq_false.2 hnone] at hspilled
    cases hspilled

/-- What becomes of a table that is consolidated; a total may overflow. -/
theorem Stores.consolidate (h : s.Stores disk contents)
    (hfiles : FilesWork (SpillingTable.consolidate.run (s, disk)).1) :
    ∃ result s' after contents', SpillingTable.consolidate.run (s, disk) = (result, s', after) ∧
      Moves disk s after s' contents' ∧ Consolidates s contents result s' contents' := by
  cases hplace : s.consolidated || !s.isSpilled with
  | true =>
      exact ⟨.ok (), { s with consolidated := true }, disk, contents,
        consolidate_of_settled hplace disk, ⟨h.congr rfl rfl, ⟨rfl, rfl, rfl⟩, .refl _ _⟩,
        h.stays hplace rfl rfl⟩
  | false =>
      obtain ⟨result, s', after, contents', hrun, hmoves, hfails, hmarked, hgathers⟩ :=
        h.gather hplace hfiles
      have hwith : result = .ok () → groupsWith s' contents' = contents'.flatten := fun hok => by
        rw [groupsWith, (hgathers hok).1, List.append_nil]
      refine ⟨result, s', after, contents', hrun, hmoves, hfails, fun hok => ?_,
        fun hok _ => (hgathers hok).2.1, fun _ htrue _ => ?_, fun _ hok => ?_,
        fun _ hok _ => (hgathers hok).1⟩
      · rw [hwith hok]
        exact (hgathers hok).2.2.weight
      · obtain ⟨hempty, -, hgathered⟩ := hgathers (hmarked htrue)
        exact ⟨hempty, hgathered.nodup⟩
      · rw [hwith hok]
        exact (hgathers hok).2.2

end Consolidate

section Render

/-- What becomes of a table that is rendered. -/
theorem Stores.render (h : s.Stores disk contents) (projection : Projection)
    (hfiles : FilesWork (SpillingTable.render projection (s, disk)).1.result) :
    ∃ result s' after contents',
      (SpillingTable.render projection (s, disk)).2 = (s', after) ∧
      Moves disk s after s' contents' ∧ Consolidates s contents result s' contents' ∧
      (∀ fault, result = .error fault →
        (SpillingTable.render projection (s, disk)).1.result = .error fault) ∧
      (Settled s contents → result = .ok () →
        (SpillingTable.render projection (s, disk)).1 =
          emitGroups projection (groupsWith s' contents')) := by
  cases hspilled : s.isSpilled with
  | false =>
      have hrun : SpillingTable.render projection (s, disk) =
          (emitGroups projection s.table.groups, s, disk) := by
        rw [SpillingTable.render, hspilled]
        rfl
      have hplace : (s.consolidated || !s.isSpilled) = true := by
        rw [hspilled]
        exact Bool.or_true _
      rw [hrun]
      refine ⟨.ok (), s, disk, contents, rfl, h.refl, h.stays hplace rfl rfl, by rintro _ ⟨⟩,
        fun _ _ => ?_⟩
      rw [groupsWith, h.contents_eq_nil (isSpilled_eq_false.1 hspilled)]
      rfl
  | true =>
      have hready : FilesWork (SpillingTable.consolidate.run (s, disk)).1 := by
        intro fault hfault
        refine hfiles fault ?_
        rcases hrun : SpillingTable.consolidate.run (s, disk) with ⟨result, after⟩
        rw [hrun] at hfault
        cases hfault
        rw [SpillingTable.render, if_pos hspilled, hrun]
        rfl
      obtain ⟨result, s', after, contents', hrun, hmoves, hconsolidates⟩ := h.consolidate hready
      refine ⟨result, s', after, contents', ?_, hmoves, hconsolidates, fun fault hfault => ?_,
        fun hsettled hok => ?_⟩
      · rw [SpillingTable.render, if_pos hspilled, hrun]
        cases result <;> rfl
      · subst hfault
        rw [SpillingTable.render, if_pos hspilled, hrun]
        rfl
      · have hempty := hconsolidates.emptied hsettled hok hspilled
        subst hok
        rw [SpillingTable.render, if_pos hspilled, hrun, groupsWith, hempty, List.append_nil]
        exact emitFiles_eq hmoves.stores.files

end Render

section Merge

/-- Groups in memory are taken over by a table with room for them, unless a total overflows. -/
theorem Stores.absorb (h : s.Stores disk contents) (h' : other.Stores disk contents')
    (hgrouping : s.grouping = other.grouping) (hfits : s.fits other = true) :
    ∃ result s', (SpillingTable.absorb other.table.groups).run (s, disk) = (result, s', disk) ∧
      s'.Stores disk [] ∧ SameSettings s s' ∧ s'.spills = [] ∧ s'.consolidated = s.consolidated ∧
      FailsByOverflow (weight (groupsWith s contents) + weight (groupsWith other contents'))
        result ∧
      weight (groupsWith s' []) ≤
        weight (groupsWith s contents) + weight (groupsWith other contents') := by
  obtain ⟨hspills, hroom⟩ := Bool.and_eq_true_iff.1 hfits
  obtain ⟨hspills, hspills'⟩ := Bool.and_eq_true_iff.1 hspills
  rw [Bool.not_eq_true', isSpilled_eq_false] at hspills hspills'
  obtain rfl := h.contents_eq_nil hspills
  obtain rfl := h'.contents_eq_nil hspills'
  have hothers : ∀ group ∈ other.table.groups, group.Conforms s.table.grouping := by
    rw [show s.table.grouping = other.table.grouping from hgrouping]
    exact h'.conforms
  obtain ⟨hgrown, hfails, hlength⟩ := GroupTable.absorb_spec h.sorted h.conforms hothers
  have hrun : (SpillingTable.absorb other.table.groups).run (s, disk) =
      (((GroupTable.absorb other.table.groups).run s.table).1, { s with table := { s.table with
        groups := ((GroupTable.absorb other.table.groups).run s.table).2.groups } }, disk) := by
    rw [Step.run, SpillingTable.absorb, GroupTable.absorb_eq]
  have hstores : Stores disk { s with table := { s.table with
      groups := ((GroupTable.absorb other.table.groups).run s.table).2.groups } } [] :=
    ⟨h.positive, Nat.le_trans hlength (of_decide_eq_true hroom), hgrown.sorted, hgrown.conforms,
      h.files, h.names, List.forall_mem_nil _⟩
  exact ⟨_, _, hrun, hstores, ⟨rfl, rfl, rfl⟩, hspills, rfl, hfails, hgrown.weight⟩

/-- The files of another table are taken over. -/
theorem Stores.appendSpilled (h : s.Stores disk contents) (h' : other.Stores disk contents')
    (hgrouping : s.grouping = other.grouping)
    (hdisjoint : (namesOf s.spills).Disjoint (namesOf other.spills))
    (hfiles : FilesWork ((SpillingTable.appendSpilled other).run (s, disk)).1) :
    ∃ s' after contents'', (SpillingTable.appendSpilled other).run (s, disk) = (.ok (), s', after) ∧
      s'.Stores after contents'' ∧ SameSettings s s' ∧
      HandsOn (namesOf s.spills ++ namesOf other.spills) disk (namesOf s'.spills) after ∧
      s'.consolidated = s.consolidated ∧
      weight (groupsWith s' contents'') =
        weight (groupsWith s contents) + weight (groupsWith other contents') ∧
      ([] ∉ contents → [] ∉ contents' → [] ∉ contents'') := by
  obtain ⟨s₁, disk₁, contents₁, hrun₁, hmoves₁, hempty₁, hgroups₁, hfull₁, hsame₁⟩ :=
    h.spill fun fault hfault => hfiles fault (appendSpilled_error hfault)
  have hframed : other.Stores disk₁ contents' :=
    h'.frame hmoves₁.hands.frame fun _ hname hmem => hdisjoint hmem hname
  obtain ⟨s₂, disk₂, contents₂, hrun₂, hmoves₂, hempty₂, hgroups₂, hfull₂, -⟩ :=
    hframed.spill fun fault hfault => hfiles fault (appendSpilled_error_other hrun₁ hfault)
  have hapart₁ : (namesOf s₁.spills).Disjoint (namesOf other.spills) :=
    hmoves₁.hands.disjoint h'.files.allocated hdisjoint
  have hapart : (namesOf s₂.spills).Disjoint (namesOf s₁.spills) :=
    hmoves₂.hands.disjoint hmoves₁.stores.files.allocated hapart₁.symm
  have hstores₁ : s₁.Stores disk₂ contents₁ :=
    hmoves₁.stores.frame hmoves₂.hands.frame fun _ hname hmem => hapart₁ hname hmem
  have hstores₂ := hmoves₂.stores
  refine ⟨_, disk₂, contents₁ ++ contents₂, appendSpilled_ok hrun₁ hrun₂, { hstores₁ with
    files := List.rel_append hstores₁.files hstores₂.files
    names := ?_
    stored := ?_ }, hmoves₁.settings.trans ⟨rfl, rfl, rfl⟩, ?_, hsame₁, ?_, ?_⟩
  · rw [namesOf_append]
    exact List.nodup_append.2 ⟨hstores₁.names, hstores₂.names,
      fun name hname _ hname' heq => hapart hname' (heq ▸ hname)⟩
  · rw [List.flatten_append]
    refine List.forall_mem_append.2 ⟨hstores₁.stored, fun group hgroup => ?_⟩
    have hconforms := hstores₂.stored group hgroup
    rw [hmoves₂.settings.grouping] at hconforms
    rw [hmoves₁.settings.grouping, show s.table.grouping = other.table.grouping from hgrouping]
    exact hconforms
  · rw [namesOf_append]
    exact hmoves₁.hands.append hmoves₂.hands
  · rw [← hgroups₁, ← hgroups₂]
    simp only [groupsWith, hempty₁, hempty₂, List.append_nil, List.flatten_append, weight_append]
  · exact fun hfull hfull' hmem =>
      (List.mem_append.1 hmem).elim (hfull₁ hfull) (hfull₂ hfull')

/-- A table takes over another one, unless a total overflows. -/
theorem Stores.merge (h : s.Stores disk contents) (h' : other.Stores disk contents')
    (hgrouping : s.grouping = other.grouping)
    (hdisjoint : (namesOf s.spills).Disjoint (namesOf other.spills))
    (hfiles : FilesWork ((SpillingTable.merge other).run (s, disk)).1) :
    ∃ result s' after contents'', (SpillingTable.merge other).run (s, disk) = (result, s', after) ∧
      s'.Stores after contents'' ∧ SameSettings s s' ∧
      HandsOn (namesOf s.spills ++ namesOf other.spills) disk (namesOf s'.spills) after ∧
      s'.consolidated = false ∧
      FailsByOverflow (weight (groupsWith s contents) + weight (groupsWith other contents'))
        result ∧
      weight (groupsWith s' contents'') ≤
        weight (groupsWith s contents) + weight (groupsWith other contents') ∧
      ([] ∉ contents → [] ∉ contents' → [] ∉ contents'') := by
  have hcounted : (counted s other).Stores disk contents := h.congr rfl rfl
  rw [merge_eq hgrouping] at hfiles ⊢
  cases hfits : s.fits other with
  | true =>
      obtain ⟨result, s', hrun, hstores, hsettings, hspills, hsame, hfails, hweight⟩ :=
        hcounted.absorb h' hgrouping hfits
      refine ⟨result, s', disk, [], hrun, hstores,
        ⟨hsettings.grouping, hsettings.capacity, hsettings.namer⟩, ?_, hsame, hfails, hweight,
        fun _ _ => nofun⟩
      rw [hspills]
      exact ⟨.refl _ _, nofun⟩
  | false =>
      rw [hfits] at hfiles
      obtain ⟨s', after, contents'', hrun, hstores, hsettings, hhands, hsame, hweight, hfull⟩ :=
        hcounted.appendSpilled h' hgrouping hdisjoint hfiles
      exact ⟨.ok (), s', after, contents'', hrun, hstores,
        ⟨hsettings.grouping, hsettings.capacity, hsettings.namer⟩, hhands, hsame,
        failsByOverflow_ok _ _, Nat.le_of_eq hweight, hfull⟩

end Merge
end SpillingTable
end ExtentEngine
