import ExtentEngine.Proofs.Aggregate.Rows
import ExtentEngine.Proofs.Aggregate.SpillingTable
import ExtentEngine.Proofs.Dataset.Emission
import ExtentEngine.Proofs.Expr.Projection

/-!
# The rows of spilling tables

A spilling table represents the rows that were added to it and to the tables that were
merged into it, wherever the groups that were made from them are.

**Results.**
* `exists_insert` and `admits_of_insert`: a row is added if and only if its inputs are
  admitted.
* `exists_merge`: a table that takes over another one represents the rows of both.
* `exists_render`: the groups that are emitted are those of the rows.
-/

namespace ExtentEngine
namespace SpillingTable

/-- A table whose groups were made from some rows. -/
def Represents (disk : Disk) (s : SpillingTable) (rows : List Record) : Prop :=
  ∃ parts contents, s.Holds disk parts contents ∧
    s.grouping.Represents (contents.flatten ++ parts) rows

/-- Whether all aggregates of a table depend on the rows alone. -/
def IsExact (s : SpillingTable) : Prop :=
  ∀ aggregate ∈ s.grouping.aggregates, aggregate.isExact = true

variable {disk after : Disk} {s s' other : SpillingTable} {rows rows' : List Record}
  {record : Record}

theorem SameSettings.isExact (h : SameSettings s s') (hexact : s.IsExact) : s'.IsExact := by
  have hsame : s'.grouping = s.grouping := h.grouping
  rw [IsExact, hsame]
  exact hexact

theorem Represents.frame (h : s.Represents disk rows) {own : FileName → Prop}
    (hframe : Disk.Frame own disk after) (hown : ∀ name ∈ namesOf s.spills, ¬own name) :
    s.Represents after rows := by
  obtain ⟨parts, contents, hholds, hrows⟩ := h
  exact ⟨parts, contents, hholds.frame hframe hown, hrows⟩

theorem Represents.allocated (h : s.Represents disk rows) :
    ∀ name ∈ namesOf s.spills, disk.Allocated name := by
  obtain ⟨parts, contents, hholds, -⟩ := h
  exact hholds.files.allocated

theorem represents_new {grouping : Grouping} {maxGroups : Nat} {namer : Namer}
    (h : new grouping maxGroups namer = .ok s) (disk : Disk) : s.Represents disk [] :=
  ⟨[], [], holds_new h disk, .nil _⟩

section Insert

/-- Spills if the table is full. -/
def makeRoom : Step (SpillingTable × Disk) Unit := fun (s, disk) =>
  if s.table.isFull then spill.run (s, disk) else (.ok (), s, disk)

theorem insert_eq (record : Record) :
    insert record = (do
      makeRoom
      insertInMemory record
      Step.modify fun (s, disk) =>
        ({ s with rowsInserted := s.rowsInserted + 1, consolidated := false }, disk)) := by
  funext ⟨s, disk⟩
  change (insert record).run (s, disk) = Step.run _ (s, disk)
  rw [insert, Step.run_bind, Step.run_get, Step.run_bind]
  simp only [Step.run, makeRoom]
  split <;> rfl

theorem exists_makeRoom {parts : List (Part Record)} {contents : List (List (Part Record))}
    (h : s.Holds disk parts contents) (hfiles : FilesWork (makeRoom.run (s, disk)).1) :
    ∃ s' after parts' contents', makeRoom.run (s, disk) = (.ok (), s', after) ∧
      s'.Holds after parts' contents' ∧
      contents'.flatten ++ parts' = contents.flatten ++ parts ∧ SameSettings s s' ∧
      HandsOn (namesOf s.spills) disk (namesOf s'.spills) after := by
  simp only [Step.run, makeRoom] at hfiles ⊢
  split at hfiles
  · next hfull =>
      rw [if_pos hfull]
      obtain ⟨s', after, contents', hrun, hholds, hflatten, hsettings, -, hhands⟩ :=
        exists_spill h hfiles
      refine ⟨s', after, [], contents', hrun, hholds, ?_, hsettings, hhands⟩
      rw [hflatten, List.append_nil]
  · next hroom =>
      rw [if_neg hroom]
      exact ⟨s, disk, parts, contents, rfl, h, rfl, .refl s, .refl _ _⟩

theorem insert_of_makeRoom_error {fault : Fault}
    (h : makeRoom.run (s, disk) = (.error fault, s', after)) :
    (insert record).run (s, disk) = (.error fault, s', after) := by
  rw [insert_eq, Step.run_bind, h]

theorem makeRoom_error {fault : Fault} (h : (makeRoom.run (s, disk)).1 = .error fault) :
    ((insert record).run (s, disk)).1 = .error fault := by
  rcases hrun : makeRoom.run (s, disk) with ⟨result, after⟩
  rw [hrun] at h
  cases h
  rw [insert_of_makeRoom_error hrun]

theorem insert_of_ok (h : makeRoom.run (s, disk) = (.ok (), s', after)) {table : GroupTable}
    (hinsert : (GroupTable.insert record).run s'.table = (.ok (), table)) :
    (insert record).run (s, disk) = (.ok (), { s' with
      table, rowsInserted := s'.rowsInserted + 1, consolidated := false }, after) := by
  rw [insert_eq, Step.run_bind, h]
  simp only [Step.run_bind]
  rw [Step.run, insertInMemory, hinsert]
  rfl

theorem insert_of_error (h : makeRoom.run (s, disk) = (.ok (), s', after)) {table : GroupTable}
    {fault : Fault} (hinsert : (GroupTable.insert record).run s'.table = (.error fault, table)) :
    (insert record).run (s, disk) = (.error fault, { s' with table }, after) := by
  rw [insert_eq, Step.run_bind, h]
  simp only [Step.run_bind]
  rw [Step.run, insertInMemory, hinsert]

/-- Adding a row leaves the files alone that there are. -/
theorem frame_insert (record : Record) (s : SpillingTable) (disk : Disk) :
    Disk.Frame (fun _ => False) disk ((insert record).run (s, disk)).2.2 := by
  have hframe : Disk.Frame (fun _ => False) disk (makeRoom.run (s, disk)).2.2 := by
    simp only [Step.run, makeRoom]
    split
    · exact frame_spill s disk
    · exact .refl _ _
  rcases hroom : makeRoom.run (s, disk) with ⟨result, s', after⟩
  rw [hroom] at hframe
  cases result with
  | error fault =>
      rw [insert_eq, Step.run_bind, hroom]
      exact hframe
  | ok _ =>
      rcases hinsert : (GroupTable.insert record).run s'.table with ⟨result, table⟩
      cases result with
      | ok _ =>
          rw [insert_of_ok hroom hinsert]
          exact hframe
      | error fault =>
          rw [insert_of_error hroom hinsert]
          exact hframe

/-- A row whose inputs are admitted is added, unless a file operation fails. -/
theorem exists_insert (h : s.Represents disk rows) (hexact : s.IsExact)
    (hadmits : s.grouping.Admits record)
    (hlength : rows.length + 1 ≤ Grouping.mostRows)
    (hfiles : FilesWork ((insert record).run (s, disk)).1) :
    ∃ s' after, (insert record).run (s, disk) = (.ok (), s', after) ∧
      s'.Represents after (rows ++ [record]) ∧ SameSettings s s' ∧
      HandsOn (namesOf s.spills) disk (namesOf s'.spills) after := by
  obtain ⟨parts, contents, hholds, hrows⟩ := h
  have hroom : FilesWork (makeRoom.run (s, disk)).1 := fun fault hfault =>
    hfiles fault (makeRoom_error hfault)
  obtain ⟨s₁, disk₁, parts₁, contents₁, hrun, hholds₁, hflatten, hsettings, hhands⟩ :=
    exists_makeRoom hholds hroom
  have hexact₁ := hsettings.isExact hexact
  rw [← hflatten, grouping, ← hsettings.grouping] at hrows
  rw [grouping, ← hsettings.grouping] at hadmits
  have hmade := (List.forall_mem_append.1 hrows.made)
  obtain ⟨parts₂, hinsert, hsorted, hmade₂, hkept⟩ :=
    GroupTable.exists_insert hexact₁ hholds₁.table hholds₁.sorted hmade.2 hadmits (by
      have hle := hrows.length_le (record.keyValues s₁.table.grouping.keys)
      rw [partAt_append, List.length_append] at hle
      omega)
  refine ⟨_, disk₁, insert_of_ok hrun hinsert, ⟨parts₂, contents₁, ⟨rfl, hsorted,
    hholds₁.files, hholds₁.names, nofun⟩, List.forall_mem_append.2 ⟨hmade.1, hmade₂⟩,
    fun key => ?_⟩, hsettings.trans ⟨rfl, rfl, rfl⟩, hhands⟩
  rw [partAt_append, Grouping.rowsOf, List.filter_append]
  refine ((hkept key).append_left _).trans ?_
  rw [← List.append_assoc, ← partAt_append]
  exact (hrows.rows key).append_right _

/-- A row that is added without floats is admitted. -/
theorem admits_of_insert (h : s.Represents disk rows) (hexact : s.IsExact)
    (hfloat : s.grouping.FloatFree record) (hok : ((insert record).run (s, disk)).1 = .ok ()) :
    s.grouping.Admits record := by
  obtain ⟨parts, contents, hholds, hrows⟩ := h
  have hroom : FilesWork (makeRoom.run (s, disk)).1 := by
    intro fault hfault
    rw [makeRoom_error hfault] at hok
    cases hok
  obtain ⟨s₁, disk₁, parts₁, contents₁, hrun, hholds₁, hflatten, hsettings, -⟩ :=
    exists_makeRoom hholds hroom
  have hexact₁ := hsettings.isExact hexact
  rw [← hflatten, grouping, ← hsettings.grouping] at hrows
  rw [grouping, ← hsettings.grouping] at hfloat ⊢
  refine GroupTable.admits_of_insert hexact₁ hholds₁.table hholds₁.sorted
    (List.forall_mem_append.1 hrows.made).2 hfloat ?_
  rcases hinsert : (GroupTable.insert record).run s₁.table with ⟨result, table⟩
  cases result with
  | ok _ => rfl
  | error fault =>
      rw [insert_of_error hrun hinsert] at hok
      cases hok

end Insert

section Rearrange

theorem represents_of_eq {parts parts' : List (Part Record)}
    {contents contents' : List (List (Part Record))} (hholds : s'.Holds after parts' contents')
    (hrows : s.grouping.Represents (contents.flatten ++ parts) rows)
    (heq : contents'.flatten ++ parts' = contents.flatten ++ parts)
    (hsettings : SameSettings s s') : s'.Represents after rows := by
  refine ⟨parts', contents', hholds, ?_⟩
  rw [grouping, hsettings.grouping, heq]
  exact hrows

/-- A closed table represents the same rows. -/
theorem Represents.close (h : s.Represents disk rows)
    (hfiles : FilesWork (close.run (s, disk)).1) :
    ∃ s' after, SpillingTable.close.run (s, disk) = (.ok (), s', after) ∧ s'.Represents after rows ∧
      SameSettings s s' ∧ HandsOn (namesOf s.spills) disk (namesOf s'.spills) after := by
  obtain ⟨parts, contents, hholds, hrows⟩ := h
  obtain ⟨s', after, parts', contents', hrun, hholds', heq, -, hsettings, -, hhands⟩ :=
    exists_close hholds hfiles
  exact ⟨s', after, hrun, represents_of_eq hholds' hrows heq hsettings, hsettings, hhands⟩

/-- A consolidated table represents the same rows, with one group of every key. -/
theorem exists_consolidate_rows (h : s.Represents disk rows)
    (hlength : rows.length ≤ Grouping.mostRows)
    (hfiles : FilesWork (consolidate.run (s, disk)).1) :
    ∃ s' after parts contents, consolidate.run (s, disk) = (.ok (), s', after) ∧
      s'.Holds after parts contents ∧ s.grouping.Represents (contents.flatten ++ parts) rows ∧
      (keysOf (contents.flatten ++ parts)).Nodup ∧ (s.isSpilled = true → parts = []) ∧
      SameSettings s s' ∧ HandsOn (namesOf s.spills) disk (namesOf s'.spills) after := by
  obtain ⟨parts, contents, hholds, hrows⟩ := h
  obtain ⟨s', after, parts', contents', hrun, hholds', hgathered, hnone, hsettings, hhands⟩ :=
    exists_consolidate s.grouping.mergeable hholds hrows.made
      (fun key => Nat.le_trans (hrows.length_le key) hlength) hfiles
  exact ⟨s', after, parts', contents', hrun, hholds',
    hrows.of_kept hgathered.made fun key => .of_eq (hgathered.kept key), hgathered.nodup, hnone,
    hsettings, hhands⟩

theorem Represents.consolidate (h : s.Represents disk rows)
    (hlength : rows.length ≤ Grouping.mostRows)
    (hfiles : FilesWork (consolidate.run (s, disk)).1) :
    ∃ s' after, SpillingTable.consolidate.run (s, disk) = (.ok (), s', after) ∧
      s'.Represents after rows ∧ SameSettings s s' ∧
      HandsOn (namesOf s.spills) disk (namesOf s'.spills) after := by
  obtain ⟨s', after, parts, contents, hrun, hholds, hrows, -, -, hsettings, hhands⟩ :=
    exists_consolidate_rows h hlength hfiles
  exact ⟨s', after, hrun, represents_of_eq hholds hrows rfl hsettings, hsettings, hhands⟩

end Rearrange

section Merge

/-- Groups in memory are merged into groups in memory. -/
theorem exists_absorb_rows {parts parts' : List (Part Record)}
    (htable : s.table.groups = groupsOf parts) (hsorted : Groups.Sorted (groupsOf parts))
    (hrows : s.grouping.Represents parts rows) (hrows' : s.grouping.Represents parts' rows')
    (hlength : rows.length + rows'.length ≤ Grouping.mostRows) (disk : Disk) :
    ∃ parts'', (absorb (groupsOf parts')).run (s, disk) =
        (.ok (), { s with table := { s.table with groups := groupsOf parts'' } }, disk) ∧
      Groups.Sorted (groupsOf parts'') ∧ s.grouping.Represents parts'' (rows ++ rows') := by
  obtain ⟨parts'', hrun, hsorted', hmade, hkept⟩ :=
    GroupTable.exists_absorb s.grouping.mergeable htable hsorted hrows.made hrows'.made
      fun key => by
      have hle := hrows.length_le key
      have hle' := hrows'.length_le key
      omega
  refine ⟨parts'', ?_, hsorted', hmade, fun key => ?_⟩
  · rw [Step.run, absorb, hrun]
  · rw [Grouping.rowsOf, List.filter_append]
    exact (hkept key).trans ((hrows.rows key).append (hrows'.rows key))

theorem appendSpilled_error {fault : Fault} (h : (spill.run (s, disk)).1 = .error fault) :
    ((appendSpilled other).run (s, disk)).1 = .error fault := by
  rw [Step.run, appendSpilled]
  rcases hrun : spill.run (s, disk) with ⟨result, s', after⟩
  rw [hrun] at h
  cases h
  rfl

theorem appendSpilled_error_other {fault : Fault} (h : spill.run (s, disk) = (.ok (), s', after))
    (h' : (spill.run (other, after)).1 = .error fault) :
    ((appendSpilled other).run (s, disk)).1 = .error fault := by
  rw [Step.run, appendSpilled, h]
  simp only
  rcases hrun : spill.run (other, after) with ⟨result, other', last⟩
  rw [hrun] at h'
  cases h'
  rfl

theorem appendSpilled_ok {other' : SpillingTable} {last : Disk}
    (h : spill.run (s, disk) = (.ok (), s', after))
    (h' : spill.run (other, after) = (.ok (), other', last)) :
    (appendSpilled other).run (s, disk) =
      (.ok (), { s' with spills := s'.spills ++ other'.spills }, last) := by
  rw [Step.run, appendSpilled, h]
  simp only [h']

/-- The files of both tables are taken over. -/
theorem exists_appendSpilled (h : s.Represents disk rows) (h' : other.Represents disk rows')
    (hgrouping : s.grouping = other.grouping) (hconsolidated : s.consolidated = false)
    (hdisjoint : (namesOf s.spills).Disjoint (namesOf other.spills))
    (hfiles : FilesWork ((appendSpilled other).run (s, disk)).1) :
    ∃ s' after, (appendSpilled other).run (s, disk) = (.ok (), s', after) ∧
      s'.Represents after (rows ++ rows') ∧ SameSettings s s' ∧
      HandsOn (namesOf s.spills ++ namesOf other.spills) disk (namesOf s'.spills) after := by
  obtain ⟨parts, contents, hholds, hrows⟩ := h
  have hallocated := h'.allocated
  obtain ⟨s₁, disk₁, contents₁, hrun, hholds₁, hflatten, hsettings, hsame, hhands⟩ :=
    exists_spill hholds fun fault hfault => hfiles fault (appendSpilled_error hfault)
  have hapart : (namesOf s₁.spills).Disjoint (namesOf other.spills) :=
    hhands.disjoint hallocated hdisjoint
  obtain ⟨parts', contents', hholds', hrows'⟩ := h'
  have hframed : other.Holds disk₁ parts' contents' :=
    hholds'.frame hhands.frame fun name hname hmem => hdisjoint hmem hname
  obtain ⟨s₂, disk₂, contents₂, hrun', hholds₂, hflatten', -, -, hhands'⟩ :=
    exists_spill hframed fun fault hfault => hfiles fault (appendSpilled_error_other hrun hfault)
  have hapart' : (namesOf s₂.spills).Disjoint (namesOf s₁.spills) :=
    hhands'.disjoint hholds₁.files.allocated hapart.symm
  refine ⟨_, disk₂, appendSpilled_ok hrun hrun', ⟨[], contents₁ ++ contents₂, ⟨hholds₁.table, .nil,
    ?_, ?_, ?_⟩, ?_⟩, hsettings.trans ⟨rfl, rfl, rfl⟩, ?_⟩
  · refine List.rel_append (hholds₁.files.frame hhands'.frame fun name hname hmem => ?_)
      hholds₂.files
    exact hapart hname hmem
  · rw [namesOf_append]
    exact List.nodup_append.2
      ⟨hholds₁.names, hholds₂.names, fun name hname _ hname' heq => hapart' hname' (heq ▸ hname)⟩
  · intro htrue
    rw [hsame, hconsolidated] at htrue
    cases htrue
  · rw [← hgrouping] at hrows'
    rw [List.append_nil, List.flatten_append, hflatten, hflatten', grouping, hsettings.grouping]
    exact hrows.append hrows'
  · rw [namesOf_append]
    exact hhands.append hhands'

/-- The table before it takes over another one. -/
def counted (s other : SpillingTable) : SpillingTable :=
  { s with
    rowsInserted := s.rowsInserted + other.rowsInserted
    spillCount := s.spillCount + other.spillCount
    consolidated := false }

theorem merge_eq (h : s.grouping = other.grouping) (disk : Disk) :
    (merge other).run (s, disk) =
      if s.fits other then (absorb other.table.groups).run (counted s other, disk)
      else (appendSpilled other).run (counted s other, disk) := by
  rw [Step.run, merge, if_pos h]
  rfl

/-- A table that takes over another one represents the rows of both. -/
theorem exists_merge (h : s.Represents disk rows) (h' : other.Represents disk rows')
    (hgrouping : s.grouping = other.grouping)
    (hdisjoint : (namesOf s.spills).Disjoint (namesOf other.spills))
    (hlength : rows.length + rows'.length ≤ Grouping.mostRows)
    (hfiles : FilesWork ((merge other).run (s, disk)).1) :
    ∃ s' after, (merge other).run (s, disk) = (.ok (), s', after) ∧
      s'.Represents after (rows ++ rows') ∧ SameSettings s s' ∧
      HandsOn (namesOf s.spills ++ namesOf other.spills) disk (namesOf s'.spills) after := by
  have hcounted : (counted s other).Represents disk rows := by
    obtain ⟨parts, contents, hholds, hrows⟩ := h
    exact ⟨parts, contents, hholds.congr rfl rfl nofun, hrows⟩
  rw [merge_eq hgrouping] at hfiles ⊢
  split at hfiles
  · next hfits =>
      obtain ⟨hspills, -⟩ := Bool.and_eq_true_iff.1 hfits
      obtain ⟨hspills, hspills'⟩ := Bool.and_eq_true_iff.1 hspills
      rw [Bool.not_eq_true'] at hspills hspills'
      obtain ⟨parts, contents, hholds, hrows⟩ := hcounted
      obtain ⟨parts', contents', hholds', hrows'⟩ := h'
      obtain rfl := hholds.contents_eq_nil (isSpilled_eq_false.1 hspills)
      obtain rfl := hholds'.contents_eq_nil (isSpilled_eq_false.1 hspills')
      rw [List.flatten_nil, List.nil_append] at hrows hrows'
      rw [← hgrouping] at hrows'
      obtain ⟨parts'', hrun, hsorted, hrows''⟩ :=
        exists_absorb_rows hholds.table hholds.sorted hrows hrows' hlength disk
      rw [← hholds'.table] at hrun
      rw [if_pos hfits]
      refine ⟨_, disk, hrun, ⟨parts'', [], ⟨rfl, hsorted, hholds.files, hholds.names, nofun⟩,
        hrows''⟩, ⟨rfl, rfl, rfl⟩, ?_⟩
      exact (HandsOn.refl (namesOf s.spills) disk).mono (List.subset_append_left _ _)
  · next hfits =>
      rw [if_neg hfits]
      obtain ⟨s', after, hrun, hrows, hsettings, hhands⟩ :=
        exists_appendSpilled hcounted h' hgrouping rfl hdisjoint hfiles
      exact ⟨s', after, hrun, hrows, ⟨hsettings.grouping, hsettings.capacity, hsettings.namer⟩,
        hhands⟩

end Merge

section Render

variable {projection : Projection} {groups : List Group}

theorem emitGroups_append (projection : Projection) (groups later : List Group) :
    emitGroups projection (groups ++ later) = (do
      let count ← emitGroups projection groups
      let rest ← emitGroups projection later
      pure (count + rest)) := by
  induction groups with
  | nil => simp only [List.nil_append, emitGroups, pure_bind, Nat.zero_add, bind_pure]
  | cons group groups ih =>
      simp only [List.cons_append, emitGroups, ih, bind_assoc, pure_bind, Nat.add_right_comm]

/-- The groups of the files are emitted one file after the other. -/
theorem emitFiles_eq {files : List SpillFile} {contents : List (List Group)}
    (h : FilesStore disk files contents) :
    emitFiles projection disk files = emitGroups projection contents.flatten := by
  induction h with
  | nil => rfl
  | cons hfile _ ih =>
      rw [List.flatten_cons, emitGroups_append, emitFiles, hfile.read, Emission.bind_ofAttempt_ok,
        ih]

/-- The groups that are emitted are those of the rows. -/
theorem exists_render (h : s.Represents disk rows) (hlength : rows.length ≤ Grouping.mostRows)
    (hfiles : FilesWork (render projection (s, disk)).1.result) :
    ∃ s' after groups, render projection (s, disk) = (emitGroups projection groups, s', after) ∧
      (Groups.finish groups).Perm (s.grouping.recordsOver rows) ∧ s'.Represents after rows ∧
      SameSettings s s' ∧ HandsOn (namesOf s.spills) disk (namesOf s'.spills) after := by
  cases hspilled : s.isSpilled with
  | false =>
      obtain ⟨parts, contents, hholds, hrows⟩ := h
      have hnil := hholds.contents_eq_nil (isSpilled_eq_false.1 hspilled)
      refine ⟨s, disk, s.table.groups, ?_, ?_, ⟨parts, contents, hholds, hrows⟩, .refl s, .refl _ _⟩
      · rw [render, hspilled]
        rfl
      · rw [hnil] at hrows
        rw [hholds.table]
        exact hrows.finish (nodup_of_sorted hholds.sorted)
  | true =>
      have hready : FilesWork (consolidate.run (s, disk)).1 := by
        intro fault hfault
        refine hfiles fault ?_
        rcases hrun : consolidate.run (s, disk) with ⟨result, after⟩
        rw [hrun] at hfault
        cases hfault
        rw [render, if_pos hspilled, hrun]
        rfl
      obtain ⟨s', after, parts, contents, hrun, hholds, hrows, hnodup, hnone, hsettings, hhands⟩ :=
        exists_consolidate_rows h hlength hready
      obtain rfl := hnone hspilled
      refine ⟨s', after, groupsOf contents.flatten, ?_, ?_,
        represents_of_eq hholds hrows rfl hsettings, hsettings, hhands⟩
      · rw [render, if_pos hspilled, hrun]
        have hgroups : groupsOf contents.flatten = (contents.map groupsOf).flatten :=
          List.map_flatten
        rw [hgroups]
        simp only [emitFiles_eq (filesStore_iff.2 hholds.files)]
      · rw [List.append_nil] at hrows hnodup
        exact hrows.finish hnodup

/-- Groups are emitted one after the other, if all of them can be projected. -/
theorem emitGroups_emitted {records : List Record}
    (h : List.Forall₂ (fun group record =>
      projection.evaluate (.ofLeft (Group.finish group)) = .ok record) groups records) :
    emitGroups projection groups = ⟨records, .ok groups.length⟩ := by
  induction h with
  | nil => rfl
  | cons hgroup _ ih =>
      rw [emitGroups, Emission.project, hgroup, Emission.bind_ofAttempt_ok, ih, Emission.emit,
        Emission.bind_emitted, Emission.bind_emitted, Emission.rows_pure, List.append_nil]
      rfl

/-- Groups are emitted without a failure only if all of them can be projected. -/
theorem evaluate_of_emitGroups {count : Nat}
    (h : (emitGroups projection groups).result = .ok count) :
    ∀ group ∈ groups, ∃ record, projection.evaluate (.ofLeft group.finish) = .ok record := by
  induction groups generalizing count with
  | nil => exact nofun
  | cons group groups ih =>
      rw [emitGroups, Emission.project] at h
      cases hgroup : projection.evaluate (.ofLeft group.finish) with
      | error fault =>
          rw [hgroup] at h
          cases h
      | ok record =>
          rw [hgroup, Emission.bind_ofAttempt_ok, Emission.emit, Emission.bind_emitted,
            Emission.result_bind] at h
          cases hgroups : (emitGroups projection groups).result with
          | error fault =>
              rw [hgroups] at h
              cases h
          | ok count => exact List.forall_mem_cons.2 ⟨⟨record, hgroup⟩, ih hgroups⟩

end Render
end SpillingTable

namespace Grouping

/-- The records of groups have the key values and the values of the aggregates. -/
theorem length_of_recordsOver {grouping : Grouping} {rows : List Record} {record : Record}
    (h : record ∈ grouping.recordsOver rows) : record.length = grouping.outputArity := by
  obtain ⟨key, hkey, rfl⟩ := List.mem_map.1 h
  obtain ⟨row, -, rfl⟩ := List.mem_map.1 (List.mem_dedup.1 hkey)
  rw [List.length_append, Record.length_keyValues, List.length_map, outputArity]

end Grouping
end ExtentEngine
