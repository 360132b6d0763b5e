import ExtentEngine.Proofs.Aggregate.Damage
import ExtentEngine.Proofs.Aggregate.SpillCounts

/-!
# Tables whose files fail

Whatever becomes of its files, a table has its groups in memory and a list of files that groups were
written to.  Those of them that can be read still hold these groups, or the first few of those that
were being written when that broke off.  That is so after every operation, also after one that fails
because of a file.

**Results.**
* `Remembers.insert`, `Remembers.close`, `Remembers.consolidate`, `Remembers.merge`: what a table
  holds after an operation, with or without success.
* `Weathers.all`: tables that share a disk hold what they should, whichever operations on files
  fail and whichever files become unreadable.
* `Remembers.damaged`: that is so if files become readable again, too.
-/

namespace ExtentEngine
namespace SpillingTable

open Groups

/-- A table with its groups in memory and with the files that others were written to, whether or not
these can be read. -/
structure Remembers (disk : Disk) (s : SpillingTable) (held : List (SpillFile × List Group)) :
    Prop where
  positive : 0 < s.table.capacity
  room : s.table.groups.length ≤ s.table.capacity
  sorted : Groups.Sorted s.table.groups
  conforms : ∀ group ∈ s.table.groups, group.Conforms s.table.grouping
  spills : s.spills = held.map Prod.fst
  kept : Kept s.table.grouping disk held

/-- What a table holds after an operation: its files are those that they were, or they hold what was
written to them since, but for the one whose writing broke off. -/
structure Survives (torn : Option FileName) (disk : Disk) (held : List (SpillFile × List Group))
    (after : Disk) (s' : SpillingTable) (held' : List (SpillFile × List Group)) : Prop where
  remembers : s'.Remembers after held'
  faithful : ∀ entry ∈ held', torn ≠ some entry.1.file →
    (entry ∈ held ∧ after.read? entry.1.file = disk.read? entry.1.file) ∨
      entry.1.Holds after entry.2
  hands : HandsOn (held.map fun entry => entry.1.file) disk
    (held'.map fun entry => entry.1.file) after

/-- The groups in memory are gone, and nothing else is. -/
def Loses (s : SpillingTable) (disk : Disk) (held : List (SpillFile × List Group))
    (s' : SpillingTable) (after : Disk) (held' : List (SpillFile × List Group)) : Prop :=
  s' = { s with table := s.table.newEmpty } ∧ held' = held ∧
    ∀ entry ∈ held, after.read? entry.1.file = disk.read? entry.1.file

/-- What a table is that was to be consolidated when a file operation failed: its groups in memory
are lost, or groups of one file are there twice, and none is lost but those that were to be written
to a file when that broke off. -/
def FallsShort (torn : Option FileName) (s : SpillingTable) (disk : Disk)
    (held : List (SpillFile × List Group)) (s' : SpillingTable) (after : Disk)
    (held' : List (SpillFile × List Group)) : Prop :=
  torn = none ∧ Loses s disk held s' after held' ∨
    s'.table = s.table.newEmpty ∧ s'.consolidated = false ∧
      BreaksOff torn after (groupsIn held ++ s.table.groups) held'

variable {disk middle after : Disk} {s s' s'' other : SpillingTable} {result : Attempt Unit}
  {held held' held'' : List (SpillFile × List Group)} {contents : List (List Group)}
  {torn : Option FileName}

theorem namesOf_map_fst (held : List (SpillFile × List Group)) :
    namesOf (held.map Prod.fst) = held.map fun entry => entry.1.file := List.map_map

theorem Stores.remembers (h : s.Stores disk contents) :
    s.Remembers disk (s.spills.zip contents) := by
  obtain ⟨hlength, hholds⟩ := List.forall₂_iff_zip.1 h.files
  have hspills : (s.spills.zip contents).map Prod.fst = s.spills :=
    List.map_fst_zip (Nat.le_of_eq hlength)
  have hcontents : (s.spills.zip contents).map Prod.snd = contents :=
    List.map_snd_zip (Nat.le_of_eq hlength.symm)
  refine ⟨h.positive, h.room, h.sorted, h.conforms, hspills.symm,
    fun entry hentry => (hholds hentry).keeps, ?_, ?_⟩
  · rw [← namesOf_map_fst, hspills]
    exact h.names
  · rw [groupsIn, List.flatMap_def, hcontents]
    exact h.stored

theorem remembers_new {grouping : Grouping} {maxGroups : Nat} {namer : Namer}
    (hnew : new grouping maxGroups namer = .ok s) (disk : Disk) : s.Remembers disk [] := by
  have hremembers := (stores_new hnew disk).1.remembers
  rwa [List.zip_nil_right] at hremembers

/-- Files may become unreadable, and readable again. -/
theorem Remembers.damaged (h : s.Remembers disk held) (hserial : disk.nextSerial ≤ after.nextSerial)
    (hread : ∀ entry ∈ held, ∀ found, entry.1.read after = .ok found → found = entry.2) :
    s.Remembers after held where
  __ := h
  kept := { h.kept with
    keeps := fun entry hentry =>
      have hkeeps := h.kept.keeps entry hentry
      ⟨hread entry hentry, hkeeps.sorted, Disk.allocated_mono hserial hkeeps.allocated⟩ }

/-- What is noted of a table does not change its groups. -/
theorem Remembers.congr (h : s.Remembers disk held) (htable : s'.table = s.table)
    (hspills : s'.spills = s.spills) : s'.Remembers disk held where
  positive := htable ▸ h.positive
  room := htable ▸ h.room
  sorted := htable ▸ h.sorted
  conforms := htable ▸ h.conforms
  spills := hspills.trans h.spills
  kept := htable ▸ h.kept

/-- A table whose files work. -/
theorem Remembers.stores (h : s.Remembers disk held)
    (hholds : ∀ entry ∈ held, entry.1.Holds disk entry.2) :
    s.Stores disk (held.map Prod.snd) where
  positive := h.positive
  room := h.room
  sorted := h.sorted
  conforms := h.conforms
  files := by
    rw [h.spills, FilesStore, List.forall₂_map_left_iff, List.forall₂_map_right_iff]
    exact List.forall₂_same.2 hholds
  names := by
    rw [h.spills, namesOf_map_fst]
    exact h.kept.names
  stored := h.kept.conforms

/-- Operations that own none of its files leave the groups of a table where they are. -/
theorem Remembers.frame (h : s.Remembers disk held) {own : FileName → Prop}
    (hframe : Disk.Frame own disk after) (hown : ∀ name ∈ namesOf s.spills, ¬own name) :
    s.Remembers after held := by
  rw [h.spills, namesOf_map_fst] at hown
  have hkept := h.kept.frame hframe fun entry hentry => hown _ (List.mem_map_of_mem hentry)
  exact { h with kept := hkept }

theorem Remembers.allocated (h : s.Remembers disk held) :
    ∀ name ∈ namesOf s.spills, disk.Allocated name := by
  rw [h.spills, namesOf_map_fst]
  exact List.forall_mem_map.2 fun entry hentry => (h.kept.keeps entry hentry).allocated

theorem Survives.refl (h : s.Remembers disk held) : Survives none disk held disk s held :=
  ⟨h, fun _ hentry _ => Or.inl ⟨hentry, rfl⟩, .refl _ _⟩

theorem Survives.congr (h : Survives torn disk held after s' held') (htable : s''.table = s'.table)
    (hspills : s''.spills = s'.spills) : Survives torn disk held after s'' held' :=
  { h with remembers := h.remembers.congr htable hspills }

/-- Only the last operation breaks off. -/
theorem Survives.trans (h : Survives none disk held middle s held')
    (h' : Survives torn middle held' after s' held'') :
    Survives torn disk held after s' held'' where
  remembers := h'.remembers
  faithful entry hentry hwhole := by
    rcases h'.faithful entry hentry hwhole with ⟨hmem, hread⟩ | hwritten
    · rcases h.faithful entry hmem nofun with ⟨hmem, hread'⟩ | hholds
      · exact Or.inl ⟨hmem, hread.trans hread'⟩
      · exact Or.inr (hholds.of_read? hread h'.hands.frame)
    · exact Or.inr hwritten
  hands := h.hands.trans h'.hands

/-- The files that a table has are those that it had, or new ones. -/
theorem Survives.handsOn (h : Survives torn disk held after s' held')
    (hremembers : s.Remembers disk held) :
    HandsOn (namesOf s.spills) disk (namesOf s'.spills) after := by
  rw [hremembers.spills, h.remembers.spills, namesOf_map_fst, namesOf_map_fst]
  exact h.hands

section Spill

/-- Operations that own none of its files do not touch the files of a table. -/
theorem Remembers.untouched (h : s.Remembers disk held)
    (hframe : Disk.Frame (fun _ => False) disk after) :
    ∀ entry ∈ held, after.read? entry.1.file = disk.read? entry.1.file :=
  fun entry hentry => hframe.read _ (h.kept.keeps entry hentry).allocated id

/-- A table that has lost its groups in memory. -/
theorem Remembers.emptied (h : s.Remembers disk held)
    (hframe : Disk.Frame (fun _ => False) disk after) :
    Survives none disk held after { s with table := s.table.newEmpty } held where
  remembers := ⟨h.positive, Nat.zero_le _, .nil, List.forall_mem_nil _, h.spills,
    h.kept.frame hframe fun _ _ => id⟩
  faithful entry hentry _ := Or.inl ⟨hentry, h.untouched hframe entry hentry⟩
  hands := ⟨hframe.mono fun _ _ => False.elim, fun _ => Or.inl⟩

/-- A table that has written its groups in memory to a new file. -/
theorem Remembers.spilled (h : s.Remembers disk held) {file : SpillFile}
    (hholds : file.Holds after s.table.groups) (hframe : Disk.Frame (fun _ => False) disk after)
    (hnew : ¬disk.Allocated file.file) :
    Survives none disk held after { s with
      table := s.table.newEmpty, spills := s.spills ++ [file], spillCount := s.spillCount + 1 }
      (held ++ [(file, s.table.groups)]) where
  remembers := by
    have hkept := h.kept.frame hframe fun _ _ => id
    refine ⟨h.positive, Nat.zero_le _, .nil, List.forall_mem_nil _, ?_,
      List.forall_mem_append.2 ⟨hkept.keeps, List.forall_mem_singleton.2 hholds.keeps⟩, ?_, ?_⟩
    · rw [h.spills, List.map_append]
      rfl
    · rw [← namesOf_map_fst, List.map_append, ← h.spills]
      refine nodup_spilled ?_ h.allocated hnew
      rw [h.spills, namesOf_map_fst]
      exact h.kept.names
    · rw [groupsIn_append]
      exact List.forall_mem_append.2 ⟨h.kept.conforms, List.forall_mem_append.2
        ⟨h.conforms, List.forall_mem_nil _⟩⟩
  faithful := by
    refine List.forall_mem_append.2 ⟨fun entry hentry _ => Or.inl ⟨hentry, ?_⟩,
      List.forall_mem_singleton.2 fun _ => Or.inr hholds⟩
    exact h.untouched hframe entry hentry
  hands := by
    rw [← namesOf_map_fst, ← namesOf_map_fst, List.map_append]
    exact handsOn_spilled hframe hnew

/-- Groups in memory are written to a new file, or they are lost. -/
theorem Remembers.spill (h : s.Remembers disk held)
    (hrun : SpillingTable.spill.run (s, disk) = (result, s', after)) :
    ∃ held', Survives none disk held after s' held' ∧ s'.table = s.table.newEmpty ∧
      s'.consolidated = s.consolidated ∧ (result ≠ .ok () → Loses s disk held s' after held') ∧
      (result = .ok () → groupsIn held' = groupsIn held ++ s.table.groups) := by
  cases hempty : s.table.groups.isEmpty with
  | true =>
      rw [spill_of_isEmpty hempty] at hrun
      cases hrun
      have hnil := List.isEmpty_iff.1 hempty
      refine ⟨held, .refl h, ?_, rfl, fun hfails => absurd rfl hfails, fun _ => ?_⟩
      · rw [GroupTable.newEmpty, ← hnil]
      · rw [hnil, List.append_nil]
  | false =>
      obtain ⟨hframe, hcases⟩ := SpillFile.create_cases s.namer s.table.groups disk
      rcases hcases with ⟨file, middle, hcreate, hholds, hnew, -⟩ | ⟨fault, hfault, -⟩
      · rw [hcreate] at hframe
        rw [spill_of_create hempty hcreate] at hrun
        cases hrun
        refine ⟨_, h.spilled (hholds h.sorted) hframe hnew, rfl, rfl,
          fun hfails => absurd rfl hfails, fun _ => ?_⟩
        rw [groupsIn_append, groupsIn_cons]
        exact congrArg (groupsIn held ++ ·) (List.append_nil _)
      · rw [spill_of_create_error hempty (Prod.ext hfault rfl)] at hrun
        cases hrun
        exact ⟨held, h.emptied hframe, rfl, rfl, fun _ => ⟨rfl, rfl, h.untouched hframe⟩, nofun⟩

/-- Groups in memory are written to a file if there are files, or they are lost. -/
theorem Remembers.close (h : s.Remembers disk held)
    (hrun : SpillingTable.close.run (s, disk) = (result, s', after)) :
    ∃ held', Survives none disk held after s' held' ∧
      (result ≠ .ok () → Loses s disk held s' after held') := by
  cases hspilled : s.isSpilled with
  | true =>
      rw [close_of_isSpilled hspilled] at hrun
      obtain ⟨held', hsurvives, -, -, hloses, -⟩ := h.spill hrun
      exact ⟨held', hsurvives, hloses⟩
  | false =>
      rw [close_of_not_isSpilled hspilled] at hrun
      cases hrun
      exact ⟨held, .refl h, fun hfails => absurd rfl hfails⟩

end Spill

section Insert

/-- There is room for a group, or the groups in memory are lost. -/
theorem Remembers.makeRoom (h : s.Remembers disk held)
    (hrun : SpillingTable.makeRoom.run (s, disk) = (result, s', after)) :
    ∃ held', Survives none disk held after s' held' ∧
      (result ≠ .ok () → Loses s disk held s' after held') ∧
      (result = .ok () → s'.table.groups.length < s'.table.capacity) := by
  cases hfull : s.table.isFull with
  | true =>
      rw [makeRoom_of_isFull hfull] at hrun
      obtain ⟨held', hsurvives, htable, -, hloses, -⟩ := h.spill hrun
      refine ⟨held', hsurvives, hloses, fun _ => ?_⟩
      rw [htable]
      exact h.positive
  | false =>
      rw [makeRoom_of_not_isFull hfull] at hrun
      cases hrun
      exact ⟨held, .refl h, fun hfails => absurd rfl hfails, fun _ => isFull_eq_false.1 hfull⟩

/-- A row is added to a table with room for a group. -/
theorem Remembers.insertInMemory (h : s.Remembers disk held)
    (hroom : s.table.groups.length < s.table.capacity) (record : Record) :
    Remembers disk { s with table := ((GroupTable.insert record).run s.table).2 } held := by
  have hgrown := GroupTable.grown_insert h.sorted h.conforms record
  have hlength := hgrown.length_le fun _ hkey _ => hkey
  exact ⟨h.positive, Nat.le_trans hlength hroom, hgrown.sorted, hgrown.conforms, h.spills, h.kept⟩

/-- A row is added, or is not. -/
theorem Remembers.insert (h : s.Remembers disk held) {record : Record}
    (hrun : (SpillingTable.insert record).run (s, disk) = (result, s', after)) :
    ∃ held', Survives none disk held after s' held' ∧
      ((SpillingTable.makeRoom.run (s, disk)).1 ≠ .ok () → Loses s disk held s' after held') := by
  rcases hroom : SpillingTable.makeRoom.run (s, disk) with ⟨made, s₁, middle⟩
  obtain ⟨held', hsurvives, hloses, hlength⟩ := h.makeRoom hroom
  cases made with
  | error fault =>
      cases (insert_of_makeRoom_error hroom).symm.trans hrun
      exact ⟨held', hsurvives, hloses⟩
  | ok _ =>
      have hinserted := hsurvives.remembers.insertInMemory (hlength rfl) record
      refine ⟨held', ?_, fun hfails => absurd rfl hfails⟩
      cases hresult : ((GroupTable.insert record).run s₁.table).1 with
      | error fault =>
          cases (insert_of_error hroom (Prod.ext hresult rfl)).symm.trans hrun
          exact { hsurvives with remembers := hinserted }
      | ok _ =>
          cases (insert_of_ok hroom (Prod.ext hresult rfl)).symm.trans hrun
          exact { hsurvives with remembers := hinserted.congr rfl rfl }

end Insert

section Consolidate

/-- Files are consolidated, up to one that cannot be read or written. -/
theorem Remembers.consolidateSpills (h : s.Remembers disk held)
    (hrun : SpillingTable.consolidateSpills.run (s, disk) = (result, s', after)) :
    ∃ torn held', Survives torn disk held after s' held' ∧ s'.table = s.table ∧
      s'.consolidated = s.consolidated ∧ (result = .ok () → torn = none) ∧
      (result ≠ .ok () → BreaksOff torn after (groupsIn held) held') := by
  rw [Step.run, SpillingTable.consolidateSpills, h.spills] at hrun
  rcases hfiles : consolidateFiles (held.map Prod.fst) disk with ⟨result, files, last⟩
  simp only [hfiles] at hrun
  cases hrun
  obtain ⟨torn, held', rfl, hcarried, hkept, hwhole, hbreaks⟩ := consolidateFiles_kept h.kept hfiles
  refine ⟨torn, held', ⟨⟨h.positive, h.room, h.sorted, h.conforms, rfl, hkept⟩,
    fun entry hentry hintact => ?_, hcarried.frame,
    fun name hname => Or.inl (hcarried.names ▸ hname)⟩, rfl, rfl, hwhole, hbreaks⟩
  obtain ⟨before, hbefore, hcarries⟩ := exists_of_mem_right hcarried.carries hentry
  cases hcarries with
  | same hread => exact Or.inl ⟨hbefore, hread⟩
  | anew _ hholds => exact Or.inr hholds
  | torn _ _ _ hwhere => exact absurd hwhere hintact

/-- Files without groups are removed. -/
theorem Remembers.dropEmptyFiles (h : s.Remembers disk held) :
    ∃ held', Survives none disk held (SpillFile.removeAll (unfilled s.spills) disk)
      { s with spills := filled s.spills } held' := by
  let held' := held.filter fun entry => !decide (entry.1.size = 0)
  have hspills : filled s.spills = held'.map Prod.fst := by
    rw [h.spills, filled, List.filter_map]
    rfl
  have hnames : (namesOf s.spills).Nodup := by
    rw [h.spills, namesOf_map_fst]
    exact h.kept.names
  have hframe := frame_unfilled s.spills disk
  have hapart : ∀ entry ∈ held', entry.1.file ∉ namesOf (unfilled s.spills) := by
    intro entry hentry
    refine (names_filled hnames).2 _ ?_
    rw [hspills, namesOf_map_fst]
    exact List.mem_map_of_mem hentry
  have hkept : Kept s.table.grouping disk held' := h.kept.sublist List.filter_sublist
  refine ⟨held', ⟨⟨h.positive, h.room, h.sorted, h.conforms, hspills, hkept.frame hframe hapart⟩,
    fun entry hentry _ => Or.inl ⟨List.mem_of_mem_filter hentry, ?_⟩, ?_⟩⟩
  · exact hframe.read _ (hkept.keeps entry hentry).allocated (hapart entry hentry)
  · rw [← namesOf_map_fst, ← namesOf_map_fst, ← hspills, ← h.spills]
    exact handsOn_filled s.spills disk

/-- A table is consolidated, up to a file that cannot be read or written. -/
theorem Remembers.consolidate (h : s.Remembers disk held)
    (hrun : SpillingTable.consolidate.run (s, disk) = (result, s', after)) :
    ∃ torn held', Survives torn disk held after s' held' ∧
      (result ≠ .ok () → FallsShort torn s disk held s' after held') := by
  cases hplace : s.consolidated || !s.isSpilled with
  | true =>
      rw [consolidate_of_settled hplace] at hrun
      cases hrun
      exact ⟨none, held, (Survives.refl h).congr rfl rfl, fun hfails => absurd rfl hfails⟩
  | false =>
      obtain ⟨hunmarked, hspilled⟩ := Bool.or_eq_false_iff.1 hplace
      rw [Bool.not_eq_false'] at hspilled
      rw [consolidate_of_not_settled hplace, Step.run_bind, close_of_isSpilled hspilled] at hrun
      rcases hspill : SpillingTable.spill.run (s, disk) with ⟨result₁, s₁, disk₁⟩
      obtain ⟨held₁, hsurvives, htable, hsame, hloses, hgroups⟩ := h.spill hspill
      rw [hspill] at hrun
      cases result₁ with
      | error fault =>
          cases hrun
          exact ⟨none, held₁, hsurvives, fun hfails => Or.inl ⟨rfl, hloses hfails⟩⟩
      | ok _ =>
          simp only [Step.run_bind] at hrun
          rcases hspills : SpillingTable.consolidateSpills.run (s₁, disk₁) with ⟨result₂, s₂, disk₂⟩
          obtain ⟨torn, held₂, hsurvives', htable', hsame', hwhole, hbreaks⟩ :=
            hsurvives.remembers.consolidateSpills hspills
          rw [hspills] at hrun
          cases result₂ with
          | error fault =>
              cases hrun
              rw [hgroups rfl] at hbreaks
              exact ⟨torn, held₂, hsurvives.trans hsurvives', fun hfails =>
                Or.inr ⟨htable'.trans htable, (hsame'.trans hsame).trans hunmarked,
                  hbreaks hfails⟩⟩
          | ok _ =>
              obtain rfl := hwhole rfl
              obtain ⟨held₃, hsurvives''⟩ := hsurvives'.remembers.dropEmptyFiles
              simp only [run_dropEmptyFiles] at hrun
              cases hrun
              exact ⟨none, held₃, (hsurvives.trans (hsurvives'.trans hsurvives'')).congr rfl rfl,
                fun hfails => absurd rfl hfails⟩

theorem Remembers.render (h : s.Remembers disk held) (projection : Projection) :
    ∃ torn held', Survives torn disk held (SpillingTable.render projection (s, disk)).2.2
      (SpillingTable.render projection (s, disk)).2.1 held' := by
  rw [render_state]
  split
  · obtain ⟨torn, held', hsurvives, -⟩ := h.consolidate (Prod.ext rfl rfl)
    exact ⟨torn, held', hsurvives⟩
  · exact ⟨none, held, .refl h⟩

end Consolidate

section Merge

/-- A table that is given up. -/
theorem handsOn_discard (s : SpillingTable) (disk : Disk) :
    HandsOn (namesOf s.spills) disk [] (s.discard disk) :=
  ⟨Disk.frame_removeAll (namesOf s.spills) disk, nofun⟩

/-- The files of another table are taken over. -/
theorem Remembers.append (h : s.Remembers disk held) (h' : other.Remembers disk held')
    (hgrouping : s.table.grouping = other.table.grouping)
    (hdisjoint : (namesOf s.spills).Disjoint (namesOf other.spills)) :
    Remembers disk { s with spills := s.spills ++ other.spills } (held ++ held') where
  positive := h.positive
  room := h.room
  sorted := h.sorted
  conforms := h.conforms
  spills := by
    rw [h.spills, h'.spills, List.map_append]
  kept := by
    refine ⟨List.forall_mem_append.2 ⟨h.kept.keeps, h'.kept.keeps⟩, ?_, ?_⟩
    · rw [h.spills, h'.spills, namesOf_map_fst, namesOf_map_fst] at hdisjoint
      rw [List.map_append]
      exact List.nodup_append.2 ⟨h.kept.names, h'.kept.names,
        fun name hname _ hname' heq => hdisjoint hname (heq ▸ hname')⟩
    · rw [groupsIn_append]
      exact List.forall_mem_append.2 ⟨h.kept.conforms, hgrouping ▸ h'.kept.conforms⟩

/-- The files of another table are taken over after groups in memory are written to files, or the
other table is given up. -/
theorem Remembers.appendSpilled (h : s.Remembers disk held) (h' : other.Remembers disk held')
    (hgrouping : s.table.grouping = other.table.grouping)
    (hdisjoint : (namesOf s.spills).Disjoint (namesOf other.spills))
    (hrun : (SpillingTable.appendSpilled other).run (s, disk) = (result, s', after)) :
    (∃ held'', s'.Remembers after held'') ∧
      HandsOn (namesOf s.spills ++ namesOf other.spills) disk (namesOf s'.spills) after := by
  rcases hspill : SpillingTable.spill.run (s, disk) with ⟨result₁, s₁, disk₁⟩
  obtain ⟨held₁, hsurvives, htable, -⟩ := h.spill hspill
  have hhands := hsurvives.handsOn h
  have hapart := hhands.disjoint h'.allocated hdisjoint
  rw [Step.run, SpillingTable.appendSpilled, hspill] at hrun
  cases result₁ with
  | error fault =>
      cases hrun
      have hgiven := handsOn_discard other disk₁
      have happend := hhands.append hgiven
      rw [List.append_nil] at happend
      exact ⟨⟨held₁, hsurvives.remembers.frame hgiven.frame
        fun _ hname hmem => hapart hname hmem⟩, happend⟩
  | ok _ =>
      have hother := h'.frame hhands.frame fun name hname hmem => hdisjoint hmem hname
      rcases hspill' : SpillingTable.spill.run (other, disk₁) with ⟨result₂, s₂, disk₂⟩
      obtain ⟨held₂, hsurvives', htable', -⟩ := hother.spill hspill'
      have hhands' := hsurvives'.handsOn hother
      have hapart' := hhands'.disjoint hsurvives.remembers.allocated hapart.symm
      have hremembers := hsurvives.remembers.frame hhands'.frame
        fun _ hname hmem => hapart hname hmem
      simp only [hspill'] at hrun
      cases result₂ with
      | error fault =>
          cases hrun
          have hgiven := handsOn_discard s₂ disk₂
          have happend := hhands.append (hhands'.trans hgiven)
          rw [List.append_nil] at happend
          exact ⟨⟨held₁, hremembers.frame hgiven.frame
            fun _ hname hmem => hapart' hmem hname⟩, happend⟩
      | ok _ =>
          cases hrun
          have hsame : s₁.table.grouping = s₂.table.grouping := by
            rw [htable, htable']
            exact hgrouping
          refine ⟨⟨_, hremembers.append hsurvives'.remembers hsame hapart'.symm⟩, ?_⟩
          rw [namesOf_append]
          exact hhands.append hhands'

/-- Groups in memory are taken over by a table with room for them. -/
theorem Remembers.absorb (h : s.Remembers disk held) (h' : other.Remembers disk held')
    (hgrouping : s.grouping = other.grouping) (hfits : s.fits other = true)
    (hrun : (SpillingTable.absorb other.table.groups).run (s, disk) = (result, s', after)) :
    (∃ held'', s'.Remembers after held'') ∧
      HandsOn (namesOf s.spills ++ namesOf other.spills) disk (namesOf s'.spills) after := by
  obtain ⟨hspills, -⟩ := Bool.and_eq_true_iff.1 hfits
  obtain ⟨hspills, hspills'⟩ := Bool.and_eq_true_iff.1 hspills
  rw [Bool.not_eq_true', isSpilled_eq_false] at hspills hspills'
  obtain rfl : held = [] := List.map_eq_nil_iff.1 (h.spills.symm.trans hspills)
  obtain rfl : held' = [] := List.map_eq_nil_iff.1 (h'.spills.symm.trans hspills')
  obtain ⟨result, s', hrun', hstores, -, hnone, -⟩ :=
    (h.stores nofun).absorb (h'.stores nofun) hgrouping hfits
  cases hrun.symm.trans hrun'
  refine ⟨⟨_, hstores.remembers⟩, ?_⟩
  rw [hnone]
  exact ⟨.refl _ _, nofun⟩

/-- A table takes over another one, or the other one is given up. -/
theorem Remembers.merge (h : s.Remembers disk held) (h' : other.Remembers disk held')
    (hdisjoint : (namesOf s.spills).Disjoint (namesOf other.spills))
    (hrun : (SpillingTable.merge other).run (s, disk) = (result, s', after)) :
    (∃ held'', s'.Remembers after held'') ∧
      HandsOn (namesOf s.spills ++ namesOf other.spills) disk (namesOf s'.spills) after := by
  by_cases hgrouping : s.grouping = other.grouping
  · have hcounted : (counted s other).Remembers disk held := h.congr rfl rfl
    rw [merge_eq hgrouping] at hrun
    split at hrun
    · next hfits => exact hcounted.absorb h' hgrouping hfits hrun
    · exact hcounted.appendSpilled h' hgrouping hdisjoint hrun
  · have hdiffer : (SpillingTable.merge other).run (s, disk) =
        (.error .definitionsDiffer, s, other.discard disk) := by
      rw [Step.run, SpillingTable.merge, if_neg hgrouping]
    cases hrun.symm.trans hdiffer
    have hgiven := handsOn_discard other disk
    have happend := (HandsOn.refl (namesOf s.spills) disk).append hgiven
    rw [List.append_nil] at happend
    exact ⟨⟨held, h.frame hgiven.frame fun _ hname hmem => hdisjoint hname hmem⟩, happend⟩

end Merge

section Families

/-- The tables, in any order, and the disk that operations reach of which any may fail.  Files may
become unreadable at any time, and other owners of files share the disk. -/
inductive Weathers : List SpillingTable → Disk → Prop
  | start (disk : Disk) : Weathers [] disk
  | create {tables : List SpillingTable} {disk : Disk} {grouping : Grouping} {maxGroups : Nat}
      {namer : Namer} {table : SpillingTable} (h : Weathers tables disk)
      (hnew : new grouping maxGroups namer = .ok table) : Weathers (table :: tables) disk
  | insert {tables : List SpillingTable} {disk after : Disk} {table table' : SpillingTable}
      {record : Record} {result : Attempt Unit} (h : Weathers (table :: tables) disk)
      (hrun : (SpillingTable.insert record).run (table, disk) = (result, table', after)) :
      Weathers (table' :: tables) after
  | close {tables : List SpillingTable} {disk after : Disk} {table table' : SpillingTable}
      {result : Attempt Unit} (h : Weathers (table :: tables) disk)
      (hrun : SpillingTable.close.run (table, disk) = (result, table', after)) :
      Weathers (table' :: tables) after
  | consolidate {tables : List SpillingTable} {disk after : Disk} {table table' : SpillingTable}
      {result : Attempt Unit} (h : Weathers (table :: tables) disk)
      (hrun : SpillingTable.consolidate.run (table, disk) = (result, table', after)) :
      Weathers (table' :: tables) after
  | render {tables : List SpillingTable} {disk after : Disk} {table table' : SpillingTable}
      {projection : Projection} {emission : Emission Nat} (h : Weathers (table :: tables) disk)
      (hrun : SpillingTable.render projection (table, disk) = (emission, table', after)) :
      Weathers (table' :: tables) after
  | merge {tables : List SpillingTable} {disk after : Disk} {table table' other : SpillingTable}
      {result : Attempt Unit} (h : Weathers (table :: other :: tables) disk)
      (hrun : (SpillingTable.merge other).run (table, disk) = (result, table', after)) :
      Weathers (table' :: tables) after
  | giveUp {tables : List SpillingTable} {disk : Disk} {table : SpillingTable}
      (h : Weathers (table :: tables) disk) : Weathers tables (table.discard disk)
  | damage {tables : List SpillingTable} {disk after : Disk} (h : Weathers tables disk)
      (hserial : disk.nextSerial ≤ after.nextSerial)
      (hread : ∀ table ∈ tables, ∀ file ∈ table.spills, ∀ found,
        file.read after = .ok found → file.read disk = .ok found) : Weathers tables after
  | others {tables : List SpillingTable} {disk after : Disk} (h : Weathers tables disk)
      (hframe : Disk.Frame (fun name => ∀ table ∈ tables, name ∉ namesOf table.spills) disk after) :
      Weathers tables after
  | reorder {tables tables' : List SpillingTable} {disk : Disk} (h : Weathers tables disk)
      (hperm : tables.Perm tables') : Weathers tables' disk

/-- The tables as owners of their files. -/
def remembering : Holding SpillingTable where
  names table := namesOf table.spills
  holds disk table := ∃ held, table.Remembers disk held
  allocated := by
    rintro disk table ⟨held, hremembers⟩
    exact hremembers.allocated
  frame := by
    rintro own disk after table ⟨held, hremembers⟩ hframe hown
    exact ⟨held, hremembers.frame hframe hown⟩

variable {tables : List SpillingTable} {table : SpillingTable}

/-- Whatever was done, each table holds what it should. -/
theorem Weathers.all (h : Weathers tables disk) : remembering.All tables disk := by
  induction h with
  | start disk => exact .nil disk
  | @create tables disk grouping maxGroups namer table _ hnew ih =>
      obtain ⟨-, -, hspills, -⟩ := stores_new hnew disk
      have hhands : HandsOn [] disk (namesOf table.spills) disk := by
        rw [hspills]
        exact .refl _ _
      exact ih.cons (fun _ _ => List.disjoint_nil_left _) hhands ⟨[], remembers_new hnew disk⟩
  | insert _ hrun ih =>
      obtain ⟨held, hremembers⟩ := ih.head
      obtain ⟨held', hsurvives, -⟩ := hremembers.insert hrun
      exact ih.step (hsurvives.handsOn hremembers) ⟨held', hsurvives.remembers⟩
  | close _ hrun ih =>
      obtain ⟨held, hremembers⟩ := ih.head
      obtain ⟨held', hsurvives, -⟩ := hremembers.close hrun
      exact ih.step (hsurvives.handsOn hremembers) ⟨held', hsurvives.remembers⟩
  | consolidate _ hrun ih =>
      obtain ⟨held, hremembers⟩ := ih.head
      obtain ⟨torn, held', hsurvives, -⟩ := hremembers.consolidate hrun
      exact ih.step (hsurvives.handsOn hremembers) ⟨held', hsurvives.remembers⟩
  | @render _ _ _ _ _ projection _ _ hrun ih =>
      obtain ⟨held, hremembers⟩ := ih.head
      obtain ⟨torn, held', hsurvives⟩ := hremembers.render projection
      rw [hrun] at hsurvives
      exact ih.step (hsurvives.handsOn hremembers) ⟨held', hsurvives.remembers⟩
  | merge _ hrun ih =>
      obtain ⟨held, hremembers⟩ := ih.head
      obtain ⟨held', hremembers'⟩ := ih.tail.head
      obtain ⟨hmerged, hhands⟩ := hremembers.merge hremembers' ih.disjoint hrun
      exact ih.join hhands hmerged
  | @giveUp tables disk table _ ih =>
      have hgiven := handsOn_discard table disk
      exact ih.tail.frame (hgiven.frame.mono fun _ _ hname other hother hmem =>
        (List.pairwise_cons.1 ih.apart).1 other hother hname hmem)
  | damage _ hserial hread ih =>
      refine ⟨fun table htable => ?_, ih.apart⟩
      obtain ⟨held, hremembers⟩ := ih.holds table htable
      refine ⟨held, hremembers.damaged hserial fun entry hentry found hfound => ?_⟩
      have hfile : entry.1 ∈ table.spills := by
        rw [hremembers.spills]
        exact List.mem_map_of_mem hentry
      exact (hremembers.kept.keeps entry hentry).read found (hread table htable _ hfile _ hfound)
  | others _ hframe ih => exact ih.frame hframe
  | reorder _ hperm ih => exact ih.perm hperm

/-- Every table, whichever operations failed before, remembers what was written to its files. -/
theorem Weathers.remembers (h : Weathers tables disk) (htable : table ∈ tables) :
    ∃ held, table.Remembers disk held :=
  h.all.holds table htable

/-- A row is offered to a table, whose state is taken together with the disk. -/
theorem Weathers.offer (state : SpillingTable × Disk) (h : Weathers (state.1 :: tables) state.2)
    (record : Record) :
    Weathers (((SpillingTable.insert record).run state).2.1 :: tables)
      ((SpillingTable.insert record).run state).2.2 :=
  h.insert rfl

end Families

end SpillingTable
end ExtentEngine
