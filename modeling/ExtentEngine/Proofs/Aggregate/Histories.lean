import ExtentEngine.Proofs.Aggregate.Arising
import ExtentEngine.Proofs.Aggregate.SpillCounts

/-!
# The files of spilling tables over time

Tables of any groupings, each with its own capacity, write their files to one disk.  They are
created, filled, closed, consolidated, rendered, merged and given up, and those of their operations
that fail for another reason than a file are followed by others.

**Results.**
* `Evolves.counts_written`: a table counts what was written for it and for the tables that it took
  over, but for what was written while it took them over.
* `late_write_is_not_counted`: that makes a difference.
* `Evolves.files_are_owned`: the disk has the files of the tables beside those that it had before.
-/

namespace ExtentEngine

open SpillingTable

/-- A file from which something is read is there. -/
theorem Disk.has_of_readItems {α : Type} {ofJson? : Json → Option α} {file : FileName} {disk : Disk}
    {items : List α} (h : disk.readItems ofJson? file = .ok items) : disk.Has file := by
  intro hnone
  rw [Disk.readItems, hnone] at h
  cases h

namespace Family

/-- A table with what was done for it, and for the tables that it took over. -/
structure History where
  table : SpillingTable
  /-- How often groups in memory were written to a new file. -/
  written : Nat
  /-- How often this was done to a table while it was taken over, after its count was read. -/
  late : Nat
  /-- Whether files were consolidated. -/
  gathered : Bool
deriving DecidableEq

namespace History

/-- The table after an operation. -/
def advance (history : History) (disk : Disk) (gathered : Bool) (state : SpillingTable × Disk) :
    History where
  table := state.1
  written := history.written + (state.2.nextSerial - disk.nextSerial)
  late := history.late
  gathered := history.gathered || gathered

/-- The table after it took over another one. -/
def join (history other : History) (disk : Disk) (state : SpillingTable × Disk) : History where
  table := state.1
  written := history.written + other.written + (state.2.nextSerial - disk.nextSerial)
  late := history.late + other.late + writtenLate history.table other.table
  gathered := history.gathered || other.gathered

end History

/-- The operations of a single table in which no file operation fails, and whether they consolidate
its files. -/
inductive Operates (state : SpillingTable × Disk) : Bool → SpillingTable × Disk → Prop
  | insert (record : Record) (hfiles : FilesWork ((SpillingTable.insert record).run state).1) :
      Operates state false ((SpillingTable.insert record).run state).2
  | close (hfiles : FilesWork (SpillingTable.close.run state).1) :
      Operates state false (SpillingTable.close.run state).2
  | consolidate (hfiles : FilesWork (SpillingTable.consolidate.run state).1) :
      Operates state state.1.gathers (SpillingTable.consolidate.run state).2
  | render (projection : Projection)
      (hfiles : FilesWork (SpillingTable.render projection state).1.result) :
      Operates state state.1.gathers (SpillingTable.render projection state).2

/-- The tables, in any order, and the disk that operations reach from a calm disk when no file
operation fails.  A table that is taken over is no more, nor is one that is given up. -/
inductive Evolves (start : Disk) : List History → Disk → Prop
  | start (hcalm : start.Calm) : Evolves start [] start
  | create {histories : List History} {disk : Disk} {grouping : Grouping} {maxGroups : Nat}
      {namer : Namer} {table : SpillingTable} (h : Evolves start histories disk)
      (hnew : SpillingTable.new grouping maxGroups namer = .ok table) :
      Evolves start (⟨table, 0, 0, false⟩ :: histories) disk
  | operate {history : History} {histories : List History} {disk : Disk} {gathered : Bool}
      {state : SpillingTable × Disk} (h : Evolves start (history :: histories) disk)
      (hrun : Operates (history.table, disk) gathered state) :
      Evolves start (history.advance disk gathered state :: histories) state.2
  | merge {history other : History} {histories : List History} {disk : Disk}
      (h : Evolves start (history :: other :: histories) disk)
      (hgrouping : history.table.grouping = other.table.grouping)
      (hfiles : FilesWork ((SpillingTable.merge other.table).run (history.table, disk)).1) :
      Evolves start
        (history.join other disk ((SpillingTable.merge other.table).run (history.table, disk)).2 ::
          histories)
        ((SpillingTable.merge other.table).run (history.table, disk)).2.2
  | refuse {history other : History} {histories : List History} {disk : Disk}
      (h : Evolves start (history :: other :: histories) disk)
      (hgrouping : history.table.grouping ≠ other.table.grouping) :
      Evolves start
        ({ history with
          table := ((SpillingTable.merge other.table).run (history.table, disk)).2.1 } :: histories)
        ((SpillingTable.merge other.table).run (history.table, disk)).2.2
  | giveUp {history : History} {histories : List History} {disk : Disk}
      (h : Evolves start (history :: histories) disk) :
      Evolves start histories (history.table.discard disk)
  | reorder {histories histories' : List History} {disk : Disk} (h : Evolves start histories disk)
      (hperm : histories.Perm histories') : Evolves start histories' disk

variable {start disk after : Disk} {histories histories' : List History} {history other : History}
  {state state' : SpillingTable × Disk} {gathered : Bool}

/-- A row is added to a table, whose state is taken together with the disk. -/
theorem Evolves.offer (state : SpillingTable × Disk) {written late : Nat}
    (h : Evolves start (⟨state.1, written, late, gathered⟩ :: histories) state.2) (record : Record)
    (taken : Nat)
    (hresult : ((SpillingTable.insert record).run state).1 = .ok ())
    (htaken : ((SpillingTable.insert record).run state).2.2.nextSerial - state.2.nextSerial =
      taken) :
    Evolves start
      (⟨((SpillingTable.insert record).run state).2.1, written + taken, late, gathered⟩ ::
        histories)
      ((SpillingTable.insert record).run state).2.2 := by
  have hinsert := h.operate (.insert record (by rw [hresult]; exact filesWork_ok ()))
  rw [History.advance, Bool.or_false] at hinsert
  rw [← htaken]
  exact hinsert

/-- A table after it took over another one with something in memory. -/
def smallHistory : History := ⟨Reaches.smallMerged.1, 3, 1, false⟩

theorem evolves_small : Evolves .empty [smallHistory] Reaches.smallMerged.2 := by
  have hnew : SpillingTable.new Reaches.smallGrouping 1 (.inDirectory "/tmp") =
      .ok Reaches.smallTable := rfl
  have hempty : Evolves .empty [⟨Reaches.smallTable, 0, 0, false⟩] .empty :=
    .create (.start rfl) hnew
  have hrow := Evolves.offer (Reaches.smallTable, .empty) hempty [.int 1, .int 10] 0
    (by decide +kernel) (by decide +kernel)
  have hfirst : Evolves .empty [⟨Reaches.smallFirst.1, 1, 0, false⟩] Reaches.smallFirst.2 :=
    Evolves.offer _ hrow [.int 2, .int 20] 1 (by decide +kernel) (by decide +kernel)
  have hsecond : Evolves .empty [⟨Reaches.smallSecond.1, 0, 0, false⟩,
      ⟨Reaches.smallFirst.1, 1, 0, false⟩] Reaches.smallSecond.2 :=
    Evolves.offer (Reaches.smallTable, Reaches.smallFirst.2) (hfirst.create hnew) [.int 1, .int 5]
      0 (by decide +kernel) (by decide +kernel)
  have hgrouping : Reaches.smallFirst.1.grouping = Reaches.smallSecond.1.grouping := by
    decide +kernel
  have hmerge : ((SpillingTable.merge Reaches.smallSecond.1).run
      (Reaches.smallFirst.1, Reaches.smallSecond.2)).1 = .ok () := by
    decide +kernel
  have hfiles : FilesWork ((SpillingTable.merge Reaches.smallSecond.1).run
      (Reaches.smallFirst.1, Reaches.smallSecond.2)).1 := by
    rw [hmerge]
    exact filesWork_ok ()
  have hjoin : History.join ⟨Reaches.smallFirst.1, 1, 0, false⟩ ⟨Reaches.smallSecond.1, 0, 0, false⟩
      Reaches.smallSecond.2 Reaches.smallMerged = smallHistory := by
    decide +kernel
  rw [← hjoin, Reaches.smallMerged]
  exact (hsecond.reorder (.swap _ _ _)).merge hgrouping hfiles

section Counts

/-- A table that counts what was written, and has as many files until some are consolidated. -/
structure History.Counts (history : History) : Prop where
  counted : history.table.spillCount + history.late = history.written
  files : history.gathered = false → history.table.spills.length = history.written

theorem Operates.tallies (h : Operates state gathered state') : Tallies state state' := by
  cases h with
  | insert record => exact (appends_insert record state).toTallies
  | close => exact (appends_close state).toTallies
  | consolidate => exact tallied_consolidate state
  | render projection => exact tallied_render projection state

theorem Operates.appends (h : Operates state gathered state') (hgathered : gathered = false) :
    Appends state state' := by
  cases h with
  | insert record => exact appends_insert record state
  | close => exact appends_close state
  | consolidate => exact appends_consolidate hgathered state.2
  | render projection => exact appends_render hgathered projection state.2

/-- The disk stays calm. -/
theorem Evolves.calm (h : Evolves start histories disk) : disk.Calm := by
  induction h with
  | start hcalm => exact hcalm
  | create _ _ ih => exact ih
  | operate _ hrun ih => exact hrun.tallies.calm ih
  | merge _ hgrouping hfiles ih => exact (merges_merge ih hgrouping hfiles).calm
  | refuse _ hgrouping ih =>
      rw [refuses_merge hgrouping]
      exact (Disk.frame_removeAll _ _).calm ih
  | giveUp _ ih => exact (Disk.frame_removeAll _ _).calm ih
  | reorder _ _ ih => exact ih

theorem History.Counts.advance (h : history.Counts) (hcalm : disk.Calm)
    (htallies : Tallies (history.table, disk) state)
    (happends : gathered = false → Appends (history.table, disk) state) :
    (history.advance disk gathered state).Counts where
  counted := by
    have hcounted := h.counted
    have hcounted' := htallies.counted hcalm
    have hserial := htallies.serial
    dsimp only [History.advance] at hcounted' hserial ⊢
    omega
  files hnever := by
    obtain ⟨hbefore, hnow⟩ := Bool.or_eq_false_iff.1 hnever
    have hfiles := h.files hbefore
    have happended := (happends hnow).appended hcalm
    have hserial := htallies.serial
    dsimp only [History.advance] at happended hserial ⊢
    omega

theorem History.Counts.join (h : history.Counts) (h' : other.Counts)
    (hmerges : Merges history.table other.table disk state) :
    (history.join other disk state).Counts where
  counted := by
    have hcounted := h.counted
    have hcounted' := h'.counted
    have hmerged := hmerges.counted
    have hserial := hmerges.serial
    dsimp only [History.join]
    omega
  files hnever := by
    obtain ⟨hbefore, hbefore'⟩ := Bool.or_eq_false_iff.1 hnever
    have hfiles := h.files hbefore
    have hfiles' := h'.files hbefore'
    have happended := hmerges.appended
    have hserial := hmerges.serial
    dsimp only [History.join]
    omega

/-- A table counts how often groups in memory were written to a new file for it and for the tables
that it took over, but for those of a table that were written while it was taken over.  As long as
no files are consolidated there is one for each time. -/
theorem Evolves.counts_written (h : Evolves start histories disk) :
    ∀ history ∈ histories, history.table.spillCount + history.late = history.written ∧
      (history.gathered = false → history.table.spills.length = history.written) := by
  suffices hcounts : ∀ history ∈ histories, history.Counts from
    fun history hhistory => ⟨(hcounts history hhistory).counted, (hcounts history hhistory).files⟩
  induction h with
  | start _ => exact nofun
  | create _ hnew ih =>
      refine List.forall_mem_cons.2 ⟨?_, ih⟩
      rw [SpillingTable.new] at hnew
      split at hnew
      · cases hnew
      · cases hnew
        exact ⟨rfl, fun _ => rfl⟩
  | operate h hrun ih =>
      obtain ⟨hhistory, hrest⟩ := List.forall_mem_cons.1 ih
      exact List.forall_mem_cons.2 ⟨hhistory.advance h.calm hrun.tallies hrun.appends, hrest⟩
  | merge h hgrouping hfiles ih =>
      obtain ⟨hhistory, hrest⟩ := List.forall_mem_cons.1 ih
      obtain ⟨hother, hrest⟩ := List.forall_mem_cons.1 hrest
      exact List.forall_mem_cons.2
        ⟨hhistory.join hother (merges_merge h.calm hgrouping hfiles), hrest⟩
  | refuse _ hgrouping ih =>
      obtain ⟨hhistory, hrest⟩ := List.forall_mem_cons.1 ih
      rw [refuses_merge hgrouping]
      exact List.forall_mem_cons.2 ⟨hhistory, (List.forall_mem_cons.1 hrest).2⟩
  | giveUp _ ih => exact (List.forall_mem_cons.1 ih).2
  | reorder _ hperm ih => exact fun history hhistory => ih history (hperm.mem_iff.2 hhistory)

theorem counts_written_small :
    Reaches.smallMerged.1.spillCount + 1 = 3 ∧ Reaches.smallMerged.1.spills.length = 3 := by
  obtain ⟨hcount, hfiles⟩ := evolves_small.counts_written smallHistory List.mem_cons_self
  exact ⟨hcount, hfiles rfl⟩

/-- Groups in memory were written three times and nothing was consolidated, so there are three
files, of which two are counted. -/
theorem late_write_is_not_counted :
    Evolves .empty [smallHistory] Reaches.smallMerged.2 ∧ smallHistory.gathered = false ∧
      smallHistory.written = 3 ∧ smallHistory.table.spills.length = 3 ∧
      smallHistory.table.spillCount = 2 :=
  ⟨evolves_small, by decide +kernel⟩

end Counts
section Files

/-- The names of the files of the tables. -/
def filesOf (histories : List History) : List FileName :=
  histories.flatMap fun history => namesOf history.table.spills

/-- The tables as owners of their files. -/
def storing : Holding History where
  names history := namesOf history.table.spills
  holds disk history := ∃ contents, history.table.Stores disk contents
  allocated := by
    rintro disk history ⟨contents, hstores⟩
    exact hstores.files.allocated
  frame := by
    rintro own disk after history ⟨contents, hstores⟩ hframe hown
    exact ⟨contents, hstores.frame hframe hown⟩

/-- Tables whose files are new since a start, with nothing left over. -/
structure Tidy (start : Disk) (histories : List History) (disk : Disk) : Prop where
  calm : disk.Calm
  all : storing.All histories disk
  hands : HandsOn [] start (filesOf histories) disk
  cleansUp : CleansUp [] start (filesOf histories) disk

theorem Operates.exists_moves (h : Operates state gathered state') {contents : List (List Group)}
    (hstores : state.1.Stores state.2 contents) :
    ∃ contents', Moves state.2 state.1 state'.2 state'.1 contents' := by
  cases h with
  | insert record hfiles =>
      obtain ⟨result, s', after, contents', hrun, hmoves, -⟩ := hstores.insert record hfiles
      rw [hrun]
      exact ⟨contents', hmoves⟩
  | close hfiles =>
      obtain ⟨s', after, contents', hrun, hmoves, -⟩ := hstores.close hfiles
      rw [hrun]
      exact ⟨contents', hmoves⟩
  | consolidate hfiles =>
      obtain ⟨result, s', after, contents', hrun, hmoves, -⟩ := hstores.consolidate hfiles
      rw [hrun]
      exact ⟨contents', hmoves⟩
  | render projection hfiles =>
      obtain ⟨result, s', after, contents', hrun, hmoves, -⟩ := hstores.render projection hfiles
      rw [hrun]
      exact ⟨contents', hmoves⟩

namespace Tidy

theorem nil (hcalm : start.Calm) : Tidy start [] start :=
  ⟨hcalm, .nil start, .refl _ _, .refl _ _⟩

/-- Tables do something with their files or those of tables that are no more. -/
theorem next {own own' rest : List FileName} (h : Tidy start histories disk)
    (hall : storing.All histories' after) (hnames : filesOf histories = own ++ rest)
    (hnames' : filesOf histories' = own' ++ rest) (hhands : HandsOn own disk own' after)
    (hcleans : CleansUp own disk own' after) : Tidy start histories' after where
  calm := hhands.frame.calm h.calm
  all := hall
  hands := by
    have hbefore := h.hands
    rw [hnames] at hbefore
    rw [hnames']
    exact hbefore.trans (hhands.append (.refl rest after))
  cleansUp := by
    have hbefore := h.cleansUp
    rw [hnames] at hbefore
    rw [hnames']
    exact hbefore.trans (hcleans.append (.refl rest after))

theorem perm (h : Tidy start histories disk) (hperm : histories.Perm histories') :
    Tidy start histories' disk where
  calm := h.calm
  all := h.all.perm hperm
  hands := by
    have hnames := hperm.flatMap_right fun history => namesOf history.table.spills
    exact ⟨h.hands.frame, fun name hname => h.hands.names name (hnames.mem_iff.2 hname)⟩
  cleansUp file hfile := by
    have hnames := hperm.flatMap_right fun history => namesOf history.table.spills
    exact (h.cleansUp file hfile).imp_left hnames.mem_iff.1

theorem operate (h : Tidy start (history :: histories) disk)
    (hrun : Operates (history.table, disk) gathered state) :
    Tidy start (history.advance disk gathered state :: histories) state.2 := by
  obtain ⟨contents, hstores⟩ := h.all.head
  obtain ⟨contents', hmoves⟩ := hrun.exists_moves hstores
  exact h.next (h.all.step hmoves.hands ⟨contents', hmoves.stores⟩) rfl rfl hmoves.hands
    (hrun.tallies.cleansUp h.calm)

theorem merge (h : Tidy start (history :: other :: histories) disk)
    (hgrouping : history.table.grouping = other.table.grouping)
    (hfiles : FilesWork ((SpillingTable.merge other.table).run (history.table, disk)).1) :
    Tidy start
      (history.join other disk ((SpillingTable.merge other.table).run (history.table, disk)).2 ::
        histories)
      ((SpillingTable.merge other.table).run (history.table, disk)).2.2 := by
  obtain ⟨contents, hstores⟩ := h.all.head
  obtain ⟨contents', hstores'⟩ := h.all.tail.head
  have hmerges := merges_merge h.calm hgrouping hfiles
  obtain ⟨result, s', after, contents'', hrun, hstores'', -, hhands, -⟩ :=
    hstores.merge hstores' hgrouping h.all.disjoint hfiles
  rw [hrun] at hmerges ⊢
  exact h.next (h.all.join hhands ⟨contents'', hstores''⟩) (List.append_assoc _ _ _).symm rfl
    hhands hmerges.cleansUp

/-- A table is given up with its files. -/
theorem giveUp (h : Tidy start (history :: histories) disk) :
    Tidy start histories (history.table.discard disk) := by
  have hframe : Disk.Frame (· ∈ namesOf history.table.spills) disk (history.table.discard disk) :=
    Disk.frame_removeAll _ _
  refine h.next (h.all.tail.frame (hframe.mono fun name _ hname owner howner hmem => ?_)) rfl rfl
    ⟨hframe, fun _ hname => absurd hname List.not_mem_nil⟩ (cleansUp_discard _ h.calm)
  exact (List.pairwise_cons.1 h.all.apart).1 owner howner hname hmem

end Tidy

/-- The tables have their files, and no others are left. -/
theorem Evolves.tidy (h : Evolves start histories disk) : Tidy start histories disk := by
  induction h with
  | start hcalm => exact .nil hcalm
  | @create histories disk grouping maxGroups namer table _ hnew ih =>
      obtain ⟨hstores, -, hspills, -⟩ := stores_new hnew disk
      have hnames : namesOf table.spills = [] := congrArg namesOf hspills
      have hall : storing.All (⟨table, 0, 0, false⟩ :: histories) disk :=
        ih.all.cons (fun _ _ => List.disjoint_nil_left _) (hnames ▸ .refl _ _) ⟨[], hstores⟩
      refine ih.next hall rfl ?_ (.refl [] disk) (.refl [] disk)
      rw [filesOf, List.flatMap_cons, hnames]
      rfl
  | operate _ hrun ih => exact ih.operate hrun
  | merge _ hgrouping hfiles ih => exact ih.merge hgrouping hfiles
  | @refuse history other histories disk _ hgrouping ih =>
      rw [refuses_merge hgrouping]
      exact ((ih.perm (.swap _ _ _)).giveUp)
  | giveUp _ ih => exact ih.giveUp
  | reorder _ hperm ih => exact ih.perm hperm

/-- The disk has the files of the tables beside those that it had before, each of them once.  A file
of a table can be read, and the files that were there before are as they were. -/
theorem Evolves.files_are_owned (h : Evolves start histories disk)
    (hstart : ∀ file, start.Has file → start.Allocated file) :
    (∀ file, disk.Has file ↔ start.Has file ∨ file ∈ filesOf histories) ∧
      (filesOf histories).Nodup ∧
      (∀ file ∈ filesOf histories, ¬start.Has file) ∧
      (∀ history ∈ histories, ∀ spill ∈ history.table.spills,
        ∃ groups, spill.read disk = .ok groups ∧ spill.size = groups.length) ∧
      (∀ file, start.Has file → disk.read? file = start.read? file) ∧
      (histories = [] → ∀ file, disk.read? file = start.read? file) := by
  have htidy := h.tidy
  have hread : ∀ history ∈ histories, ∀ spill ∈ history.table.spills,
      ∃ groups, spill.read disk = .ok groups ∧ spill.size = groups.length := by
    intro history hhistory spill hspill
    obtain ⟨contents, hstores⟩ := htidy.all.holds history hhistory
    obtain ⟨groups, -, hholds⟩ := exists_of_mem_left hstores.files hspill
    exact ⟨groups, hholds.read, hholds.size⟩
  have hkept : ∀ file, start.Has file → disk.read? file = start.read? file := fun file hfile =>
    htidy.hands.frame.read file (hstart file hfile) List.not_mem_nil
  have hleft : ∀ file, disk.Has file → start.Has file ∨ file ∈ filesOf histories :=
    fun file hfile => (htidy.cleansUp file hfile).symm.imp_left And.left
  refine ⟨fun file => ⟨hleft file, ?_⟩, ?_, fun file hfile hbefore => ?_, hread, hkept, ?_⟩
  · rintro (hbefore | hfile)
    · rw [Disk.Has, hkept file hbefore]
      exact hbefore
    · obtain ⟨history, hhistory, hname⟩ := List.mem_flatMap.1 hfile
      obtain ⟨spill, hspill, rfl⟩ := List.mem_map.1 hname
      obtain ⟨groups, hgroups, -⟩ := hread history hhistory spill hspill
      exact Disk.has_of_readItems hgroups
  · refine List.nodup_flatMap.2 ⟨fun history hhistory => ?_, htidy.all.apart⟩
    obtain ⟨contents, hstores⟩ := htidy.all.holds history hhistory
    exact hstores.names
  · exact (htidy.hands.names file hfile).elim (fun hnone => absurd hnone List.not_mem_nil)
      fun hnew => hnew (hstart file hbefore)
  · rintro rfl file
    by_cases hbefore : start.Has file
    · exact hkept file hbefore
    · have hgone : ¬disk.Has file := fun hfile =>
        (hleft file hfile).elim hbefore fun hnone => absurd hnone List.not_mem_nil
      rw [Decidable.not_not.1 hbefore, Decidable.not_not.1 hgone]

/-- Each of the files of a table is there, and none once the table is given up. -/
theorem files_are_owned_small :
    (filesOf [smallHistory]).length = 3 ∧ (filesOf [smallHistory]).Nodup ∧
      (∀ file ∈ filesOf [smallHistory], Reaches.smallMerged.2.Has file) ∧
      ∀ file, (smallHistory.table.discard Reaches.smallMerged.2).read? file = none := by
  have hempty : ∀ file, Disk.empty.Has file → Disk.empty.Allocated file := fun _ hfile =>
    absurd rfl hfile
  obtain ⟨hhas, hnodup, -⟩ := evolves_small.files_are_owned hempty
  obtain ⟨-, -, -, -, -, hgone⟩ := evolves_small.giveUp.files_are_owned hempty
  exact ⟨by decide +kernel, hnodup, fun file hfile => (hhas file).2 (Or.inr hfile), hgone rfl⟩

end Files
end Family
end ExtentEngine
