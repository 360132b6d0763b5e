import ExtentEngine.Proofs.Aggregate.Intact
import ExtentEngine.Proofs.Disk.Leftovers

/-!
# The files that operations of a spilling table make

A name is taken on a calm disk for each table of groups that is written to a new file, and for
nothing else.  So the names that an operation takes tell how many it wrote.  A table counts those of
its own, and of a table that it takes over those that were written before.

**Results.**
* `SpillFile.create_of_calm`: a new file takes a name, unless nothing is done to any file.
* `tallied_consolidate` and `tallied_render`: every table that is written is counted, and no file is
  left over.
* `appends_insert` and `appends_close`: each table that is written is one more file.
* `tallies_merge`: a table that is written while it is taken over is not counted.
-/

namespace ExtentEngine

/-- Whatever a step is run from leads to what is related to it. -/
def Step.Relates {σ α : Type} (relation : σ → σ → Prop) (step : Step σ α) : Prop :=
  ∀ s, relation s (step.run s).2

theorem Step.Relates.bind {σ α β : Type} {relation : σ → σ → Prop} [IsTrans σ relation]
    {step : Step σ α} {next : α → Step σ β} (h : step.Relates relation)
    (hnext : ∀ a, (next a).Relates relation) : (step >>= next).Relates relation := by
  intro s
  have hfirst := h s
  rw [Step.run_bind]
  rcases hrun : step.run s with ⟨result, t⟩
  rw [hrun] at hfirst
  cases result with
  | error fault => exact hfirst
  | ok a => exact trans_of relation hfirst (hnext a t)

namespace SpillFile

/-- On a calm disk a new file takes a name, unless nothing is done to any file. -/
theorem create_of_calm (namer : Namer) (groups : List Group) {disk : Disk} (hcalm : disk.Calm) :
    (∃ fault after, (create namer groups).run disk = (.error fault, after) ∧
      fault.isFileFailure = true ∧ disk.SameFiles after) ∨
    ∃ file after, (create namer groups).run disk = (.ok file, after) ∧
      after.nextSerial = disk.nextSerial + 1 ∧
      ∀ name, after.Has name → name = file.file ∨ disk.Has name := by
  have hsame := Disk.files_ensureDirectory namer.directory disk
  have hframe := Disk.frame_ensureDirectory (fun _ => False) namer.directory disk
  rcases hmade : (Disk.ensureDirectory namer.directory).run disk with ⟨result, middle⟩
  rw [hmade] at hsame hframe
  cases result with
  | error fault =>
      refine Or.inl ⟨fault, middle, ?_, ?_, hsame⟩
      · rw [create, Step.run_bind, hmade]
      · rw [Disk.ensureDirectory_error (congrArg Prod.fst hmade)]
        rfl
  | ok _ =>
      have hstore := Disk.run_store SpillFile.mk Group.toJson namer "spill" groups
        (Disk.hasDirectory_of_ensureDirectory hmade) (hframe.calm hcalm)
      have hcreate : (create namer groups).run disk =
          (.ok ⟨.fresh namer "spill" middle.nextSerial, groups.length⟩,
            ((Disk.fresh namer "spill").run middle).2.put
              (.fresh namer "spill" middle.nextSerial) (Lines.ofItems Group.toJson groups)) := by
        rw [create, Step.run_bind, hmade]
        exact hstore
      refine Or.inr ⟨_, _, hcreate, congrArg (· + 1) hsame.nextSerial, fun name hname => ?_⟩
      exact (Disk.has_put.1 hname).imp_right (hsame.has name).1

/-- A file keeps its name when it is written anew. -/
theorem replace_writesOver (groups : List Group) (spill : SpillFile) (disk : Disk) :
    ((replace groups).run (spill, disk)).2.1.file = spill.file ∧
      Disk.WritesOver [spill.file] disk ((replace groups).run (spill, disk)).2.2 := by
  have hwrites := Disk.writesOver_writeItems Group.toJson spill.file groups disk
  rw [Step.run, replace]
  rcases hrun : (Disk.writeItems Group.toJson spill.file groups).run disk with ⟨result, after⟩
  rw [hrun] at hwrites
  cases result <;> exact ⟨rfl, hwrites⟩

end SpillFile

namespace SpillingTable

/-- If the disk is calm, every table of groups that is written is counted, and no file is left
over. -/
structure Tallies (state state' : SpillingTable × Disk) : Prop where
  cleansUp : state.2.Calm →
    CleansUp (namesOf state.1.spills) state.2 (namesOf state'.1.spills) state'.2
  counted : state.2.Calm →
    state'.1.spillCount + state.2.nextSerial = state.1.spillCount + state'.2.nextSerial
  serial : state.2.nextSerial ≤ state'.2.nextSerial
  calm : state.2.Calm → state'.2.Calm

/-- Moreover, each table of groups that is written is one more file. -/
structure Appends (state state' : SpillingTable × Disk) : Prop extends Tallies state state' where
  appended : state.2.Calm → state'.1.spills.length + state.2.nextSerial =
    state.1.spills.length + state'.2.nextSerial

variable {state middle state' : SpillingTable × Disk} {s s' other : SpillingTable}
  {disk after : Disk}

theorem Tallies.trans (h : Tallies state middle) (h' : Tallies middle state') :
    Tallies state state' where
  cleansUp hcalm := (h.cleansUp hcalm).trans (h'.cleansUp (h.calm hcalm))
  counted hcalm := by
    have hcounted := h.counted hcalm
    have hcounted' := h'.counted (h.calm hcalm)
    omega
  serial := Nat.le_trans h.serial h'.serial
  calm hcalm := h'.calm (h.calm hcalm)

theorem Appends.trans (h : Appends state middle) (h' : Appends middle state') :
    Appends state state' where
  toTallies := h.toTallies.trans h'.toTallies
  appended hcalm := by
    have happended := h.appended hcalm
    have happended' := h'.appended (h.calm hcalm)
    omega

instance : IsTrans (SpillingTable × Disk) Tallies := ⟨fun _ _ _ => Tallies.trans⟩

instance : IsTrans (SpillingTable × Disk) Appends := ⟨fun _ _ _ => Appends.trans⟩

/-- Nothing is written, and the files and the count stay as they are. -/
theorem appends_of_sameFiles (hspills : s'.spills = s.spills)
    (hcount : s'.spillCount = s.spillCount)
    (hsame : disk.SameFiles after) (hcalm : disk.Calm → after.Calm) :
    Appends (s, disk) (s', after) where
  cleansUp _ file hfile := by
    have hbefore := (hsame.has file).1 hfile
    rw [hspills]
    exact (Decidable.em _).imp_right fun hmem => ⟨hbefore, hmem⟩
  counted _ := by rw [hcount, hsame.nextSerial]
  serial := Nat.le_of_eq hsame.nextSerial.symm
  appended _ := by rw [hspills, hsame.nextSerial]
  calm := hcalm

theorem appends_of_eq (hspills : s'.spills = s.spills) (hcount : s'.spillCount = s.spillCount) :
    Appends (s, disk) (s', disk) :=
  appends_of_sameFiles hspills hcount ⟨rfl, rfl⟩ id

section Spill

/-- On a calm disk groups in memory are put into a new file, or there are none, or a file operation
fails. -/
theorem spill_outcome (s : SpillingTable) (hcalm : disk.Calm) :
    Appends (s, disk) (spill.run (s, disk)).2 ∧
      ((∃ fault, (spill.run (s, disk)).1 = .error fault ∧ fault.isFileFailure = true) ∨
        (spill.run (s, disk)).1 = .ok () ∧ (spill.run (s, disk)).2.2.nextSerial =
          disk.nextSerial + if s.table.groups.isEmpty then 0 else 1) := by
  have hframe := frame_spill s disk
  cases hempty : s.table.groups.isEmpty with
  | true =>
      rw [spill_of_isEmpty hempty]
      exact ⟨appends_of_eq rfl rfl, Or.inr ⟨rfl, rfl⟩⟩
  | false =>
      rcases SpillFile.create_of_calm s.namer s.table.groups hcalm with
        ⟨fault, after, hcreate, hfault, hsame⟩ | ⟨file, after, hcreate, hserial, hhas⟩
      · rw [spill_of_create_error hempty hcreate] at hframe ⊢
        exact ⟨appends_of_sameFiles rfl rfl hsame hframe.calm, Or.inl ⟨fault, rfl, hfault⟩⟩
      · rw [spill_of_create hempty hcreate] at hframe ⊢
        refine ⟨⟨⟨fun _ name hname => ?_, fun _ => ?_, ?_, hframe.calm⟩, fun _ => ?_⟩,
          Or.inr ⟨rfl, hserial⟩⟩
        · rw [namesOf_append, List.mem_append]
          by_cases hmem : name ∈ namesOf s.spills
          · exact Or.inl (Or.inl hmem)
          · refine (hhas name hname).elim (fun hfile => ?_) fun hbefore => Or.inr ⟨hbefore, hmem⟩
            exact Or.inl (Or.inr (List.mem_singleton.2 hfile))
        · dsimp only
          omega
        · exact Nat.le_of_lt (Nat.lt_of_lt_of_eq (Nat.lt_succ_self _) hserial.symm)
        · rw [List.length_append, List.length_singleton]
          dsimp only
          omega

theorem appends_spill : spill.Relates Appends := by
  intro (s, disk)
  have hframe := frame_spill s disk
  have hcalmly : disk.Calm → Appends (s, disk) (spill.run (s, disk)).2 := fun hcalm =>
    (spill_outcome s hcalm).1
  exact ⟨⟨fun hcalm => (hcalmly hcalm).cleansUp hcalm, fun hcalm => (hcalmly hcalm).counted hcalm,
    hframe.serial, hframe.calm⟩, fun hcalm => (hcalmly hcalm).appended hcalm⟩

/-- Spilling that does not fail takes a name if there is something to be written. -/
theorem nextSerial_spill (hcalm : disk.Calm) (h : FilesWork (spill.run (s, disk)).1) :
    (spill.run (s, disk)).1 = .ok () ∧ (spill.run (s, disk)).2.2.nextSerial =
      disk.nextSerial + if s.table.groups.isEmpty then 0 else 1 := by
  rcases (spill_outcome s hcalm).2 with ⟨fault, hfault, hfile⟩ | hok
  · rw [h fault hfault] at hfile
    cases hfile
  · exact hok

theorem appends_close : close.Relates Appends := by
  intro (s, disk)
  cases hspilled : s.isSpilled with
  | true =>
      rw [close_of_isSpilled hspilled]
      exact appends_spill _
  | false =>
      rw [close_of_not_isSpilled hspilled]
      exact appends_of_eq rfl rfl

theorem appends_makeRoom : makeRoom.Relates Appends := by
  intro (s, disk)
  cases hfull : s.table.isFull with
  | true =>
      rw [makeRoom_of_isFull hfull]
      exact appends_spill _
  | false =>
      rw [makeRoom_of_not_isFull hfull]
      exact appends_of_eq rfl rfl

theorem appends_insert (record : Record) : (insert record).Relates Appends := by
  rw [insert_eq]
  refine appends_makeRoom.bind fun _ => ?_
  refine Step.Relates.bind (fun _ => appends_of_eq rfl rfl) fun _ => ?_
  exact fun _ => appends_of_eq rfl rfl

end Spill

section Consolidate

/-- Files that may have been written anew, under their names. -/
structure InPlace (disk : Disk) (files : List SpillFile) (after : Disk) (files' : List SpillFile) :
    Prop where
  names : namesOf files' = namesOf files
  writes : Disk.WritesOver (namesOf files) disk after

namespace InPlace

variable {file file' : SpillFile} {files files' files'' : List SpillFile} {middle : Disk}

theorem refl (disk : Disk) (files : List SpillFile) : InPlace disk files disk files :=
  ⟨rfl, .refl _ _⟩

theorem turn (disk : Disk) (files : List SpillFile) : InPlace disk files disk.turn files :=
  ⟨rfl, .turn _ _⟩

theorem trans (h : InPlace disk files middle files') (h' : InPlace middle files' after files'') :
    InPlace disk files after files'' :=
  ⟨h'.names.trans h.names, h.writes.trans (h.names ▸ h'.writes)⟩

theorem cons (file : SpillFile) (h : InPlace disk files after files') :
    InPlace disk (file :: files) after (file :: files') :=
  ⟨congrArg (file.file :: ·) h.names, h.writes.mono (List.subset_cons_self _ _)⟩

theorem head (files : List SpillFile) (hname : file'.file = file.file)
    (hwrites : Disk.WritesOver [file.file] disk after) :
    InPlace disk (file :: files) after (file' :: files) where
  names := congrArg (· :: namesOf files) hname
  writes := hwrites.mono (List.cons_subset.2 ⟨List.mem_cons_self, List.nil_subset _⟩)

theorem length (h : InPlace disk files after files') : files'.length = files.length := by
  have hlength := congrArg List.length h.names
  rwa [namesOf, namesOf, List.length_map, List.length_map] at hlength

end InPlace

/-- A file is written anew in its place. -/
theorem inPlace_replace (groups : List Group) (file : SpillFile) (files : List SpillFile)
    (disk : Disk) : InPlace disk (file :: files) ((SpillFile.replace groups).run (file, disk)).2.2
      (((SpillFile.replace groups).run (file, disk)).2.1 :: files) := by
  obtain ⟨hname, hwrites⟩ := SpillFile.replace_writesOver groups file disk
  exact .head files hname hwrites

theorem inPlace_rewrite (changed : Bool) (groups : List Group) (file : SpillFile)
    (files : List SpillFile) (disk : Disk) :
    InPlace disk (file :: files) (rewrite changed groups file disk).2.2
      ((rewrite changed groups file disk).2.1 :: files) := by
  cases changed with
  | true => exact inPlace_replace groups file files disk
  | false => exact .refl _ _

/-- Groups are merged into files in place. -/
theorem inPlace_spread (current : Groups) (files : List SpillFile) (disk : Disk) :
    InPlace disk files (spread current files disk).2.2 (spread current files disk).2.1 := by
  induction files generalizing current disk with
  | nil => exact .refl _ _
  | cons file files ih =>
      cases hempty : current.isEmpty with
      | true =>
          rw [spread, if_pos hempty]
          exact .refl _ _
      | false =>
          have hturn := InPlace.turn disk (file :: files)
          obtain ⟨_ | groups, hload⟩ := SpillFile.exists_load file disk
          · rw [spread_cons_of_not_loaded hempty hload]
            exact hturn
          · rw [spread_cons_of_loaded hempty hload]
            cases spreadInto current groups with
            | error fault => exact hturn
            | ok spread' =>
                have hwrite :=
                  hturn.trans (inPlace_rewrite spread'.changed spread'.later file files disk.turn)
                dsimp only
                rcases hrun : rewrite spread'.changed spread'.later file disk.turn with
                  ⟨_ | _, file', after⟩ <;> rw [hrun] at hwrite
                · exact hwrite
                · exact hwrite.trans ((ih _ _).cons _)

/-- Files are consolidated in place. -/
theorem inPlace_consolidateFiles (files : List SpillFile) (disk : Disk) :
    InPlace disk files (consolidateFiles files disk).2.2 (consolidateFiles files disk).2.1 := by
  induction hlength : files.length generalizing files disk with
  | zero =>
      obtain rfl := List.length_eq_zero_iff.1 hlength
      rw [consolidateFiles]
      exact .refl _ _
  | succ n ih =>
      cases files with
      | nil => cases hlength
      | cons file files =>
          obtain ⟨_ | groups, hload⟩ := SpillFile.exists_load file disk
          · rw [consolidateFiles_cons_of_not_loaded hload]
            exact .turn _ _
          · have hspread := (InPlace.turn disk files).trans
              (inPlace_spread (Groups.ofList groups) files disk.turn)
            rcases hrun : spread (Groups.ofList groups) files disk.turn with
              ⟨_ | remaining, files', middle⟩ <;> rw [hrun] at hspread
            · rw [consolidateFiles_cons_of_error hload hrun]
              exact hspread.cons file
            · have hreplaced := (hspread.cons file).trans
                (inPlace_replace remaining file files' middle)
              rcases hreplace : (SpillFile.replace remaining).run (file, middle) with
                ⟨_ | _, file', last⟩ <;> rw [hreplace] at hreplaced
              · rw [consolidateFiles_cons_of_not_replaced hload hrun hreplace]
                exact hreplaced
              · rw [consolidateFiles_cons hload hrun hreplace]
                have hlength' : files'.length = n := hspread.length.trans (Nat.succ.inj hlength)
                exact hreplaced.trans ((ih files' last hlength').cons file')

theorem tallied_consolidateSpills : consolidateSpills.Relates Tallies := by
  intro (s, disk)
  obtain ⟨hnames, hwrites⟩ := inPlace_consolidateFiles s.spills disk
  rw [Step.run, consolidateSpills]
  rcases hrun : consolidateFiles s.spills disk with ⟨result, files, after⟩
  rw [hrun] at hnames hwrites
  refine ⟨fun _ => ?_, fun _ => congrArg (s.spillCount + ·) hwrites.nextSerial.symm,
    Nat.le_of_eq hwrites.nextSerial.symm, hwrites.calm⟩
  rw [hnames]
  exact .of_writesOver hwrites

theorem tallied_dropEmptyFiles : dropEmptyFiles.Relates Tallies := by
  intro (s, disk)
  have hserial : (SpillFile.removeAll (unfilled s.spills) disk).nextSerial = disk.nextSerial :=
    Disk.nextSerial_removeAll _ _
  rw [run_dropEmptyFiles]
  refine ⟨fun hcalm name hname => ?_, fun _ => congrArg (s.spillCount + ·) hserial.symm,
    Nat.le_of_eq hserial.symm, (frame_unfilled s.spills disk).calm⟩
  obtain ⟨hbefore, hremoved⟩ := (Disk.has_removeAll hcalm).1 hname
  by_cases hmem : name ∈ namesOf s.spills
  · refine Or.inl ?_
    obtain ⟨file, hfile, rfl⟩ := List.mem_map.1 hmem
    refine List.mem_map_of_mem (List.mem_filter.2 ⟨hfile, ?_⟩)
    rw [Bool.not_eq_true', decide_eq_false_iff_not]
    intro hempty
    exact hremoved (List.mem_map_of_mem (List.mem_filter.2 ⟨hfile, decide_eq_true hempty⟩))
  · exact Or.inr ⟨hbefore, hmem⟩

/-- Whether consolidating a table has anything to do. -/
def gathers (s : SpillingTable) : Bool := !(s.consolidated || !s.isSpilled)

theorem appends_consolidate (h : s.gathers = false) (disk : Disk) :
    Appends (s, disk) (consolidate.run (s, disk)).2 := by
  rw [gathers, Bool.not_eq_false'] at h
  rw [consolidate_of_settled h]
  exact appends_of_eq rfl rfl

theorem tallied_consolidate : consolidate.Relates Tallies := by
  intro (s, disk)
  cases hsettled : s.consolidated || !s.isSpilled with
  | true =>
      rw [consolidate_of_settled hsettled]
      exact Appends.toTallies (appends_of_eq rfl rfl)
  | false =>
      rw [consolidate_of_not_settled hsettled]
      have hclose : close.Relates Tallies := fun state => (appends_close state).toTallies
      refine hclose.bind (fun _ => ?_) (s, disk)
      refine tallied_consolidateSpills.bind fun _ => ?_
      refine tallied_dropEmptyFiles.bind fun _ => ?_
      exact fun _ => Appends.toTallies (appends_of_eq rfl rfl)

/-- Rendering consolidates a table that has files, and leaves others as they are. -/
theorem render_state (projection : Projection) (s : SpillingTable) (disk : Disk) :
    (render projection (s, disk)).2 =
      if s.isSpilled then (consolidate.run (s, disk)).2 else (s, disk) := by
  cases hspilled : s.isSpilled with
  | true =>
      rw [render, if_pos hspilled]
      rcases hrun : consolidate.run (s, disk) with ⟨result, state⟩
      cases result <;> rfl
  | false =>
      rw [render, hspilled]
      rfl

theorem tallied_render (projection : Projection) (state : SpillingTable × Disk) :
    Tallies state (render projection state).2 := by
  rw [render_state]
  split
  · exact tallied_consolidate state
  · exact Appends.toTallies (appends_of_eq rfl rfl)

theorem appends_render (h : s.gathers = false) (projection : Projection) (disk : Disk) :
    Appends (s, disk) (render projection (s, disk)).2 := by
  rw [render_state]
  split
  · exact appends_consolidate h disk
  · exact appends_of_eq rfl rfl

end Consolidate

section Merge

/-- How many tables of groups are written that a table does not count when it takes over another
one: its own table of groups is written after the count of the other one was read. -/
def writtenLate (s other : SpillingTable) : Nat :=
  if s.fits other || other.table.groups.isEmpty then 0 else 1

/-- What becomes on a calm disk of the files and the count of a table that takes over another
one. -/
structure Merges (s other : SpillingTable) (disk : Disk) (state' : SpillingTable × Disk) :
    Prop where
  cleansUp : CleansUp (namesOf s.spills ++ namesOf other.spills) disk (namesOf state'.1.spills)
    state'.2
  counted : state'.1.spillCount + writtenLate s other + disk.nextSerial =
    s.spillCount + other.spillCount + state'.2.nextSerial
  serial : disk.nextSerial ≤ state'.2.nextSerial
  appended : state'.1.spills.length + disk.nextSerial =
    s.spills.length + other.spills.length + state'.2.nextSerial
  calm : state'.2.Calm

/-- The files of another table are taken over, with one for the groups in memory on either side. -/
theorem merges_appendSpilled (hcalm : disk.Calm) (hfits : s.fits other = false)
    (hfiles : FilesWork ((appendSpilled other).run (counted s other, disk)).1) :
    Merges s other disk ((appendSpilled other).run (counted s other, disk)).2 := by
  have hown : FilesWork (spill.run (counted s other, disk)).1 := fun fault hfault =>
    hfiles fault (appendSpilled_error hfault)
  have hfirst := appends_spill (counted s other, disk)
  obtain ⟨hok, -⟩ := nextSerial_spill hcalm hown
  rcases hrun : spill.run (counted s other, disk) with ⟨result, s₁, disk₁⟩
  rw [hrun] at hfirst hok
  subst hok
  have hcalm' : disk₁.Calm := hfirst.calm hcalm
  have hother : FilesWork (spill.run (other, disk₁)).1 := fun fault hfault =>
    hfiles fault (appendSpilled_error_other hrun hfault)
  have hsecond := appends_spill (other, disk₁)
  obtain ⟨hok, hserial⟩ := nextSerial_spill hcalm' hother
  rcases hrun' : spill.run (other, disk₁) with ⟨result, s₂, disk₂⟩
  rw [hrun'] at hsecond hok hserial
  subst hok
  rw [appendSpilled_ok hrun hrun']
  have hlate : writtenLate s other = if other.table.groups.isEmpty then 0 else 1 := by
    rw [writtenLate, hfits, Bool.false_or]
  refine ⟨?_, ?_, Nat.le_trans hfirst.serial hsecond.serial, ?_, hsecond.calm hcalm'⟩
  · rw [namesOf_append]
    exact (hfirst.cleansUp hcalm).append (hsecond.cleansUp hcalm')
  · have hcounted : s₁.spillCount + disk.nextSerial =
        s.spillCount + other.spillCount + disk₁.nextSerial := hfirst.counted hcalm
    rw [hlate]
    dsimp only at hserial ⊢
    omega
  · have happended : s₁.spills.length + disk.nextSerial = s.spills.length + disk₁.nextSerial :=
      hfirst.appended hcalm
    have happended' := hsecond.appended hcalm'
    rw [List.length_append]
    dsimp only at happended' ⊢
    omega

/-- A table that is written while it is taken over is not counted. -/
theorem merges_merge (hcalm : disk.Calm) (hgrouping : s.grouping = other.grouping)
    (hfiles : FilesWork ((merge other).run (s, disk)).1) :
    Merges s other disk ((merge other).run (s, disk)).2 := by
  rw [merge_eq hgrouping] at hfiles ⊢
  cases hfits : s.fits other with
  | false =>
      rw [hfits] at hfiles
      exact merges_appendSpilled hcalm hfits hfiles
  | true =>
      obtain ⟨hspills, -⟩ := Bool.and_eq_true_iff.1 hfits
      obtain ⟨hspills, hspills'⟩ := Bool.and_eq_true_iff.1 hspills
      rw [Bool.not_eq_true', isSpilled_eq_false] at hspills hspills'
      rw [if_pos rfl, Step.run, absorb]
      refine ⟨?_, ?_, Nat.le_refl _, ?_, hcalm⟩
      · dsimp only [counted]
        rw [hspills, hspills']
        exact .refl _ _
      · rw [writtenLate, hfits]
        rfl
      · dsimp only [counted]
        rw [hspills, hspills']
        rfl

/-- A table with another grouping is given up with its files. -/
theorem refuses_merge (hgrouping : s.grouping ≠ other.grouping) (disk : Disk) :
    (merge other).run (s, disk) = (.error .definitionsDiffer, s, other.discard disk) := by
  rw [Step.run, merge, if_neg hgrouping]

/-- On a calm disk the files of a table that is given up are removed. -/
theorem cleansUp_discard (s : SpillingTable) (hcalm : disk.Calm) :
    CleansUp (namesOf s.spills) disk [] (s.discard disk) :=
  CleansUp.removed [] fun _ hfile => (Disk.has_removeAll hcalm).1 hfile

end Merge
end SpillingTable
end ExtentEngine
