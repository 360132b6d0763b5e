import ExtentEngine.Plan.Aggregation
import ExtentEngine.Proofs.Aggregate.Family

/-!
# What a plan makes of its input

Some rows are the input of a plan, and those that pass the filter are grouped.  The plan
answers if the filter and the aggregates can take the rows and the groups can be projected,
and it then delivers the records of the groups, whichever way they were computed.

**Results.**
* `Conforms.ok_iff` and `Conforms.agree`: ways of computing that conform to a plan succeed on
  the same inputs and deliver the same records.
* `finish_spec`: finishing a table that represents the rows conforms to the plan.
-/

namespace ExtentEngine

open SpillingTable Family

theorem FilesWork.not_of_error {α : Type} {result : Attempt α} (h : FilesWork result)
    {fault : Fault} (hresult : result = .error fault) (hfault : fault.isFileFailure = true) :
    False := by
  rw [h fault hresult] at hfault
  cases hfault

namespace AggregationPlan

/-- Whether a row passes the filter. -/
def passes (plan : AggregationPlan) (record : Record) : Bool :=
  match Cursor.accepts plan.filter record with
  | .ok b => b
  | .error _ => false

/-- The rows that pass the filter. -/
def passing (plan : AggregationPlan) (rows : List Record) : List Record := rows.filter plan.passes

/-- The filter and the aggregates can take some rows. -/
structure Takes (plan : AggregationPlan) (rows : List Record) : Prop where
  decides : ∀ record ∈ rows, ∃ b, Cursor.accepts plan.filter record = .ok b
  admits : ∀ record ∈ plan.passing rows, plan.grouping.Admits record

/-- The projected records of some rows. -/
def outputOf (plan : AggregationPlan) (rows : List Record) : Attempt (List Record) :=
  (plan.grouping.recordsOver rows).mapM fun record =>
    plan.outputProjection.evaluate (.ofLeft record)

/-- A plan that can be computed on some rows. -/
structure Answers (plan : AggregationPlan) (schema : Schema) (rows : List Record) : Prop where
  validates : plan.grouping.validate schema = .ok ()
  takes : plan.Takes rows
  projects : ∃ records, plan.outputOf (plan.passing rows) = .ok records

/-- The outcome of a plan on some rows. -/
structure Delivers (plan : AggregationPlan) (rows : List Record) (emission : Emission RowCounts) :
    Prop where
  counts : emission.result =
    .ok ⟨(plan.passing rows).length, (plan.grouping.recordsOver (plan.passing rows)).length⟩
  records : ∃ records, plan.outputOf (plan.passing rows) = .ok records ∧
    emission.rows.Perm records

/-- A computation that delivers what the plan asks for, or fails if the plan cannot be
computed. -/
def Conforms (plan : AggregationPlan) (schema : Schema) (rows : List Record)
    (emission : Emission RowCounts) : Prop :=
  (plan.Answers schema rows ∧ plan.Delivers rows emission) ∨
    (¬plan.Answers schema rows ∧ ∃ fault, emission.result = .error fault)

variable {plan : AggregationPlan} {schema : Schema} {rows rows' : List Record} {record : Record}
  {emission emission' : Emission RowCounts}

namespace Conforms

/-- A computation that conforms to a plan succeeds if the plan can be computed. -/
theorem ok_iff (h : plan.Conforms schema rows emission) :
    (∃ counts, emission.result = .ok counts) ↔ plan.Answers schema rows := by
  rcases h with ⟨hanswers, hdelivers⟩ | ⟨hnot, fault, hfault⟩
  · exact iff_of_true ⟨_, hdelivers.counts⟩ hanswers
  · refine iff_of_false ?_ hnot
    rintro ⟨counts, hok⟩
    rw [hfault] at hok
    cases hok

/-- Computations that conform to a plan and succeed deliver the same. -/
theorem agree (h : plan.Conforms schema rows emission) (h' : plan.Conforms schema rows emission')
    {counts counts' : RowCounts} (hok : emission.result = .ok counts)
    (hok' : emission'.result = .ok counts') :
    counts = counts' ∧ emission.rows.Perm emission'.rows := by
  have hanswers := h.ok_iff.1 ⟨counts, hok⟩
  rcases h with ⟨-, hdelivers⟩ | ⟨hnot, -⟩
  · rcases h' with ⟨-, hdelivers'⟩ | ⟨hnot, -⟩
    · obtain ⟨records, hrecords, hperm⟩ := hdelivers.records
      obtain ⟨records', hrecords', hperm'⟩ := hdelivers'.records
      cases hok.symm.trans hdelivers.counts
      cases hok'.symm.trans hdelivers'.counts
      cases hrecords.symm.trans hrecords'
      exact ⟨rfl, hperm.trans hperm'.symm⟩
    · exact absurd hanswers hnot
  · exact absurd hanswers hnot

end Conforms

section Takes

theorem passes_of_accepts {b : Bool} (h : Cursor.accepts plan.filter record = .ok b) :
    plan.passes record = b := by
  rw [passes, h]

theorem passing_append (plan : AggregationPlan) (rows rows' : List Record) :
    plan.passing (rows ++ rows') = plan.passing rows ++ plan.passing rows' :=
  List.filter_append ..

theorem passing_cons_true (h : Cursor.accepts plan.filter record = .ok true) :
    plan.passing (record :: rows) = record :: plan.passing rows :=
  List.filter_cons_of_pos (passes_of_accepts h)

theorem passing_skipped (h : ∀ record ∈ rows, Cursor.accepts plan.filter record = .ok false) :
    plan.passing rows = [] := by
  refine List.filter_eq_nil_iff.2 fun record hrecord => ?_
  rw [passes_of_accepts (h record hrecord)]
  exact Bool.false_ne_true

theorem passing_skipped_append
    (h : ∀ record ∈ rows, Cursor.accepts plan.filter record = .ok false) (rows' : List Record) :
    plan.passing (rows ++ rows') = plan.passing rows' := by
  rw [passing_append, passing_skipped h, List.nil_append]

theorem length_passing_le (plan : AggregationPlan) (rows : List Record) :
    (plan.passing rows).length ≤ rows.length :=
  List.length_filter_le _ _

theorem takes_nil (plan : AggregationPlan) : plan.Takes [] := ⟨nofun, nofun⟩

/-- What can take some rows can take fewer of them. -/
theorem Takes.subset (h : plan.Takes rows) (hsub : rows' ⊆ rows) : plan.Takes rows' where
  decides record hrecord := h.decides record (hsub hrecord)
  admits record hrecord := h.admits record (List.filter_subset _ hsub hrecord)

theorem takes_append : plan.Takes (rows ++ rows') ↔ plan.Takes rows ∧ plan.Takes rows' := by
  constructor
  · rintro ⟨hdecides, hadmits⟩
    rw [passing_append] at hadmits
    obtain ⟨hfirst, hlast⟩ := List.forall_mem_append.1 hdecides
    obtain ⟨hfirst', hlast'⟩ := List.forall_mem_append.1 hadmits
    exact ⟨⟨hfirst, hfirst'⟩, hlast, hlast'⟩
  · rintro ⟨hfirst, hlast⟩
    refine ⟨List.forall_mem_append.2 ⟨hfirst.decides, hlast.decides⟩, ?_⟩
    rw [passing_append]
    exact List.forall_mem_append.2 ⟨hfirst.admits, hlast.admits⟩

theorem takes_skipped (h : ∀ record ∈ rows, Cursor.accepts plan.filter record = .ok false) :
    plan.Takes rows := by
  refine ⟨fun record hrecord => ⟨false, h record hrecord⟩, ?_⟩
  rw [passing_skipped h]
  exact nofun

theorem takes_skipped_append
    (h : ∀ record ∈ rows, Cursor.accepts plan.filter record = .ok false) :
    plan.Takes (rows ++ rows') ↔ plan.Takes rows' := by
  rw [takes_append]
  exact and_iff_right (takes_skipped h)

theorem takes_cons_true (h : Cursor.accepts plan.filter record = .ok true) :
    plan.Takes (record :: rows) ↔ plan.grouping.Admits record ∧ plan.Takes rows := by
  constructor
  · rintro ⟨hdecides, hadmits⟩
    rw [passing_cons_true h] at hadmits
    obtain ⟨hrecord, hrows⟩ := List.forall_mem_cons.1 hadmits
    exact ⟨hrecord, (List.forall_mem_cons.1 hdecides).2, hrows⟩
  · rintro ⟨hrecord, hrows⟩
    refine ⟨List.forall_mem_cons.2 ⟨⟨true, h⟩, hrows.decides⟩, ?_⟩
    rw [passing_cons_true h]
    exact List.forall_mem_cons.2 ⟨hrecord, hrows.admits⟩

theorem not_takes_of_error {fault : Fault} (hrecord : record ∈ rows)
    (h : Cursor.accepts plan.filter record = .error fault) : ¬plan.Takes rows := by
  intro htakes
  obtain ⟨b, hb⟩ := htakes.decides record hrecord
  rw [h] at hb
  cases hb

end Takes

section Finish

variable {table : SpillingTable} {disk : Disk}

theorem renderTable_eq (plan : AggregationPlan) (table : SpillingTable) (disk : Disk) :
    plan.renderTable table disk =
      match SpillingTable.close.run (table, disk) with
      | (.error fault, table, disk) => (.ofAttempt (.error fault), table, disk)
      | (.ok (), table, disk) =>
        match SpillingTable.consolidate.run (table, disk) with
        | (.error fault, table, disk) => (.ofAttempt (.error fault), table, disk)
        | (.ok (), table, disk) => SpillingTable.render plan.outputProjection (table, disk) := by
  rw [renderTable, Step.run_bind]
  rcases SpillingTable.close.run (table, disk) with ⟨result, middle⟩
  cases result <;> rfl

/-- The groups that a plan emits are those of the rows. -/
theorem renderTable_spec (h : Sound plan.grouping [(table, rows)] disk)
    (hlength : rows.length ≤ Grouping.mostRows)
    (hfiles : FilesWork (plan.renderTable table disk).1.result) :
    ∃ table' after groups,
      plan.renderTable table disk = (emitGroups plan.outputProjection groups, table', after) ∧
      (Groups.finish groups).Perm (plan.grouping.recordsOver rows) := by
  rw [renderTable_eq] at hfiles ⊢
  rcases filesWork_or (SpillingTable.close.run (table, disk)).1 with
    hclose | ⟨fault, hfault, hfile⟩
  · obtain ⟨table₁, disk₁, hrun₁, hsound₁⟩ := h.close hclose
    rw [hrun₁] at hfiles ⊢
    simp only at hfiles ⊢
    rcases filesWork_or (SpillingTable.consolidate.run (table₁, disk₁)).1 with
      hconsolidate | ⟨fault, hfault, hfile⟩
    · obtain ⟨table₂, disk₂, hrun₂, hsound₂⟩ := hsound₁.consolidate hlength hconsolidate
      rw [hrun₂] at hfiles ⊢
      simp only at hfiles ⊢
      obtain ⟨table₃, disk₃, groups, hrun₃, hgroups, -⟩ := hsound₂.render hlength hfiles
      exact ⟨table₃, disk₃, groups, hrun₃, hgroups⟩
    · rcases hrun : SpillingTable.consolidate.run (table₁, disk₁) with ⟨result, after⟩
      rw [hrun] at hfiles hfault
      cases hfault
      exact (hfiles.not_of_error rfl hfile).elim
  · rcases hrun : SpillingTable.close.run (table, disk) with ⟨result, after⟩
    rw [hrun] at hfiles hfault
    cases hfault
    exact (hfiles.not_of_error rfl hfile).elim

/-- The groups of the rows are emitted as the plan asks for, if they can be projected. -/
theorem emitGroups_of_output {groups : List Group} {records : List Record}
    (hgroups : (Groups.finish groups).Perm (plan.grouping.recordsOver rows))
    (hrecords : plan.outputOf rows = .ok records) :
    ∃ emitted, emitGroups plan.outputProjection groups = ⟨emitted, .ok groups.length⟩ ∧
      emitted.Perm records := by
  obtain ⟨emitted, hemitted, hperm⟩ :=
    List.perm_comp_forall₂ hgroups (Attempt.mapM_eq_ok.1 hrecords)
  exact ⟨emitted, emitGroups_emitted (List.forall₂_map_left_iff.1 hemitted), hperm⟩

theorem output_of_emitGroups {groups : List Group} {count : Nat}
    (hgroups : (Groups.finish groups).Perm (plan.grouping.recordsOver rows))
    (h : (emitGroups plan.outputProjection groups).result = .ok count) :
    ∃ records, plan.outputOf rows = .ok records := by
  refine Attempt.exists_mapM fun record hrecord => ?_
  obtain ⟨group, hgroup, rfl⟩ := List.mem_map.1 (hgroups.mem_iff.2 hrecord)
  exact evaluate_of_emitGroups h group hgroup

/-- A finished table gives the output of its rows, if there is one. -/
theorem finish_spec (h : Sound plan.grouping [(table, rows)] disk)
    (hlength : rows.length ≤ Grouping.mostRows) (rowsRead : Nat)
    (hfiles : FilesWork (plan.finish rowsRead table disk).1.result) :
    (∃ records, plan.outputOf rows = .ok records ∧
      (plan.finish rowsRead table disk).1.result =
        .ok ⟨rowsRead, (plan.grouping.recordsOver rows).length⟩ ∧
      (plan.finish rowsRead table disk).1.rows.Perm records) ∨
    ((¬∃ records, plan.outputOf rows = .ok records) ∧
      ∃ fault, (plan.finish rowsRead table disk).1.result = .error fault) := by
  have hfinish : (plan.finish rowsRead table disk).1 = (do
      let written ← (plan.renderTable table disk).1
      pure ⟨rowsRead, written⟩) := rfl
  have hrender : FilesWork (plan.renderTable table disk).1.result := by
    intro fault hfault
    refine hfiles fault ?_
    rw [hfinish, Emission.result_bind, hfault]
  obtain ⟨table', after, groups, hrun, hgroups⟩ := renderTable_spec h hlength hrender
  rw [hfinish, hrun]
  by_cases houtput : ∃ records, plan.outputOf rows = .ok records
  · obtain ⟨records, hrecords⟩ := houtput
    obtain ⟨emitted, hemitted, hperm⟩ := emitGroups_of_output hgroups hrecords
    refine Or.inl ⟨records, hrecords, ?_, ?_⟩
    · rw [hemitted, Emission.bind_emitted, ← hgroups.length_eq, Groups.finish, List.length_map]
      rfl
    · rw [hemitted, Emission.bind_emitted, Emission.rows_pure, List.append_nil]
      exact hperm
  · refine Or.inr ⟨houtput, ?_⟩
    cases hresult : (emitGroups plan.outputProjection groups).result with
    | ok count => exact absurd (output_of_emitGroups hgroups hresult) houtput
    | error fault =>
        refine ⟨fault, ?_⟩
        rw [Emission.result_bind, hresult]

/-- A computation that brings the rows that pass the filter into a table conforms to the plan. -/
theorem conforms_finish (hvalidates : plan.grouping.validate schema = .ok ())
    (htakes : plan.Takes rows) (h : Sound plan.grouping [(table, plan.passing rows)] disk)
    (hlength : rows.length ≤ Grouping.mostRows)
    (hfiles : FilesWork (plan.finish (plan.passing rows).length table disk).1.result) :
    plan.Conforms schema rows (plan.finish (plan.passing rows).length table disk).1 := by
  rcases finish_spec h (Nat.le_trans (plan.length_passing_le rows) hlength) _ hfiles with
    ⟨records, hrecords, hresult, hperm⟩ | ⟨hnone, hfault⟩
  · exact Or.inl ⟨⟨hvalidates, htakes, records, hrecords⟩, hresult, records, hrecords, hperm⟩
  · exact Or.inr ⟨fun hanswers => hnone hanswers.projects, hfault⟩

end Finish

end AggregationPlan
end ExtentEngine
