import ExtentEngine.Proofs.Dataset.Cursor
import ExtentEngine.Proofs.Plan.Output

/-!
# Aggregating with one table

A cursor goes over the rows of a dataset while a table takes them and spills.  The files of
the dataset are left alone, so the cursor finds the same rows all the way.

**Results.**
* `insertFrom_spec`: the table represents the rows from the cursor on that pass the filter.
* `conforms_execute`: executing a plan conforms to the plan.
-/

namespace ExtentEngine

open SpillingTable Family

namespace AggregationPlan

variable {plan : AggregationPlan} {disk : Disk} {input : Dataset} {extents : List Extent}
  {cursor : Cursor} {table : SpillingTable} {rows : List Record}

/-- A cursor of the plan over its input. -/
structure Reads (plan : AggregationPlan) (input : Dataset) (extents : List Extent)
    (cursor : Cursor) : Prop where
  dataset : cursor.dataset = input
  accepts : ∀ record, Cursor.accepts cursor.filter record = Cursor.accepts plan.filter record
  within : cursor.Within extents
  rests : cursor.Rests extents

namespace Reads

variable {record : Record} {rest : List Record}

/-- The row that the cursor rests on passes the filter. -/
theorem accepts_first (h : plan.Reads input extents cursor)
    (hrows : cursor.rowsFrom extents = record :: rest) :
    Cursor.accepts plan.filter record = .ok true := by
  have hcurrent : cursor.current = some record := by
    rw [h.rests.current, hrows]
    rfl
  rw [← h.accepts]
  exact h.rests.matches' record hcurrent

/-- The cursor delivers the row that it rests on and goes on to the next one that passes the filter,
unless the filter fails before. -/
theorem next_spec (h : plan.Reads input extents cursor) (hinput : input.Readable disk extents)
    (hrows : cursor.rowsFrom extents = record :: rest) :
    (∃ cursor' skipped, (Cursor.next disk).run cursor = (.ok (some record), cursor') ∧
      plan.Reads input extents cursor' ∧ rest = skipped ++ cursor'.rowsFrom extents ∧
      ∀ other ∈ skipped, Cursor.accepts plan.filter other = .ok false) ∨
    ∃ cursor' fault, (Cursor.next disk).run cursor = (.error fault, cursor') ∧
      ∃ other ∈ rest, Cursor.accepts plan.filter other = .error fault := by
  have hloads : cursor.dataset.extents disk = .ok extents := by
    rw [h.dataset]
    exact hinput.loads
  simp only [← h.accepts]
  rcases Cursor.next_spec hloads h.within h.rests hrows with
    ⟨cursor', hnext, hdataset, hfilter, hwithin, hrests, skipped, hsplit, hskipped⟩ | hfails
  · have hreads : plan.Reads input extents cursor' :=
      ⟨hdataset.trans h.dataset, fun other => by rw [hfilter, h.accepts], hwithin, hrests⟩
    exact Or.inl ⟨cursor', skipped, hnext, hreads, hsplit, hskipped⟩
  · exact Or.inr hfails

end Reads

section Next

variable {count : Nat} {cursor' : Cursor} {record : Record} {table' : SpillingTable} {after : Disk}

theorem insertFrom_of_ok (hnext : (Cursor.next disk).run cursor = (.ok (some record), cursor'))
    (hinsert : (SpillingTable.insert record).run (table, disk) = (.ok (), table', after)) :
    insertFrom (count + 1) cursor table disk =
      ((insertFrom count cursor' table' after).1.map (· + 1),
        (insertFrom count cursor' table' after).2) := by
  rw [insertFrom, hnext]
  simp only [hinsert]

theorem insertFrom_of_error (hnext : (Cursor.next disk).run cursor = (.ok (some record), cursor'))
    {fault : Fault}
    (hinsert : ((SpillingTable.insert record).run (table, disk)).1 = .error fault) :
    (insertFrom (count + 1) cursor table disk).1 = .error fault := by
  rcases hrun : (SpillingTable.insert record).run (table, disk) with ⟨result, table', after⟩
  rw [hrun] at hinsert
  cases hinsert
  rw [insertFrom, hnext]
  simp only [hrun]

end Next

/-- The table takes the rows from a cursor on that pass the filter. -/
theorem insertFrom_spec (hexact : ∀ aggregate ∈ plan.grouping.aggregates, aggregate.isExact = true)
    (count : Nat) (hinput : input.Readable disk extents) (hreads : plan.Reads input extents cursor)
    (hcount : (cursor.rowsFrom extents).length ≤ count)
    (hfloat : ∀ record ∈ cursor.rowsFrom extents, plan.grouping.FloatFree record)
    (h : Sound plan.grouping [(table, rows)] disk)
    (hlength : rows.length + (cursor.rowsFrom extents).length ≤ Grouping.mostRows)
    (hfiles : FilesWork (insertFrom count cursor table disk).1) :
    (plan.Takes (cursor.rowsFrom extents) ∧ ∃ table' after,
      insertFrom count cursor table disk =
        (.ok (plan.passing (cursor.rowsFrom extents)).length, table', after) ∧
      Sound plan.grouping [(table', rows ++ plan.passing (cursor.rowsFrom extents))] after) ∨
    (¬plan.Takes (cursor.rowsFrom extents) ∧
      ∃ fault, (insertFrom count cursor table disk).1 = .error fault) := by
  induction count generalizing cursor table rows disk with
  | zero =>
      have hnil : cursor.rowsFrom extents = [] :=
        List.eq_nil_of_length_eq_zero (Nat.le_zero.1 hcount)
      rw [hnil]
      refine Or.inl ⟨plan.takes_nil, table, disk, rfl, ?_⟩
      rw [show plan.passing [] = [] from rfl, List.append_nil]
      exact h
  | succ count ih =>
      cases hrows : cursor.rowsFrom extents with
      | nil =>
          refine Or.inl ⟨plan.takes_nil, table, disk, ?_, ?_⟩
          · rw [insertFrom, Cursor.next_of_nil hreads.rests hrows]
            rfl
          · rw [show plan.passing [] = [] from rfl, List.append_nil]
            exact h
      | cons record rest =>
          have haccepts := hreads.accepts_first hrows
          rw [hrows] at hcount hfloat hlength
          rw [List.length_cons] at hcount hlength
          rcases hreads.next_spec hinput hrows with
            ⟨cursor', skipped, hnext, hreads', rfl, hskipped⟩ |
            ⟨cursor', fault, hnext, other, hother, hfault⟩
          · obtain ⟨hrecord, hrest⟩ := List.forall_mem_cons.1 hfloat
            rw [List.length_append] at hcount hlength
            rw [takes_cons_true haccepts, takes_skipped_append hskipped, passing_cons_true haccepts,
              passing_skipped_append hskipped]
            by_cases hadmits : plan.grouping.Admits record
            · obtain ⟨table', after, hrun, hsound⟩ := h.insert hexact hadmits (by omega)
                fun fault hfault => hfiles fault (insertFrom_of_error hnext hfault)
              rw [insertFrom_of_ok hnext hrun] at hfiles ⊢
              have hframe := frame_insert record table disk
              rw [hrun] at hframe
              rcases ih (hinput.frame hframe fun _ _ => id) hreads' (by omega)
                  (fun record hrecord => hrest record (List.mem_append_right _ hrecord)) hsound (by
                    rw [List.length_append, List.length_singleton]
                    omega) (fun fault hfault => hfiles fault (by rw [hfault]; rfl)) with
                ⟨htaken, table'', after', hrun', hsound'⟩ | ⟨hnot, fault, hfault⟩
              · refine Or.inl ⟨⟨hadmits, htaken⟩, table'', after', ?_, ?_⟩
                · rw [hrun']
                  rfl
                · rw [List.append_assoc] at hsound'
                  exact hsound'
              · refine Or.inr ⟨fun htaken => hnot htaken.2, fault, ?_⟩
                rw [hfault]
                rfl
            · refine Or.inr ⟨fun htaken => hadmits htaken.1, ?_⟩
              cases hinsert : ((SpillingTable.insert record).run (table, disk)).1 with
              | ok _ => exact absurd (h.admits hexact hrecord hinsert) hadmits
              | error fault => exact ⟨fault, insertFrom_of_error hnext hinsert⟩
          · refine Or.inr ⟨not_takes_of_error (List.mem_cons_of_mem _ hother) hfault, fault, ?_⟩
            rw [insertFrom, hnext]

theorem exists_new {maxGroups : Nat} (hpos : 0 < maxGroups) (grouping : Grouping) (namer : Namer) :
    ∃ table, SpillingTable.new grouping maxGroups namer = .ok table := by
  rw [SpillingTable.new, if_neg (Nat.ne_of_gt hpos)]
  exact ⟨_, rfl⟩

section Execute

variable {maxGroups : Nat} {namer : Namer}

theorem execute_of_prepare_error {fault : Fault}
    (h : plan.prepare maxGroups namer input disk = .error fault) :
    (plan.execute maxGroups namer input disk).1.result = .error fault := by
  rw [execute, h]
  rfl

theorem execute_of_insert_error {fault : Fault}
    (h : plan.prepare maxGroups namer input disk = .ok (table, cursor))
    (hinsert : (insertFrom cursor.remaining cursor table disk).1 = .error fault) :
    (plan.execute maxGroups namer input disk).1.result = .error fault := by
  rcases hrun : insertFrom cursor.remaining cursor table disk with ⟨result, table', after⟩
  rw [hrun] at hinsert
  cases hinsert
  rw [execute, h]
  simp only [hrun]
  rfl

theorem execute_of_insert {rowsRead : Nat} {table' : SpillingTable} {after : Disk}
    (h : plan.prepare maxGroups namer input disk = .ok (table, cursor))
    (hinsert : insertFrom cursor.remaining cursor table disk = (.ok rowsRead, table', after)) :
    plan.execute maxGroups namer input disk = plan.finish rowsRead table' after := by
  rw [execute, h]
  simp only [hinsert]

/-- Executing a plan conforms to the plan. -/
theorem conforms_execute (hexact : ∀ aggregate ∈ plan.grouping.aggregates, aggregate.isExact = true)
    (hinput : input.Readable disk extents)
    (hfloat : ∀ record ∈ extents.flatten, plan.grouping.FloatFree record)
    (hlength : extents.flatten.length ≤ Grouping.mostRows) (hpos : 0 < maxGroups)
    (hfiles : FilesWork (plan.execute maxGroups namer input disk).1.result) :
    plan.Conforms input.schema extents.flatten (plan.execute maxGroups namer input disk).1 := by
  obtain ⟨table, hnew⟩ := exists_new hpos plan.grouping namer
  have hsound : Sound plan.grouping [(table, [])] disk :=
    (⟨nofun, nofun, .nil⟩ : Sound plan.grouping [] disk).create hnew
  cases hvalidates : plan.grouping.validate input.schema with
  | error fault =>
      refine Or.inr ⟨fun hanswers => ?_, fault, execute_of_prepare_error ?_⟩
      · rw [hanswers.validates] at hvalidates
        cases hvalidates
      · rw [prepare, hvalidates]
        rfl
  | ok _ =>
      have hprepare : plan.prepare maxGroups namer input disk =
          (Cursor.start disk input plan.filter).map fun cursor => (table, cursor) := by
        rw [prepare, hvalidates, hnew]
        cases Cursor.start disk input plan.filter <;> rfl
      rcases Cursor.start_spec hinput.loads with
        ⟨cursor, hstart, hdataset, haccepts, hwithin, hrests, skipped, hsplit, hskipped⟩ |
        ⟨fault, hstart, record, hrecord, hfault⟩
      · rw [hstart] at hprepare
        have hfuel := Cursor.length_rowsFrom (hdataset ▸ hinput.loads)
        have htakes : plan.Takes extents.flatten ↔ plan.Takes (cursor.rowsFrom extents) := by
          rw [hsplit, takes_skipped_append hskipped]
        have hpassing : plan.passing extents.flatten = plan.passing (cursor.rowsFrom extents) := by
          rw [hsplit, passing_skipped_append hskipped]
        have hsuffix : cursor.rowsFrom extents ⊆ extents.flatten :=
          hsplit ▸ List.subset_append_right _ _
        rcases insertFrom_spec hexact cursor.remaining hinput ⟨hdataset, haccepts, hwithin, hrests⟩
            hfuel (fun record hrecord => hfloat record (hsuffix hrecord)) hsound (by
              rw [hsplit, List.length_append] at hlength
              rw [List.length_nil]
              omega) (fun fault hfault =>
              hfiles fault (execute_of_insert_error hprepare hfault)) with
          ⟨htaken, table', after, hrun, hsound'⟩ | ⟨hnot, fault, hfault⟩
        · rw [← hpassing] at hrun hsound'
          rw [execute_of_insert hprepare hrun] at hfiles ⊢
          exact conforms_finish hvalidates (htakes.2 htaken) hsound' hlength hfiles
        · exact Or.inr ⟨fun hanswers => hnot (htakes.1 hanswers.takes), fault,
            execute_of_insert_error hprepare hfault⟩
      · rw [hstart] at hprepare
        exact Or.inr ⟨fun hanswers => not_takes_of_error hrecord hfault hanswers.takes, fault,
          execute_of_prepare_error hprepare⟩

end Execute
end AggregationPlan
end ExtentEngine
