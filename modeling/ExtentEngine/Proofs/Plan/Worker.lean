import ExtentEngine.Plan.Partitioned
import ExtentEngine.Proofs.Partition.Coverage
import ExtentEngine.Proofs.Plan.Serial

/-!
# What one worker of an aggregation does

A worker fills the table of its node with the rows of its partition that pass the filter.
The tables of the other workers are on the same disk and are left as they are.

**Results.**
* `AggregationNode.take_spec` and `AggregationNode.takeAll_spec`: what rows make of a node.
* `runPieces_spec`: what the pieces of a partition make of a worker.
-/

namespace ExtentEngine

open SpillingTable Family

/-- A failure for which a file operation accounts, or a row that cannot be taken. -/
def AggregationPlan.FailsFor (plan : AggregationPlan) (rows : List Record) (fault : Fault) : Prop :=
  fault.isFileFailure = true ∨ ¬plan.Takes rows

variable {plan : AggregationPlan} {disk after : Disk} {members : List Member}
  {rows records : List Record} {record : Record} {node : AggregationNode}

theorem AggregationPlan.FailsFor.mono {rows' : List Record} {fault : Fault}
    (h : plan.FailsFor rows fault) (hsub : plan.Takes rows' → plan.Takes rows) :
    plan.FailsFor rows' fault :=
  h.imp_right fun hnot htakes => hnot (hsub htakes)

namespace AggregationNode

open AggregationPlan

theorem frame_take (filter : Option Predicate) (record : Record) (node : AggregationNode)
    (disk : Disk) :
    Disk.Frame (fun _ => False) disk ((take filter record).run (node, disk)).2.2 := by
  have hframe := frame_insert record node.table disk
  simp only [Step.run, take] at hframe ⊢
  split
  · exact .refl _ _
  · exact .refl _ _
  · split
    · next hrun =>
        rw [hrun] at hframe
        exact hframe
    · next hrun =>
        rw [hrun] at hframe
        exact hframe

theorem frame_takeAll (filter : Option Predicate) (records : List Record) (node : AggregationNode)
    (disk : Disk) :
    Disk.Frame (fun _ => False) disk
      ((Step.forEach (take filter) records).run (node, disk)).2.2 := by
  induction records generalizing node disk with
  | nil => exact .refl _ _
  | cons record records ih =>
      have hframe := frame_take filter record node disk
      rw [Step.forEach, Step.run_bind]
      rcases hrun : (take filter record).run (node, disk) with ⟨result, node', after⟩
      rw [hrun] at hframe
      cases result with
      | error fault => exact hframe
      | ok _ => exact hframe.trans (ih node' after)

/-- A row that passes the filter is added to the table of the node. -/
theorem take_spec (hexact : ∀ aggregate ∈ plan.grouping.aggregates, aggregate.isExact = true)
    (hfloat : plan.grouping.FloatFree record)
    (h : Sound plan.grouping ((node.table, rows) :: members) disk)
    (hlength : rows.length + 1 ≤ Grouping.mostRows) :
    (plan.Takes [record] ∧ ∃ node' after,
      (take plan.filter record).run (node, disk) = (.ok (), node', after) ∧
      node'.rowsRead = node.rowsRead + (plan.passing [record]).length ∧
      Sound plan.grouping ((node'.table, rows ++ plan.passing [record]) :: members) after) ∨
    ∃ fault, ((take plan.filter record).run (node, disk)).1 = .error fault ∧
      plan.FailsFor [record] fault := by
  simp only [Step.run, take]
  cases haccepts : Cursor.accepts plan.filter record with
  | error fault =>
      exact Or.inr ⟨fault, rfl, Or.inr (not_takes_of_error List.mem_cons_self haccepts)⟩
  | ok b =>
      cases b with
      | false =>
          have hskipped : ∀ other ∈ [record], Cursor.accepts plan.filter other = .ok false :=
            List.forall_mem_singleton.2 haccepts
          rw [passing_skipped hskipped, List.append_nil]
          exact Or.inl ⟨takes_skipped hskipped, node, disk, rfl, rfl, h⟩
      | true =>
          rw [passing_cons_true haccepts, show plan.passing [] = [] from rfl]
          by_cases hadmits : plan.grouping.Admits record
          · rcases filesWork_or ((SpillingTable.insert record).run (node.table, disk)).1 with
              hfiles | ⟨fault, hfault, hfile⟩
            · obtain ⟨table', after, hrun, hsound⟩ := h.insert hexact hadmits hlength hfiles
              simp only [Step.run] at hrun
              refine Or.inl ⟨(takes_cons_true haccepts).2 ⟨hadmits, plan.takes_nil⟩,
                ⟨table', node.rowsRead + 1⟩, after, ?_, rfl, hsound⟩
              simp only [hrun]
            · simp only [Step.run] at hfault
              rcases hrun : SpillingTable.insert record (node.table, disk) with
                ⟨result, table', after⟩
              rw [hrun] at hfault
              cases hfault
              exact Or.inr ⟨fault, rfl, Or.inl hfile⟩
          · have hnot : ¬plan.Takes [record] :=
              fun htakes => hadmits ((takes_cons_true haccepts).1 htakes).1
            rcases hrun : SpillingTable.insert record (node.table, disk) with
              ⟨result, table', after⟩
            cases result with
            | ok _ => exact absurd (h.admits hexact hfloat (congrArg Prod.fst hrun)) hadmits
            | error fault => exact Or.inr ⟨fault, rfl, Or.inr hnot⟩

/-- The rows that pass the filter are added to the table of the node. -/
theorem takeAll_spec (hexact : ∀ aggregate ∈ plan.grouping.aggregates, aggregate.isExact = true)
    (hfloat : ∀ record ∈ records, plan.grouping.FloatFree record)
    (h : Sound plan.grouping ((node.table, rows) :: members) disk)
    (hlength : rows.length + records.length ≤ Grouping.mostRows) :
    (plan.Takes records ∧ ∃ node' after,
      (Step.forEach (take plan.filter) records).run (node, disk) = (.ok (), node', after) ∧
      node'.rowsRead = node.rowsRead + (plan.passing records).length ∧
      Sound plan.grouping ((node'.table, rows ++ plan.passing records) :: members) after) ∨
    ∃ fault, ((Step.forEach (take plan.filter) records).run (node, disk)).1 = .error fault ∧
      plan.FailsFor records fault := by
  induction records generalizing node rows disk with
  | nil =>
      refine Or.inl ⟨plan.takes_nil, node, disk, rfl, rfl, ?_⟩
      rw [show plan.passing [] = [] from rfl, List.append_nil]
      exact h
  | cons record records ih =>
      obtain ⟨hrecord, hrecords⟩ := List.forall_mem_cons.1 hfloat
      rw [List.length_cons] at hlength
      have htakes : plan.Takes (record :: records) ↔ plan.Takes [record] ∧ plan.Takes records :=
        @takes_append plan [record] records
      have hpassing : plan.passing (record :: records) =
          plan.passing [record] ++ plan.passing records :=
        plan.passing_append [record] records
      have hone := plan.length_passing_le [record]
      rw [List.length_singleton] at hone
      rw [Step.forEach, Step.run_bind]
      rcases take_spec hexact hrecord h (by omega) with
        ⟨htaken, node', after, hrun, hread, hsound⟩ | ⟨fault, hfault, hfails⟩
      · rw [hrun]
        simp only
        rcases ih hrecords hsound (by rw [List.length_append]; omega) with
          ⟨htaken', node'', after', hrun', hread', hsound'⟩ | ⟨fault, hfault, hfails⟩
        · refine Or.inl ⟨htakes.2 ⟨htaken, htaken'⟩, node'', after', hrun', ?_, ?_⟩
          · rw [hread', hread, hpassing, List.length_append, Nat.add_assoc]
          · rw [hpassing, ← List.append_assoc]
            exact hsound'
        · exact Or.inr ⟨fault, hfault, hfails.mono fun h => (htakes.1 h).2⟩
      · refine Or.inr ⟨fault, ?_, hfails.mono fun h => (htakes.1 h).1⟩
        rcases hrun : (take plan.filter record).run (node, disk) with ⟨result, node', after⟩
        rw [hrun] at hfault
        cases hfault
        rfl

end AggregationNode

namespace AggregationPlan

open Worker

variable {input : Dataset} {extents chunk : List Extent} {maxGroups : Nat} {namer : Namer}
  {worker : Worker AggregationNode} {pieces : List Piece}

theorem frame_runPieces (pieces : List Piece) (worker : Worker AggregationNode) (disk : Disk) :
    Disk.Frame (fun _ => False) disk
      ((runPieces (plan.mapper maxGroups namer) pieces).run (worker, disk)).2.2 := by
  induction pieces generalizing worker disk with
  | nil => exact .refl _ _
  | cons piece pieces ih =>
      simp only [Step.run, runPieces] at ih ⊢
      split
      · exact .refl _ _
      · next extent _ =>
          have hframe := AggregationNode.frame_takeAll plan.filter extent worker.node disk
          simp only [mapper, Step.run] at hframe ⊢
          split
          · next hrun =>
              rw [hrun] at hframe
              exact hframe
          · next hrun =>
              rw [hrun] at hframe
              exact hframe.trans (ih _ _)

theorem runPieces_of_ok {piece : Piece} {extent : Extent} {node' : AggregationNode}
    (hload : worker.partition.load disk piece = .ok extent)
    (hrun : (Step.forEach (AggregationNode.take plan.filter) extent).run (worker.node, disk) =
      (.ok (), node', after)) :
    (runPieces (plan.mapper maxGroups namer) (piece :: pieces)).run (worker, disk) =
      (runPieces (plan.mapper maxGroups namer) pieces).run
        (⟨node', { worker.partition with pending := pieces }, worker.closed⟩, after) := by
  simp only [Step.run] at hrun ⊢
  simp only [runPieces, hload, mapper, Step.run, hrun]

theorem runPieces_of_error {piece : Piece} {extent : Extent} {fault : Fault}
    (hload : worker.partition.load disk piece = .ok extent)
    (hrun : ((Step.forEach (AggregationNode.take plan.filter) extent).run (worker.node, disk)).1 =
      .error fault) :
    ((runPieces (plan.mapper maxGroups namer) (piece :: pieces)).run (worker, disk)).1 =
      .error fault := by
  rcases hstep :
      (Step.forEach (AggregationNode.take plan.filter) extent).run (worker.node, disk) with
    ⟨result, node', after⟩
  rw [hstep] at hrun
  cases hrun
  simp only [Step.run] at hstep ⊢
  simp only [runPieces, hload, mapper, Step.run, hstep]

/-- A worker fills its table with the rows of its pieces that pass the filter. -/
theorem runPieces_spec (hexact : ∀ aggregate ∈ plan.grouping.aggregates, aggregate.isExact = true)
    (hinput : input.Readable disk extents) (hpieces : List.Forall₂ (Piece.Is extents) pieces chunk)
    (hdataset : worker.partition.dataset = input)
    (hfloat : ∀ record ∈ chunk.flatten, plan.grouping.FloatFree record)
    (h : Sound plan.grouping ((worker.node.table, rows) :: members) disk)
    (hlength : rows.length + chunk.flatten.length ≤ Grouping.mostRows) :
    (plan.Takes chunk.flatten ∧ ∃ worker' after,
      (runPieces (plan.mapper maxGroups namer) pieces).run (worker, disk) =
        (.ok (), worker', after) ∧
      worker'.node.rowsRead = worker.node.rowsRead + (plan.passing chunk.flatten).length ∧
      Sound plan.grouping ((worker'.node.table, rows ++ plan.passing chunk.flatten) :: members)
        after) ∨
    ∃ fault, ((runPieces (plan.mapper maxGroups namer) pieces).run (worker, disk)).1 =
      .error fault ∧ plan.FailsFor chunk.flatten fault := by
  induction hpieces generalizing worker rows disk with
  | nil =>
      refine Or.inl ⟨plan.takes_nil, worker, disk, rfl, rfl, ?_⟩
      rw [List.flatten_nil, show plan.passing [] = [] from rfl, List.append_nil]
      exact h
  | @cons piece extent pieces chunk hpiece _ ih =>
      rw [List.flatten_cons] at hfloat hlength ⊢
      rw [List.length_append] at hlength
      obtain ⟨hextent, hchunk⟩ := List.forall_mem_append.1 hfloat
      have hload : worker.partition.load disk piece = .ok extent :=
        hpiece.load (hdataset ▸ hinput.loads)
      have hle := plan.length_passing_le extent
      rcases AggregationNode.takeAll_spec hexact hextent h (by omega) with
        ⟨htaken, node', after, hrun, hread, hsound⟩ | ⟨fault, hfault, hfails⟩
      · have hframe := AggregationNode.frame_takeAll plan.filter extent worker.node disk
        rw [hrun] at hframe
        rw [runPieces_of_ok hload hrun]
        rcases @ih after (rows ++ plan.passing extent)
            ⟨node', { worker.partition with pending := pieces }, worker.closed⟩
            (hinput.frame hframe fun _ _ => id) hdataset hchunk hsound (by
              rw [List.length_append]
              omega) with
          ⟨htaken', worker', after', hrun', hread', hsound'⟩ | ⟨fault, hfault, hfails⟩
        · refine Or.inl ⟨takes_append.2 ⟨htaken, htaken'⟩, worker', after', hrun', ?_, ?_⟩
          · rw [hread', hread, passing_append, List.length_append, Nat.add_assoc]
          · rw [passing_append, ← List.append_assoc]
            exact hsound'
        · exact Or.inr ⟨fault, hfault, hfails.mono fun h => (takes_append.1 h).2⟩
      · exact Or.inr ⟨fault, runPieces_of_error hload hfault,
          hfails.mono fun h => (takes_append.1 h).1⟩

end AggregationPlan
end ExtentEngine
