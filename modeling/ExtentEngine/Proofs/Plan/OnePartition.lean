import ExtentEngine.Proofs.Dataset.Filling
import ExtentEngine.Proofs.Dataset.Traversal
import ExtentEngine.Proofs.Plan.Partitioned

/-!
# One partition

With one partition there is one worker, which takes the rows of the input in their order, as a
cursor delivers them.  It leaves out the rows that do not pass the filter, and so does the cursor.
The table of the worker is closed when the worker is done and once more before it is rendered, and
closing a table twice is closing it once.  So nothing that the table does is done otherwise than
without partitions, and whatever an aggregate depends on, it comes to the same value.

**Results.**
* `exists_extent_of_insertFrom`: a plan that has read its input could load all extents.
* `takeAll_of_insertFrom`: a node takes the rows as the cursor delivers them.
* `executePartitioned_one`: executing a plan with one partition is executing it without.
-/

namespace ExtentEngine

open SpillingTable Family

variable {disk after : Disk} {input : Dataset} {extents chunk : List Extent} {records : List Record}

namespace AggregationNode

variable {filter : Option Predicate} {node : AggregationNode}

/-- Rows that do not pass the filter are left out. -/
theorem takeAll_of_skipped (h : ∀ record ∈ records, Cursor.accepts filter record = .ok false) :
    (Step.forEach (take filter) records).run (node, disk) = (.ok (), node, disk) := by
  induction records with
  | nil => rfl
  | cons record records ih =>
      obtain ⟨hrecord, hrecords⟩ := List.forall_mem_cons.1 h
      have htake : (take filter record).run (node, disk) = (.ok (), node, disk) := by
        simp only [Step.run, take, hrecord]
      rw [Step.forEach, Step.run_bind, htake]
      exact ih hrecords

theorem take_of_insert {record : Record} {table : SpillingTable}
    (haccepts : Cursor.accepts filter record = .ok true)
    (hinsert : (SpillingTable.insert record).run (node.table, disk) = (.ok (), table, after)) :
    (take filter record).run (node, disk) = (.ok (), ⟨table, node.rowsRead + 1⟩, after) := by
  simp only [Step.run] at hinsert
  simp only [Step.run, take, haccepts, hinsert]

end AggregationNode

namespace SpillingTable

/-- Closing a table without groups in memory does nothing. -/
theorem close_of_isEmpty {s : SpillingTable} (h : s.table.groups.isEmpty = true) (disk : Disk) :
    close.run (s, disk) = (.ok (), s, disk) := by
  cases hspilled : s.isSpilled with
  | true => rw [close_of_isSpilled hspilled, spill_of_isEmpty h]
  | false => rw [close_of_not_isSpilled hspilled]

/-- Closing a table twice is closing it once. -/
theorem close_of_closed {s closed : SpillingTable}
    (h : close.run (s, disk) = (.ok (), closed, after)) :
    close.run (closed, after) = (.ok (), closed, after) := by
  cases hspilled : s.isSpilled with
  | false =>
      rw [close_of_not_isSpilled hspilled] at h
      cases h
      exact close_of_not_isSpilled hspilled disk
  | true =>
      rw [close_of_isSpilled hspilled] at h
      cases hempty : s.table.groups.isEmpty with
      | true =>
          rw [spill_of_isEmpty hempty] at h
          cases h
          exact close_of_isEmpty hempty disk
      | false =>
          rcases hcreate : (SpillFile.create s.namer s.table.groups).run disk with
            ⟨_ | file, written⟩
          · rw [spill_of_create_error hempty hcreate] at h
            cases h
          · rw [spill_of_create hempty hcreate] at h
            cases h
            exact close_of_isEmpty rfl after

end SpillingTable

namespace AggregationPlan

variable {plan : AggregationPlan} {cursor : Cursor} {table table' : SpillingTable}
  {count rows : Nat}

/-- A row is inserted before the cursor goes on. -/
theorem exists_insert_of_insertFrom
    (h : insertFrom (count + 1) cursor table disk = (.ok rows, table', after)) :
    ((∃ cursor', (Cursor.next disk).run cursor = (.ok none, cursor')) ∧
        rows = 0 ∧ table' = table ∧ after = disk) ∨
      ∃ record cursor' inserted later rest,
        (Cursor.next disk).run cursor = (.ok (some record), cursor') ∧
        (SpillingTable.insert record).run (table, disk) = (.ok (), inserted, later) ∧
        insertFrom count cursor' inserted later = (.ok rest, table', after) ∧ rows = rest + 1 := by
  rw [insertFrom] at h
  rcases hnext : (Cursor.next disk).run cursor with ⟨_ | _ | record, cursor'⟩
  · rw [hnext] at h
    cases h
  · rw [hnext] at h
    cases h
    exact Or.inl ⟨⟨cursor', rfl⟩, rfl, rfl, rfl⟩
  · rw [hnext] at h
    simp only at h
    rcases hinsert : (SpillingTable.insert record).run (table, disk) with ⟨_ | _, inserted, later⟩
    · rw [hinsert] at h
      cases h
    · rw [hinsert] at h
      simp only at h
      obtain ⟨hresult, hstate⟩ := Prod.mk.inj h
      obtain ⟨rest, hrest, hrows⟩ := Attempt.map_eq_ok.1 hresult
      exact Or.inr ⟨record, cursor', inserted, later, rest, rfl, hinsert, Prod.ext hrest hstate,
        hrows.symm⟩

/-- A plan that has read its input could load all extents. -/
theorem exists_extent_of_insertFrom (htraverses : cursor.Traverses disk) (hstops : cursor.Stops)
    (hremaining : cursor.remaining ≤ count)
    (hfiles : ∀ file ∈ cursor.dataset.files, disk.Allocated file)
    (h : insertFrom count cursor table disk = (.ok rows, table', after)) {index : Nat}
    (hindex : index < cursor.dataset.extentCount) :
    ∃ extent, cursor.dataset.extent disk index = .ok extent := by
  induction count generalizing cursor table disk rows with
  | zero =>
      exact htraverses.exists_extent (hstops.extent_eq_none (Nat.le_zero.1 hremaining)) hindex
  | succ count ih =>
      rcases exists_insert_of_insertFrom h with
        ⟨⟨cursor', hnext⟩, -⟩ | ⟨record, cursor', inserted, later, rest, hnext, hinsert, hrest, -⟩
      · exact htraverses.exists_extent (hstops.extent_eq_none_of_next hnext) hindex
      · obtain ⟨hforward, hless⟩ := Cursor.next_traverses htraverses hnext
        have hframe := frame_insert record table disk
        rw [hinsert] at hframe
        have hdataset := hforward.dataset
        have hfiles' : ∀ file ∈ cursor'.dataset.files, disk.Allocated file := hdataset ▸ hfiles
        obtain ⟨extent, hextent⟩ := ih (hforward.traverses.frame hframe hfiles') hforward.stops
          (Nat.le_of_lt_succ (Nat.lt_of_lt_of_le hless hremaining))
          (fun file hfile => hframe.allocated (hfiles' file hfile)) hrest (hdataset ▸ hindex)
        rw [Dataset.extent_frame hframe hfiles', hdataset] at hextent
        exact ⟨extent, hextent⟩

/-- A node takes the rows as a cursor delivers them. -/
theorem takeAll_of_insertFrom (hinput : input.Readable disk extents)
    (hreads : plan.Reads input extents cursor) (hcount : (cursor.rowsFrom extents).length ≤ count)
    (h : insertFrom count cursor table disk = (.ok rows, table', after)) (rowsRead : Nat) :
    (Step.forEach (AggregationNode.take plan.filter) (cursor.rowsFrom extents)).run
      (⟨table, rowsRead⟩, disk) = (.ok (), ⟨table', rowsRead + rows⟩, after) := by
  induction count generalizing cursor table disk rows rowsRead with
  | zero =>
      rw [List.eq_nil_of_length_eq_zero (Nat.le_zero.1 hcount)]
      cases h
      rfl
  | succ count ih =>
      cases hrows : cursor.rowsFrom extents with
      | nil =>
          rw [insertFrom, Cursor.next_of_nil hreads.rests hrows] at h
          cases h
          rfl
      | cons record rest =>
          have haccepts := hreads.accepts_first hrows
          rcases hreads.next_spec hinput hrows with
            ⟨cursor', skipped, hnext, hreads', rfl, hskipped⟩ | ⟨cursor', fault, hnext, -⟩
          · rcases exists_insert_of_insertFrom h with
              ⟨⟨cursor'', hnone⟩, -⟩ |
              ⟨record', cursor'', inserted, later, rest, hsome, hinsert, hrest, rfl⟩
            · cases hnext.symm.trans hnone
            · cases hnext.symm.trans hsome
              have hframe := frame_insert record table disk
              rw [hinsert] at hframe
              rw [hrows, List.length_cons, List.length_append] at hcount
              have hgoes := ih (hinput.frame hframe fun _ _ => id) hreads' (by omega) hrest
                (rowsRead + 1)
              rw [Step.forEach, Step.run_bind, AggregationNode.take_of_insert haccepts hinsert]
              simp only
              rw [Step.forEach_append, Step.run_bind, AggregationNode.takeAll_of_skipped hskipped]
              simp only
              rw [hgoes, Nat.add_assoc, Nat.add_comm 1]
          · rw [insertFrom, hnext] at h
            cases h

section Pieces

variable {worker : Worker AggregationNode} {pieces : List Piece} {node : AggregationNode}
  {maxGroups : Nat} {namer : Namer}

/-- A worker takes the rows of its pieces in their order. -/
theorem runPieces_of_takeAll (hinput : input.Readable disk extents)
    (hpieces : List.Forall₂ (Piece.Is extents) pieces chunk)
    (hdataset : worker.partition.dataset = input)
    (h : (Step.forEach (AggregationNode.take plan.filter) chunk.flatten).run (worker.node, disk) =
      (.ok (), node, after)) :
    ∃ worker', (Worker.runPieces (plan.mapper maxGroups namer) pieces).run (worker, disk) =
        (.ok (), worker', after) ∧
      worker'.node = node ∧ worker'.closed = worker.closed := by
  induction hpieces generalizing worker disk with
  | nil =>
      cases h
      exact ⟨worker, rfl, rfl, rfl⟩
  | @cons piece extent pieces chunk hpiece _ ih =>
      have hload : worker.partition.load disk piece = .ok extent :=
        hpiece.load (hdataset ▸ hinput.loads)
      have hframe := AggregationNode.frame_takeAll plan.filter extent worker.node disk
      rw [List.flatten_cons, Step.forEach_append, Step.run_bind] at h
      rcases hextent : (Step.forEach (AggregationNode.take plan.filter) extent).run
        (worker.node, disk) with ⟨_ | _, node', later⟩
      · rw [hextent] at h
        cases h
      · rw [hextent] at h hframe
        rw [runPieces_of_ok hload hextent]
        exact @ih later ⟨node', { worker.partition with pending := pieces }, worker.closed⟩
          (hinput.frame hframe fun _ _ => id) hdataset h

end Pieces

section Finish

variable {closed : SpillingTable}

/-- Whether a table was closed before makes no difference to what is rendered. -/
theorem finish_of_closed (h : SpillingTable.close.run (table, disk) = (.ok (), closed, after))
    (rowsRead : Nat) : plan.finish rowsRead table disk = plan.finish rowsRead closed after := by
  simp only [finish, renderTable, Step.run_bind, h, close_of_closed h]

/-- A plan that has rendered its table could close it. -/
theorem exists_close_of_finish {counts : RowCounts} {rowsRead : Nat}
    (h : (plan.finish rowsRead table disk).1.result = .ok counts) :
    ∃ closed after, SpillingTable.close.run (table, disk) = (.ok (), closed, after) := by
  rcases hclose : SpillingTable.close.run (table, disk) with ⟨_ | _, closed, after⟩
  · simp only [finish, renderTable, Step.run_bind, hclose] at h
    cases h
  · exact ⟨closed, after, rfl⟩

end Finish

end AggregationPlan

/-- A dataset that is not to be split is one partition. -/
theorem Partitioner.exists_partition_of_new {partitioner : Partitioner}
    (h : Partitioner.new disk input 1 = .ok partitioner) :
    ∃ partition, partitioner.partitions = [partition] := by
  refine List.length_eq_one_iff.1 ?_
  rcases new_cases h with ⟨-, -, extent, -, hpartitions⟩ | ⟨-, rfl⟩
  · rw [hpartitions, List.length_map, List.length_zipIdx, length_splitRanges]
  · rw [byExtents, List.length_map, List.length_zipIdx, length_splitRanges]
    omega

namespace AggregationPlan

variable {plan : AggregationPlan} {maxGroups : Nat} {namer : Namer} {table table' : SpillingTable}
  {cursor : Cursor} {rows : Nat}

/-- The one worker of a job. -/
theorem exists_openJob_one (hvalidates : plan.grouping.validate input.schema = .ok ())
    (hnew : SpillingTable.new plan.grouping maxGroups namer = .ok table)
    (hloads : input.extents disk = .ok extents) :
    ∃ strategy partition chunk,
      plan.openJob 1 maxGroups namer input disk =
        .ok ⟨strategy, [⟨⟨table, 0⟩, partition, false⟩], .created⟩ ∧
      partition.Covers input extents chunk ∧ chunk.flatten = extents.flatten := by
  obtain ⟨partitioner, chunks, hsplit, hcovers, hflatten⟩ :=
    Partitioner.exists_new hloads Nat.one_pos
  obtain ⟨partition, hpartition⟩ := Partitioner.exists_partition_of_new hsplit
  rw [hpartition, List.forall₂_cons_left_iff] at hcovers
  obtain ⟨chunk, rest, hchunk, hrest, rfl⟩ := hcovers
  rw [List.forall₂_nil_left_iff] at hrest
  subst hrest
  rw [List.flatten_singleton] at hflatten
  refine ⟨partitioner.strategy, partition, chunk, ?_, hchunk, hflatten⟩
  refine Attempt.bind_eq_ok.2 ⟨(), hvalidates, Attempt.bind_eq_ok.2 ⟨partitioner, hsplit, ?_⟩⟩
  rw [hpartition]
  simp only [List.mapM_cons, List.mapM_nil, mapper, hnew]
  rfl

/-- The one worker of a job runs and then is closed. -/
theorem runConcurrent_one {worker ran : Worker AggregationNode} {closed : SpillingTable}
    {later : Disk} (strategy : SplitStrategy)
    (hrun : (Worker.run (plan.mapper maxGroups namer)).run (worker, disk) = (.ok (), ran, later))
    (hopen : ran.closed = false)
    (hclose : SpillingTable.close.run (ran.node.table, later) = (.ok (), closed, after)) :
    (Job.runConcurrent (plan.mapper maxGroups namer)).run (⟨strategy, [worker], .created⟩, disk) =
      (.ok (), ⟨strategy,
        [{ ran with node := { ran.node with table := closed }, closed := true }], .completed⟩,
        after) := by
  have hall : (Job.runAll (plan.mapper maxGroups namer)).run ([worker], disk) =
      (.ok (), [ran], later) := by
    simp only [Step.run, Job.runAll]
    rw [Worker.runEach, hrun]
    rfl
  have hcloses : (Worker.close (plan.mapper maxGroups namer)).run (ran, later) = _ :=
    run_close hopen later
  rw [hclose] at hcloses
  rw [runs_runConcurrent plan maxGroups namer _ _ rfl, Step.run_bind, Job.run_onWorkers, hall]
  simp only
  rw [Job.run_closeAll, Worker.eachInTurn, hcloses]
  rfl

/-- The table of the one worker is the total. -/
theorem finishJob_one (worker : Worker AggregationNode) (strategy : SplitStrategy) (disk : Disk) :
    plan.finishJob maxGroups namer ⟨strategy, [worker], .completed⟩ disk =
      plan.finish worker.node.rowsRead worker.node.table disk := by
  have hreduce : (Job.reduce AggregationTotal.consume
      (⟨strategy, [worker], .completed⟩ : Job AggregationNode)).run (.empty, disk) =
        (.ok (), ⟨some worker.node.table, worker.node.rowsRead⟩, disk) := by
    rw [← Nat.zero_add worker.node.rowsRead]
    rfl
  rw [finishJob, hreduce]

/-- The input of a plan that has read it can be loaded, and a node takes its rows in order. -/
theorem exists_takeAll_of_start (hfiles : ∀ file ∈ input.files, disk.Allocated file)
    (hstart : Cursor.start disk input plan.filter = .ok cursor)
    (h : insertFrom cursor.remaining cursor table disk = (.ok rows, table', after)) :
    ∃ extents, input.Readable disk extents ∧
      (Step.forEach (AggregationNode.take plan.filter) extents.flatten).run (⟨table, 0⟩, disk) =
        (.ok (), ⟨table', rows⟩, after) := by
  obtain ⟨hdataset, htraverses, hstops⟩ := Cursor.start_traverses hstart
  obtain ⟨extents, hloads⟩ : ∃ extents, input.extents disk = .ok extents := by
    refine Dataset.exists_extents fun index hindex => ?_
    rw [← hdataset] at hfiles hindex ⊢
    exact exists_extent_of_insertFrom htraverses hstops (Nat.le_refl _) hfiles h hindex
  have hinput : input.Readable disk extents := ⟨hloads, hfiles⟩
  refine ⟨extents, hinput, ?_⟩
  rcases @Cursor.start_spec disk extents input plan.filter hloads with
    ⟨cursor', hstart', -, haccepts, hwithin, hrests, skipped, hsplit, hskipped⟩ | ⟨fault, hfault, -⟩
  · cases hstart.symm.trans hstart'
    have htake := takeAll_of_insertFrom hinput ⟨hdataset, haccepts, hwithin, hrests⟩
      (Cursor.length_rowsFrom (hdataset ▸ hloads)) h 0
    rw [Nat.zero_add] at htake
    rw [hsplit, Step.forEach_append, Step.run_bind, AggregationNode.takeAll_of_skipped hskipped]
    exact htake
  · cases hstart.symm.trans hfault

/-- If executing a plan succeeds, then executing it with one partition does the same, whatever the
aggregates are: the same records are emitted in the same order, the same rows are counted, and the
disk is left the same. -/
theorem executePartitioned_one {counts : RowCounts}
    (hfiles : ∀ file ∈ input.files, disk.Allocated file)
    (h : (plan.execute maxGroups namer input disk).1.result = .ok counts) :
    plan.executePartitioned 1 maxGroups namer input disk =
      plan.execute maxGroups namer input disk := by
  rcases hprepare : plan.prepare maxGroups namer input disk with fault | ⟨table, cursor⟩
  · rw [execute_of_prepare_error hprepare] at h
    cases h
  rcases hinsert : insertFrom cursor.remaining cursor table disk with ⟨fault | rows, table', after⟩
  · rw [execute_of_insert_error hprepare (congrArg Prod.fst hinsert)] at h
    cases h
  have hserial := execute_of_insert hprepare hinsert
  rw [hserial] at h ⊢
  obtain ⟨_, hvalidates, hprepare⟩ := Attempt.bind_eq_ok.1 hprepare
  obtain ⟨_, hnew, hprepare⟩ := Attempt.bind_eq_ok.1 hprepare
  obtain ⟨_, hstart, hpure⟩ := Attempt.bind_eq_ok.1 hprepare
  cases hpure
  obtain ⟨extents, hinput, htake⟩ := exists_takeAll_of_start hfiles hstart hinsert
  obtain ⟨strategy, partition, chunk, hopen, hcovers, hflatten⟩ :=
    exists_openJob_one hvalidates hnew hinput.loads
  obtain ⟨closed, last, hclose⟩ := exists_close_of_finish h
  obtain ⟨ran, hrun, hnode, hunclosed⟩ : ∃ ran,
      (Worker.run (plan.mapper maxGroups namer)).run (⟨⟨table, 0⟩, partition, false⟩, disk) =
        (.ok (), ran, after) ∧ ran.node = ⟨table', rows⟩ ∧ ran.closed = false :=
    runPieces_of_takeAll hinput hcovers.pending hcovers.dataset (hflatten ▸ htake)
  have hran : SpillingTable.close.run (ran.node.table, after) = (.ok (), closed, last) := by
    rw [hnode]
    exact hclose
  rw [executePartitioned,
    executeJob_of_run hopen (runConcurrent_one strategy hrun hunclosed hran), finishJob_one, hnode]
  exact (finish_of_closed hclose rows).symm

/-- The mean and the deviation of a column, by the keys of the rows that have a small key. -/
def smallMoments : AggregationPlan where
  grouping := ⟨[0], [⟨.avg, [.leftColumn 1], rfl⟩, ⟨.stddevSamp, [.leftColumn 1], rfl⟩]⟩
  filter := some ⟨.compare .lt (.leftColumn 0) (.literal (.int 3))⟩
  projection := none

/-- Three extents, one of which has no rows. -/
def smallReadings : Dataset where
  schema := [⟨"key", .int64, false⟩, ⟨"value", .int64, false⟩]
  limit := 3
  limit_pos := Nat.succ_pos 2
  slots := [.memory [[.int 1, .int 10], [.int 2, .int 20], [.int 4, .int 1]], .memory [],
    .memory [[.int 1, .int 5], [.int 2, .int 7]]]
  namer := none
  sortedBy := none

theorem executePartitioned_one_small :
    (smallMoments.executePartitioned 1 8 (.inDirectory "/tmp") smallReadings .empty).1.result =
        .ok ⟨4, 2⟩ ∧
      smallMoments.executePartitioned 1 8 (.inDirectory "/tmp") smallReadings .empty =
        smallMoments.execute 8 (.inDirectory "/tmp") smallReadings .empty := by
  have hserial : (smallMoments.execute 8 (.inDirectory "/tmp") smallReadings .empty).1.result =
      .ok ⟨4, 2⟩ := by
    decide +kernel
  have hone := @executePartitioned_one .empty smallReadings smallMoments 8 (.inDirectory "/tmp") _
    (List.forall_mem_nil _) hserial
  exact ⟨(congrArg (fun run => run.1.result) hone).trans hserial, hone⟩

end AggregationPlan
end ExtentEngine
