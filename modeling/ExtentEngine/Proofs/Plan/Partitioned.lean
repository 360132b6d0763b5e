import ExtentEngine.Proofs.Partition.HandedOver
import ExtentEngine.Proofs.Plan.Worker

/-!
# Aggregating with a table per partition

Every worker of a job fills a table with the rows of its partition, whatever becomes of the
other workers.  If all of them succeed, the tables are closed and merged, and the merged table
represents the rows of all partitions.

**Results.**
* `runEach_spec` and `runAll_spec`: what the workers make of their partitions.
* `reduce_spec`: the tables of the workers are merged into one.
* `conforms_executeJob`: if the workers hold the rows of their partitions once they have run,
  executing a plan with partitions conforms to the plan.
-/

namespace ExtentEngine

open SpillingTable Family

/-- A worker with the rows that were added to the table of its node. -/
abbrev Share := Worker AggregationNode × List Record

namespace Share

/-- The table of a share. -/
def member (share : Share) : Member := (share.1.node.table, share.2)

/-- Shares of some rows, next to other tables on the disk. -/
structure Hold (grouping : Grouping) (shares : List Share) (rows : List Record)
    (others : List Member) (disk : Disk) : Prop where
  counts : ∀ share ∈ shares, share.1.node.rowsRead = share.2.length
  rows : (shares.map Prod.snd).flatten = rows
  sound : Sound grouping (shares.map member ++ others) disk

variable {grouping : Grouping} {shares : List Share} {worker : Worker AggregationNode}
  {rows part : List Record} {others : List Member} {disk : Disk}

theorem Hold.nil (h : Sound grouping others disk) : Hold grouping [] [] others disk :=
  ⟨nofun, rfl, h⟩

/-- A table next to the shares may be counted among them. -/
theorem Hold.cons (h : Hold grouping shares rows ((worker.node.table, part) :: others) disk)
    (hcount : worker.node.rowsRead = part.length) :
    Hold grouping ((worker, part) :: shares) (part ++ rows) others disk where
  counts := List.forall_mem_cons.2 ⟨hcount, h.counts⟩
  rows := congrArg (part ++ ·) h.rows
  sound := h.sound.perm List.perm_middle

end Share

/-- A worker that has not begun with a partition, and the records of its pieces. -/
structure Worker.Begins (input : Dataset) (extents : List Extent)
    (worker : Worker AggregationNode) (chunk : List Extent) : Prop where
  covers : worker.partition.Covers input extents chunk
  rowsRead : worker.node.rowsRead = 0

theorem lowestFault_mem {faults : List (Nat × Fault)} {entry : Nat × Fault}
    (h : lowestFault faults = some entry) : entry ∈ faults := by
  induction faults generalizing entry with
  | nil => cases h
  | cons head faults ih =>
      rw [lowestFault] at h
      split at h
      · next hlowest =>
          split at h
          · cases h
            exact List.mem_cons_of_mem _ (ih hlowest)
          · cases h
            exact List.mem_cons_self
      · cases h
        exact List.mem_cons_self

theorem Worker.isFileFailure_reportedFault {ν : Type} (worker : Worker ν) (fault : Fault) :
    (worker.reportedFault fault).isFileFailure = fault.isFileFailure := by
  cases fault <;> rfl

namespace AggregationPlan

open Worker Share

variable {plan : AggregationPlan} {input : Dataset} {extents : List Extent} {maxGroups : Nat}
  {namer : Namer} {disk : Disk} {workers : List (Worker AggregationNode)}
  {worker : Worker AggregationNode} {chunks : List (List Extent)} {chunk : List Extent}
  {members : List Member} {rows : List Record}

/-- The tables of workers that have not begun. -/
def emptyTables (workers : List (Worker AggregationNode)) : List Member :=
  workers.map fun worker => (worker.node.table, [])

theorem run_spec (hexact : ∀ aggregate ∈ plan.grouping.aggregates, aggregate.isExact = true)
    (hinput : input.Readable disk extents) (hbegins : worker.Begins input extents chunk)
    (hfloat : ∀ record ∈ chunk.flatten, plan.grouping.FloatFree record)
    (h : Sound plan.grouping ((worker.node.table, []) :: members) disk)
    (hlength : chunk.flatten.length ≤ Grouping.mostRows) :
    (plan.Takes chunk.flatten ∧ ∃ worker' after,
      (Worker.run (plan.mapper maxGroups namer)).run (worker, disk) = (.ok (), worker', after) ∧
      worker'.node.rowsRead = (plan.passing chunk.flatten).length ∧
      Sound plan.grouping ((worker'.node.table, plan.passing chunk.flatten) :: members) after) ∨
    ∃ fault, ((Worker.run (plan.mapper maxGroups namer)).run (worker, disk)).1 = .error fault ∧
      plan.FailsFor chunk.flatten fault := by
  rcases runPieces_spec hexact hinput hbegins.covers.pending hbegins.covers.dataset hfloat h (by
      rw [List.length_nil]
      omega) with
    ⟨htaken, worker', after, hrun, hread, hsound⟩ | hfails
  · rw [hbegins.rowsRead, Nat.zero_add] at hread
    exact Or.inl ⟨htaken, worker', after, hrun, hread, hsound⟩
  · exact Or.inr hfails

variable (maxGroups namer) in
/-- Every worker fills its table, or some workers fail. -/
theorem runEach_spec (hexact : ∀ aggregate ∈ plan.grouping.aggregates, aggregate.isExact = true)
    (hinput : input.Readable disk extents)
    (hbegins : List.Forall₂ (Begins input extents) workers chunks)
    (hfloat : ∀ record ∈ chunks.flatten.flatten, plan.grouping.FloatFree record)
    (h : Sound plan.grouping (emptyTables workers ++ members) disk)
    (hlength : chunks.flatten.flatten.length ≤ Grouping.mostRows) :
    (plan.Takes chunks.flatten.flatten ∧ ∃ shares after,
      runEach (plan.mapper maxGroups namer) workers disk = ([], shares.map Prod.fst, after) ∧
      Hold plan.grouping shares (plan.passing chunks.flatten.flatten) members after) ∨
    ((runEach (plan.mapper maxGroups namer) workers disk).1 ≠ [] ∧
      ∀ entry ∈ (runEach (plan.mapper maxGroups namer) workers disk).1,
        plan.FailsFor chunks.flatten.flatten entry.2) := by
  induction hbegins generalizing members disk with
  | nil => exact Or.inl ⟨plan.takes_nil, [], disk, rfl, .nil h⟩
  | @cons worker chunk workers chunks hworker _ ih =>
      rw [List.flatten_cons, List.flatten_append] at hfloat hlength ⊢
      rw [List.length_append] at hlength
      obtain ⟨hchunk, hchunks⟩ := List.forall_mem_append.1 hfloat
      have hframe : Disk.Frame (fun _ => False) disk
          ((Worker.run (plan.mapper maxGroups namer)).run (worker, disk)).2.2 :=
        frame_runPieces worker.partition.pending worker disk
      rcases run_spec hexact hinput hworker hchunk h (by omega) with
        ⟨htaken, worker', after, hrun, hread, hsound⟩ | ⟨fault, hfault, hfails⟩
      · rw [hrun] at hframe
        rw [runEach, hrun]
        rcases ih (hinput.frame hframe fun _ _ => id) hchunks
            (hsound.perm List.perm_middle.symm) (by omega) with
          ⟨htaken', shares, after', hrun', hshares⟩ | ⟨hne, hfails⟩
        · refine Or.inl ⟨takes_append.2 ⟨htaken, htaken'⟩,
            (worker', plan.passing chunk.flatten) :: shares, after', ?_, ?_⟩
          · simp only [hrun', List.map_cons]
          · rw [passing_append]
            exact hshares.cons hread
        · exact Or.inr ⟨hne, fun entry hentry =>
            (hfails entry hentry).mono fun h => (takes_append.1 h).2⟩
      · rcases hrun : (Worker.run (plan.mapper maxGroups namer)).run (worker, disk) with
          ⟨result, worker', after⟩
        rw [hrun] at hfault hframe
        cases hfault
        rw [runEach, hrun]
        refine Or.inr ⟨List.cons_ne_nil _ _, List.forall_mem_cons.2 ⟨?_, ?_⟩⟩
        · refine (hfails.mono fun h => (takes_append.1 h).1).imp_left fun hfile => ?_
          rw [isFileFailure_reportedFault]
          exact hfile
        · rcases ih (hinput.frame hframe fun _ _ => id) hchunks (h.tail.frame hframe)
              (by omega) with
            ⟨-, shares, after', hrun', -⟩ | ⟨-, hfails⟩
          · rw [hrun']
            exact List.forall_mem_nil _
          · exact fun entry hentry =>
              (hfails entry hentry).mono fun h => (takes_append.1 h).2

section Close

theorem run_close (hclosed : worker.closed = false) (disk : Disk) :
    (Worker.close (plan.mapper maxGroups namer)).run (worker, disk) =
      match SpillingTable.close.run (worker.node.table, disk) with
      | (.error fault, table, disk) =>
        (.error fault, { worker with node := { worker.node with table } }, disk)
      | (.ok (), table, disk) =>
        (.ok (), { worker with node := { worker.node with table }, closed := true }, disk) := by
  simp only [Step.run, Worker.close, hclosed, Bool.false_eq_true, if_false, mapper,
    AggregationNode.close]
  rcases SpillingTable.close (worker.node.table, disk) with ⟨result, table, after⟩
  cases result <;> rfl

theorem close_spec (h : Sound plan.grouping ((worker.node.table, rows) :: members) disk) :
    (∃ worker' after,
      (Worker.close (plan.mapper maxGroups namer)).run (worker, disk) = (.ok (), worker', after) ∧
      worker'.node.rowsRead = worker.node.rowsRead ∧
      Sound plan.grouping ((worker'.node.table, rows) :: members) after) ∨
    ∃ fault, ((Worker.close (plan.mapper maxGroups namer)).run (worker, disk)).1 = .error fault ∧
      fault.isFileFailure = true := by
  cases hclosed : worker.closed with
  | true =>
      refine Or.inl ⟨worker, disk, ?_, rfl, h⟩
      simp only [Step.run, Worker.close, hclosed, if_true]
  | false =>
      rw [run_close hclosed]
      rcases filesWork_or (SpillingTable.close.run (worker.node.table, disk)).1 with
        hfiles | ⟨fault, hfault, hfile⟩
      · obtain ⟨table, after, hrun, hsound⟩ := h.close hfiles
        rw [hrun]
        exact Or.inl ⟨_, after, rfl, rfl, hsound⟩
      · rcases hrun : SpillingTable.close.run (worker.node.table, disk) with ⟨result, table, after⟩
        rw [hrun] at hfault
        cases hfault
        exact Or.inr ⟨fault, rfl, hfile⟩

variable (maxGroups namer) in
/-- Closing leaves the rows of the shares as they are, unless a file operation fails. -/
theorem closeEach_spec {shares : List Share} (h : Hold plan.grouping shares rows members disk) :
    (∃ shares' after,
      eachInTurn (Worker.close (plan.mapper maxGroups namer)) (shares.map Prod.fst) disk =
        (.ok (), shares'.map Prod.fst, after) ∧
      Hold plan.grouping shares' rows members after) ∨
    ∃ fault, (eachInTurn (Worker.close (plan.mapper maxGroups namer)) (shares.map Prod.fst)
      disk).1 = .error fault ∧ fault.isFileFailure = true := by
  induction shares generalizing rows members disk with
  | nil => exact Or.inl ⟨[], disk, rfl, h⟩
  | cons share shares ih =>
      obtain ⟨worker, part⟩ := share
      obtain ⟨hcount, hcounts⟩ := List.forall_mem_cons.1 h.counts
      have hsound : Sound plan.grouping
          ((worker.node.table, part) :: (shares.map member ++ members)) disk := h.sound
      rw [List.map_cons, eachInTurn]
      rcases close_spec hsound with ⟨worker', after, hrun, hread, hsound'⟩ | ⟨fault, hfault, hfile⟩
      · rw [hrun]
        rcases ih ⟨hcounts, rfl, hsound'.perm List.perm_middle.symm⟩ with
          ⟨shares', after', hrun', hshares⟩ | ⟨fault, hfault, hfile⟩
        · refine Or.inl ⟨(worker', part) :: shares', after', ?_, ?_⟩
          · simp only [hrun', List.map_cons]
          · rw [← h.rows]
            exact hshares.cons (hread.trans hcount)
        · exact Or.inr ⟨fault, hfault, hfile⟩
      · rcases hrun : (Worker.close (plan.mapper maxGroups namer)).run (worker, disk) with
          ⟨result, worker', after⟩
        rw [hrun] at hfault
        cases hfault
        exact Or.inr ⟨fault, rfl, hfile⟩

end Close

section Reduce

open AggregationTotal

variable {table : SpillingTable} {shares : List Share} {rowsRead : Nat}

/-- The tables of shares are merged into another table, unless a file operation fails. -/
theorem consumeAll_spec (h : Sound plan.grouping ((table, rows) :: shares.map member) disk)
    (hcounts : ∀ share ∈ shares, share.1.node.rowsRead = share.2.length)
    (hlength : rows.length + (shares.map Prod.snd).flatten.length ≤ Grouping.mostRows) :
    (∃ table' after,
      (Step.forEach consume ((shares.map Prod.fst).map Worker.node)).run
          (⟨some table, rows.length⟩, disk) =
        (.ok (), ⟨some table', (rows ++ (shares.map Prod.snd).flatten).length⟩, after) ∧
      Sound plan.grouping [(table', rows ++ (shares.map Prod.snd).flatten)] after) ∨
    ∃ fault, ((Step.forEach consume ((shares.map Prod.fst).map Worker.node)).run
      (⟨some table, rows.length⟩, disk)).1 = .error fault ∧ fault.isFileFailure = true := by
  induction shares generalizing table rows disk with
  | nil =>
      rw [show (([] : List Share).map Prod.snd).flatten = [] from rfl, List.append_nil]
      exact Or.inl ⟨table, disk, rfl, h⟩
  | cons share shares ih =>
      obtain ⟨worker, part⟩ := share
      obtain ⟨hcount, hrest⟩ := List.forall_mem_cons.1 hcounts
      have hcount : worker.node.rowsRead = part.length := hcount
      have hsound : Sound plan.grouping
          ((table, rows) :: (worker.node.table, part) :: shares.map member) disk := h
      have hlength : rows.length + (part ++ (shares.map Prod.snd).flatten).length ≤
        Grouping.mostRows := hlength
      rw [List.length_append] at hlength
      have hconsume : (consume worker.node).run (⟨some table, rows.length⟩, disk) =
          (((SpillingTable.merge worker.node.table).run (table, disk)).1,
            ⟨some ((SpillingTable.merge worker.node.table).run (table, disk)).2.1,
              (rows ++ part).length⟩,
            ((SpillingTable.merge worker.node.table).run (table, disk)).2.2) := by
        rw [List.length_append, ← hcount]
        rfl
      simp only [List.map_cons, List.flatten_cons, Step.forEach, Step.run_bind, hconsume]
      rcases filesWork_or ((SpillingTable.merge worker.node.table).run (table, disk)).1 with
        hfiles | ⟨fault, hfault, hfile⟩
      · obtain ⟨table', after, hrun, hsound'⟩ := hsound.merge (by omega) hfiles
        simp only [hrun]
        rw [← List.append_assoc]
        exact ih hsound' hrest (by rw [List.length_append]; omega)
      · simp only [hfault]
        exact Or.inr ⟨fault, rfl, hfile⟩

variable (maxGroups namer) in
/-- The tables of the workers are merged into one, unless a file operation fails. -/
theorem reduce_spec {job : Job AggregationNode} (hstage : job.stage = .completed)
    (hworkers : job.workers = shares.map Prod.fst) (h : Hold plan.grouping shares rows [] disk)
    (hlength : rows.length ≤ Grouping.mostRows) :
    (∃ total after, (job.reduce consume).run (.empty, disk) = (.ok (), total, after) ∧
      total.rowsRead = rows.length ∧
      ∀ table, (total.table = some table ∨
          total.table = none ∧ SpillingTable.new plan.grouping maxGroups namer = .ok table) →
        Sound plan.grouping [(table, rows)] after) ∨
    ∃ fault, ((job.reduce consume).run (.empty, disk)).1 = .error fault ∧
      fault.isFileFailure = true := by
  have hreduce : (job.reduce consume).run (.empty, disk) =
      (Step.forEach consume ((shares.map Prod.fst).map Worker.node)).run (.empty, disk) := by
    have hnodes : job.nodes = .ok ((shares.map Prod.fst).map Worker.node) := by
      rw [Job.nodes, Job.expectStage, if_pos hstage, hworkers]
      rfl
    rw [Job.reduce, hnodes]
    rfl
  have hsound := h.sound
  rw [List.append_nil] at hsound
  rw [hreduce, ← h.rows]
  rw [← h.rows] at hlength
  cases shares with
  | nil =>
      refine Or.inl ⟨.empty, disk, rfl, rfl, ?_⟩
      rintro table (hsome | ⟨-, hnew⟩)
      · cases hsome
      · exact hsound.create hnew
  | cons share shares =>
      obtain ⟨worker, part⟩ := share
      obtain ⟨hcount, hcounts⟩ := List.forall_mem_cons.1 h.counts
      have hcount : worker.node.rowsRead = part.length := hcount
      have hconsume : (consume worker.node).run (.empty, disk) =
          (.ok (), ⟨some worker.node.table, part.length⟩, disk) := by
        rw [← hcount, ← Nat.zero_add worker.node.rowsRead]
        rfl
      rw [List.map_cons, List.flatten_cons, List.length_append] at hlength
      simp only [List.map_cons, Step.forEach, Step.run_bind, hconsume]
      rcases consumeAll_spec hsound hcounts hlength with
        ⟨table', after, hrun, hsound'⟩ | hfails
      · refine Or.inl ⟨_, after, hrun, rfl, ?_⟩
        rintro table (hsome | ⟨hnone, -⟩)
        · cases hsome
          exact hsound'
        · cases hnone
      · exact Or.inr hfails

end Reduce

section Execute

variable {partitions : Nat} {job : Job AggregationNode}

theorem create_eq_ok {id : Nat} {node : AggregationNode}
    (h : (plan.mapper maxGroups namer).create id = .ok node) :
    SpillingTable.new plan.grouping maxGroups namer = .ok node.table ∧ node.rowsRead = 0 := by
  obtain ⟨table, hnew, hnode⟩ := Attempt.bind_eq_ok.1 h
  cases hnode
  exact ⟨hnew, rfl⟩

theorem sound_emptyTables (disk : Disk) (h : ∀ worker ∈ workers,
    SpillingTable.new plan.grouping maxGroups namer = .ok worker.node.table) :
    Sound plan.grouping (emptyTables workers ++ []) disk := by
  induction workers with
  | nil => exact ⟨nofun, nofun, .nil⟩
  | cons worker workers ih =>
      obtain ⟨hworker, hworkers⟩ := List.forall_mem_cons.1 h
      exact (ih hworkers).create hworker

/-- A job whose workers have not begun. -/
structure Opens (plan : AggregationPlan) (maxGroups : Nat) (namer : Namer) (input : Dataset)
    (extents : List Extent) (job : Job AggregationNode) (chunks : List (List Extent)) : Prop where
  stage : job.stage = .created
  begins : List.Forall₂ (Begins input extents) job.workers chunks
  creates : ∀ worker ∈ job.workers,
    SpillingTable.new plan.grouping maxGroups namer = .ok worker.node.table
  flatten : chunks.flatten.flatten = extents.flatten

/-- A plan that fits the input has a job. -/
theorem exists_openJob (hvalidates : plan.grouping.validate input.schema = .ok ())
    (hinput : input.Readable disk extents) (hpartitions : 0 < partitions) (hpos : 0 < maxGroups) :
    ∃ job chunks, plan.openJob partitions maxGroups namer input disk = .ok job ∧
      plan.Opens maxGroups namer input extents job chunks := by
  obtain ⟨partitioner, chunks, hsplit, hcovers, hflatten⟩ :=
    Partitioner.exists_new hinput.loads hpartitions
  obtain ⟨table, hnew⟩ := exists_new hpos plan.grouping namer
  have hcreate : ∀ partition ∈ partitioner.partitions, ∃ worker : Worker AggregationNode, (do
      let node ← (plan.mapper maxGroups namer).create partition.id
      pure (⟨node, partition, false⟩ : Worker AggregationNode)) = .ok worker := by
    intro partition _
    refine ⟨⟨⟨table, 0⟩, partition, false⟩, ?_⟩
    simp only [mapper, hnew]
    rfl
  have hjob : ∃ job, Job.new (plan.mapper maxGroups namer) disk input partitions = .ok job := by
    obtain ⟨workers, hworkers⟩ := Attempt.exists_mapM hcreate
    exact ⟨_, Attempt.bind_eq_ok.2 ⟨partitioner, hsplit,
      Attempt.bind_eq_ok.2 ⟨workers, hworkers, rfl⟩⟩⟩
  obtain ⟨job, hjob⟩ := hjob
  obtain ⟨hstage, hworkers⟩ := Job.workers_of_new hsplit hjob
  refine ⟨job, chunks, Attempt.bind_eq_ok.2 ⟨(), hvalidates, hjob⟩, hstage, ?_, ?_, hflatten⟩
  · refine forall₂_trans hworkers.flip hcovers ?_
    rintro worker - partition - chunk - ⟨rfl, hcreate⟩ hchunk
    exact ⟨hchunk, (create_eq_ok hcreate).2⟩
  · intro worker hworker
    obtain ⟨partition, -, -, hcreate⟩ := exists_of_mem_right hworkers hworker
    exact (create_eq_ok hcreate).1

/-- What workers come to that share some rows: they hold them between them, or they fail. -/
def Fills (plan : AggregationPlan) (rows : List Record)
    (run : Attempt Unit × List (Worker AggregationNode) × Disk) : Prop :=
  (plan.Takes rows ∧ ∃ shares after, run = (.ok (), shares.map Prod.fst, after) ∧
    Hold plan.grouping shares (plan.passing rows) [] after) ∨
  ∃ fault, run.1 = .error fault ∧ plan.FailsFor rows fault

/-- Workers who run in the order of their partitions hold the rows between them, or fail. -/
theorem runAll_spec (hexact : ∀ aggregate ∈ plan.grouping.aggregates, aggregate.isExact = true)
    (hinput : input.Readable disk extents)
    (hfloat : ∀ record ∈ extents.flatten, plan.grouping.FloatFree record)
    (hlength : extents.flatten.length ≤ Grouping.mostRows)
    (hopens : plan.Opens maxGroups namer input extents job chunks) :
    plan.Fills extents.flatten
      ((Job.runAll (plan.mapper maxGroups namer)).run (job.workers, disk)) := by
  have hsound := sound_emptyTables disk hopens.creates
  rw [← hopens.flatten] at hfloat hlength ⊢
  rcases runEach_spec maxGroups namer hexact hinput hopens.begins hfloat hsound hlength with
    ⟨htaken, shares, after, hrun, hshares⟩ | ⟨hne, hfails⟩
  · refine Or.inl ⟨htaken, shares, after, ?_, hshares⟩
    simp only [Step.run, Job.runAll, hrun, lowestFault]
  · obtain ⟨⟨id, fault⟩, hlowest⟩ := Option.ne_none_iff_exists'.1
      (mt lowestFault_eq_none_iff.1 hne)
    refine Or.inr ⟨fault, ?_, hfails _ (lowestFault_mem hlowest)⟩
    simp only [Step.run, Job.runAll, hlowest]

/-- A job is run by having its workers run, and then closing their nodes. -/
def Runs (plan : AggregationPlan) (maxGroups : Nat) (namer : Namer)
    (workers : Step (List (Worker AggregationNode) × Disk) Unit)
    (run : Step (Job AggregationNode × Disk) Unit) : Prop :=
  ∀ job disk, job.stage = .created → run.run (job, disk) =
    (Job.onWorkers workers >>= fun _ => Job.closeAll (plan.mapper maxGroups namer)).run (job, disk)

theorem runs_runConcurrent (plan : AggregationPlan) (maxGroups : Nat) (namer : Namer) :
    plan.Runs maxGroups namer (Job.runAll (plan.mapper maxGroups namer))
      (Job.runConcurrent (plan.mapper maxGroups namer)) := by
  intro job disk hstage
  simp only [Job.runConcurrent, Step.run_bind, Step.run_get, Step.run_ofAttempt, Job.expectStage,
    hstage, if_true]

/-- The workers of a job that has run hold the rows between them, or the run fails. -/
theorem run_spec_of_fills {workers : Step (List (Worker AggregationNode) × Disk) Unit}
    {run : Step (Job AggregationNode × Disk) Unit} (hruns : plan.Runs maxGroups namer workers run)
    (hstage : job.stage = .created) (hfills : plan.Fills rows (workers.run (job.workers, disk))) :
    (plan.Takes rows ∧ ∃ job' shares after, run.run (job, disk) = (.ok (), job', after) ∧
      job'.stage = .completed ∧ job'.workers = shares.map Prod.fst ∧
      Hold plan.grouping shares (plan.passing rows) [] after) ∨
    ∃ fault, (run.run (job, disk)).1 = .error fault ∧ plan.FailsFor rows fault := by
  rw [hruns job disk hstage, Step.run_bind, Job.run_onWorkers]
  rcases hfills with ⟨htaken, shares, after, hall, hshares⟩ | ⟨fault, hfault, hfails⟩
  · simp only [hall]
    rw [Job.run_closeAll]
    rcases closeEach_spec maxGroups namer hshares with
      ⟨shares', after', hclose, hshares'⟩ | ⟨fault, hfault, hfile⟩
    · simp only [hclose]
      exact Or.inl ⟨htaken, ⟨job.strategy, shares'.map Prod.fst, .completed⟩, shares', after', rfl,
        rfl, rfl, hshares'⟩
    · rcases hclose : eachInTurn (Worker.close (plan.mapper maxGroups namer))
        (shares.map Prod.fst) after with ⟨result, workers, after'⟩
      rw [hclose] at hfault
      cases hfault
      exact Or.inr ⟨fault, rfl, Or.inl hfile⟩
  · simp only [hfault]
    exact Or.inr ⟨fault, rfl, hfails⟩

/-- Finishing a job whose workers hold the rows conforms to the plan. -/
theorem conforms_finishJob {schema : Schema} {shares : List Share}
    (hvalidates : plan.grouping.validate schema = .ok ()) (htakes : plan.Takes rows)
    (hpos : 0 < maxGroups) (hstage : job.stage = .completed)
    (hworkers : job.workers = shares.map Prod.fst)
    (h : Hold plan.grouping shares (plan.passing rows) [] disk)
    (hlength : rows.length ≤ Grouping.mostRows)
    (hfiles : FilesWork (plan.finishJob maxGroups namer job disk).1.result) :
    plan.Conforms schema rows (plan.finishJob maxGroups namer job disk).1 := by
  obtain ⟨fresh, hnew⟩ := exists_new hpos plan.grouping namer
  rcases reduce_spec maxGroups namer hstage hworkers h
    (Nat.le_trans (plan.length_passing_le rows) hlength) with
    ⟨⟨table, rowsRead⟩, after, hrun, hread, hsound⟩ | ⟨fault, hfault, hfile⟩
  · cases hread
    rw [finishJob, hrun] at hfiles ⊢
    cases table with
    | none =>
        simp only [hnew] at hfiles ⊢
        exact conforms_finish hvalidates htakes (hsound _ (Or.inr ⟨rfl, hnew⟩)) hlength hfiles
    | some table =>
        exact conforms_finish hvalidates htakes (hsound _ (Or.inl rfl)) hlength hfiles
  · rcases hrun : (job.reduce AggregationTotal.consume).run (.empty, disk) with
      ⟨result, total, after⟩
    rw [hrun] at hfault
    cases hfault
    rw [finishJob, hrun] at hfiles
    exact (hfiles.not_of_error rfl hfile).elim

section ExecuteJob

variable {run : Step (Job AggregationNode × Disk) Unit}

theorem executeJob_of_run {job' : Job AggregationNode} {after : Disk}
    (hopen : plan.openJob partitions maxGroups namer input disk = .ok job)
    (hrun : run.run (job, disk) = (.ok (), job', after)) :
    plan.executeJob run partitions maxGroups namer input disk =
      plan.finishJob maxGroups namer job' after := by
  rw [executeJob, hopen]
  simp only [hrun]

theorem executeJob_of_error {fault : Fault}
    (hopen : plan.openJob partitions maxGroups namer input disk = .ok job)
    (hrun : (run.run (job, disk)).1 = .error fault) :
    (plan.executeJob run partitions maxGroups namer input disk).1.result = .error fault := by
  rcases hstep : run.run (job, disk) with ⟨result, job', after⟩
  rw [hstep] at hrun
  cases hrun
  rw [executeJob, hopen]
  simp only [hstep]
  rfl

/-- If the workers fill their tables, executing a plan with partitions conforms to the plan. -/
theorem conforms_executeJob {workers : Step (List (Worker AggregationNode) × Disk) Unit}
    (hruns : plan.Runs maxGroups namer workers run) (hinput : input.Readable disk extents)
    (hlength : extents.flatten.length ≤ Grouping.mostRows) (hpartitions : 0 < partitions)
    (hpos : 0 < maxGroups)
    (hfills : ∀ job chunks, plan.openJob partitions maxGroups namer input disk = .ok job →
      plan.Opens maxGroups namer input extents job chunks →
      plan.Fills extents.flatten (workers.run (job.workers, disk)))
    (hfiles : FilesWork (plan.executeJob run partitions maxGroups namer input disk).1.result) :
    plan.Conforms input.schema extents.flatten
      (plan.executeJob run partitions maxGroups namer input disk).1 := by
  cases hvalidates : plan.grouping.validate input.schema with
  | error fault =>
      refine Or.inr ⟨fun hanswers => ?_, fault, ?_⟩
      · rw [hanswers.validates] at hvalidates
        cases hvalidates
      · rw [executeJob, openJob, hvalidates]
        rfl
  | ok _ =>
      obtain ⟨job, chunks, hopen, hopens⟩ :=
        exists_openJob hvalidates hinput hpartitions hpos
      rcases run_spec_of_fills hruns hopens.stage (hfills job chunks hopen hopens) with
        ⟨htaken, job', shares, after, hrun, hstage, hworkers, hshares⟩ | ⟨fault, hfault, hfails⟩
      · rw [executeJob_of_run hopen hrun] at hfiles ⊢
        exact conforms_finishJob hvalidates htaken hpos hstage hworkers hshares hlength hfiles
      · have hresult := executeJob_of_error hopen hfault
        rcases hfails with hfile | hnot
        · exact (hfiles.not_of_error hresult hfile).elim
        · exact Or.inr ⟨fun hanswers => hnot hanswers.takes, fault, hresult⟩

end ExecuteJob

/-- Executing a plan with partitions conforms to the plan. -/
theorem conforms_executePartitioned
    (hexact : ∀ aggregate ∈ plan.grouping.aggregates, aggregate.isExact = true)
    (hinput : input.Readable disk extents)
    (hfloat : ∀ record ∈ extents.flatten, plan.grouping.FloatFree record)
    (hlength : extents.flatten.length ≤ Grouping.mostRows) (hpartitions : 0 < partitions)
    (hpos : 0 < maxGroups)
    (hfiles : FilesWork (plan.executePartitioned partitions maxGroups namer input disk).1.result) :
    plan.Conforms input.schema extents.flatten
      (plan.executePartitioned partitions maxGroups namer input disk).1 :=
  conforms_executeJob (runs_runConcurrent plan maxGroups namer) hinput hlength hpartitions hpos
    (fun _ _ _ hopens => runAll_spec hexact hinput hfloat hlength hopens) hfiles

end Execute

end AggregationPlan
end ExtentEngine
