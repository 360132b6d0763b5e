import ExtentEngine.Partition.Schedule
import ExtentEngine.Plan.Aggregation

/-!
# Partitioned aggregation

The same plan with a table per partition of the input.  The tables are filled by the workers
of a job and merged in the order of the partitions.  `executePartitioned` has the workers run in
that order, too, and `executeInterleaved` has them take their steps as a schedule says.
-/

namespace ExtentEngine

/-- The groups of a partition. -/
structure AggregationNode where
  table : SpillingTable
  /-- How many rows have passed the filter. -/
  rowsRead : Nat
deriving DecidableEq

namespace AggregationNode

/-- Adds a row to the groups of the partition, if it passes the filter. -/
def take (filter : Option Predicate) (record : Record) : Step (AggregationNode × Disk) Unit :=
  fun (node, disk) =>
    match Cursor.accepts filter record with
    | .error fault => (.error fault, (node, disk))
    | .ok false => (.ok (), (node, disk))
    | .ok true =>
      match (SpillingTable.insert record).run (node.table, disk) with
      | (.error fault, table, disk) => (.error fault, ({ node with table }, disk))
      | (.ok (), table, disk) => (.ok (), (⟨table, node.rowsRead + 1⟩, disk))

/-- Closes the table of the partition. -/
def close : Step (AggregationNode × Disk) Unit := fun (node, disk) =>
  let (result, table, disk) := SpillingTable.close.run (node.table, disk)
  (result, ({ node with table }, disk))

/-- Removes the files of nodes that are given up. -/
def discardAll (nodes : List AggregationNode) (disk : Disk) : Disk :=
  nodes.foldl (fun disk node => node.table.discard disk) disk

end AggregationNode

/-- The tables of several partitions as one. -/
structure AggregationTotal where
  table : Option SpillingTable
  rowsRead : Nat
deriving DecidableEq

namespace AggregationTotal

/-- The total of no partitions. -/
def empty : AggregationTotal := ⟨none, 0⟩

/-- Takes over the table of a partition. -/
def consume (node : AggregationNode) : Step (AggregationTotal × Disk) Unit :=
  fun (total, disk) =>
    let rowsRead := total.rowsRead + node.rowsRead
    match total.table with
    | none => (.ok (), (⟨some node.table, rowsRead⟩, disk))
    | some table =>
      let (result, table, disk) := (SpillingTable.merge node.table).run (table, disk)
      (result, (⟨some table, rowsRead⟩, disk))

/-- Removes the files of a total that is given up. -/
def discard (total : AggregationTotal) (disk : Disk) : Disk :=
  match total.table with
  | none => disk
  | some table => table.discard disk

end AggregationTotal

namespace AggregationPlan

/-- What the nodes of the plan's job do. -/
def mapper (plan : AggregationPlan) (maxGroups : Nat) (namer : Namer) :
    Mapper AggregationNode where
  create _ := do
    let table ← SpillingTable.new plan.grouping maxGroups namer
    pure ⟨table, 0⟩
  execute extent := Step.forEach (AggregationNode.take plan.filter) extent
  close := AggregationNode.close

/-- What a plan makes sure of before a worker runs. -/
def openJob (plan : AggregationPlan) (partitions maxGroups : Nat) (namer : Namer)
    (input : Dataset) (disk : Disk) : Attempt (Job AggregationNode) := do
  plan.grouping.validate input.schema
  Job.new (plan.mapper maxGroups namer) disk input partitions

/-- Merges the tables of a job that has run and emits the groups. -/
def finishJob (plan : AggregationPlan) (maxGroups : Nat) (namer : Namer)
    (job : Job AggregationNode) (disk : Disk) : Emission RowCounts × Disk :=
  match (job.reduce AggregationTotal.consume).run (.empty, disk) with
  | (.error fault, total, disk) =>
    let nodes := job.workers.map Worker.node
    (.ofAttempt (.error fault), AggregationNode.discardAll nodes (total.discard disk))
  | (.ok (), total, disk) =>
    match total.table with
    | some table => plan.finish total.rowsRead table disk
    | none =>
      match SpillingTable.new plan.grouping maxGroups namer with
      | .error fault => (.ofAttempt (.error fault), disk)
      | .ok table => plan.finish total.rowsRead table disk

/-- Runs the plan with a number of partitions, and its job in a given way. -/
def executeJob (plan : AggregationPlan) (run : Step (Job AggregationNode × Disk) Unit)
    (partitions maxGroups : Nat) (namer : Namer) (input : Dataset) (disk : Disk) :
    Emission RowCounts × Disk :=
  match plan.openJob partitions maxGroups namer input disk with
  | .error fault => (.ofAttempt (.error fault), disk)
  | .ok job =>
    match run.run (job, disk) with
    | (.error fault, job, disk) =>
      (.ofAttempt (.error fault), AggregationNode.discardAll (job.workers.map Worker.node) disk)
    | (.ok (), job, disk) => plan.finishJob maxGroups namer job disk

/-- Runs the plan with a number of partitions. -/
def executePartitioned (plan : AggregationPlan) (partitions maxGroups : Nat) (namer : Namer)
    (input : Dataset) (disk : Disk) : Emission RowCounts × Disk :=
  plan.executeJob (Job.runConcurrent (plan.mapper maxGroups namer)) partitions maxGroups namer
    input disk

/-- Runs the plan with a number of partitions, whose workers take their steps as a schedule
says. -/
def executeInterleaved (plan : AggregationPlan) (schedule : List Nat) (partitions maxGroups : Nat)
    (namer : Namer) (input : Dataset) (disk : Disk) : Emission RowCounts × Disk :=
  plan.executeJob (Job.runInterleaved (plan.mapper maxGroups namer) schedule) partitions maxGroups
    namer input disk

end AggregationPlan
end ExtentEngine
