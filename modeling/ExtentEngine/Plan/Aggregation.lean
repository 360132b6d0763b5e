import ExtentEngine.Aggregate.SpillingTable
import ExtentEngine.Dataset.Cursor
import ExtentEngine.Plan.Stats

/-!
# Aggregation plans

A plan groups the rows of a dataset that pass a filter, and emits a record per group.
`execute` does it with one spilling table; the files of the table are gone when the plan is
done, however it ends.
-/

namespace ExtentEngine

/-- What to group and what to emit. -/
structure AggregationPlan where
  grouping : Grouping
  /-- The rows to group; without a filter, all rows. -/
  filter : Option Predicate
  /-- The output, computed from a finished group; without one, the group itself. -/
  projection : Option Projection
deriving DecidableEq

namespace AggregationPlan

/-- Adds the rows from a cursor on, at most a number of them, and counts them. -/
def insertFrom : Nat → Cursor → SpillingTable → Disk → Attempt Nat × SpillingTable × Disk
  | 0, _, table, disk => (.ok 0, table, disk)
  | count + 1, cursor, table, disk =>
    match (Cursor.next disk).run cursor with
    | (.error fault, _) => (.error fault, table, disk)
    | (.ok none, _) => (.ok 0, table, disk)
    | (.ok (some record), cursor) =>
      match (SpillingTable.insert record).run (table, disk) with
      | (.error fault, table, disk) => (.error fault, table, disk)
      | (.ok (), table, disk) =>
        let (result, table, disk) := insertFrom count cursor table disk
        (result.map (· + 1), table, disk)

/-- The projection of finished groups. -/
def outputProjection (plan : AggregationPlan) : Projection :=
  plan.projection.getD (.identity plan.grouping.outputArity)

/-- Closes and consolidates a table and emits its groups. -/
def renderTable (plan : AggregationPlan) (table : SpillingTable) (disk : Disk) :
    Emission Nat × SpillingTable × Disk :=
  let ready : Step (SpillingTable × Disk) Unit := do
    SpillingTable.close
    SpillingTable.consolidate
  match ready.run (table, disk) with
  | (.error fault, table, disk) => (.ofAttempt (.error fault), table, disk)
  | (.ok (), table, disk) => SpillingTable.render plan.outputProjection (table, disk)

/-- Emits the groups of a table that has all rows, and gives the table up. -/
def finish (plan : AggregationPlan) (rowsRead : Nat) (table : SpillingTable) (disk : Disk) :
    Emission RowCounts × Disk :=
  let (emission, table, disk) := plan.renderTable table disk
  (do
    let written ← emission
    pure ⟨rowsRead, written⟩, table.discard disk)

/-- What a plan makes sure of before it reads a row. -/
def prepare (plan : AggregationPlan) (maxGroups : Nat) (namer : Namer) (input : Dataset)
    (disk : Disk) : Attempt (SpillingTable × Cursor) := do
  plan.grouping.validate input.schema
  let table ← SpillingTable.new plan.grouping maxGroups namer
  let cursor ← Cursor.start disk input plan.filter
  pure (table, cursor)

/-- Runs the plan with at most a number of groups in memory. -/
def execute (plan : AggregationPlan) (maxGroups : Nat) (namer : Namer) (input : Dataset)
    (disk : Disk) : Emission RowCounts × Disk :=
  match plan.prepare maxGroups namer input disk with
  | .error fault => (.ofAttempt (.error fault), disk)
  | .ok (table, cursor) =>
    match insertFrom cursor.remaining cursor table disk with
    | (.error fault, table, disk) => (.ofAttempt (.error fault), table.discard disk)
    | (.ok rowsRead, table, disk) => plan.finish rowsRead table disk

end AggregationPlan
end ExtentEngine
