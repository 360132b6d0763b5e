import ExtentEngine.Plan.Settings
import ExtentEngine.Plan.Stats

/-!
# Merge plans

A plan joins two datasets and appends the output to a dataset, which it makes if there is
none.
-/

namespace ExtentEngine

/-- What to join, and how. -/
structure MergePlan where
  spec : JoinSpec
  options : JoinOptions
  settings : Settings

namespace MergePlan

/-- A plan under the given settings. -/
def new (spec : JoinSpec) (settings : Settings) : MergePlan :=
  ⟨spec, settings.joinOptions, settings⟩

/-- The plan with an algorithm of the caller's choice. -/
def withAlgorithm (plan : MergePlan) (algorithm : JoinAlgorithm) : MergePlan :=
  { plan with options := { plan.options with algorithm := some algorithm } }

/-- Runs the join. -/
def execute (plan : MergePlan) (inputs : JoinInputs) : Emission RowCounts × JoinInputs :=
  let (emission, inputs) := plan.spec.execute plan.options inputs
  (do
    let stats ← emission
    pure ⟨stats.leftRows + stats.rightRows, stats.emitted⟩, inputs)

/-- Runs the join and appends the output to a dataset, through a writer that is closed only
if the join succeeds. -/
def executeInto (plan : MergePlan) (inputs : JoinInputs) (output : Dataset) :
    Attempt RowCounts × Dataset × JoinInputs :=
  let (emission, inputs) := plan.execute inputs
  let write : Step (Dataset × Disk) RowCounts := Dataset.writing do
    let counts ← emission.into
    let _ ← Writer.close
    pure counts
  let (result, output, disk) := write.run (output, inputs.disk)
  (result, output, { inputs with disk })

/-- The dataset that the output of the plan fits in. -/
def newOutput (plan : MergePlan) (schemas : SchemaPair) : Attempt Dataset := do
  let schema ← plan.spec.outputSchema schemas
  plan.settings.newDataset schema

/-- Runs the join into a new dataset in memory. -/
def executeToDataset (plan : MergePlan) (inputs : JoinInputs) :
    Attempt (Dataset × RowCounts) × JoinInputs :=
  match plan.newOutput inputs.schemas with
  | .error fault => (.error fault, inputs)
  | .ok output =>
    let (result, output, inputs) := plan.executeInto inputs output
    (result.map fun counts => (output, counts), inputs)

end MergePlan
end ExtentEngine
