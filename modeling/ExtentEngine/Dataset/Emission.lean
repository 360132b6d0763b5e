import ExtentEngine.Dataset.Writer
import ExtentEngine.Expr.Evaluation

/-!
# Emissions

An operation with many output records emits them one after the other and ends in a result
or a failure; the records that were emitted before a failure stay emitted.

Where the records go is of no account to the operation.  A caller may take them as a list,
or have a writer take them (`Emission.into`): then the failure of the writer, if it comes
first, is the failure of the whole.

**Results.**
* `result_bind`: what a sequence of two emissions ends with.
-/

namespace ExtentEngine

/-- Output records and how the operation ended. -/
structure Emission (α : Type) where
  rows : List Record
  result : Attempt α

namespace Emission

variable {α β : Type}

instance : Monad Emission where
  pure a := ⟨[], .ok a⟩
  bind m next :=
    match m.result with
    | .error fault => ⟨m.rows, .error fault⟩
    | .ok a => ⟨m.rows ++ (next a).rows, (next a).result⟩

/-- Emits one record. -/
def emit (record : Record) : Emission Unit := ⟨[record], .ok ()⟩

/-- An attempt that emits nothing. -/
def ofAttempt (attempt : Attempt α) : Emission α := ⟨[], attempt⟩

/-- Does something for each item in turn. -/
def forEach (action : β → Emission Unit) : List β → Emission Unit
  | [] => pure ()
  | item :: items => do
    action item
    forEach action items

/-- Emits the record that a projection computes. -/
def project (projection : Projection) (binding : Binding) : Emission Unit := do
  let record ← ofAttempt (projection.evaluate binding)
  emit record

/-- Has a writer take the records. -/
def into (emission : Emission α) : Step (Writer × Disk) α := do
  Writer.insertAll emission.rows
  Step.ofAttempt emission.result

/-- Appends the records to a dataset through a writer that is closed however the emission
ends.  Of two failures the earlier one counts. -/
def appendTo (emission : Emission α) : Step (Dataset × Disk) α :=
  Dataset.writing do
    let result ← emission.into.attempt
    let closed ← Writer.close.attempt
    Step.ofAttempt (result.bind fun a => closed.map fun _ => a)

@[simp] theorem rows_pure (a : α) : (pure a : Emission α).rows = [] := rfl

@[simp] theorem result_pure (a : α) : (pure a : Emission α).result = .ok a := rfl

theorem result_bind (m : Emission α) (next : α → Emission β) :
    (m >>= next).result =
      match m.result with
      | .ok a => (next a).result
      | .error fault => .error fault := by
  simp only [bind]
  cases m.result <;> rfl

end Emission
end ExtentEngine
