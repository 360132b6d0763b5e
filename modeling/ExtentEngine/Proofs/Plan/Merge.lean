import ExtentEngine.Plan.Merge
import ExtentEngine.Proofs.Join.Conforming
import ExtentEngine.Proofs.Join.Execute

/-!
# The output of a merge plan

A merge plan declares the schema of its output before it joins anything.  If its inputs are typed,
its output is too, so the records fit in the dataset that is made for them.

**Results.**
* `arityFree_executeToDataset`: no record is turned down for its arity.
* `output_conforms`: the records that a join of typed inputs emits pass the check of the output
  schema, since the values of expressions have the types of the expressions.
-/

namespace ExtentEngine

/-- A writer takes all records of an emission that the schema admits. -/
theorem Emission.keeps_into {α : Type} {emission : Emission α} {other : Dataset} {schema : Schema}
    {s : Writer × Disk} (h : emission.Yields schema.Admits) (hs : Writer.Beside other schema s) :
    emission.into.Keeps (Writer.Beside other schema) s :=
  (Writer.keeps_insertAll hs h.rows).bind fun _ _ _ ht => .of_attempt ht h.result

namespace MergePlan

variable {inputs : JoinInputs} {schema : Schema} {output : Dataset}

theorem newOutput_eq_ok {plan : MergePlan} {schemas : SchemaPair}
    (h : plan.newOutput schemas = .ok output) :
    plan.spec.outputSchema schemas = .ok output.schema ∧ output.slots = [] := by
  obtain ⟨schema, hschema, hnew⟩ := Attempt.bind_eq_ok.1 h
  rw [Settings.newDataset, Dataset.new] at hnew
  split at hnew
  · cases hnew
    exact ⟨hschema, rfl⟩
  · cases hnew

theorem arityFree_newOutput (plan : MergePlan) (schemas : SchemaPair) :
    (plan.newOutput schemas).ArityFree := by
  refine (plan.spec.arityFree_outputSchema schemas).bind fun schema => ?_
  rw [Settings.newDataset, Dataset.new]
  split
  · exact .ok _
  · exact .error rfl

theorem yields_execute (plan : MergePlan) (h : inputs.Typed)
    (hschema : plan.spec.outputSchema inputs.schemas = .ok schema) :
    (plan.execute inputs).1.Yields schema.Admits :=
  (JoinSpec.yields_execute plan.options h hschema).bind fun _ _ => .pure _

/-- No record is turned down for its arity by the dataset that is made for the output. -/
theorem arityFree_executeToDataset (plan : MergePlan) (h : inputs.Typed) :
    (plan.executeToDataset inputs).1.ArityFree := by
  rw [executeToDataset]
  cases houtput : plan.newOutput inputs.schemas with
  | error fault => exact .error (plan.arityFree_newOutput inputs.schemas fault houtput)
  | ok output =>
      obtain ⟨hschema, hslots⟩ := newOutput_eq_ok houtput
      have hempty := Dataset.Typed.empty hslots (plan.execute inputs).2.disk
      have hstart : Dataset.Beside output output.schema (output, (plan.execute inputs).2.disk) :=
        ⟨rfl, hempty, hempty⟩
      have hinto := Emission.keeps_into (plan.yields_execute h hschema) hstart.start
      have hwrite := Dataset.keeps_writing (hinto.bind fun counts _ _ ht =>
        (Writer.keeps_close ht).bind fun _ _ _ hu => .pure hu counts)
      exact hwrite.result.map _

/-- The output of a join of typed inputs conforms to the schema that is declared for it: every
record that is emitted, also beside nulls and before an expression fails, passes the check, and
putting the records into a dataset of the schema does not end in a fault of arity.  This is because
the value of an expression on typed rows is null or of the type of the expression.  Nothing is
emitted if an extent cannot be loaded, for all of them are loaded first. -/
theorem output_conforms (plan : MergePlan) (hinputs : inputs.Typed) :
    (∀ schema, plan.spec.outputSchema inputs.schemas = .ok schema →
      ∀ row ∈ (plan.spec.execute plan.options inputs).1.rows, schema.checkRecord row = .ok ()) ∧
    (∀ fault, (plan.executeToDataset inputs).1 = .error fault → fault.isArity = false) ∧
    ∀ (schemas : SchemaPair) (left right : Record) (expr : Expr) (type : DataType)
      (value : Scalar), schemas.left.Admits left → schemas.right.Admits right →
      expr.typeIn schemas = .ok type → expr.evaluate (.ofPair left right) = .ok value →
      value = .null ∨ value.dataType = type := by
  refine ⟨fun schema hschema row hrow => ?_, plan.arityFree_executeToDataset hinputs, ?_⟩
  · exact ((JoinSpec.yields_execute plan.options hinputs hschema).rows row hrow).checkRecord
      (JoinSpec.outputSchema_typed hschema).2
  · intro schemas left right expr type value hleft hright htype hvalue
    exact Expr.admits_evaluate hleft hright htype hvalue

/-- The quotient of the first columns of both sides. -/
def quotient : Expr := .arithmetic .div (.leftColumn 0) (.rightColumn 0)

/-- A full join by a residual that divides the columns of both sides. -/
def quotients : MergePlan where
  spec := { JoinSpec.keyless .full with
    residual := ⟨.compare .eq (.leftColumn 0) (.rightColumn 0)⟩
    projection := some [quotient, .isNull (.rightColumn 0)] }
  options := ⟨none, .zero⟩
  settings := .default

/-- Integers are divided as floats, and rows without a partner are divided by nulls. -/
theorem output_conforms_quotients :
    JoinSpec.smallInputs.Typed ∧
      ∃ schema, quotients.spec.outputSchema JoinSpec.smallInputs.schemas = .ok schema ∧
        schema.map Field.dataType = [.float64, .boolean] ∧
        (quotients.spec.execute quotients.options JoinSpec.smallInputs).1.rows =
          [[.float (.ofInt 1), .bool false], [.null, .bool true], [.null, .bool false]] ∧
        (∀ row ∈ (quotients.spec.execute quotients.options JoinSpec.smallInputs).1.rows,
          schema.checkRecord row = .ok ()) ∧
        (∀ fault, (quotients.executeToDataset JoinSpec.smallInputs).1 = .error fault →
          fault.isArity = false) ∧
        ∃ value, quotient.evaluate (.ofPair [.int 1] [.int 2]) = .ok value ∧
          (value = .null ∨ value.dataType = .float64) := by
  have hleft : JoinSpec.smallInputs.left.Readable JoinSpec.smallInputs.disk
      [[[.int 1], [.null]], []] := ⟨rfl, nofun⟩
  have hright : JoinSpec.smallInputs.right.Readable JoinSpec.smallInputs.disk
      [[[.int 1], [.int 2]]] := ⟨rfl, nofun⟩
  have hinputs : JoinSpec.smallInputs.Typed :=
    ⟨hleft.typed (by decide), hright.typed (by decide)⟩
  obtain ⟨hcheck, harity, hvalue⟩ := output_conforms quotients hinputs
  refine ⟨hinputs, _, rfl, rfl, by decide +kernel, hcheck _ rfl, harity, _, rfl, ?_⟩
  exact hvalue JoinSpec.smallInputs.schemas [.int 1] [.int 2] quotient _ _ (by decide) (by decide)
    rfl rfl

end MergePlan
end ExtentEngine
