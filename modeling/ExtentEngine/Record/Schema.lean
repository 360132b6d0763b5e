import ExtentEngine.Record.Basic

/-!
# Schemas

A schema names the columns of a record and gives each a type.  A null fits every nullable
field, and any other value the field of its own type.

**Results.**
* `checkRecord_eq_ok_iff`: the check accepts the records that conform to the schema.
-/

namespace ExtentEngine

/-- A named and typed column. -/
structure Field where
  name : String
  dataType : DataType
  nullable : Bool
deriving DecidableEq, Repr

namespace Field

/-- Fails unless the value fits the field. -/
def check (field : Field) (value : Scalar) : Attempt Unit :=
  if value.isNull then
    if field.nullable then .ok () else .error (.nullForbidden field.name)
  else if value.dataType = field.dataType then .ok ()
  else .error (.fieldType field.name field.dataType value.dataType)

/-- Whether a value may stand in the field. -/
def Fits (field : Field) (value : Scalar) : Prop :=
  if value = .null then field.nullable = true else value.dataType = field.dataType

theorem check_eq_ok_iff {field : Field} {value : Scalar} :
    field.check value = .ok () ↔ field.Fits value := by
  unfold check Fits
  by_cases hn : value = .null
  · cases hf : field.nullable <;> simp [hn, Scalar.isNull]
  · have : value.isNull = false := by
      cases h : value.isNull
      · rfl
      · exact absurd (Scalar.isNull_iff.1 h) hn
    by_cases ht : value.dataType = field.dataType <;> simp [hn, this, ht]

end Field

/-- The columns of a dataset. -/
abbrev Schema := List Field

namespace Schema

/-- The position of the first field of a name. -/
def indexOf (schema : Schema) (name : String) : Attempt Nat :=
  match schema.findIdx? (·.name = name) with
  | some index => .ok index
  | none => .error (.fieldMissing name)

/-- The record that pads the side of a join that has no row. -/
def nullRecord (schema : Schema) : Record := Record.nulls schema.length

/-- The schema with every field nullable. -/
def nullable (schema : Schema) : Schema := schema.map fun field => { field with nullable := true }

/-- Checks the fields against the cells from left to right. -/
def checkCells : Schema → Record → Attempt Unit
  | field :: fields, value :: values =>
    match field.check value with
    | .error fault => .error fault
    | .ok () => checkCells fields values
  | _, _ => .ok ()

/-- Fails unless the record conforms to the schema. -/
def checkRecord (schema : Schema) (record : Record) : Attempt Unit :=
  if record.length = schema.length then checkCells schema record
  else .error (.schemaArity record.length schema.length)

/-- Whether a record has one fitting cell for every field. -/
def Conforms : Schema → Record → Prop
  | [], [] => True
  | field :: fields, value :: values => field.Fits value ∧ Conforms fields values
  | _, _ => False

theorem checkRecord_eq_ok_iff {schema : Schema} {record : Record} :
    schema.checkRecord record = .ok () ↔ schema.Conforms record := by
  unfold checkRecord
  induction schema generalizing record with
  | nil => cases record <;> simp [checkCells, Conforms]
  | cons field fields ih =>
      cases record with
      | nil => simp [Conforms]
      | cons value values =>
          have ih := @ih values
          simp only [List.length_cons, Nat.add_right_cancel_iff, Conforms] at ih ⊢
          rw [← ih, ← Field.check_eq_ok_iff]
          cases hc : field.check value with
          | ok u =>
              simp only [checkCells, hc, true_and]
              split <;> simp
          | error fault => split <;> simp [checkCells, hc]

end Schema
end ExtentEngine
