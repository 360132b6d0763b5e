import ExtentEngine.Record.Codec
import ExtentEngine.Scalar.Terse

/-!
# Terse records, keys and schemas

A terse record is an array of terse scalars and a terse key an array of column indices.  A
field is an array of its name, its type and whether it is nullable.  A terse schema is an
array of fields, or the number of columns of a plain schema.
-/

namespace ExtentEngine
namespace Record

def toTerse (number : Binary64 → List Char) (record : Record) : Json :=
  .array (record.map (Scalar.toTerse number))

def ofTerse? (j : Json) : Option Record := j.items? Scalar.ofTerse?

end Record

namespace Key

def ofTerse? (j : Json) : Option Key := j.items? Json.index?

end Key

namespace Field

def toTerse (field : Field) : Json :=
  .array [.ofText field.name.toList, .chooseBare field.dataType.name, .bool field.nullable]

def ofTerse? : Json → Option Field
  | .array [name, dataType, nullable] => do
    pure ⟨String.ofList (← name.text?), ← dataType.oneOf? DataType.byName, ← nullable.bool?⟩
  | _ => none

end Field

namespace Schema

/-- A number of nullable integer columns, named by their positions. -/
def plain (columns : Nat) : Schema :=
  (List.range columns).map fun column =>
    ⟨String.ofList ('c' :: Digits.ofNat 10 column), .int64, true⟩

def toTerse (schema : Schema) : Json := .array (schema.map Field.toTerse)

def ofTerse? (j : Json) : Option Schema :=
  match j.index? with
  | some columns => some (plain columns)
  | none => j.items? Field.ofTerse?

end Schema
end ExtentEngine
