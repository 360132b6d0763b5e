import ExtentEngine.Record.Schema
import ExtentEngine.Scalar.Codec

/-!
# Records, keys and schemas in JSON
-/

namespace ExtentEngine

/-- Cells as a JSON array. -/
def cellsToJson (cells : List Scalar) : Json := .array (cells.map Scalar.toJson)

def cellsOfJson? (j : Json) : Option (List Scalar) := j.items? Scalar.ofJson?

namespace Record

def toJson (record : Record) : Json := .record [("values", cellsToJson record)]

def ofJson? (j : Json) : Option Record :=
  match j.fields? ["values"] with
  | some [some values] => cellsOfJson? values
  | _ => none

end Record

namespace Key

def toJson (key : Key) : Json :=
  .record [("columns", .array (key.map fun (column : Nat) => Json.ofInt column))]

def ofJson? (j : Json) : Option Key :=
  match j.fields? ["columns"] with
  | some [some columns] => columns.items? Json.index?
  | _ => none

end Key

namespace Field

def toJson (field : Field) : Json :=
  .record [("name", .ofText field.name.toList), ("datatype", .chooseBare field.dataType.name),
    ("nullable", .bool field.nullable)]

def ofJson? (j : Json) : Option Field :=
  match j.fields? ["name", "datatype", "nullable"] with
  | some [some name, some dataType, some nullable] =>
    match name.text?, dataType.oneOf? DataType.byName, nullable.bool? with
    | some name, some dataType, some nullable =>
      some ⟨String.ofList name, dataType, nullable⟩
    | _, _, _ => none
  | _ => none

end Field

namespace Schema

def toJson (schema : Schema) : Json :=
  .record [("fields", .array (schema.map Field.toJson))]

def ofJson? (j : Json) : Option Schema :=
  match j.fields? ["fields"] with
  | some [some fields] => fields.items? Field.ofJson?
  | _ => none

end Schema
end ExtentEngine
