/-!
# Error reports

A report is what a reader sees of an error: a message, named fields in the order in which
they were attached, and the text of the error that it came from, if there was one.

**Results.**
* `field?_attach`: a field attached under a new name is found there.
-/

namespace ExtentEngine

/-- The account of an error. -/
structure Report where
  message : String
  fields : List (String × String)
  /-- The text of the error underneath. -/
  source : Option String
deriving DecidableEq, Repr

namespace Report

/-- A report with a message only. -/
def new (message : String) : Report := ⟨message, [], none⟩

/-- A report on top of another error, given by its text. -/
def withSource (message source : String) : Report := ⟨message, [], some source⟩

/-- Attaches a field behind the others. -/
def attach (r : Report) (name value : String) : Report :=
  { r with fields := r.fields ++ [(name, value)] }

/-- The first field attached under a name. -/
def field? (r : Report) (name : String) : Option String :=
  (r.fields.find? (·.1 = name)).map (·.2)

/-- Something that an operation cannot do without is not there. -/
def missing (what : String) : Report := new ("Missing required value: " ++ what)

/-- An error of the operating system. -/
def ofSystem (source : String) : Report := withSource "IO error" source

/-- An error of a formatter, which gives no further account of itself. -/
def ofFormatting : Report :=
  withSource "Format error" "an error occurred when formatting an argument"

/-- Message and fields, a field on a line of its own. -/
def heading (r : Report) : String :=
  r.fields.foldl (fun text field => text ++ "\n  " ++ field.1 ++ ": " ++ field.2) r.message

/-- The whole report. -/
def text (r : Report) : String :=
  match r.source with
  | none => r.heading
  | some source => r.heading ++ "\nError source: " ++ source

theorem field?_attach {r : Report} {name : String} (value : String)
    (h : r.field? name = none) : (r.attach name value).field? name = some value := by
  have hf : r.fields.find? (·.1 = name) = none := by simpa [field?] using h
  simp [field?, attach, List.find?_append, hf]

end Report
end ExtentEngine
