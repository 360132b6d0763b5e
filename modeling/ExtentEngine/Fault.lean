import ExtentEngine.Column
import ExtentEngine.Decimal.Notation
import ExtentEngine.Operator
import ExtentEngine.Report

/-!
# Faults

Every way in which an operation of the engine can fail is a constructor of `Fault` that
holds the cause; `Fault.report` gives it words.  The one cause without a report is
`abandoned`: a computation that gave up in the middle, for instance because it looked
outside of a list.
-/

namespace ExtentEngine

/-- The number format of plain texts: no exponents and no point after a whole number. -/
def plainNotation : FloatNotation := ⟨.up, none, false, false⟩

/-- What an operation cannot do without. -/
inductive Needed
  | registerRow
  | aggregateInput
  | presentInput
  | sumInRange
deriving DecidableEq, Repr

namespace Needed

def text : Needed → String
  | registerRow => "register row"
  | aggregateInput => "aggregate input"
  | presentInput => "non-null aggregate input"
  | sumInRange => "sum within 128 bits"

end Needed

/-- A quantity that must not be zero. -/
inductive Positive
  | partitions
  | threads
  | groupsInMemory
  | recordsPerExtent
  | requestedPartitions
deriving DecidableEq, Repr

namespace Positive

def text : Positive → String
  | partitions => "Partitions"
  | threads => "Number of threads"
  | groupsInMemory => "Max groups in memory"
  | recordsPerExtent => "Max records per extent"
  | requestedPartitions => "Requested partition count"

end Positive

/-- The stages of a job's life. -/
inductive JobStage
  | created
  | completed
deriving DecidableEq, Repr

namespace JobStage

def text : JobStage → String
  | created => "Created"
  | completed => "Completed"

end JobStage

/-- The causes of failure. -/
inductive Fault
  /-- A computation gave up in the middle. -/
  | abandoned
  /-- A failure that a caller of the engine reports. -/
  | reported (report : Report)
  | needed (what : Needed)
  | notPositive (what : Positive)
  | notNumeric (got : DataType)
  | notBoolean (got : DataType)
  | cellMissing (index arity : Nat)
  | keyColumnMissing (column arity : Nat)
  | fieldMissing (name : String)
  | schemaArity (record schema : Nat)
  | nullForbidden (field : String)
  | fieldType (field : String) (expected got : DataType)
  | columnUnknown (column : ColumnRef) (arity : Nat)
  | integerOverflow (left : Int) (op : Arithmetic) (right : Int)
  | keyArities (left right : Nat)
  | sliceOutside (first last length : Nat)
  | extentTooLong (length limit : Nat)
  | extentMissing (extent count : Nat)
  | extentLength (path : String) (expected got : Nat)
  | datasetArity (record schema : Nat)
  | directoryNotCreated (directory : String)
  | fileNotCreated (path : String)
  | fileNotOpened (path : String)
  | fileNotRemoved (path : String)
  /-- A file cannot be read or written to its end; `amidItem` tells whether an item was being
  written. -/
  | transferBroken (amidItem : Bool)
  | lineUnreadable (path : String)
  | revertPastStart (steps : Nat)
  | partitionMissing (partition count : Nat)
  | workerAbandoned (partition : Nat)
  | jobStage (expected actual : JobStage)
  | notSummable (got : DataType)
  | inputsNotPaired (got : Nat)
  | inputCount (function : String) (got least most : Nat)
  /-- States of different kinds, each given by its description. -/
  | statesMismatched (state other : String)
  | stateCounts (left right : Nat)
  | definitionsDiffer
  | settingsUnreadable
  | ratioOutside (ratio : Binary64)
  | noThreads
deriving DecidableEq, Repr

namespace Fault

/-- A report whose fields are natural numbers. -/
def counted (message : String) (fields : List (String × Nat)) : Report :=
  ⟨message, fields.map fun f => (f.1, String.ofList (Digits.ofNat 10 f.2)), none⟩

/-- A text between single quotes. -/
def inQuotes (s : String) : String := "'" ++ s ++ "'"

/-- The words for a cause. -/
def report : Fault → Report
  | abandoned => .new "abandoned"
  | reported r => r
  | needed what => .missing what.text
  | notPositive what => .new (what.text ++ " must be greater than zero")
  | notNumeric got => (Report.new "Expected a numeric value").attach "datatype" got.name
  | notBoolean got => (Report.new "Expected a boolean value").attach "datatype" got.name
  | cellMissing index arity =>
    counted "Column index out of bounds" [("index", index), ("arity", arity)]
  | keyColumnMissing column arity =>
    counted "Key column out of bounds" [("column", column), ("arity", arity)]
  | fieldMissing name => .new ("Missing field " ++ inQuotes name)
  | schemaArity record schema =>
    counted "Record arity does not match schema" [("record", record), ("schema", schema)]
  | nullForbidden field => .new ("Null value for non-nullable field " ++ inQuotes field)
  | fieldType field expected got =>
    ((Report.new ("Unexpected type for field " ++ inQuotes field)).attach "expected"
      expected.name).attach "got" got.name
  | columnUnknown column arity =>
    ((Report.new "Column reference out of range").attach "column"
      (String.ofList column.text)).attach "arity" (String.ofList (Digits.ofNat 10 arity))
  | integerOverflow left op right =>
    (((Report.new "Int64 overflow").attach "left" (String.ofList (Digits.ofInt left))).attach
      "op" op.symbol).attach "right" (String.ofList (Digits.ofInt right))
  | keyArities left right =>
    counted "Join keys have different arities" [("left", left), ("right", right)]
  | sliceOutside first last length =>
    counted "Extent slice out of bounds" [("start", first), ("end", last), ("len", length)]
  | extentTooLong length limit =>
    counted "Extent exceeds max records per extent" [("len", length), ("max", limit)]
  | extentMissing extent count =>
    counted "Missing extent" [("extent_id", extent), ("extent_count", count)]
  | extentLength path expected got =>
    let rest := counted "Extent file has unexpected record count"
      [("expected", expected), ("got", got)]
    { rest with fields := ("path", path) :: rest.fields }
  | datasetArity record schema =>
    counted "Record arity does not match dataset schema"
      [("record", record), ("schema", schema)]
  | directoryNotCreated directory =>
    .new ("Failed to create directory " ++ inQuotes directory)
  | fileNotCreated path => .new ("Failed to create file " ++ inQuotes path)
  | fileNotOpened path => .new ("Failed to open file " ++ inQuotes path)
  | fileNotRemoved path => .new ("Failed to remove file " ++ inQuotes path)
  | transferBroken amidItem => .new (if amidItem then "Failed to serialize item" else "IO error")
  | lineUnreadable path => .new ("Failed to deserialize line in " ++ inQuotes path)
  | revertPastStart steps =>
    counted "Cannot revert past the start of the data" [("n", steps)]
  | partitionMissing partition count =>
    counted "Missing partition" [("partition", partition), ("partition_count", count)]
  | workerAbandoned partition => counted "Map worker panicked" [("partition", partition)]
  | jobStage expected actual =>
    ((Report.new "Job in unexpected state").attach "expected" expected.text).attach "state"
      actual.text
  | notSummable got =>
    (Report.new "Cannot sum non-numeric value").attach "datatype" got.name
  | inputsNotPaired got => counted "Aggregate expected two input values" [("got", got)]
  | inputCount function got least most =>
    let rest := counted "Wrong number of inputs for aggregate function"
      [("got", got), ("expected_min", least), ("expected_max", most)]
    { rest with fields := ("function", function) :: rest.fields }
  | statesMismatched state other =>
    ((Report.new "Cannot merge mismatched aggregate states").attach "state" state).attach
      "other" other
  | stateCounts left right =>
    counted "Mismatched aggregate state counts" [("left", left), ("right", right)]
  | definitionsDiffer => .new "Cannot merge aggregate structures with different definitions"
  | settingsUnreadable => .new "Failed to parse execution config"
  | ratioOutside ratio =>
    (Report.new "Nested loop ratio must be between 0 and 1").attach "ratio"
      (String.ofList (plainNotation.text ratio))
  | noThreads => .new "Scheduler requires at least one thread"

end Fault

/-- The result of an operation that may fail. -/
abbrev Attempt (α : Type) := Except Fault α

end ExtentEngine
