import ExtentEngine.Dataset.Basic
import ExtentEngine.Join.Basic
import ExtentEngine.Json.Parser

/-!
# Settings

The settings under which plans are run.  They are read from a JSON text, in which every
setting may be left out, and are checked after they have been read.  The form of log lines is asked
for by its name.

**Results.**
* `validate_default`: the defaults pass the check.
-/

namespace ExtentEngine

/-- The settings of a run. -/
structure Settings where
  /-- How many partitions a job has; one per processor if not given. -/
  partitions : Option Nat
  /-- How many threads run the workers; one per processor if not given. -/
  threads : Option Nat
  /-- How many groups a table holds in memory before it spills. -/
  maxGroups : Nat
  /-- The ratio of input sizes up to which a join takes the nested loop. -/
  nestedLoopRatio : Binary64
  /-- The most records per extent of a dataset that a plan makes. -/
  recordsPerExtent : Nat
  /-- Where spill files go; a directory of the system if not given. -/
  spillDirectory : Option String
deriving DecidableEq, Repr

namespace Settings

def default : Settings := ⟨none, none, 65536, defaultNestedLoopRatio, 8192, none⟩

/-- Fails unless the quantity is positive. -/
def requirePositive (what : Positive) (n : Nat) : Attempt Unit :=
  if n = 0 then .error (.notPositive what) else .ok ()

/-- Whether a ratio lies between zero and one. -/
def isRatio (x : Binary64) : Bool := Binary64.zero.le x && x.le (Binary64.ofInt 1)

/-- Fails unless every setting is in its range. -/
def validate (s : Settings) : Attempt Unit := do
  requirePositive .partitions (s.partitions.getD 1)
  requirePositive .threads (s.threads.getD 1)
  requirePositive .groupsInMemory s.maxGroups
  requirePositive .recordsPerExtent s.recordsPerExtent
  if isRatio s.nestedLoopRatio then pure () else throw (.ratioOutside s.nestedLoopRatio)

/-- A setting that is read if it is there. -/
def setting {α : Type} (read : Json → Option α) (default : α) : Option Json → Option α
  | none => some default
  | some j => read j

/-- A directory, or null for none. -/
def directoryOfJson? : Json → Option (Option String)
  | .null => some none
  | j => j.text?.map fun path => some (String.ofList path)

def ofJson? (j : Json) : Option Settings :=
  match j.defaultedFields? ["partitions", "num_threads", "max_groups_in_memory",
    "nested_loop_ratio", "max_records_per_extent", "spill_directory"] with
  | some [partitions, threads, maxGroups, ratio, records, directory] => do
    pure {
      partitions := ← setting (fun j => j.index?.map some) default.partitions partitions
      threads := ← setting (fun j => j.index?.map some) default.threads threads
      maxGroups := ← setting Json.index? default.maxGroups maxGroups
      nestedLoopRatio := ← setting Json.binary64? default.nestedLoopRatio ratio
      recordsPerExtent := ← setting Json.index? default.recordsPerExtent records
      spillDirectory := ← setting directoryOfJson? default.spillDirectory directory }
  | _ => none

/-- The settings in a text. -/
def parse (text : List Char) : Attempt Settings := do
  match (Json.parse text).bind ofJson? with
  | none => throw .settingsUnreadable
  | some settings =>
    settings.validate
    pure settings

/-- A dataset without records. -/
def newDataset (s : Settings) (schema : Schema) : Attempt Dataset :=
  Dataset.new schema s.recordsPerExtent

/-- The names of spill files; `systemDirectory` is where they go if no directory is set. -/
def spillNamer (s : Settings) (systemDirectory : String) : Namer :=
  .inDirectory (s.spillDirectory.getD systemDirectory)

/-- The options of a join. -/
def joinOptions (s : Settings) : JoinOptions := ⟨none, s.nestedLoopRatio⟩

theorem validate_default : default.validate = .ok () := by
  have hr : isRatio default.nestedLoopRatio = true := by decide +kernel
  simp only [validate, hr]
  rfl

end Settings

/-- The form of log lines. -/
inductive LogMode
  /-- One line for readers. -/
  | compact
  /-- One JSON value per line. -/
  | json
  /-- Several lines for readers. -/
  | pretty
deriving DecidableEq, Repr

namespace LogMode

/-- The mode that is taken unless another one is asked for. -/
def default : LogMode := compact

def name : LogMode → String
  | compact => "compact"
  | json => "json"
  | pretty => "pretty"

/-- The mode of a name, or the complaint that there is none. -/
def parse (text : String) : Except String LogMode :=
  match [compact, json, pretty].find? (·.name = text) with
  | some mode => .ok mode
  | none => .error ("Unknown logging mode: " ++ text)

theorem parse_name (mode : LogMode) : parse mode.name = .ok mode := by
  cases mode <;> rfl

end LogMode
end ExtentEngine
