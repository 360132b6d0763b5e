import ExtentEngine.Dataset.Basic

/-!
# Writing to datasets

A writer takes records one at a time and appends an extent to its dataset whenever it has
as many as the limit allows.  Closing it appends what it still holds; what a writer that is
not closed still holds is lost.

`Dataset.replace` puts other records in place of those of a dataset, and with it a dataset
is sorted and reversed.
-/

namespace ExtentEngine

/-- A dataset that is being written to. -/
structure Writer where
  dataset : Dataset
  /-- Records that are not yet part of an extent. -/
  buffer : List Record
  /-- How many records were accepted. -/
  accepted : Nat
deriving DecidableEq, Repr

namespace Writer

/-- A writer behind the records of a dataset. -/
def start (dataset : Dataset) : Writer := ⟨dataset, [], 0⟩

/-- Appends the records that the writer holds, if any, as one extent.  They are given up
even if the extent cannot be appended. -/
def flush : Step (Writer × Disk) Unit := fun (writer, disk) =>
  if writer.buffer.isEmpty then (.ok (), (writer, disk))
  else
    let (result, dataset, disk) := (Dataset.push writer.buffer).run (writer.dataset, disk)
    (result, ({ writer with dataset, buffer := [] }, disk))

/-- Takes a record, which must have the arity of the schema. -/
def insert (record : Record) : Step (Writer × Disk) Unit := do
  let (writer, _) ← Step.get
  let arity := writer.dataset.schema.length
  if record.length = arity then
    let buffer := writer.buffer ++ [record]
    Step.modify fun (writer, disk) =>
      ({ writer with buffer, accepted := writer.accepted + 1 }, disk)
    if writer.dataset.limit ≤ buffer.length then flush else pure ()
  else Step.fail (.datasetArity record.length arity)

/-- Takes records up to the first one that cannot be taken. -/
def insertAll (records : List Record) : Step (Writer × Disk) Unit :=
  Step.forEach insert records

/-- Appends what the writer holds, and tells how many records it has accepted. -/
def close : Step (Writer × Disk) Nat := do
  flush
  let (writer, _) ← Step.get
  pure writer.accepted

end Writer

namespace Dataset

/-- Does something with a writer to a dataset; the dataset keeps what was appended. -/
def writing {α : Type} (step : Step (Writer × Disk) α) : Step (Dataset × Disk) α :=
  fun (dataset, disk) =>
    let (result, writer, disk) := step.run (Writer.start dataset, disk)
    (result, (writer.dataset, disk))

/-- Appends records through a writer that is closed, and tells how many there were. -/
def append (records : List Record) : Step (Dataset × Disk) Nat :=
  writing do
    Writer.insertAll records
    Writer.close

/-- Puts records in place of all records of the dataset. -/
def replace (records : List Record) : Step (Dataset × Disk) Unit := do
  clear
  let _ ← append records
  pure ()

/-- The records, as a step. -/
def readAll : Step (Dataset × Disk) (List Record) := do
  let (dataset, disk) ← Step.get
  Step.ofAttempt (dataset.records disk)

/-- Sorts the records by a key, unless they are known to be sorted by it.  Records with
equal keys keep their order. -/
def sort (key : Key) : Step (Dataset × Disk) Unit := do
  let (dataset, _) ← Step.get
  Step.ofAttempt (key.validate dataset.schema.length)
  if dataset.isSortedBy key then pure ()
  else
    let records ← readAll
    replace (Record.sortOn key records)
    Step.modify fun (dataset, disk) => ({ dataset with sortedBy := some key }, disk)

/-- Puts the records into another order. -/
def rearrange (order : List Record → List Record) : Step (Dataset × Disk) Unit := do
  let records ← readAll
  replace (order records)

/-- Turns the order of the records around. -/
def reverse : Step (Dataset × Disk) Unit := rearrange List.reverse

end Dataset
end ExtentEngine
