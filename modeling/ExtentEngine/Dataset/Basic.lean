import ExtentEngine.Disk.Lines
import ExtentEngine.Record.Codec
import ExtentEngine.Step

/-!
# Datasets

A dataset is a sequence of records cut into extents.  The extents of a dataset in memory
are lists of records; those of a dataset on disk are files, of which the dataset keeps the
names and the lengths.  `sortedBy` is the key that the records are known to be sorted by.
-/

namespace ExtentEngine

-- Sums start from the zero of the core library, whatever algebra is in scope.
attribute [local instance (high)] Zero.ofOfNat0

/-- Records that are held together. -/
abbrev Extent := List Record

namespace Extent

/-- The records from `first` up to `last`, which is left out. -/
def slice (extent : Extent) (first last : Nat) : Attempt Extent :=
  if first ≤ last ∧ last ≤ extent.length then .ok ((extent.drop first).take (last - first))
  else .error (.sliceOutside first last extent.length)

end Extent

/-- Where the records of an extent are. -/
inductive Slot
  | memory (extent : Extent)
  | file (name : FileName) (length : Nat)
deriving DecidableEq, Repr

namespace Slot

/-- How many records the extent has. -/
def length : Slot → Nat
  | memory extent => extent.length
  | file _ length => length

/-- The file of the extent, if it has one. -/
def file? : Slot → Option FileName
  | memory _ => none
  | file name _ => some name

/-- The records of the extent.  A file must hold as many as were written to it. -/
def load (disk : Disk) : Slot → Attempt Extent
  | memory extent => .ok extent
  | file name length => do
    let records ← disk.readItems Record.ofJson? name
    if records.length = length then pure records
    else throw (.extentLength name.path length records.length)

end Slot

/-- A sequence of records cut into extents. -/
structure Dataset where
  schema : Schema
  /-- The most records that an extent may have. -/
  limit : Nat
  limit_pos : 0 < limit
  slots : List Slot
  /-- The names of the files of a dataset on disk. -/
  namer : Option Namer
  sortedBy : Option Key
deriving DecidableEq, Repr

namespace Dataset

/-- A dataset without records, in memory. -/
def new (schema : Schema) (limit : Nat) : Attempt Dataset :=
  if h : 0 < limit then .ok ⟨schema, limit, h, [], none, none⟩
  else .error (.notPositive .recordsPerExtent)

/-- A dataset without records, the extents of which will be files in a directory. -/
def onDisk (schema : Schema) (limit : Nat) (directory : String) : Step Disk Dataset := do
  let dataset ← Step.ofAttempt (new schema limit)
  Disk.ensureDirectory directory
  pure { dataset with namer := some ((Namer.inDirectory directory).withLabel "dataset") }

def extentCount (dataset : Dataset) : Nat := dataset.slots.length

/-- The lengths of the extents. -/
def extentLengths (dataset : Dataset) : List Nat := dataset.slots.map Slot.length

def recordCount (dataset : Dataset) : Nat := dataset.extentLengths.sum

/-- The directory of a dataset on disk. -/
def directory? (dataset : Dataset) : Option String := dataset.namer.map Namer.directory

/-- Whether the dataset has more than one extent. -/
def isLarge (dataset : Dataset) : Bool := 1 < dataset.extentCount

def isSortedBy (dataset : Dataset) (key : Key) : Bool := dataset.sortedBy = some key

/-- The extent with a number must exist. -/
def slot (dataset : Dataset) (extent : Nat) : Attempt Slot :=
  match dataset.slots[extent]? with
  | some slot => .ok slot
  | none => .error (.extentMissing extent dataset.extentCount)

/-- The length of an extent, without loading it. -/
def extentLength (dataset : Dataset) (extent : Nat) : Attempt Nat :=
  (dataset.slot extent).map Slot.length

/-- The records of an extent. -/
def extent (disk : Disk) (dataset : Dataset) (extent : Nat) : Attempt Extent := do
  let slot ← dataset.slot extent
  slot.load disk

/-- All extents in order. -/
def extents (disk : Disk) (dataset : Dataset) : Attempt (List Extent) :=
  dataset.slots.mapM fun slot => slot.load disk

/-- All records in order. -/
def records (disk : Disk) (dataset : Dataset) : Attempt (List Record) := do
  let extents ← dataset.extents disk
  pure extents.flatten

/-- Writes an extent to a file of its own. -/
def storeExtent (namer : Namer) (extent : Extent) : Step Disk Slot := do
  let file ← Disk.fresh namer "extent"
  let length ← Disk.writeItems Record.toJson file extent
  pure (Slot.file file length)

/-- Appends an extent, which may have as many records as the limit allows.  The dataset is
no longer known to be sorted. -/
def push (extent : Extent) : Step (Dataset × Disk) Unit := fun (dataset, disk) =>
  if dataset.limit < extent.length then
    (.error (.extentTooLong extent.length dataset.limit), (dataset, disk))
  else
    match dataset.namer with
    | none =>
      (.ok (), ({ dataset with
        slots := dataset.slots ++ [.memory extent], sortedBy := none }, disk))
    | some namer =>
      match (storeExtent namer extent).run disk with
      | (.error fault, disk) => (.error fault, (dataset, disk))
      | (.ok slot, disk) =>
        (.ok (), ({ dataset with slots := dataset.slots ++ [slot], sortedBy := none }, disk))

/-- Removes all extents and their files.  The extents are given up before the first file is
removed, so none of them is left if a file cannot be removed; it stays then, as do those after
it, and the dataset keeps the key that it is known to be sorted by. -/
def clear : Step (Dataset × Disk) Unit := fun (dataset, disk) =>
  let drained := { dataset with slots := [] }
  match (Disk.deleteAll (dataset.slots.filterMap Slot.file?)).run disk with
  | (.error fault, disk) => (.error fault, (drained, disk))
  | (.ok (), disk) => (.ok (), ({ drained with sortedBy := none }, disk))

end Dataset
end ExtentEngine
