import ExtentEngine.Aggregate.Codec
import ExtentEngine.Disk.Lines

/-!
# Spill files

Groups that do not fit into memory are written to a file of their own.  The owner of a
spill file removes it when it is done with it.
-/

namespace ExtentEngine

/-- A file of groups. -/
structure SpillFile where
  file : FileName
  /-- How many groups were written to the file. -/
  size : Nat
deriving DecidableEq, Repr

namespace SpillFile

/-- Writes groups to a new file. -/
def create (namer : Namer) (groups : List Group) : Step Disk SpillFile := do
  Disk.ensureDirectory namer.directory
  let file ← Disk.fresh namer "spill"
  let size ← Disk.writeItems Group.toJson file groups
  pure ⟨file, size⟩

/-- The groups in the file. -/
def read (disk : Disk) (spill : SpillFile) : Attempt (List Group) :=
  disk.readItems Group.ofJson? spill.file

/-- The groups in the file, unless something goes wrong with reading them. -/
def load (spill : SpillFile) : Step Disk (List Group) :=
  Disk.loadItems Group.ofJson? spill.file

/-- Puts groups in place of what the file holds.  If that fails the file keeps its count. -/
def replace (groups : List Group) : Step (SpillFile × Disk) Unit := fun (spill, disk) =>
  match (Disk.writeItems Group.toJson spill.file groups).run disk with
  | (.error fault, disk) => (.error fault, (spill, disk))
  | (.ok size, disk) => (.ok (), ({ spill with size }, disk))

/-- Removes the files.  Those that cannot be removed stay. -/
def removeAll (spills : List SpillFile) (disk : Disk) : Disk :=
  disk.removeAll (spills.map SpillFile.file)

end SpillFile
end ExtentEngine
