import ExtentEngine.Text.Digits

/-!
# File names

The engine writes its files under names that nothing else uses: a label, the kind of the
file, and a serial number in the layout of a universally unique identifier.  `Namer` holds
what the names of one purpose have in common.
-/

namespace ExtentEngine

/-- The directory of the files of one purpose, and the label that their names begin with. -/
structure Namer where
  directory : String
  label : String
deriving DecidableEq, Repr

namespace Namer

/-- The label of files without a label of their own. -/
def defaultLabel : String := "quarry"

/-- Names in a directory with the default label. -/
def inDirectory (directory : String) : Namer := ⟨directory, defaultLabel⟩

def withLabel (namer : Namer) (label : String) : Namer := { namer with label := label }

end Namer

/-- A file: one that a caller names, or one that the engine named. -/
inductive FileName
  | given (directory name : String)
  | fresh (namer : Namer) (kind : String) (serial : Nat)
deriving DecidableEq, Repr

namespace FileName

/-- A name inside a directory. -/
def joinPath (directory name : String) : String :=
  if name.startsWith "/" || directory.isEmpty then name
  else if directory.endsWith "/" then directory ++ name
  else directory ++ "/" ++ name

/-- A serial number as 32 hexadecimal digits in five groups. -/
def identifier (serial : Nat) : String :=
  let digits := Digits.padded 16 32 serial
  let group (first count : Nat) : String := String.ofList ((digits.drop first).take count)
  String.intercalate "-" [group 0 8, group 8 4, group 12 4, group 16 4, group 20 12]

def directory : FileName → String
  | given directory _ => directory
  | fresh namer _ _ => namer.directory

/-- The whole path of the file. -/
def path : FileName → String
  | given directory name => joinPath directory name
  | fresh namer kind serial =>
    joinPath namer.directory (namer.label ++ "-" ++ kind ++ "-" ++ identifier serial ++ ".jsonl")

end FileName
end ExtentEngine
