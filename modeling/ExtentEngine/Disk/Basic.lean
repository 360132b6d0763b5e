import ExtentEngine.Disk.FileName
import ExtentEngine.Disk.Path
import ExtentEngine.Step

/-!
# Disks

A disk holds directories, the files in them, and the obstacles that stand where somebody
may want a directory.  Operations fail for the reasons that a disk gives: a directory cannot
be made over an obstacle or under a name that is too long, a file cannot be written outside
of a directory, and a file that is not there cannot be read.

Other reasons are not to be seen on a disk beforehand: it may be full, or give out.  What
comes of the next operations on files is therefore a list of mishaps that belongs to the disk.
They befall the writing and the removing of files, and the loading of groups; other files are read
as they are there.  A file that is being written when a mishap happens has been emptied by then, and
holds only the beginning of what was to be written.  On a calm disk no mishap is to come.

Directories are kept by their places, so paths that lead to one place have one directory.

**Results.**
* `hasDirectory_of_ensureDirectory`: a directory that was made is there.
* `read?_put`: a file holds what was put there last.
* `fresh_serial`: fresh names are numbered in the order in which they are taken.
-/

namespace ExtentEngine

/-- What goes wrong with an operation on a file. -/
inductive Mishap
  /-- The file cannot be got at.  Nothing is done to it. -/
  | refused
  /-- The operation breaks off.  A file that is being written has the first few characters of what
  was to be written by then; `amidItem` tells whether an item was being written.  What breaks off
  inside of a character leaves a line as unreadable as what breaks off before it. -/
  | broken (written : Nat) (amidItem : Bool)
deriving DecidableEq, Repr

/-- The state of a disk. -/
structure Disk where
  /-- The places of the directories, other than the root. -/
  directories : List Location
  /-- Places at which something other than a directory stands. -/
  obstacles : List Location
  /-- The files with their contents, no file twice. -/
  files : List (FileName × List Char)
  /-- The serial number of the next fresh name. -/
  nextSerial : Nat
  /-- What goes wrong with the operations on files that are to come, for each of them in turn.
  Beyond the list nothing goes wrong. -/
  mishaps : List (Option Mishap)
deriving DecidableEq, Repr

namespace Disk

/-- A disk with nothing on it. -/
def empty : Disk := ⟨[], [], [], 0, []⟩

/-- The disk with something that is no directory at the place of a path. -/
def obstruct (disk : Disk) (path : String) : Disk :=
  { disk with obstacles := Path.place path :: disk.obstacles }

/-- Whether there is a directory at a place. -/
def isDirectory (disk : Disk) (place : Location) : Bool :=
  place.isEmpty || disk.directories.contains place

/-- Whether a walk leads through directories only. -/
def canWalk (disk : Disk) : Location → List PathStep → Bool
  | _, [] => true
  | here, .stay :: rest => disk.canWalk here rest
  | here, .up :: rest => disk.canWalk here.tail rest
  | here, .into name :: rest => disk.isDirectory (name :: here) && disk.canWalk (name :: here) rest

/-- Whether a path leads to a directory. -/
def hasDirectory (disk : Disk) (path : String) : Bool :=
  Path.isNameable path && disk.canWalk [] (Path.steps path)

/-- Makes the directories that a walk leads into, where they are not there.  Over an obstacle
no directory is made, nor is the last one of a walk that then stays in it: the walk asks for a
directory that is there. -/
def makeAlong (fault : Fault) : Location → List PathStep → Step Disk Unit
  | _, [] => pure ()
  | here, .stay :: rest => makeAlong fault here rest
  | here, .up :: rest => makeAlong fault here.tail rest
  | here, .into name :: rest => fun disk =>
    let there := name :: here
    if disk.isDirectory there then makeAlong fault there rest disk
    else if disk.obstacles.contains there || Path.onlyStays rest then (.error fault, disk)
    else makeAlong fault there rest { disk with directories := there :: disk.directories }

/-- Makes a directory unless it is there, and with it those on the way to it. -/
def ensureDirectory (path : String) : Step Disk Unit :=
  if Path.isNameable path then makeAlong (.directoryNotCreated path) [] (Path.steps path)
  else Step.fail (.directoryNotCreated path)

theorem isDirectory_of_makeAlong {fault : Fault} {here place : Location}
    {steps : List PathStep} {disk after : Disk}
    (h : makeAlong fault here steps disk = (.ok (), after))
    (there : disk.isDirectory place = true) : after.isDirectory place = true := by
  induction steps generalizing here disk with
  | nil =>
      cases h
      exact there
  | cons step rest ih =>
      cases step with
      | stay => exact ih h there
      | up => exact ih h there
      | into name =>
          simp only [makeAlong] at h
          split at h
          · exact ih h there
          · split at h
            · cases h
            · refine ih h ?_
              simp only [isDirectory, Bool.or_eq_true, List.contains_eq_mem,
                decide_eq_true_eq] at there ⊢
              exact there.imp_right (List.mem_cons_of_mem _)

theorem canWalk_of_makeAlong {fault : Fault} {here : Location} {steps : List PathStep}
    {disk after : Disk} (h : makeAlong fault here steps disk = (.ok (), after)) :
    after.canWalk here steps = true := by
  induction steps generalizing here disk with
  | nil => rfl
  | cons step rest ih =>
      cases step with
      | stay => exact ih h
      | up => exact ih h
      | into name =>
          simp only [makeAlong] at h
          split at h
          · next there =>
              exact Bool.and_eq_true_iff.2 ⟨isDirectory_of_makeAlong h there, ih h⟩
          · split at h
            · cases h
            · refine Bool.and_eq_true_iff.2 ⟨isDirectory_of_makeAlong h ?_, ih h⟩
              simp [isDirectory]

/-- A directory that was made is there. -/
theorem hasDirectory_of_ensureDirectory {disk after : Disk} {path : String}
    (h : (ensureDirectory path).run disk = (.ok (), after)) :
    after.hasDirectory path = true := by
  unfold Step.run ensureDirectory at h
  split at h
  · next nameable => exact Bool.and_eq_true_iff.2 ⟨nameable, canWalk_of_makeAlong h⟩
  · cases h

/-- The contents of a file. -/
def read? (disk : Disk) (file : FileName) : Option (List Char) :=
  (disk.files.find? (·.1 = file)).map (·.2)

/-- The disk with the contents of a file put in place of what it held. -/
def put (disk : Disk) (file : FileName) (contents : List Char) : Disk :=
  { disk with files := (file, contents) :: disk.files.filter (·.1 ≠ file) }

/-- The disk without a file. -/
def remove (disk : Disk) (file : FileName) : Disk :=
  { disk with files := disk.files.filter (·.1 ≠ file) }

/-- What goes wrong with the next operation on a file, if anything does. -/
def mishap? (disk : Disk) : Option Mishap := disk.mishaps.head?.join

/-- The disk once it was the turn of an operation on a file. -/
def turn (disk : Disk) : Disk := { disk with mishaps := disk.mishaps.tail }

/-- Whether nothing goes wrong with any operation to come. -/
def Calm (disk : Disk) : Prop := disk.mishaps = []

instance (disk : Disk) : Decidable disk.Calm := inferInstanceAs (Decidable (_ = _))

/-- Writes a file.  Its directory must be there. -/
def write (file : FileName) (contents : List Char) : Step Disk Unit := fun disk =>
  match disk.hasDirectory file.directory, disk.mishap? with
  | true, none => (.ok (), disk.turn.put file contents)
  | true, some (.broken written amidItem) =>
    (.error (.transferBroken amidItem), disk.turn.put file (contents.take written))
  | _, _ => (.error (.fileNotCreated file.path), disk.turn)

/-- Removes a file; a file that is not there needs no removing. -/
def delete (file : FileName) : Step Disk Unit := fun disk =>
  match disk.mishap? with
  | none => (.ok (), disk.turn.remove file)
  | some _ => (.error (.fileNotRemoved file.path), disk.turn)

/-- Removes several files, up to the first one that cannot be removed. -/
def deleteAll (files : List FileName) : Step Disk Unit := Step.forEach delete files

/-- Removes several files.  Those that cannot be removed stay. -/
def removeAll (disk : Disk) (files : List FileName) : Disk :=
  files.foldl (fun disk file => ((delete file).run disk).2) disk

/-- The files in a directory. -/
def filesIn (disk : Disk) (directory : String) : List FileName :=
  (disk.files.map (·.1)).filter (·.directory = directory)

/-- A name that no file has had before. -/
def fresh (namer : Namer) (kind : String) : Step Disk FileName := fun disk =>
  (.ok (.fresh namer kind disk.nextSerial), { disk with nextSerial := disk.nextSerial + 1 })

@[simp] theorem read?_put (disk : Disk) (file : FileName) (contents : List Char) :
    (disk.put file contents).read? file = some contents := by
  simp [put, read?]

@[simp] theorem read?_put_of_ne {file other : FileName} (disk : Disk) (contents : List Char)
    (h : other ≠ file) : (disk.put file contents).read? other = disk.read? other := by
  have hne : ¬file = other := fun e => h e.symm
  simp only [put, read?, List.find?_cons, hne, decide_false, List.find?_filter]
  congr 2
  funext entry
  by_cases he : entry.1 = other <;> simp [he, h]

@[simp] theorem read?_remove (disk : Disk) (file : FileName) :
    (disk.remove file).read? file = none := by
  simp [remove, read?, List.find?_eq_none]

@[simp] theorem read?_turn (disk : Disk) (file : FileName) :
    disk.turn.read? file = disk.read? file := rfl

theorem mishap?_of_calm {disk : Disk} (h : disk.Calm) : disk.mishap? = none := by
  rw [mishap?, h]
  rfl

theorem turn_of_calm {disk : Disk} (h : disk.Calm) : disk.turn = disk := by
  obtain ⟨_, _, _, _, mishaps⟩ := disk
  cases h
  rfl

/-- Fresh names are numbered one after the other. -/
theorem fresh_serial (namer : Namer) (kind : String) (disk : Disk) :
    (fresh namer kind).run disk =
      (.ok (.fresh namer kind disk.nextSerial),
        { disk with nextSerial := disk.nextSerial + 1 }) := rfl

end Disk
end ExtentEngine
