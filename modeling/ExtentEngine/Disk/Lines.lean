import ExtentEngine.Disk.Basic
import ExtentEngine.Json.Parser

/-!
# Files of lines

A file holds one JSON value per line.  A line ends with a line feed, or with a carriage
return and a line feed; the last line may lack its end.  Empty lines are passed over.

**Results.**
* `Lines.countItems_eq`: a file of items has a line for each of them, and each is counted.
-/

namespace ExtentEngine
namespace Lines

/-- A line without the carriage return at its end. -/
def dropReturn (line : List Char) : List Char :=
  if line.getLast? = some '\r' then line.dropLast else line

/-- The lines of a text; `line` holds the characters of the line that is open. -/
def splitFrom (line : List Char) : List Char → List (List Char)
  | [] => if line.isEmpty then [] else [line]
  | c :: rest =>
    if c = '\n' then dropReturn line :: splitFrom [] rest else splitFrom (line ++ [c]) rest

/-- The lines of a text without their ends. -/
def split (text : List Char) : List (List Char) := splitFrom [] text

/-- A line for each item. -/
def ofItems {α : Type} (toJson : α → Json) (items : List α) : List Char :=
  items.flatMap fun item => (toJson item).text ++ ['\n']

/-- A line for each item, and how many were written. -/
def countItems {α : Type} (toJson : α → Json) : List α → List Char × Nat
  | [] => ([], 0)
  | item :: items =>
    let (lines, count) := countItems toJson items
    ((toJson item).text ++ '\n' :: lines, count + 1)

theorem countItems_eq {α : Type} (toJson : α → Json) (items : List α) :
    countItems toJson items = (ofItems toJson items, items.length) := by
  induction items with
  | nil => rfl
  | cons item items ih => simp [countItems, ih, ofItems]

/-- The items on the lines of a text, or nothing if a line is no item. -/
def toItems? {α : Type} (ofJson? : Json → Option α) (text : List Char) : Option (List α) :=
  ((split text).filter fun line => !line.isEmpty).mapM fun line =>
    (Json.parse line).bind ofJson?

end Lines

namespace Disk

/-- Writes a file of one line per item, and tells how many there are. -/
def writeItems {α : Type} (toJson : α → Json) (file : FileName) (items : List α) :
    Step Disk Nat := do
  let (lines, count) := Lines.countItems toJson items
  write file lines
  pure count

/-- The items on the lines of a file. -/
def readItems {α : Type} (ofJson? : Json → Option α) (file : FileName) (disk : Disk) :
    Attempt (List α) :=
  match disk.read? file with
  | none => .error (.fileNotOpened file.path)
  | some text =>
    match Lines.toItems? ofJson? text with
    | none => .error (.lineUnreadable file.path)
    | some items => .ok items

/-- The items on the lines of a file, unless something goes wrong with reading it. -/
def loadItems {α : Type} (ofJson? : Json → Option α) (file : FileName) : Step Disk (List α) :=
  fun disk =>
    match disk.mishap? with
    | none => (disk.readItems ofJson? file, disk.turn)
    | some .refused => (.error (.fileNotOpened file.path), disk.turn)
    | some (.broken _ _) => (.error (.transferBroken false), disk.turn)

end Disk
end ExtentEngine
