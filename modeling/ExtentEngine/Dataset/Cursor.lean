import ExtentEngine.Dataset.Basic
import ExtentEngine.Expr.Evaluation

/-!
# Cursors

A cursor moves over the records of a dataset that match a filter.  It holds the extent that
it is in, loads the next one when it leaves it, and rests on a matching record or behind the
last one.

**Errors.**  A filter may fail on a record, and an extent may fail to load.  Going forward
then stops where the failure happened; going back leaves the cursor where it was.
-/

namespace ExtentEngine

-- Sums start from the zero of the core library, whatever algebra is in scope.
attribute [local instance (high)] Zero.ofOfNat0

/-- A place in a dataset. -/
structure Cursor where
  dataset : Dataset
  /-- The filter; without one every record matches. -/
  filter : Option Predicate
  extentIndex : Nat
  rowIndex : Nat
  /-- The extent that the cursor is in; none behind the last one. -/
  extent : Option Extent
deriving DecidableEq, Repr

namespace Cursor

/-- Whether a record matches a filter. -/
def accepts (filter : Option Predicate) (record : Record) : Attempt Bool :=
  match filter with
  | none => .ok true
  | some predicate => predicate.holds (.ofLeft record)

/-- What a search among rows comes to. -/
inductive Search
  /-- The first match is at this row. -/
  | found (row : Nat)
  /-- No row matches. -/
  | exhausted
  /-- The filter fails at this row before a match. -/
  | failed (row : Nat) (fault : Fault)
deriving DecidableEq, Repr

/-- Searches records, the first of which is at a given row. -/
def search (filter : Option Predicate) (row : Nat) : List Record → Search
  | [] => .exhausted
  | record :: records =>
    match accepts filter record with
    | .error fault => .failed row fault
    | .ok true => .found row
    | .ok false => search filter (row + 1) records

/-- Moves to the first match at the cursor's place or behind it. -/
def settle (disk : Disk) (cursor : Cursor) : Attempt Unit × Cursor :=
  match cursor.extent with
  | none => (.ok (), cursor)
  | some extent =>
    match search cursor.filter cursor.rowIndex (extent.drop cursor.rowIndex) with
    | .found row => (.ok (), { cursor with rowIndex := row })
    | .failed row fault => (.error fault, { cursor with rowIndex := row })
    | .exhausted =>
      let next := { cursor with extentIndex := cursor.extentIndex + 1, rowIndex := 0 }
      if cursor.extentIndex + 1 < cursor.dataset.extentCount then
        match cursor.dataset.extent disk next.extentIndex with
        | .error fault => (.error fault, next)
        | .ok extent => settle disk { next with extent := some extent }
      else (.ok (), { next with extent := none })
termination_by cursor.dataset.extentCount - cursor.extentIndex

/-- A cursor on the first match of a dataset. -/
def start (disk : Disk) (dataset : Dataset) (filter : Option Predicate) : Attempt Cursor := do
  let filter := filter.filter fun predicate => !predicate.isAlways
  let extent ← if 0 < dataset.extentCount then (dataset.extent disk 0).map some else pure none
  let (result, cursor) := settle disk ⟨dataset, filter, 0, 0, extent⟩
  result
  pure cursor

/-- The record that the cursor rests on. -/
def current (cursor : Cursor) : Option Record :=
  cursor.extent.bind fun extent => extent[cursor.rowIndex]?

/-- Whether the cursor is behind the last match. -/
def atEnd (cursor : Cursor) : Bool := cursor.current.isNone

/-- Moves to the next match, if the cursor rests on a record. -/
def advance (disk : Disk) : Step Cursor Unit := fun cursor =>
  if cursor.atEnd then (.ok (), cursor)
  else settle disk { cursor with rowIndex := cursor.rowIndex + 1 }

/-- The record that the cursor rests on, from which it moves to the next match. -/
def next (disk : Disk) : Step Cursor (Option Record) := do
  let cursor ← Step.get
  match cursor.current with
  | none => pure none
  | some record =>
    advance disk
    pure (some record)

/-- How many records, matching or not, are left from the cursor on. -/
def remaining (cursor : Cursor) : Nat :=
  ((cursor.extent.getD []).length - cursor.rowIndex)
    + (cursor.dataset.extentLengths.drop (cursor.extentIndex + 1)).sum

/-- The matches from the cursor on, as long as there are no more than a given number. -/
def takeUpTo (disk : Disk) : Nat → Step Cursor (List Record)
  | 0 => pure []
  | count + 1 => do
    match ← next disk with
    | none => pure []
    | some record =>
      let records ← takeUpTo disk count
      pure (record :: records)

/-- The matches from the cursor on. -/
def drain (disk : Disk) : Step Cursor (List Record) := do
  let cursor ← Step.get
  takeUpTo disk cursor.remaining

/-- The last match among records, given with the row of each and from the last to the
first. -/
def searchBack (filter : Option Predicate) : List (Record × Nat) → Attempt (Option Nat)
  | [] => .ok none
  | (record, row) :: rows =>
    match accepts filter record with
    | .error fault => .error fault
    | .ok true => .ok (some row)
    | .ok false => searchBack filter rows

/-- The last match in the rows of an extent before a given one. -/
def lastBefore (filter : Option Predicate) (extent : Extent) (row : Nat) :
    Attempt (Option Nat) :=
  searchBack filter (extent.take row).zipIdx.reverse

/-- The last match in the extents before a given one. -/
def lastInExtents (disk : Disk) (cursor : Cursor) : Nat → Attempt (Option Cursor)
  | 0 => .ok none
  | index + 1 => do
    if (← cursor.dataset.extentLength index) = 0 then lastInExtents disk cursor index
    else
      let extent ← cursor.dataset.extent disk index
      match ← lastBefore cursor.filter extent extent.length with
      | some row =>
        pure (some { cursor with extentIndex := index, rowIndex := row, extent := some extent })
      | none => lastInExtents disk cursor index

/-- The cursor on the last match before its place, if there is one. -/
def previous (disk : Disk) (cursor : Cursor) : Attempt (Option Cursor) := do
  match ← lastBefore cursor.filter (cursor.extent.getD []) cursor.rowIndex with
  | some row => pure (some { cursor with rowIndex := row })
  | none => lastInExtents disk cursor (min cursor.extentIndex cursor.dataset.extentCount)

/-- The cursor a number of matches back; `asked` is the number that a caller asked for. -/
def previousBy (disk : Disk) (asked : Nat) : Nat → Cursor → Attempt Cursor
  | 0, cursor => .ok cursor
  | steps + 1, cursor => do
    match ← previous disk cursor with
    | some cursor => previousBy disk asked steps cursor
    | none => throw (.revertPastStart asked)

/-- Moves back by a number of matches, or not at all. -/
def revert (disk : Disk) (steps : Nat) : Step Cursor Unit := fun cursor =>
  match previousBy disk steps steps cursor with
  | .ok cursor => (.ok (), cursor)
  | .error fault => (.error fault, cursor)

end Cursor
end ExtentEngine
