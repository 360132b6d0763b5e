import ExtentEngine.Dataset.Cursor
import ExtentEngine.Dataset.Writer

/-!
# What callers do with datasets

An action is one call on a dataset, or what a caller does with one of its writers or cursors.
Its answer is all that the caller gets to see, failures included.
-/

namespace ExtentEngine

namespace Writer

/-- Offers records one after the other, whatever became of those before, and tells which of
them were taken. -/
def offer : List Record → Step (Writer × Disk) (List (Attempt Unit))
  | [] => pure []
  | record :: records => do
    let result ← (insert record).attempt
    let results ← offer records
    pure (result :: results)

/-- Offers records and then closes the writer or drops it. -/
def session (records : List Record) (closes : Bool) :
    Step (Writer × Disk) (List (Attempt Unit) × Option (Attempt Nat)) := do
  let results ← offer records
  if closes then
    let count ← close.attempt
    pure (results, some count)
  else pure (results, none)

end Writer

namespace Cursor

/-- What a caller asks of a cursor. -/
inductive Move
  | next
  | advance
  | revert (steps : Nat)
deriving DecidableEq, Repr

/-- Makes a move, which may deliver a record. -/
def move (disk : Disk) : Move → Step Cursor (Option Record)
  | .next => next disk
  | .advance => do
    advance disk
    pure none
  | .revert steps => do
    revert disk steps
    pure none

/-- Makes moves one after the other, whatever became of those before.  Each is answered by its
result and the record that the cursor then rests on. -/
def roam (disk : Disk) : List Move → Cursor → List (Attempt (Option Record) × Option Record)
  | [], _ => []
  | m :: moves, cursor =>
    let (result, cursor) := (move disk m).run cursor
    (result, cursor.current) :: roam disk moves cursor

end Cursor

namespace Dataset

/-- What a caller does with a dataset. -/
inductive Action
  /-- Offers records to a writer, which then is closed or dropped. -/
  | write (records : List Record) (closes : Bool)
  | push (extent : Extent)
  | sort (key : Key)
  | reverse
  | clear
  | extent (index : Nat)
  | extentLength (index : Nat)
  | records
  /-- Reads what a filter lets through with a cursor. -/
  | read (filter : Option Predicate) (moves : List Cursor.Move)
deriving DecidableEq, Repr

/-- What a caller gets to see of an action. -/
inductive Answer
  | done (result : Attempt Unit)
  | written (results : List (Attempt Unit)) (count : Option (Attempt Nat))
  | extent (result : Attempt Extent)
  | length (result : Attempt Nat)
  | records (result : Attempt (List Record))
  | unread (fault : Fault)
  /-- The record that the cursor rests on at first, and the answers to its moves. -/
  | read (first : Option Record) (moves : List (Attempt (Option Record) × Option Record))

/-- What a cursor on a dataset shows. -/
def browse (disk : Disk) (dataset : Dataset) (filter : Option Predicate)
    (moves : List Cursor.Move) : Answer :=
  match Cursor.start disk dataset filter with
  | .error fault => .unread fault
  | .ok cursor => .read cursor.current (Cursor.roam disk moves cursor)

/-- Does what a caller asks for; failures are answers too. -/
def perform : Action → Step (Dataset × Disk) Answer
  | .write records closes => do
    let (results, count) ← writing (Writer.session records closes)
    pure (.written results count)
  | .push extent => .done <$> (push extent).attempt
  | .sort key => .done <$> (sort key).attempt
  | .reverse => .done <$> reverse.attempt
  | .clear => .done <$> clear.attempt
  | .extent index => do
    let (dataset, disk) ← Step.get
    pure (.extent (dataset.extent disk index))
  | .extentLength index => do
    let (dataset, _) ← Step.get
    pure (.length (dataset.extentLength index))
  | .records => do
    let (dataset, disk) ← Step.get
    pure (.records (dataset.records disk))
  | .read filter moves => do
    let (dataset, disk) ← Step.get
    pure (dataset.browse disk filter moves)

/-- Performs actions one after the other. -/
def performAll : List Action → Step (Dataset × Disk) (List Answer)
  | [] => pure []
  | action :: actions => do
    let answer ← perform action
    let answers ← performAll actions
    pure (answer :: answers)

end Dataset
end ExtentEngine
