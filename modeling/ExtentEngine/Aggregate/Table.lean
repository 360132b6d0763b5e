import ExtentEngine.Aggregate.Function
import ExtentEngine.Aggregate.Merging
import ExtentEngine.Record.Schema

/-!
# Group tables

A group is a list of key values with an accumulator for each aggregate.  A group table
keeps groups in the order of their keys, one per key, and is full when it has as many as
its capacity allows.

**Errors.**  A row is added to the aggregates of its group one after the other.  When one
of them fails, the group stays, with the aggregates before it updated.
-/

namespace ExtentEngine

/-- What rows are grouped by and what is computed of each group. -/
structure Grouping where
  keys : Key
  aggregates : List Aggregate
deriving DecidableEq

namespace Grouping

/-- The arity of the records of finished groups. -/
def outputArity (grouping : Grouping) : Nat :=
  grouping.keys.length + grouping.aggregates.length

/-- Fails unless the input has the key columns. -/
def validate (grouping : Grouping) (input : Schema) : Attempt Unit :=
  grouping.keys.validate input.length

/-- The accumulators of a new group. -/
def start (grouping : Grouping) : List Accumulator := grouping.aggregates.map Aggregate.start

end Grouping

/-- The rows of one key. -/
structure Group where
  key : List Scalar
  states : List Accumulator
deriving DecidableEq

namespace Group

/-- The key values, and the values of the aggregates. -/
def finish (group : Group) : Record := group.key ++ group.states.map Accumulator.finish

end Group

/-- Groups in the order of their keys. -/
abbrev Groups := List Group

namespace Groups

/-- The accumulators of a key. -/
def get? (groups : Groups) (key : List Scalar) : Option (List Accumulator) :=
  (groups.find? (·.key = key)).map Group.states

/-- Puts a group into its place, or in place of the group with its key. -/
def put (group : Group) : Groups → Groups
  | [] => [group]
  | other :: groups =>
    match Record.compare group.key other.key with
    | .lt => group :: other :: groups
    | .eq => group :: groups
    | .gt => other :: put group groups

/-- The groups without the one of a key. -/
def erase (groups : Groups) (key : List Scalar) : Groups := groups.filter (·.key ≠ key)

/-- Groups from a list, the last one of each key. -/
def ofList (groups : List Group) : Groups := groups.foldl (fun groups group => put group groups) []

/-- The records of the groups. -/
def finish (groups : Groups) : List Record := groups.map Group.finish

/-- Merges a group into the one with its key, or puts it into place if there is none. -/
def merge (group : Group) : Step Groups Unit := fun groups =>
  match groups.get? group.key with
  | none => (.ok (), groups.put group)
  | some states =>
    let (result, states) := (Accumulator.mergeAll group.states).run states
    (result, groups.put ⟨group.key, states⟩)

end Groups

/-- Groups in memory. -/
structure GroupTable where
  grouping : Grouping
  /-- The most groups that the table should hold. -/
  capacity : Nat
  groups : Groups
deriving DecidableEq

namespace GroupTable

/-- A table without groups. -/
def new (grouping : Grouping) (capacity : Nat) : GroupTable := ⟨grouping, capacity, []⟩

/-- A table like another one, without groups. -/
def newEmpty (table : GroupTable) : GroupTable := { table with groups := [] }

def size (table : GroupTable) : Nat := table.groups.length

def isFull (table : GroupTable) : Bool := table.capacity ≤ table.size

/-- Whether there is a group of the key. -/
def contains (table : GroupTable) (key : List Scalar) : Bool := (table.groups.get? key).isSome

/-- Adds a row to accumulators one after the other, up to the first failure. -/
def updateEach (binding : Binding) :
    List Accumulator → List Aggregate → Attempt Unit × List Accumulator
  | state :: states, aggregate :: aggregates =>
    match aggregate.evaluateInputs binding with
    | .error fault => (.error fault, state :: states)
    | .ok inputs =>
      match (Accumulator.update inputs).run state with
      | (.error fault, state) => (.error fault, state :: states)
      | (.ok (), state) =>
        let (result, states) := updateEach binding states aggregates
        (result, state :: states)
  | states, _ => (.ok (), states)

/-- Adds a row to its group, which is made if there is none. -/
def insert (record : Record) : Step GroupTable Unit := fun table =>
  let key := record.keyValues table.grouping.keys
  let states := (table.groups.get? key).getD table.grouping.start
  let (result, states) := updateEach (.ofLeft record) states table.grouping.aggregates
  (result, { table with groups := table.groups.put ⟨key, states⟩ })

/-- Merges a group into the table. -/
def merge (group : Group) : Step GroupTable Unit := fun table =>
  let (result, groups) := (Groups.merge group).run table.groups
  (result, { table with groups })

/-- Merges groups into the table, up to the first failure. -/
def absorb (groups : Groups) : Step GroupTable Unit := Step.forEach merge groups

/-- How many of the groups have no group in the table. -/
def countNew (table : GroupTable) (groups : Groups) : Nat :=
  groups.countP fun group => !table.contains group.key

/-- Removes the group of a key and delivers its accumulators. -/
def remove (key : List Scalar) : Step GroupTable (Option (List Accumulator)) := fun table =>
  (.ok (table.groups.get? key), { table with groups := table.groups.erase key })

/-- Takes all groups out of the table. -/
def takeAll : Step GroupTable Groups := fun table => (.ok table.groups, table.newEmpty)

end GroupTable
end ExtentEngine
