import ExtentEngine.Aggregate.Spill
import ExtentEngine.Dataset.Emission

/-!
# Spilling tables

A spilling table is a group table that writes its groups to a file when it is full and
begins anew.  So a key may have groups in the table and in several files, each made from
some of the rows of the key.

* `close` writes out the groups in memory, if there are files already.
* `consolidate` merges the groups of a key into the last file that has one.
* `render` emits a record per group, after consolidating.
* `merge` takes over the groups of another table.

**Results.**
* `length_spread`: consolidating passes the files on one for one.
-/

namespace ExtentEngine

/-- A group table with the files that its groups were spilled to. -/
structure SpillingTable where
  table : GroupTable
  namer : Namer
  spills : List SpillFile
  /-- How many rows were added. -/
  rowsInserted : Nat
  /-- How often groups were spilled. -/
  spillCount : Nat
  /-- Whether every key is known to be in one place. -/
  consolidated : Bool
deriving DecidableEq

namespace SpillingTable

/-- A table without groups that will hold at most a number of groups in memory. -/
def new (grouping : Grouping) (maxGroups : Nat) (namer : Namer) : Attempt SpillingTable :=
  if maxGroups = 0 then .error (.notPositive .groupsInMemory)
  else .ok ⟨.new grouping maxGroups, namer, [], 0, 0, false⟩

def grouping (s : SpillingTable) : Grouping := s.table.grouping

def isSpilled (s : SpillingTable) : Bool := !s.spills.isEmpty

/-- Writes the groups in memory, if any, to a new file.  They are taken out of the table
before they are written. -/
def spill : Step (SpillingTable × Disk) Unit := fun (s, disk) =>
  if s.table.groups.isEmpty then (.ok (), (s, disk))
  else
    let emptied := { s with table := s.table.newEmpty }
    match (SpillFile.create s.namer s.table.groups).run disk with
    | (.error fault, disk) => (.error fault, (emptied, disk))
    | (.ok file, disk) =>
      (.ok (), ({ emptied with
        spills := s.spills ++ [file], spillCount := s.spillCount + 1 }, disk))

/-- Adds a row to the groups in memory. -/
def insertInMemory (record : Record) : Step (SpillingTable × Disk) Unit := fun (s, disk) =>
  let (result, table) := (GroupTable.insert record).run s.table
  (result, ({ s with table }, disk))

/-- Adds a row, after spilling if the table is full. -/
def insert (record : Record) : Step (SpillingTable × Disk) Unit := do
  let (s, _) ← Step.get
  if s.table.isFull then spill
  insertInMemory record
  Step.modify fun (s, disk) =>
    ({ s with rowsInserted := s.rowsInserted + 1, consolidated := false }, disk)

/-- Spills the groups in memory, if other groups have been spilled. -/
def close : Step (SpillingTable × Disk) Unit := do
  let (s, _) ← Step.get
  if s.isSpilled then spill else pure ()

/-- What merging groups into those of a later file comes to. -/
structure Spread where
  /-- The groups whose keys the later file does not have. -/
  remaining : Groups
  /-- The groups of the later file. -/
  later : List Group
  /-- Whether a group of the later file was changed. -/
  changed : Bool

/-- Merges groups into those of a later file that have their keys. -/
def spreadInto (current : Groups) : List Group → Attempt Spread
  | [] => .ok ⟨current, [], false⟩
  | group :: later =>
    match current.get? group.key with
    | none => do
      let spread ← spreadInto current later
      pure { spread with later := group :: spread.later }
    | some states =>
      match (Accumulator.mergeAll states).run group.states with
      | (.error fault, _) => .error fault
      | (.ok (), merged) => do
        let spread ← spreadInto (current.erase group.key) later
        pure ⟨spread.remaining, ⟨group.key, merged⟩ :: spread.later, true⟩

/-- Merges groups into the later files, and delivers those whose keys none of them has.
A file is written anew only if one of its groups was changed. -/
def spread (current : Groups) :
    List SpillFile → Disk → Attempt Groups × List SpillFile × Disk
  | [], disk => (.ok current, [], disk)
  | file :: files, disk =>
    if current.isEmpty then (.ok current, file :: files, disk)
    else
      match (do
        let groups ← file.load
        Step.ofAttempt (spreadInto current groups) : Step Disk Spread).run disk with
      | (.error fault, disk) => (.error fault, file :: files, disk)
      | (.ok spread', disk) =>
        let (written, file, disk) :=
          if spread'.changed then (SpillFile.replace spread'.later).run (file, disk)
          else (.ok (), file, disk)
        match written with
        | .error fault => (.error fault, file :: files, disk)
        | .ok () =>
          let (result, files, disk) := spread spread'.remaining files disk
          (result, file :: files, disk)

theorem length_spread (current : Groups) (files : List SpillFile) (disk : Disk) :
    (spread current files disk).2.1.length = files.length := by
  induction files generalizing current disk with
  | nil => rfl
  | cons file files ih =>
      unfold spread
      split
      · rfl
      · split
        · rfl
        · dsimp only
          split
          · rfl
          · simp [ih]

/-- Goes through the files from the first to the last: merges the groups of a file into the
later files, and leaves in it those whose keys no later file has. -/
def consolidateFiles : List SpillFile → Disk → Attempt Unit × List SpillFile × Disk
  | [], disk => (.ok (), [], disk)
  | file :: files, disk =>
    match file.load.run disk with
    | (.error fault, disk) => (.error fault, file :: files, disk)
    | (.ok groups, disk) =>
      match _h : spread (Groups.ofList groups) files disk with
      | (.error fault, files, disk) => (.error fault, file :: files, disk)
      | (.ok remaining, files, disk) =>
        match (SpillFile.replace remaining).run (file, disk) with
        | (.error fault, file, disk) => (.error fault, file :: files, disk)
        | (.ok (), file, disk) =>
          let (result, files, disk) := consolidateFiles files disk
          (result, file :: files, disk)
termination_by files => files.length
decreasing_by
  have hl := congrArg (fun t => t.2.1.length) _h
  simp only [length_spread] at hl
  simp only [List.length_cons]
  omega

/-- Removes the files that hold no groups. -/
def dropEmptyFiles : Step (SpillingTable × Disk) Unit := fun (s, disk) =>
  let (empty, full) := s.spills.partition (·.size = 0)
  (.ok (), ({ s with spills := full }, SpillFile.removeAll empty disk))

/-- Consolidates the files. -/
def consolidateSpills : Step (SpillingTable × Disk) Unit := fun (s, disk) =>
  let (result, spills, disk) := consolidateFiles s.spills disk
  (result, ({ s with spills }, disk))

/-- Notes that every key is in one place. -/
def markConsolidated : Step (SpillingTable × Disk) Unit :=
  Step.modify fun (s, disk) => ({ s with consolidated := true }, disk)

/-- Brings the groups of each key together in one place. -/
def consolidate : Step (SpillingTable × Disk) Unit := do
  let (s, _) ← Step.get
  if s.consolidated || !s.isSpilled then markConsolidated
  else
    close
    consolidateSpills
    dropEmptyFiles
    markConsolidated

/-- Emits a record per group and counts them. -/
def emitGroups (projection : Projection) : List Group → Emission Nat
  | [] => pure 0
  | group :: groups => do
    Emission.project projection (.ofLeft group.finish)
    let count ← emitGroups projection groups
    pure (count + 1)

/-- Emits a record per group of the files and counts them. -/
def emitFiles (projection : Projection) (disk : Disk) : List SpillFile → Emission Nat
  | [] => pure 0
  | file :: files => do
    let groups ← .ofAttempt (file.read disk)
    let count ← emitGroups projection groups
    let rest ← emitFiles projection disk files
    pure (count + rest)

/-- Emits a record per group: the projection of the key values and the values of the
aggregates. -/
def render (projection : Projection) (state : SpillingTable × Disk) :
    Emission Nat × SpillingTable × Disk :=
  if state.1.isSpilled then
    match consolidate.run state with
    | (.error fault, s, disk) => (.ofAttempt (.error fault), s, disk)
    | (.ok (), s, disk) => (emitFiles projection disk s.spills, s, disk)
  else (emitGroups projection state.1.table.groups, state)

/-- Removes the files of a table that is given up. -/
def discard (s : SpillingTable) (disk : Disk) : Disk := SpillFile.removeAll s.spills disk

/-- Merges the groups in memory of another table into the groups in memory. -/
def absorb (groups : Groups) : Step (SpillingTable × Disk) Unit := fun (s, disk) =>
  let (result, table) := (GroupTable.absorb groups).run s.table
  (result, ({ s with table }, disk))

/-- Takes over the groups of another table after spilling those in memory on both sides.
The other table is given up if either cannot be spilled. -/
def appendSpilled (other : SpillingTable) : Step (SpillingTable × Disk) Unit :=
  fun (s, disk) =>
    match spill.run (s, disk) with
    | (.error fault, s, disk) => (.error fault, (s, other.discard disk))
    | (.ok (), s, disk) =>
      match spill.run (other, disk) with
      | (.error fault, other, disk) => (.error fault, (s, other.discard disk))
      | (.ok (), other, disk) => (.ok (), ({ s with spills := s.spills ++ other.spills }, disk))

/-- Whether the groups of both tables are in memory and fit into the first one. -/
def fits (s other : SpillingTable) : Bool :=
  !s.isSpilled && !other.isSpilled
    && s.table.size + s.table.countNew other.table.groups ≤ s.table.capacity

/-- Takes over another table with the same grouping.  The other table is given up if it does
not have the same grouping. -/
def merge (other : SpillingTable) : Step (SpillingTable × Disk) Unit := fun (s, disk) =>
  if s.grouping = other.grouping then
    let counted := { s with
      rowsInserted := s.rowsInserted + other.rowsInserted
      spillCount := s.spillCount + other.spillCount
      consolidated := false }
    if s.fits other then (absorb other.table.groups).run (counted, disk)
    else (appendSpilled other).run (counted, disk)
  else (.error .definitionsDiffer, (s, other.discard disk))

end SpillingTable
end ExtentEngine
