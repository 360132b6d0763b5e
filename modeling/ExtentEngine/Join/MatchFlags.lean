import ExtentEngine.Fault

/-!
# Match flags

A join keeps a flag for each row of an input and sets it when the row has found a partner.
Setting a flag that is not there, and asking for a range that is not there, makes the
computation give up.

A `MatchScan` goes over a range of flags and delivers the positions of those that are set,
or of those that are not, counted from the start of the range.  It knows from the outset
how many there are and looks at no flag behind the last of them.

**Results.**
* `length_resize`: the flags fit the rows that they are resized to.
-/

namespace ExtentEngine

/-- A flag for each row. -/
abbrev MatchFlags := List Bool

/-- A scan of flags for positions of one kind. -/
structure MatchScan where
  /-- The flags that were not looked at yet. -/
  unread : List Bool
  /-- The position of the first of them. -/
  position : Nat
  /-- The kind of flags to deliver. -/
  wanted : Bool
  /-- How many positions are still to come. -/
  left : Nat
deriving DecidableEq, Repr

namespace MatchScan

/-- A scan from the start of a range of flags. -/
def start (wanted : Bool) (flags : List Bool) : MatchScan :=
  ⟨flags, 0, wanted, flags.count wanted⟩

/-- Looks for the next flag of the kind; there must be one. -/
def seek (scan : MatchScan) (position : Nat) : List Bool → Attempt (Option Nat) × MatchScan
  | [] => (.error .abandoned, { scan with unread := [], position })
  | flag :: rest =>
    if flag = scan.wanted then
      (.ok (some position),
        { scan with unread := rest, position := position + 1, left := scan.left - 1 })
    else seek scan (position + 1) rest

/-- The next position, or none when all have been delivered. -/
def next (scan : MatchScan) : Attempt (Option Nat) × MatchScan :=
  if scan.left = 0 then (.ok none, scan) else scan.seek scan.position scan.unread

/-- The next positions, up to a number, and the scan behind them. -/
def take : Nat → MatchScan → Attempt (List Nat × MatchScan)
  | 0, scan => .ok ([], scan)
  | count + 1, scan =>
    match scan.next with
    | (.error fault, _) => .error fault
    | (.ok none, scan) => .ok ([], scan)
    | (.ok (some position), scan) =>
      (take count scan).map fun (positions, scan) => (position :: positions, scan)

/-- All positions that are still to come. -/
def toList (scan : MatchScan) : Attempt (List Nat) := (scan.take scan.left).map (·.1)

end MatchScan

namespace MatchFlags

/-- Flags for a number of rows: flags that are there stay, new ones are not set. -/
def resize (flags : MatchFlags) (rows : Nat) : MatchFlags :=
  flags.take rows ++ List.replicate (rows - flags.length) false

/-- Gives all flags up. -/
def reset (_ : MatchFlags) : MatchFlags := []

/-- A flag for each of a number of rows, none set. -/
def cleared (rows : Nat) : MatchFlags := List.replicate rows false

/-- Sets the flag of a row. -/
def mark (flags : MatchFlags) (row : Nat) : Attempt MatchFlags :=
  if row < flags.length then .ok (flags.set row true) else .error .abandoned

/-- Sets the flags of several rows. -/
def markAll (flags : MatchFlags) (rows : List Nat) : Attempt MatchFlags :=
  rows.foldlM mark flags

/-- Whether the flag of a row is set; a row without a flag has no partner. -/
def isMarked (flags : MatchFlags) (row : Nat) : Bool := flags[row]?.getD false

/-- The flags from `first` up to `last`, which is left out. -/
def range (flags : MatchFlags) (first last : Nat) : Attempt (List Bool) :=
  if first ≤ last ∧ last ≤ flags.length then .ok ((flags.drop first).take (last - first))
  else .error .abandoned

/-- The rows of a range with the flag set. -/
def matched (flags : MatchFlags) (first last : Nat) : Attempt MatchScan :=
  (flags.range first last).map (MatchScan.start true)

/-- The rows of a range without the flag set. -/
def unmatched (flags : MatchFlags) (first last : Nat) : Attempt MatchScan :=
  (flags.range first last).map (MatchScan.start false)

/-- What is done to flags. -/
inductive Action
  | resize (rows : Nat)
  | reset
  | mark (row : Nat)
  | markAll (rows : List Nat)
deriving DecidableEq, Repr

def act (flags : MatchFlags) : Action → Attempt MatchFlags
  | .resize rows => .ok (flags.resize rows)
  | .reset => .ok flags.reset
  | .mark row => flags.mark row
  | .markAll rows => flags.markAll rows

/-- The flags after a number of actions, there being none at first. -/
def actAll (actions : List Action) : Attempt MatchFlags := actions.foldlM act []

@[simp]
theorem length_resize (flags : MatchFlags) (rows : Nat) : (flags.resize rows).length = rows := by
  simp only [resize, List.length_append, List.length_take, List.length_replicate]
  omega

end MatchFlags
end ExtentEngine
