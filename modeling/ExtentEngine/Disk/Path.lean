/-!
# Paths

A path is a text of names between slashes.  `Path.steps` reads it as a walk from the root: a
name leads into a directory, two dots lead out of one, and one dot stays where it is.

`Path.place` is where a walk ends when every directory on it is there; whether they are is
for a disk to say.
-/

namespace ExtentEngine

-- Sums start from the zero of the core library, whatever algebra is in scope.
attribute [local instance (high)] Zero.ofOfNat0

/-- The names on the way from a place back to the root. -/
abbrev Location := List (List Char)

/-- A step from one directory to the next. -/
inductive PathStep
  | stay
  | up
  | into (name : List Char)
deriving DecidableEq, Repr

namespace PathStep

/-- The most bytes that a name may have. -/
def nameLimit : Nat := 255

/-- The step that a name stands for; two slashes in a row have no step between them. -/
def ofName? : List Char → Option PathStep
  | [] => none
  | ['.'] => some stay
  | ['.', '.'] => some up
  | name => some (into name)

/-- The place that a step leads to.  No step leads out of the root. -/
def target (here : Location) : PathStep → Location
  | stay => here
  | up => here.tail
  | into name => name :: here

/-- Whether the name of a step can be the name of a directory: it is not too long and does
not have the null character. -/
def isNameable : PathStep → Bool
  | stay => true
  | up => true
  | into name => (name.map Char.utf8Size).sum ≤ nameLimit && name.all (· ≠ '\x00')

end PathStep

namespace Path

/-- The most bytes that a path may have. -/
def pathLimit : Nat := 4095

/-- The names between the slashes of a path. -/
def names : List Char → List (List Char)
  | [] => [[]]
  | c :: rest =>
    if c = '/' then [] :: names rest
    else
      match names rest with
      | [] => [[c]]
      | name :: others => (c :: name) :: others

/-- The walk that a path describes. -/
def steps (path : String) : List PathStep := (names path.toList).filterMap PathStep.ofName?

/-- The place that a path leads to through directories that are there. -/
def place (path : String) : Location := (steps path).foldl PathStep.target []

/-- Whether a disk can have a directory at a path. -/
def isNameable (path : String) : Bool :=
  path.utf8ByteSize ≤ pathLimit && (steps path).all PathStep.isNameable

/-- Whether a walk that goes on with these steps stays where it is.  The last step of such a
walk asks for a directory that is there. -/
def onlyStays (steps : List PathStep) : Bool := !steps.isEmpty && steps.all (· = .stay)

end Path
end ExtentEngine
