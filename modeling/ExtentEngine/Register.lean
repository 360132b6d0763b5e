import ExtentEngine.Record.Basic

/-!
# Registers

A register holds the row that expressions are evaluated on, or none.  A binding has a
register for each side.
-/

namespace ExtentEngine

/-- A row, or none. -/
abbrev Register := Option Record

namespace Register

/-- The row of a register that must hold one. -/
def current : Register → Attempt Record
  | some record => .ok record
  | none => .error (.needed .registerRow)

end Register

/-- The rows of both sides. -/
structure Binding where
  left : Register
  right : Register
deriving DecidableEq, Repr

namespace Binding

/-- No row on either side. -/
def empty : Binding := ⟨none, none⟩

/-- A left row and no right row. -/
def ofLeft (record : Record) : Binding := ⟨some record, none⟩

/-- A row on each side. -/
def ofPair (left right : Record) : Binding := ⟨some left, some right⟩

def register (binding : Binding) : Side → Register
  | .left => binding.left
  | .right => binding.right

end Binding
end ExtentEngine
