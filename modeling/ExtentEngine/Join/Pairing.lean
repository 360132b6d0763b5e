import ExtentEngine.Join.MatchFlags
import ExtentEngine.Join.Spec

/-!
# Pairing rows

What the three join algorithms share: testing a pair of rows, setting the flags of a pair
that matches, and emitting the rows whose flags were never set.

An algorithm is given the extents of an input and, apart from them, the lengths that the
dataset has noted.  How many flags there are and where those of an extent begin goes by the
noted lengths, and which flags are looked at in the end goes by the extents.
-/

namespace ExtentEngine

-- Sums start from the zero of the core library, whatever algebra is in scope.
attribute [local instance (high)] Zero.ofOfNat0

/-- An input of a join: its extents and the lengths that are noted for them. -/
structure JoinSide where
  extents : List Extent
  lengths : List Nat

/-- How many records an input has by its noted lengths. -/
def JoinSide.recordCount (side : JoinSide) : Nat := side.lengths.sum

/-- The flags of both inputs. -/
structure PairFlags where
  left : MatchFlags
  right : MatchFlags
deriving DecidableEq, Repr

namespace PairFlags

/-- Sets the flags of a pair of rows. -/
def mark (flags : PairFlags) (left right : Nat) : Attempt PairFlags := do
  let lefts ← flags.left.mark left
  let rights ← flags.right.mark right
  pure ⟨lefts, rights⟩

end PairFlags

namespace JoinOutput

/-- Tests a pair of rows; if it matches, sets the flags at the given positions and emits the
pair. -/
def test (out : JoinOutput) (condition : Predicate) (left right : Record)
    (leftRow rightRow : Nat) (flags : PairFlags) : Emission PairFlags := do
  if ← .ofAttempt (condition.holds (.ofPair left right)) then
    let flags ← .ofAttempt (flags.mark leftRow rightRow)
    out.matched left right
    pure flags
  else pure flags

end JoinOutput

/-- The row at a position, which must be there. -/
def rowAt (extent : Extent) (row : Nat) : Attempt Record :=
  match extent[row]? with
  | some record => .ok record
  | none => .error .abandoned

/-- Emits the rows without a partner, extent by extent; the flags of the first extent begin
at `offset`. -/
def emitUnmatched (emitRow : Record → Emission Unit) (flags : MatchFlags) (offset : Nat) :
    List Extent → Emission Unit
  | [] => pure ()
  | extent :: extents => do
    let scan ← .ofAttempt (flags.unmatched offset (offset + extent.length))
    let rows ← .ofAttempt scan.toList
    Emission.forEach (fun row => do
      let record ← .ofAttempt (rowAt extent row)
      emitRow record) rows
    emitUnmatched emitRow flags (offset + extent.length) extents

end ExtentEngine
