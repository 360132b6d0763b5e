import ExtentEngine.Text.Digits

/-!
# Plan statistics

What a plan did: how many rows it read and wrote, and how long it took.  A duration is
shown in the largest unit of which it has at least one, with as many decimals as it needs.
-/

namespace ExtentEngine

-- Powers are those of the core library, whatever algebra is in scope.
attribute [local instance (high)] instPowNat

/-- A span of time. -/
structure Duration where
  nanoseconds : Nat
deriving DecidableEq, Repr

namespace Duration

/-- Decimals behind a point, without trailing zeros. -/
def decimals (places rest : Nat) : List Char :=
  let digits := ((Digits.padded 10 places rest).reverse.dropWhile (· = '0')).reverse
  if digits.isEmpty then [] else '.' :: digits

/-- The duration in a unit of `10 ^ places` nanoseconds. -/
def inUnit (d : Duration) (places : Nat) (unit : String) : List Char :=
  Digits.ofNat 10 (d.nanoseconds / 10 ^ places)
    ++ (if places = 0 then [] else decimals places (d.nanoseconds % 10 ^ places))
    ++ unit.toList

def text (d : Duration) : List Char :=
  if 10 ^ (9 : Nat) ≤ d.nanoseconds then d.inUnit 9 "s"
  else if 10 ^ (6 : Nat) ≤ d.nanoseconds then d.inUnit 6 "ms"
  else if 10 ^ (3 : Nat) ≤ d.nanoseconds then d.inUnit 3 "µs"
  else d.inUnit 0 "ns"

end Duration

/-- How many rows a plan read and wrote. -/
structure RowCounts where
  /-- The rows that the filter lets pass. -/
  read : Nat
  written : Nat
deriving DecidableEq, Repr

/-- What a plan did, and for how long. -/
structure PlanStats extends RowCounts where
  elapsed : Duration
deriving DecidableEq, Repr

namespace PlanStats

/-- Nothing in no time. -/
def zero : PlanStats := ⟨⟨0, 0⟩, ⟨0⟩⟩

def text (s : PlanStats) : List Char :=
  "read: ".toList ++ Digits.ofNat 10 s.read ++ ", written: ".toList
    ++ Digits.ofNat 10 s.written ++ ", elapsed: ".toList ++ s.elapsed.text

end PlanStats
end ExtentEngine
