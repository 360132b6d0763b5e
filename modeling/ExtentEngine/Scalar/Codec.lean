import ExtentEngine.Json.Parser
import ExtentEngine.Json.Shape
import ExtentEngine.Scalar.Basic

/-!
# Scalars in JSON

A scalar is the choice of its type's alternative.  Every binary64 number is kept bit for
bit: a finite one is the shortest JSON number that reads back to it, an infinity is `inf`
or `-inf`, and a NaN is `nan:` with its bits in hexadecimal digits.
-/

namespace ExtentEngine

-- Powers are those of the core library, whatever algebra is in scope.
attribute [local instance (high)] instPowNat

/-- The number format of JSON texts. -/
def jsonNotation : FloatNotation := ⟨.even, some (-5, 15), true, true⟩

namespace Binary64

def nanMark : List Char := ['n', 'a', 'n', ':']

/-- The word that hexadecimal digits stand for.  A plus sign may lead them, and they may be
any number of digits as long as the value has 64 bits. -/
def wordOfHex? (s : List Char) : Option UInt64 :=
  let digits := if s.head? = some '+' then s.tail else s
  let value := Digits.toNat 16 digits
  if digits.isEmpty || !digits.all (Digits.isDigit 16) || 2 ^ (64 : Nat) ≤ value then none
  else some (UInt64.ofNat value)

def toJson (x : Binary64) : Json :=
  if x.isFinite then .number (jsonNotation.numeral x)
  else if x.isInfinite then
    .ofText (if x.isNegative then ['-', 'i', 'n', 'f'] else ['i', 'n', 'f'])
  else .ofText (nanMark ++ Digits.padded 16 16 x.bits.toNat)

/-- The number that a text stands for: an infinity, or any number behind the NaN mark. -/
def ofMark? (s : List Char) : Option Binary64 :=
  if s = ['i', 'n', 'f'] then some (infinityOf false)
  else if s = ['-', 'i', 'n', 'f'] then some (infinityOf true)
  else if nanMark.isPrefixOf s then (wordOfHex? (s.drop nanMark.length)).map ofBits
  else none

def ofJson? (j : Json) : Option Binary64 :=
  match j with
  | .string _ => j.text?.bind ofMark?
  | _ => j.binary64?

end Binary64

namespace Json

/-- The 64-bit integer that a number stands for. -/
def int64? (j : Json) : Option Int64 :=
  (j.int? (-2 ^ (63 : Nat)) (2 ^ (63 : Nat) - 1)).map Int64.ofInt

end Json

namespace Scalar

def toJson : Scalar → Json
  | null => .chooseBare "Null"
  | bool b => .choose "Boolean" (.bool b)
  | int n => .choose "Int64" (.ofInt n.toInt)
  | float x => .choose "Float64" x.toJson
  | text s => .choose "Utf8" (.ofText s.toList)

/-- The scalar of a type with the given contents. -/
def ofContents? (name : List Char) (contents : Option Json) : Option Scalar :=
  if name = "Null".toList then if Json.isBare contents then some null else none
  else
    contents.bind fun j =>
      if name = "Boolean".toList then j.bool?.map bool
      else if name = "Int64".toList then j.int64?.map int
      else if name = "Float64".toList then (Binary64.ofJson? j).map float
      else if name = "Utf8".toList then j.text?.map fun s => text (String.ofList s)
      else none

def ofJson? (j : Json) : Option Scalar :=
  j.choice?.bind fun (name, contents) => ofContents? name contents

end Scalar
end ExtentEngine
