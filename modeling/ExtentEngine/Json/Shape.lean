import ExtentEngine.Json.Basic

/-!
# Shapes of JSON values

How typed data is laid out in JSON.

* A *record* is an object of its fields in any order, or the array of its fields in their
  order.  In an object a field may be missing, a field given twice is an error, and a member
  that is no field is passed over.
* A *choice* among alternatives is the name of the alternative as a string, or an object
  whose one member is named for the alternative and holds its contents.
-/

namespace ExtentEngine
namespace Json

-- Powers are those of the core library, whatever algebra is in scope.
attribute [local instance (high)] instPowNat

/-- The text that a JSON string stands for. -/
def text? : Json → Option (List Char)
  | .string raw => unescape raw
  | _ => none

def bool? : Json → Option Bool
  | .bool b => some b
  | _ => none

/-- The integer between the bounds that a number stands for.  A minus sign in front of zero
makes a number that is no integer. -/
def int? (low high : Int) : Json → Option Int
  | .number n =>
    let value := n.wholeValue
    if n.isWhole ∧ ¬(n.negative ∧ value = 0) ∧ low ≤ value ∧ value ≤ high then some value
    else none
  | _ => none

/-- The index that a number stands for: a natural number of 64 bits. -/
def index? (j : Json) : Option Nat := (j.int? 0 (2 ^ (64 : Nat) - 1)).map Int.toNat

/-- The finite binary64 number nearest to a number. -/
def binary64? : Json → Option Binary64
  | .number n => if n.toBinary64.isFinite then some n.toBinary64 else none
  | _ => none

/-- The items of an array, each read alike. -/
def items? {α : Type} (item? : Json → Option α) : Json → Option (List α)
  | .array items => items.mapM item?
  | _ => none

/-- The member of the given name, `none` inside if it is missing. -/
def member? (members : List (List Char × Json)) (name : String) : Option (Option Json) :=
  match members.filter (·.1 = name.toList) with
  | [] => some none
  | [(_, value)] => some (some value)
  | _ => none

/-- Member names as the texts that they stand for. -/
def unescapeNames (members : List (List Char × Json)) : Option (List (List Char × Json)) :=
  members.mapM fun m => (unescape m.1).map (·, m.2)

/-- The fields of a record, in the order of the names. -/
def fields? (names : List String) : Json → Option (List (Option Json))
  | .array items => if items.length = names.length then some (items.map some) else none
  | .object members =>
    match unescapeNames members with
    | none => none
    | some members => names.mapM (member? members)
  | _ => none

/-- The fields of a record every field of which has a default: an array of the first fields
will do as well. -/
def defaultedFields? (names : List String) : Json → Option (List (Option Json))
  | .array items =>
    if items.length ≤ names.length then
      some (items.map some ++ List.replicate (names.length - items.length) none)
    else none
  | j => j.fields? names

/-- The chosen alternative and its contents, if it has any. -/
def choice? : Json → Option (List Char × Option Json)
  | .string raw => (unescape raw).map (·, none)
  | .object [(name, value)] => (unescape name).map (·, some value)
  | _ => none

/-- The choice of an alternative with contents. -/
def choose (name : String) (contents : Json) : Json := record [(name, contents)]

/-- The choice of an alternative without contents. -/
def chooseBare (name : String) : Json := .string name.toList

/-- An alternative without contents may be given with `null` for contents. -/
def isBare : Option Json → Bool
  | none => true
  | some .null => true
  | some _ => false

/-- One of several names, chosen as an alternative without contents. -/
def oneOf? {α : Type} (choices : List (String × α)) (j : Json) : Option α :=
  match j.choice? with
  | some (name, contents) =>
    if isBare contents then (choices.find? (·.1.toList = name)).map (·.2) else none
  | none => none

end Json
end ExtentEngine
