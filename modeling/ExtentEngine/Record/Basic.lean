import ExtentEngine.Fault
import ExtentEngine.Scalar.Format

/-!
# Records and keys

A key is a list of column indices, by which records are sorted, joined and grouped.  A record is a
list of scalars.  `keyValues` reads the columns of a key, a column that the
record does not have being null, and `compareOn` compares two records on a key each.

**Results.**
* `length_keyValues`: a key reads as many values as it has columns.
* `hasNullKey_iff`: a key is null if one of its values is.
* `hasNullKey_congr`: so of two keys with the same values neither is null, or both are.
-/

namespace ExtentEngine

/-- Column indices, the most significant first. -/
abbrev Key := List Nat

namespace Key

/-- The first column that a record of the given arity does not have. -/
def outside? (key : Key) (arity : Nat) : Option Nat := key.find? (arity ≤ ·)

/-- Fails unless a record of the given arity has every column of the key. -/
def validate (key : Key) (arity : Nat) : Attempt Unit :=
  match key.outside? arity with
  | some column => .error (.keyColumnMissing column arity)
  | none => .ok ()

def display (key : Key) : List Char :=
  '[' :: separated [',', ' '] (key.map fun column => '#' :: Digits.ofNat 10 column) ++ [']']

theorem validate_eq_ok_iff {key : Key} {arity : Nat} :
    key.validate arity = .ok () ↔ ∀ column ∈ key, column < arity := by
  unfold validate outside?
  cases h : key.find? (arity ≤ ·) with
  | none => simpa using List.find?_eq_none.1 h
  | some column =>
      have hm := List.mem_of_find?_eq_some h
      have ha := List.find?_some h
      simp only [reduceCtorEq, false_iff]
      intro hall
      have := hall column hm
      simp only [decide_eq_true_eq] at ha
      omega

end Key

/-- The cells of a row. -/
abbrev Record := List Scalar

namespace Record

/-- A record of nulls. -/
def nulls (arity : Nat) : Record := List.replicate arity .null

/-- The cell at an index. -/
def cell (record : Record) (index : Nat) : Attempt Scalar :=
  match record[index]? with
  | some value => .ok value
  | none => .error (.cellMissing index record.length)

/-- The cell at an index, null outside of the record. -/
def cellOrNull (record : Record) (index : Nat) : Scalar := record[index]?.getD .null

/-- The values in the columns of a key. -/
def keyValues (record : Record) (key : Key) : List Scalar := key.map record.cellOrNull

/-- Whether a column of the key is null or missing. -/
def hasNullKey (record : Record) (key : Key) : Bool :=
  key.any fun column => (record.cellOrNull column).isNull

/-- Compares the columns of two keys pair by pair; of keys that agree as far as both reach,
the shorter one comes first. -/
def compareOn (a : Record) : Key → Record → Key → Ordering
  | [], _, [] => .eq
  | [], _, _ :: _ => .lt
  | _ :: _, _, [] => .gt
  | ka :: kas, b, kb :: kbs =>
    ((a.cellOrNull ka).compare (b.cellOrNull kb)).then (compareOn a kas b kbs)

/-- Whether the first record may stand before the second when sorted by the key. -/
def leOn (key : Key) (a b : Record) : Bool := compareOn a key b key != .gt

/-- Lexicographic order; a record comes before its extensions. -/
def compare : Record → Record → Ordering
  | [], [] => .eq
  | [], _ :: _ => .lt
  | _ :: _, [] => .gt
  | a :: as, b :: bs => (a.compare b).then (compare as bs)

/-- The records in the order of the key; records with equal keys keep their order. -/
def sortOn (key : Key) (records : List Record) : List Record := records.mergeSort (leOn key)

/-- The data that a hash of the record is computed from. -/
def hashData (record : Record) : List Nat := record.length :: record.flatMap Scalar.hashData

def display (record : Record) : List Char :=
  '(' :: separated [',', ' '] (record.map Scalar.display) ++ [')']

def describe (record : Record) : List Char :=
  '[' :: separated [',', ' '] (record.map Scalar.describe) ++ [']']

@[simp]
theorem length_keyValues (record : Record) (key : Key) :
    (record.keyValues key).length = key.length := by
  simp [keyValues]

theorem hasNullKey_iff {record : Record} {key : Key} :
    record.hasNullKey key = true ↔ Scalar.null ∈ record.keyValues key := by
  simp [hasNullKey, keyValues, Scalar.isNull_iff]

theorem hasNullKey_congr {a b : Record} {ka kb : Key} (h : a.keyValues ka = b.keyValues kb) :
    a.hasNullKey ka = b.hasNullKey kb := by
  rw [Bool.eq_iff_iff, hasNullKey_iff, hasNullKey_iff, h]

end Record
end ExtentEngine
