import ExtentEngine.Dataset.Basic

/-!
# Row indices

A row index leads from key values to the places of the rows that have them.  Rows with a
null in the key are left out, since they match nothing.

`joinTuples` lists the pairs of places that share a key, ordered by the extents first: so
each extent of either input is needed in as few stretches as possible.

**Results.**
* `get?_insert`: a place is found under its key, and other keys are not touched.
-/

namespace ExtentEngine

/-- The place of a row. -/
structure RowId where
  extent : Nat
  row : Nat
deriving DecidableEq, Repr

/-- Key values, each with the places of the rows that have them. -/
abbrev RowIndex := List (List Scalar × List RowId)

namespace RowIndex

/-- Adds a place behind those under the key. -/
def insert (values : List Scalar) (id : RowId) : RowIndex → RowIndex
  | [] => [(values, [id])]
  | (other, ids) :: entries =>
    if other = values then (other, ids ++ [id]) :: entries
    else (other, ids) :: insert values id entries

/-- The places under a key. -/
def get? (index : RowIndex) (values : List Scalar) : Option (List RowId) :=
  (index.find? (·.1 = values)).map (·.2)

/-- The rows of the extents with their places. -/
def placed (extents : List Extent) : List (Record × RowId) :=
  extents.zipIdx.flatMap fun (extent, number) =>
    extent.zipIdx.map fun (record, row) => (record, ⟨number, row⟩)

/-- The index of the rows of some extents by a key. -/
def build (extents : List Extent) (key : Key) : RowIndex :=
  (placed extents).foldl (fun index (record, id) =>
    if record.hasNullKey key then index else index.insert (record.keyValues key) id) []

/-- Whether the first pair of places comes before the second, or is the same. -/
def tupleLe (a b : RowId × RowId) : Bool :=
  let order := (((compare a.1.extent b.1.extent).then (compare a.2.extent b.2.extent)).then
    (compare a.1.row b.1.row)).then (compare a.2.row b.2.row)
  order != .gt

/-- The pairs of places that share a key. -/
def joinTuples (left right : RowIndex) : List (RowId × RowId) :=
  (left.flatMap fun (values, ids) =>
    ids.flatMap fun l => ((right.get? values).getD []).map fun r => (l, r)).mergeSort tupleLe

theorem get?_insert (values other : List Scalar) (id : RowId) (index : RowIndex) :
    (insert values id index).get? other =
      if values = other then some ((index.get? values).getD [] ++ [id])
      else index.get? other := by
  induction index with
  | nil => by_cases h : values = other <;> simp [insert, get?, h]
  | cons entry entries ih =>
      obtain ⟨found, ids⟩ := entry
      simp only [get?] at ih
      by_cases hf : found = values
      · subst hf
        by_cases h : found = other <;> simp [insert, get?, h]
      · by_cases h : values = other
        · subst h
          simp [insert, get?, hf, ih]
        · by_cases ho : found = other
          · subst ho
            simp [insert, get?, hf, h]
          · simp [insert, get?, hf, ho, h, ih]

end RowIndex
end ExtentEngine
