import ExtentEngine.Join.RowIndex
import Mathlib.Data.List.Perm.Basic

/-!
# What row indices hold

**Results.**
* `get?_build`: under a key are the places of the rows that have it, in order.
* `entries_build`: an index holds every row without a null in the key once.
* `joinTuples_perm`: the pairs of places are those of the pairs of rows that share a key.
-/

namespace ExtentEngine
namespace RowIndex

/-- Each place in an index with its key. -/
def entries (index : RowIndex) : List (List Scalar × RowId) :=
  index.flatMap fun entry => entry.2.map (entry.1, ·)

theorem entries_insert (values : List Scalar) (id : RowId) (index : RowIndex) :
    (entries (index.insert values id)).Perm (entries index ++ [(values, id)]) := by
  induction index with
  | nil => exact .refl _
  | cons entry index ih =>
      obtain ⟨other, ids⟩ := entry
      rw [insert]
      split
      · next heq =>
          rw [heq, entries, entries, List.flatMap_cons, List.flatMap_cons, List.map_append,
            List.append_assoc, List.append_assoc]
          exact List.perm_append_comm.append_left _
      · rw [entries, entries, List.flatMap_cons, List.flatMap_cons, List.append_assoc]
        exact ih.append_left _

/-- The rows without a null in the key. -/
def keyed (key : Key) (rows : List (Record × RowId)) : List (Record × RowId) :=
  rows.filter fun item => !item.1.hasNullKey key

/-- The rows with the given key. -/
def having (key : Key) (values : List Scalar) (rows : List (Record × RowId)) :
    List (Record × RowId) :=
  (keyed key rows).filter fun item => item.1.keyValues key = values

/-- Indexing a row with a null in the key changes nothing. -/
theorem keyed_cons (key : Key) (item : Record × RowId) (rows : List (Record × RowId)) :
    keyed key (item :: rows) =
      if item.1.hasNullKey key then keyed key rows else item :: keyed key rows := by
  rw [keyed, List.filter_cons]
  cases item.1.hasNullKey key <;> rfl

theorem entries_foldl (key : Key) (rows : List (Record × RowId)) (index : RowIndex) :
    (entries (rows.foldl (fun index (record, id) =>
      if record.hasNullKey key then index else index.insert (record.keyValues key) id)
        index)).Perm
      (entries index ++ (keyed key rows).map fun item => (item.1.keyValues key, item.2)) := by
  induction rows generalizing index with
  | nil =>
      rw [keyed, List.filter_nil, List.map_nil, List.append_nil]
      exact .refl _
  | cons item rows ih =>
      obtain ⟨record, id⟩ := item
      rw [List.foldl_cons, keyed_cons]
      simp only
      cases record.hasNullKey key with
      | true => exact ih index
      | false =>
          refine (ih _).trans ?_
          refine ((entries_insert _ _ _).append_right _).trans ?_
          rw [List.append_assoc]
          exact .refl _

/-- An index holds every row without a null in the key once. -/
theorem entries_build (extents : List Extent) (key : Key) :
    (entries (build extents key)).Perm
      ((keyed key (placed extents)).map fun item => (item.1.keyValues key, item.2)) :=
  entries_foldl key (placed extents) []

theorem get?_foldl (key : Key) (values : List Scalar) (rows : List (Record × RowId))
    (index : RowIndex) :
    ((get? (rows.foldl (fun index (record, id) =>
      if record.hasNullKey key then index else index.insert (record.keyValues key) id)
        index) values).getD []) =
      ((index.get? values).getD []) ++ (having key values rows).map (·.2) := by
  induction rows generalizing index with
  | nil => simp [having, keyed]
  | cons item rows ih =>
      obtain ⟨record, id⟩ := item
      rw [List.foldl_cons, ih, having, having, keyed_cons]
      simp only
      cases record.hasNullKey key with
      | true => rfl
      | false =>
          simp only [Bool.false_eq_true, if_false, get?_insert, List.filter_cons, decide_eq_true_eq]
          split
          · next heq => rw [heq, Option.getD_some, List.append_assoc]; rfl
          · rfl

/-- Under a key are the places of the rows that have it. -/
theorem get?_build (extents : List Extent) (key : Key) (values : List Scalar) :
    ((build extents key).get? values).getD [] =
      (having key values (placed extents)).map (·.2) :=
  get?_foldl key values (placed extents) []

/-- The pairs of places are those of the pairs of rows that share a key. -/
theorem joinTuples_perm (lefts rights : List Extent) (leftKey rightKey : Key) :
    ((build lefts leftKey).joinTuples (build rights rightKey)).Perm
      ((keyed leftKey (placed lefts)).flatMap fun l =>
        (having rightKey (l.1.keyValues leftKey) (placed rights)).map fun r => (l.2, r.2)) := by
  have hentries : ((build lefts leftKey).flatMap fun entry => entry.2.flatMap fun l =>
      (((build rights rightKey).get? entry.1).getD []).map fun r => (l, r)) =
      (entries (build lefts leftKey)).flatMap fun entry =>
        (having rightKey entry.1 (placed rights)).map fun r => (entry.2, r.2) := by
    rw [entries, List.flatMap_assoc]
    refine List.flatMap_congr fun entry _ => ?_
    rw [List.flatMap_map]
    refine List.flatMap_congr fun l _ => ?_
    rw [get?_build, List.map_map]
    rfl
  refine (List.mergeSort_perm _ _).trans ?_
  rw [hentries]
  refine ((entries_build lefts leftKey).flatMap_right _).trans ?_
  rw [List.flatMap_map]

end RowIndex
end ExtentEngine
