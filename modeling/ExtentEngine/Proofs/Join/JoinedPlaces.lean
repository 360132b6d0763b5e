import ExtentEngine.Proofs.Join.HashTable

/-!
# Joined places do not depend on how an index is stored

Going through an index, its entries may come in any order; which places there are under a key does
not depend on it, since no key has two entries.  The pairs of places that two indices share are then
sorted, and as no pair is there twice it does not matter how: there are no ties to be broken.

**Results.**
* `nodup_keys_build`: no key has two entries.
* `get?_eq_of_perm`: what is under a key does not depend on the order of the entries.
* `joinTuples_exact`: the joined places are those of the pairs of rows that share a key, each once
  and in strictly increasing order.
-/

namespace ExtentEngine

theorem rowAt_eq_ok_iff {extent : Extent} {row : Nat} {record : Record} :
    rowAt extent row = .ok record ↔ extent[row]? = some record := by
  rw [rowAt]
  cases extent[row]? <;> simp

namespace RowIndex

/-- The keys of the entries. -/
def keys (index : RowIndex) : List (List Scalar) := index.map (·.1)

theorem keys_insert (values : List Scalar) (id : RowId) (index : RowIndex) :
    keys (insert values id index) =
      if values ∈ index.keys then index.keys else index.keys ++ [values] := by
  induction index with
  | nil => rfl
  | cons entry index ih =>
      obtain ⟨other, ids⟩ := entry
      have hcons : keys ((other, ids) :: index) = other :: keys index := rfl
      have hinsert : keys ((other, ids) :: insert values id index) =
          other :: keys (insert values id index) := rfl
      rw [insert, hcons]
      by_cases heq : other = values
      · rw [if_pos heq, if_pos (heq ▸ List.mem_cons_self)]
        rfl
      · have hmem : values ∈ other :: keys index ↔ values ∈ keys index :=
          List.mem_cons.trans (or_iff_right (Ne.symm heq))
        rw [if_neg heq, hinsert, ih, apply_ite (other :: ·)]
        exact ite_congr (propext hmem).symm (fun _ => rfl) fun _ => rfl

theorem nodup_keys_insert {index : RowIndex} (h : index.keys.Nodup) (values : List Scalar)
    (id : RowId) : (keys (insert values id index)).Nodup := by
  rw [keys_insert]
  split
  · exact h
  · next hnew =>
      exact (List.perm_append_singleton values _).nodup_iff.2 (List.nodup_cons.2 ⟨hnew, h⟩)

/-- No key has two entries. -/
theorem nodup_keys_build (extents : List Extent) (key : Key) : (build extents key).keys.Nodup := by
  refine List.foldlRecOn (motive := fun index => (keys index).Nodup) _ _ List.nodup_nil ?_
  intro index h row _
  dsimp only
  split
  · exact h
  · exact nodup_keys_insert h _ _

theorem get?_eq_some_iff {index : RowIndex} (h : index.keys.Nodup) {values : List Scalar}
    {ids : List RowId} : index.get? values = some ids ↔ (values, ids) ∈ index := by
  induction index with
  | nil => simp [get?]
  | cons entry index ih =>
      obtain ⟨other, found⟩ := entry
      obtain ⟨hnew, hkeys⟩ := List.nodup_cons.1 h
      rw [List.mem_cons, get?, List.find?_cons]
      by_cases heq : other = values
      · have hold : (values, ids) ∉ index := fun hmem =>
          hnew (List.mem_map.2 ⟨_, hmem, heq.symm⟩)
        simp [heq, hold, eq_comm]
      · have hne : (values, ids) ≠ (other, found) := fun hentry =>
          heq (congrArg Prod.fst hentry).symm
        rw [or_iff_right hne, ← ih hkeys, get?, decide_eq_false heq]

/-- What is under a key does not depend on the order of the entries. -/
theorem get?_eq_of_perm {index index' : RowIndex} (h : index.Perm index')
    (hkeys : index'.keys.Nodup) (values : List Scalar) :
    index.get? values = index'.get? values := by
  have hkeys' : index.keys.Nodup := (h.map _).nodup_iff.2 hkeys
  refine Option.ext fun ids => ?_
  rw [get?_eq_some_iff hkeys', get?_eq_some_iff hkeys, h.mem_iff]

/-- The pairs of places that share a key, in the order in which two indices have them. -/
def gathered (left right : RowIndex) : List (RowId × RowId) :=
  left.flatMap fun (values, ids) =>
    ids.flatMap fun l => ((right.get? values).getD []).map fun r => (l, r)

/-- The places of the rows are those at which there is a row. -/
theorem mem_placed_iff {extents : List Extent} {record : Record} {id : RowId} :
    (record, id) ∈ placed extents ↔ HashTable.rowOf extents id = .ok record := by
  rw [HashTable.mem_placed, HashTable.rowOf]
  cases extents[id.extent]? with
  | none => simp
  | some extent => simp [rowAt_eq_ok_iff]

theorem shares_iff {leftKey rightKey : Key} {l r : Record × RowId} :
    shares leftKey rightKey (l, r) = true ↔ l.1.hasNullKey leftKey = false ∧
      r.1.hasNullKey rightKey = false ∧ l.1.keyValues leftKey = r.1.keyValues rightKey := by
  rw [shares, Bool.and_eq_true, Bool.and_eq_true, Bool.not_eq_true', Bool.not_eq_true',
    decide_eq_true_iff, and_assoc]

/-- Whatever the order of the entries in the indices of two inputs, the joined places are the pairs
of places of rows without a null in the key that have equal key values.  Each pair is there once,
and they are in strictly increasing order by left extent, right extent, left row and right row; and
so any way of sorting the pairs that share a key comes to the same list. -/
theorem joinTuples_exact {lefts rights : List Extent} {leftKey rightKey : Key}
    {left right : RowIndex} (hleft : left.Perm (build lefts leftKey))
    (hright : right.Perm (build rights rightKey)) :
    (left.joinTuples right).Pairwise (fun a b => tupleKey a < tupleKey b) ∧
    (left.joinTuples right).Nodup ∧
    (∀ l r, (l, r) ∈ left.joinTuples right ↔ ∃ record other,
      HashTable.rowOf lefts l = .ok record ∧ HashTable.rowOf rights r = .ok other ∧
      record.hasNullKey leftKey = false ∧ other.hasNullKey rightKey = false ∧
      record.keyValues leftKey = other.keyValues rightKey) ∧
    ∀ sorted, sorted.Perm (gathered left right) →
      (sorted.Pairwise fun a b => tupleLe a b = true) → sorted = left.joinTuples right := by
  have hbuilt : left.joinTuples right =
      (build lefts leftKey).joinTuples (build rights rightKey) :=
    joinTuples_congr hleft (get?_eq_of_perm hright (nodup_keys_build rights rightKey))
  have hstrict : (left.joinTuples right).Pairwise fun a b => tupleKey a < tupleKey b := by
    rw [hbuilt, joinTuples_eq]
    exact List.pairwise_map.2 ((pairwise_loopPairs lefts rights).filter _)
  refine ⟨hstrict, hstrict.imp ?_, fun l r => ?_,
    fun sorted hperm hsorted => ?_⟩
  · rintro a b hlt rfl
    exact lt_irrefl _ hlt
  · rw [hbuilt, joinTuples_eq, List.mem_map]
    constructor
    · rintro ⟨⟨⟨record, l⟩, other, r⟩, hpair, ⟨⟩⟩
      obtain ⟨hmem, hshares⟩ := List.mem_filter.1 hpair
      obtain ⟨hl, hr⟩ := List.mem_product.1 ((loopPairs_perm lefts rights).mem_iff.1 hmem)
      obtain ⟨hnull, hnull', hvalues⟩ := shares_iff.1 hshares
      exact ⟨record, other, mem_placed_iff.1 hl, mem_placed_iff.1 hr, hnull, hnull', hvalues⟩
    · rintro ⟨record, other, hl, hr, hnull, hnull', hvalues⟩
      refine ⟨((record, l), other, r), List.mem_filter.2 ⟨?_, ?_⟩, rfl⟩
      · exact (loopPairs_perm lefts rights).mem_iff.2
          (List.mem_product.2 ⟨mem_placed_iff.2 hl, mem_placed_iff.2 hr⟩)
      · exact shares_iff.2 ⟨hnull, hnull', hvalues⟩
  · exact eq_of_perm_of_sorted (hperm.trans (List.mergeSort_perm _ _).symm)
      (hsorted.imp tupleLe_iff.1) (pairwise_joinTuples left right)

/-- Two extents, with a null and a key that is there twice. -/
def smallRows : List Extent := [[[.int 1], [.null]], [[.int 2], [.int 1]]]

/-- The index of the rows, to be gone through from the last entry to the first. -/
def turnedIndex : RowIndex := (build smallRows [0]).reverse

/-- The order of the entries does not show, and the rows with a null are left out. -/
theorem joinTuples_exact_turned :
    joinTuples turnedIndex turnedIndex =
      [(⟨0, 0⟩, ⟨0, 0⟩), (⟨0, 0⟩, ⟨1, 1⟩), (⟨1, 1⟩, ⟨0, 0⟩), (⟨1, 0⟩, ⟨1, 0⟩),
        (⟨1, 1⟩, ⟨1, 1⟩)] ∧
    (⟨0, 1⟩, ⟨0, 1⟩) ∉ joinTuples turnedIndex turnedIndex := by
  obtain ⟨-, -, hmem, hsorted⟩ := @joinTuples_exact smallRows smallRows [0] [0] turnedIndex
    turnedIndex (List.reverse_perm _) (List.reverse_perm _)
  refine ⟨(hsorted _ (by decide) (by decide)).symm, fun h => ?_⟩
  obtain ⟨record, other, hrecord, -, hnull, -⟩ := (hmem _ _).1 h
  cases hrecord
  exact absurd hnull (by decide)

end RowIndex
end ExtentEngine
