import ExtentEngine.Join.HashTable
import ExtentEngine.Proofs.Join.Keyed
import ExtentEngine.Proofs.Join.Pairing
import ExtentEngine.Proofs.Join.Sequence
import ExtentEngine.Proofs.Join.TupleOrder

/-!
# The hash table join is right

The hash table join tests the pairs of rows that share a key.  The flags of a row are at its
position in the whole input.

**Results.**
* `placed_positions`: the places of the rows are their positions in the whole input.
* `tests_cover`: no pair that matches is left out.
* `run_eq`: what the hash table join emits, and in which order.
* `emitsJoin_run`: the hash table join emits the join.
-/

namespace ExtentEngine

variable {hold : Record → Record → Bool} {row : Record × Record → Record} {out : JoinOutput}
  {spec : JoinSpec}

namespace HashTable

/-- The position of a place in the whole input, for offsets that reach it. -/
def position (offsets : List Nat) (id : RowId) : Nat := offsets[id.extent]?.getD 0 + id.row

/-- The places of the rows in extents that follow others. -/
theorem placed_positions_from (before : List Nat) (offset : Nat) (extents : List Extent) :
    ((extents.zipIdx before.length).flatMap fun item => item.1.zipIdx.map fun other =>
      (other.1, position (before ++ extentOffsets offset (extents.map List.length))
        ⟨item.2, other.2⟩)) = extents.flatten.zipIdx offset := by
  induction extents generalizing before offset with
  | nil => rfl
  | cons extent extents ih =>
      have hrest := ih (before ++ [offset]) (offset + extent.length)
      rw [List.length_append, List.length_singleton, List.append_assoc, List.singleton_append]
        at hrest
      have hoffset : (before ++ offset :: extentOffsets (offset + extent.length)
          (extents.map List.length))[before.length]? = some offset := by
        rw [List.getElem?_append_right (Nat.le_refl _), Nat.sub_self]
        rfl
      have hfirst : extent.zipIdx offset = extent.zipIdx.map fun other =>
          (other.1, offset + other.2) := List.zipIdx_eq_map_add
      rw [List.zipIdx_cons, List.flatMap_cons, List.flatten_cons, List.zipIdx_append,
        List.map_cons, extentOffsets, hrest, hfirst]
      simp only [position, hoffset, Option.getD_some]

/-- The positions of extents in their input. -/
def offsetsOf (extents : List Extent) : List Nat := extentOffsets 0 (extents.map List.length)

/-- The places of the rows are their positions in the whole input. -/
theorem placed_positions (extents : List Extent) :
    ((RowIndex.placed extents).map fun item => (item.1, position (offsetsOf extents) item.2)) =
      extents.flatten.zipIdx := by
  have h := placed_positions_from [] 0 extents
  rw [List.nil_append, List.length_nil] at h
  rw [← h, RowIndex.placed, List.map_flatMap]
  refine List.flatMap_congr fun item _ => ?_
  rw [List.map_map]
  rfl

theorem length_extentOffsets (offset : Nat) (lengths : List Nat) :
    (extentOffsets offset lengths).length = lengths.length := by
  induction lengths generalizing offset with
  | nil => rfl
  | cons length lengths ih => exact congrArg Nat.succ (ih (offset + length))

theorem mem_placed {extents : List Extent} {item : Record × RowId} :
    item ∈ RowIndex.placed extents ↔
      ∃ extent, extents[item.2.extent]? = some extent ∧ extent[item.2.row]? = some item.1 := by
  simp only [RowIndex.placed, List.mem_flatMap, List.mem_map, Prod.exists,
    List.mem_zipIdx_iff_getElem?]
  constructor
  · rintro ⟨extent, number, hextent, record, place, hrecord, rfl⟩
    exact ⟨extent, hextent, hrecord⟩
  · rintro ⟨extent, hextent, hrecord⟩
    exact ⟨extent, _, hextent, _, _, hrecord, rfl⟩

section Placed

variable {extents : List Extent} {item : Record × RowId}

theorem rowOf_of_mem (h : item ∈ RowIndex.placed extents) :
    rowOf extents item.2 = .ok item.1 := by
  obtain ⟨extent, hextent, hrecord⟩ := mem_placed.1 h
  rw [rowOf, hextent]
  simp only [rowAt, hrecord]

theorem positionOf_of_mem (h : item ∈ RowIndex.placed extents) :
    positionOf (offsetsOf extents) item.2 = .ok (position (offsetsOf extents) item.2) := by
  obtain ⟨extent, hextent, -⟩ := mem_placed.1 h
  have hlt : item.2.extent < (offsetsOf extents).length := by
    rw [offsetsOf, length_extentOffsets, List.length_map]
    exact (List.getElem?_eq_some_iff.1 hextent).1
  rw [positionOf, position, List.getElem?_eq_getElem hlt]
  rfl

theorem getElem?_position_of_mem (h : item ∈ RowIndex.placed extents) :
    extents.flatten[position (offsetsOf extents) item.2]? = some item.1 := by
  have hmem := List.mem_map_of_mem (f := fun item : Record × RowId =>
    (item.1, position (offsetsOf extents) item.2)) h
  rw [placed_positions] at hmem
  exact List.mem_zipIdx_iff_getElem?.1 hmem

theorem position_lt_of_mem (h : item ∈ RowIndex.placed extents) :
    position (offsetsOf extents) item.2 < extents.flatten.length :=
  (List.getElem?_eq_some_iff.1 (getElem?_position_of_mem h)).1

end Placed

section Tests

variable (lefts rights : List Extent)

/-- The test of a pair of rows with their places. -/
def pairTest (l r : Record × RowId) : PairTest :=
  ⟨l.1, r.1, position (offsetsOf lefts) l.2, position (offsetsOf rights) r.2⟩

/-- The test of a pair of places. -/
def tupleTest (tuple : RowId × RowId) : PairTest :=
  pairTest lefts rights ((rowOf lefts tuple.1).toOption.getD [], tuple.1)
    ((rowOf rights tuple.2).toOption.getD [], tuple.2)

/-- The pairs of places that a join tests. -/
def tuples (spec : JoinSpec) (lefts rights : List Extent) : List (RowId × RowId) :=
  (RowIndex.build lefts spec.leftKey).joinTuples (.build rights spec.rightKey)

variable {lefts rights}

theorem tupleTest_of_mem {l r : Record × RowId} (hl : l ∈ RowIndex.placed lefts)
    (hr : r ∈ RowIndex.placed rights) :
    tupleTest lefts rights (l.2, r.2) = pairTest lefts rights l r := by
  rw [tupleTest, rowOf_of_mem hl, rowOf_of_mem hr]
  rfl

/-- At the places of two rows these are tested, at their positions. -/
theorem testTuple_of_mem {condition : Predicate} {flags : PairFlags} {l r : Record × RowId}
    (hl : l ∈ RowIndex.placed lefts) (hr : r ∈ RowIndex.placed rights) :
    testTuple out condition ⟨lefts, offsetsOf lefts⟩ ⟨rights, offsetsOf rights⟩ flags (l.2, r.2) =
      out.test condition l.1 r.1 (position (offsetsOf lefts) l.2)
        (position (offsetsOf rights) r.2) flags := by
  simp only [testTuple, rowOf_of_mem hl, rowOf_of_mem hr, positionOf_of_mem hl,
    positionOf_of_mem hr, Emission.bind_ofAttempt_ok]

theorem grid_eq_placed (lefts rights : List Extent) :
    grid 0 0 lefts.flatten rights.flatten =
      (RowIndex.placed lefts).flatMap fun l =>
        (RowIndex.placed rights).map (pairTest lefts rights l) := by
  rw [grid, ← placed_positions lefts, ← placed_positions rights, List.flatMap_map]
  exact List.flatMap_congr fun l _ => List.map_map

theorem mem_placed_of_mem_loopPairs {pair : (Record × RowId) × (Record × RowId)}
    (h : pair ∈ RowIndex.loopPairs lefts rights) :
    pair.1 ∈ RowIndex.placed lefts ∧ pair.2 ∈ RowIndex.placed rights :=
  List.mem_product.1 ((RowIndex.loopPairs_perm lefts rights).mem_iff.1 h)

/-- The pairs of places that are tested are those of the rows that share a key. -/
theorem exists_of_mem_tuples {tuple : RowId × RowId} (h : tuple ∈ tuples spec lefts rights) :
    ∃ l ∈ RowIndex.placed lefts, ∃ r ∈ RowIndex.placed rights, tuple = (l.2, r.2) ∧
      l.1.hasNullKey spec.leftKey = false ∧
      l.1.keyValues spec.leftKey = r.1.keyValues spec.rightKey := by
  rw [tuples, RowIndex.joinTuples_eq] at h
  obtain ⟨pair, hpair, rfl⟩ := List.mem_map.1 h
  obtain ⟨hmem, hshares⟩ := List.mem_filter.1 hpair
  obtain ⟨hl, hr⟩ := mem_placed_of_mem_loopPairs hmem
  simp only [RowIndex.shares, Bool.and_eq_true, Bool.not_eq_true', decide_eq_true_eq] at hshares
  exact ⟨_, hl, _, hr, rfl, hshares.1.1, hshares.2⟩

/-- The tests, in the order in which they are made. -/
theorem map_tupleTest (spec : JoinSpec) (lefts rights : List Extent) :
    (tuples spec lefts rights).map (tupleTest lefts rights) =
      ((RowIndex.loopPairs lefts rights).filter
        (RowIndex.shares spec.leftKey spec.rightKey)).map fun pair =>
          pairTest lefts rights pair.1 pair.2 := by
  rw [tuples, RowIndex.joinTuples_eq, List.map_map]
  refine List.map_congr_left fun pair hpair => ?_
  obtain ⟨hl, hr⟩ := mem_placed_of_mem_loopPairs (List.mem_filter.1 hpair).1
  exact tupleTest_of_mem hl hr

/-- No pair that matches is left out. -/
theorem filter_tests (hkeyed : spec.Keyed hold lefts.flatten rights.flatten) :
    ((tuples spec lefts rights).map (tupleTest lefts rights)).filter (PairTest.holds hold) =
      ((RowIndex.loopPairs lefts rights).filter fun pair => hold pair.1.1 pair.2.1).map fun pair =>
        pairTest lefts rights pair.1 pair.2 := by
  rw [map_tupleTest, List.filter_map, List.filter_filter]
  refine congrArg _ (List.filter_congr fun pair _ => ?_)
  show (hold pair.1.1 pair.2.1 && _) = _
  cases hhold : hold pair.1.1 pair.2.1 with
  | false => rfl
  | true =>
      have hnull : pair.2.1.hasNullKey spec.rightKey = false := by
        refine Bool.eq_false_iff.2 fun h => ?_
        rw [hkeyed.eq_false_of_right_null h] at hhold
        exact Bool.false_ne_true hhold
      rw [RowIndex.shares, hkeyed.notNull _ _ hhold, hnull, decide_eq_true (hkeyed.equal _ _ hhold)]
      rfl

/-- No pair that matches is left out, and none is tested twice. -/
theorem tests_cover (hkeyed : spec.Keyed hold lefts.flatten rights.flatten) :
    Covers hold lefts.flatten rights.flatten
      ((tuples spec lefts rights).map (tupleTest lefts rights)) := by
  have hgrid : grid 0 0 lefts.flatten rights.flatten =
      (RowIndex.placed lefts ×ˢ RowIndex.placed rights).map fun pair =>
        pairTest lefts rights pair.1 pair.2 := by
    rw [grid_eq_placed]
    refine Eq.trans ?_ List.map_flatMap.symm
    refine List.flatMap_congr fun l _ => ?_
    rw [List.map_map]
    rfl
  rw [Covers, filter_tests hkeyed, hgrid, List.filter_map]
  exact ((RowIndex.loopPairs_perm lefts rights).filter _).map _

theorem flatMap_zipIdx {α β : Type} (items : List α) (f : α → List β) :
    (items.zipIdx.flatMap fun item => f item.1) = items.flatMap f := by
  conv_rhs => rw [← List.zipIdx_map_fst 0 items, List.flatMap_map]

theorem filter_product (lefts rights : List (Record × RowId)) :
    ((lefts ×ˢ rights).filter fun pair => hold pair.1.1 pair.2.1).map
      (fun pair => (pair.1.1, pair.2.1)) =
      matchedPairs hold (lefts.map Prod.fst) (rights.map Prod.fst) := by
  have hfilter : (lefts ×ˢ rights).filter (fun pair => hold pair.1.1 pair.2.1) =
      lefts.flatMap fun l => (rights.map (l, ·)).filter fun pair => hold pair.1.1 pair.2.1 :=
    List.filter_flatMap
  rw [hfilter, List.map_flatMap, matchedPairs, List.flatMap_map]
  refine List.flatMap_congr fun l _ => ?_
  rw [List.filter_map, List.filter_map, List.map_map, List.map_map]
  rfl

theorem map_fst_placedIn (number : Nat) (extent : Extent) :
    (RowIndex.placedIn number extent).map Prod.fst = extent := by
  rw [RowIndex.placedIn, List.map_map]
  exact List.zipIdx_map_fst 0 extent

/-- The loops come by the matches in their order. -/
theorem filter_loopPairs (lefts rights : List Extent) :
    ((RowIndex.loopPairs lefts rights).filter fun pair => hold pair.1.1 pair.2.1).map
      (fun pair => (pair.1.1, pair.2.1)) = loopMatches hold lefts rights := by
  rw [RowIndex.loopPairs, List.filter_flatMap, List.map_flatMap]
  simp only [List.filter_flatMap, List.map_flatMap, filter_product, map_fst_placedIn]
  have hrights : ∀ left, (rights.zipIdx.flatMap fun right => matchedPairs hold left right.1) =
      rights.flatMap fun right => matchedPairs hold left right := fun left =>
    flatMap_zipIdx rights (matchedPairs hold left)
  simp only [hrights]
  exact flatMap_zipIdx lefts fun left => rights.flatMap (matchedPairs hold left)

/-- Testing a pair of places is testing the rows that are there. -/
theorem testTuple_eq {tuple : RowId × RowId} (h : tuple ∈ tuples spec lefts rights)
    (hkeyed : spec.Keyed hold lefts.flatten rights.flatten)
    (hrenders : out.Renders row (out.declaredMatches hold lefts.flatten rights.flatten))
    {flags : PairFlags} (hflags : flags.Fits lefts.flatten.length rights.flatten.length) :
    testTuple out spec.residual ⟨lefts, offsetsOf lefts⟩ ⟨rights, offsetsOf rights⟩ flags tuple =
      out.tested hold row flags [tupleTest lefts rights tuple] := by
  obtain ⟨l, hl, r, hr, rfl, hnull, hkey⟩ := exists_of_mem_tuples h
  have hmem := List.mem_of_getElem? (getElem?_position_of_mem hl)
  have hmem' := List.mem_of_getElem? (getElem?_position_of_mem hr)
  have htestable : out.Testable spec.residual hold row lefts.flatten.length rights.flatten.length
      (pairTest lefts rights l r) :=
    ⟨hkeyed.residual _ hmem _ hmem' hkey hnull,
      fun hemits hhold => hrenders _ (mem_declaredMatches hemits hmem hmem' hhold),
      position_lt_of_mem hl, position_lt_of_mem hr⟩
  rw [tupleTest_of_mem hl hr, ← JoinOutput.test_eq htestable hflags, testTuple_of_mem hl hr]
  rfl

end Tests

/-- The join of extents of which the lengths are noted. -/
theorem run_ofExtents (out : JoinOutput) (spec : JoinSpec) (lefts rights : List Extent) :
    run out spec (.ofExtents lefts) (.ofExtents rights) = (do
      let flags ← (tuples spec lefts rights).foldlM
        (testTuple out spec.residual ⟨lefts, offsetsOf lefts⟩ ⟨rights, offsetsOf rights⟩)
        ⟨lefts.flatten.map fun _ => false, rights.flatten.map fun _ => false⟩
      if out.method.emitsLeftUnmatched then emitUnmatched out.leftUnmatched flags.left 0 lefts
      if out.method.emitsRightUnmatched then
        emitUnmatched out.rightUnmatched flags.right 0 rights) := by
  rw [run, JoinSide.recordCount_ofExtents, JoinSide.recordCount_ofExtents,
    MatchFlags.cleared_length, MatchFlags.cleared_length]
  rfl

/-- What the hash table join emits, and in which order. -/
theorem run_eq {lefts rights : List Extent}
    (hkeyed : spec.Keyed hold lefts.flatten rights.flatten)
    (hrenders : out.Renders row (out.declared hold lefts.flatten rights.flatten)) :
    run out spec (.ofExtents lefts) (.ofExtents rights) =
      ⟨(out.sequence hold lefts rights).map row, .ok ()⟩ := by
  have hpairs := hrenders.mono (List.subset_append_left _ _)
  have hflags : PairFlags.Fits lefts.flatten.length rights.flatten.length
      ⟨lefts.flatten.map fun _ => false, rights.flatten.map fun _ => false⟩ :=
    .of_maps _ _ _ _
  have htests := JoinOutput.foldlM_tested (fun tuple htuple flags hfits =>
    testTuple_eq htuple hkeyed (hpairs.mono (List.subset_append_left _ _)) hfits) hflags
  have hfound : out.found hold row ((tuples spec lefts rights).map (tupleTest lefts rights)) =
      (if out.method.emitsMatches then loopMatches hold lefts rights else []).map row := by
    rw [JoinOutput.found, filter_tests hkeyed, ← filter_loopPairs lefts rights]
    split
    · rw [List.map_map, List.map_map]
      rfl
    · rfl
  have hlefts := @JoinOutput.emitUnmatched_lefts hold row out rights.flatten lefts
    (hpairs.mono (List.subset_append_right _ _))
  have hrights := @JoinOutput.emitUnmatched_rights hold row out lefts.flatten rights
    (hrenders.mono (List.subset_append_right _ _))
  rw [← List.map_eq_flatMap, JoinOutput.tested, after_of_covers (tests_cover hkeyed), hfound]
    at htests
  rw [run_ofExtents, htests, Emission.bind_emitted]
  simp only
  rw [Emission.ite_bind, hlefts, hrights, JoinOutput.sequence, List.map_append, List.map_append,
    List.append_assoc]
  rfl

/-- The hash table join emits the join. -/
theorem emitsJoin_run {lefts rights : List Extent}
    (hkeyed : spec.Keyed hold lefts.flatten rights.flatten)
    (hcomputes : out.Computes row lefts.flatten rights.flatten) :
    out.EmitsJoin hold row lefts.flatten rights.flatten
      (run out spec (.ofExtents lefts) (.ofExtents rights)) :=
  ⟨_, run_eq hkeyed hcomputes.renders, (out.sequence_perm lefts rights).map row⟩

end HashTable
end ExtentEngine
