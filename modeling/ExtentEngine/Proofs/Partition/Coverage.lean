import ExtentEngine.Partition.Basic
import ExtentEngine.Proofs.Dataset.Cursor
import ExtentEngine.Proofs.Lists

/-!
# What partitions cover

The pieces of the partitions of a dataset are its records, each of them once and in order.

**Results.**
* `flatten_splitRanges`: the parts of a list are the list.
* `Partitioner.exists_new`: a dataset that can be loaded is covered by its partitions.
* `Partitioner.ids_of_new`: partitions are numbered in order.
* `Partitioner.exists_extents`: a dataset can be loaded if all pieces of its partitions can.
-/

namespace ExtentEngine

section Ranges

variable {α : Type} {total n : Nat}

theorem splitPoint_mono (total n : Nat) {i j : Nat} (h : i ≤ j) :
    splitPoint total n i ≤ splitPoint total n j := by
  have hmul := Nat.mul_le_mul_right (total / n) h
  rw [splitPoint, splitPoint]
  omega

theorem splitPoint_le (hn : 0 < n) {i : Nat} (h : i ≤ n) : splitPoint total n i ≤ total := by
  calc splitPoint total n i ≤ splitPoint total n n := splitPoint_mono total n h
    _ = total := splitPoint_self hn total

/-- The items of a range. -/
def itemsIn (items : List α) (range : Nat × Nat) : List α :=
  (items.drop range.1).take (range.2 - range.1)

theorem flatten_parts (items : List α) (n k : Nat) :
    (((List.range k).map fun i =>
      (splitPoint items.length n i, splitPoint items.length n (i + 1))).map
        (itemsIn items)).flatten = items.take (splitPoint items.length n k) := by
  induction k with
  | zero => rw [splitPoint_zero]; rfl
  | succ k ih =>
      have hle := splitPoint_mono items.length n (Nat.le_succ k)
      rw [List.range_succ, List.map_append, List.map_append, List.flatten_append, ih]
      simp only [List.map_cons, List.map_nil, List.flatten_singleton, itemsIn]
      rw [← List.take_add, Nat.add_sub_cancel' hle]

/-- The parts of a list are the list. -/
theorem flatten_splitRanges (items : List α) (hn : 0 < n) :
    ((splitRanges items.length n).map (itemsIn items)).flatten = items := by
  rw [splitRanges, flatten_parts, splitPoint_self hn, List.take_length]

theorem mem_splitRanges {first last : Nat} (hn : 0 < n) (h : (first, last) ∈ splitRanges total n) :
    first ≤ last ∧ last ≤ total := by
  obtain ⟨i, hi, heq⟩ := List.mem_map.1 h
  cases heq
  exact ⟨splitPoint_mono total n (Nat.le_succ i), splitPoint_le hn (List.mem_range.1 hi)⟩

theorem map_fst_zipIdx {β : Type} (f : α → β) (items : List α) :
    items.zipIdx.map (fun entry => f entry.1) = items.map f := by
  conv_rhs => rw [← List.zipIdx_map_fst 0 items, List.map_map]
  rfl

end Ranges

/-- A piece of a dataset with the given extents, and its records. -/
def Piece.Is (extents : List Extent) (piece : Piece) (records : Extent) : Prop :=
  match piece with
  | .rows extent => extent = records
  | .whole index => extents[index]? = some records

variable {disk : Disk} {dataset : Dataset} {extents : List Extent} {n : Nat}

theorem Dataset.exists_extents
    (h : ∀ i < dataset.extentCount, ∃ extent, dataset.extent disk i = .ok extent) :
    ∃ extents, dataset.extents disk = .ok extents := by
  refine Attempt.exists_mapM fun slot hslot => ?_
  obtain ⟨i, hi, rfl⟩ := List.mem_iff_getElem.1 hslot
  obtain ⟨extent, hextent⟩ := h i hi
  refine ⟨extent, ?_⟩
  rwa [Dataset.extent, Dataset.slot, List.getElem?_eq_getElem hi] at hextent

/-- The records of a piece are those that are loaded. -/
theorem Piece.Is.load {partition : Partition} {piece : Piece} {records : Extent}
    (h : piece.Is extents records) (hloads : partition.dataset.extents disk = .ok extents) :
    partition.load disk piece = .ok records := by
  cases piece with
  | rows extent => exact congrArg Except.ok h
  | whole index => exact Dataset.extent_eq_ok hloads h

/-- A partition of a dataset of which nothing was handed out, and the records of its pieces. -/
structure Partition.Covers (dataset : Dataset) (extents : List Extent) (partition : Partition)
    (chunk : List Extent) : Prop where
  dataset : partition.dataset = dataset
  pending : List.Forall₂ (Piece.Is extents) partition.pending chunk

theorem pieces_whole {first last : Nat} (hlast : last ≤ extents.length) :
    List.Forall₂ (Piece.Is extents) ((List.range' first (last - first)).map .whole)
      (itemsIn extents (first, last)) := by
  refine List.forall₂_map_left_iff.2 (List.forall₂_iff_get.2 ⟨?_, fun i hi hi' => ?_⟩)
  · rw [List.length_range', itemsIn, List.length_take, List.length_drop]
    omega
  · rw [List.length_range'] at hi
    simp only [List.get_eq_getElem, List.getElem_range', itemsIn, List.getElem_take,
      List.getElem_drop, Nat.one_mul]
    exact List.getElem?_eq_getElem _

namespace Partitioner

theorem covers_byExtents (hloads : dataset.extents disk = .ok extents) (hn : 0 < n) :
    List.Forall₂ (Partition.Covers dataset extents) (byExtents dataset n).partitions
      ((splitRanges extents.length n).map (itemsIn extents)) := by
  rw [byExtents, Dataset.extentCount_eq hloads, ← map_fst_zipIdx (itemsIn extents),
    List.forall₂_map_left_iff, List.forall₂_map_right_iff, List.forall₂_same]
  rintro ⟨⟨first, last⟩, id⟩ hmem
  have hrange := mem_splitRanges hn (List.fst_mem_of_mem_zipIdx hmem)
  exact ⟨rfl, pieces_whole hrange.2⟩

/-- The partitions of a dataset of one extent are its slices. -/
theorem byRecords_eq {extent : Extent} (hextent : dataset.extent disk 0 = .ok extent)
    (hn : 0 < n) :
    byRecords disk dataset n = .ok ⟨.byRecords, (splitRanges extent.length n).zipIdx.map
      fun entry => ⟨entry.2, (itemsIn extent entry.1).length, .byRecords, dataset,
        [.rows (itemsIn extent entry.1)], [.rows (itemsIn extent entry.1)]⟩⟩ := by
  refine Attempt.bind_eq_ok.2 ⟨extent, hextent, Attempt.bind_eq_ok.2 ⟨_, ?_, rfl⟩⟩
  refine Attempt.mapM_eq_ok.2 (List.forall₂_map_right_iff.2 (List.forall₂_same.2 ?_))
  rintro ⟨⟨first, last⟩, id⟩ hmem
  have hrange := mem_splitRanges hn (List.fst_mem_of_mem_zipIdx hmem)
  have hslice : Extent.slice extent first last = .ok (itemsIn extent (first, last)) :=
    if_pos hrange
  simp only [hslice]
  rfl

/-- The two kinds of new partitioners. -/
theorem new_cases {partitioner : Partitioner} (h : new disk dataset n = .ok partitioner) :
    (0 < n ∧ dataset.extentCount = 1 ∧ ∃ extent, dataset.extent disk 0 = .ok extent ∧
      partitioner.partitions = (splitRanges extent.length n).zipIdx.map fun entry =>
        ⟨entry.2, (itemsIn extent entry.1).length, .byRecords, dataset,
          [.rows (itemsIn extent entry.1)], [.rows (itemsIn extent entry.1)]⟩) ∨
    (dataset.extentCount ≠ 1 ∧
      partitioner = byExtents dataset (max 1 (min n dataset.extentCount))) := by
  unfold new at h
  split at h
  · cases h
  · next hn =>
      split at h
      · next hone =>
          obtain ⟨extent, hextent, -⟩ := Attempt.bind_eq_ok.1 h
          rw [byRecords_eq hextent (Nat.pos_of_ne_zero hn)] at h
          cases h
          exact Or.inl ⟨Nat.pos_of_ne_zero hn, hone, extent, hextent, rfl⟩
      · next hmany =>
          cases h
          exact Or.inr ⟨hmany, rfl⟩

/-- The partitions of a dataset of one extent cover it. -/
theorem exists_byRecords {extent : Extent} (hextent : dataset.extent disk 0 = .ok extent)
    (extents : List Extent) (hn : 0 < n) :
    ∃ partitioner, byRecords disk dataset n = .ok partitioner ∧
      List.Forall₂ (Partition.Covers dataset extents) partitioner.partitions
        ((splitRanges extent.length n).map fun range => [itemsIn extent range]) := by
  refine ⟨_, byRecords_eq hextent hn, ?_⟩
  rw [← map_fst_zipIdx fun range => [itemsIn extent range], List.forall₂_map_left_iff,
    List.forall₂_map_right_iff, List.forall₂_same]
  exact fun entry _ => ⟨rfl, .cons rfl .nil⟩

/-- A dataset that can be loaded is covered by its partitions. -/
theorem exists_new (hloads : dataset.extents disk = .ok extents) (hn : 0 < n) :
    ∃ partitioner chunks, new disk dataset n = .ok partitioner ∧
      List.Forall₂ (Partition.Covers dataset extents) partitioner.partitions chunks ∧
      chunks.flatten.flatten = extents.flatten := by
  have hcount := Dataset.extentCount_eq hloads
  rw [new, if_neg (Nat.ne_of_gt hn)]
  split
  · next hone =>
      obtain ⟨extent, rfl⟩ := List.length_eq_one_iff.1 (hcount.symm.trans hone)
      obtain ⟨partitioner, hsplit, hcovers⟩ :=
        exists_byRecords (Dataset.extent_eq_ok hloads rfl) [extent] hn
      refine ⟨partitioner, _, hsplit, hcovers, ?_⟩
      have hflatten : ((splitRanges extent.length n).map fun range =>
          [itemsIn extent range]).flatten = (splitRanges extent.length n).map (itemsIn extent) := by
        rw [← List.flatMap_def, ← List.map_eq_flatMap]
      rw [hflatten, flatten_splitRanges extent hn, List.flatten_singleton]
  · have hpos : 0 < max 1 (min n dataset.extentCount) :=
      Nat.lt_of_lt_of_le Nat.one_pos (Nat.le_max_left _ _)
    refine ⟨_, _, rfl, covers_byExtents hloads hpos, ?_⟩
    rw [flatten_splitRanges extents hpos]

theorem ids_of_zipIdx {α : Type} {items : List α} {partitions : List Partition}
    (h : List.Forall₂ (fun entry partition => partition.id = entry.2) items.zipIdx partitions) :
    partitions.map Partition.id = List.range partitions.length := by
  rw [← map_eq_map_of_forall₂ h fun _ _ heq => heq.symm, List.zipIdx_map_snd, ← h.length_eq,
    List.length_zipIdx, List.range_eq_range']

/-- The partitions are numbered in order. -/
theorem ids_of_new {partitioner : Partitioner} (h : new disk dataset n = .ok partitioner) :
    partitioner.partitions.map Partition.id = List.range partitioner.partitions.length := by
  rcases new_cases h with ⟨-, -, extent, -, hpartitions⟩ | ⟨-, rfl⟩
  · rw [hpartitions]
    exact ids_of_zipIdx (List.forall₂_map_right_iff.2 (List.forall₂_same.2 fun _ _ => rfl))
  · exact ids_of_zipIdx (List.forall₂_map_right_iff.2 (List.forall₂_same.2 fun _ _ => rfl))

/-- Each extent is a piece of some partition. -/
theorem exists_piece (dataset : Dataset) (hn : 0 < n) {i : Nat} (hi : i < dataset.extentCount) :
    ∃ partition ∈ (byExtents dataset n).partitions, partition.dataset = dataset ∧
      .whole i ∈ partition.pending := by
  have hmem : i ∈ ((splitRanges dataset.extentCount n).map
      (itemsIn (List.range dataset.extentCount))).flatten := by
    have hcover := flatten_splitRanges (List.range dataset.extentCount) hn
    rw [List.length_range] at hcover
    rw [hcover]
    exact List.mem_range.2 hi
  obtain ⟨_, hitems, hmem⟩ := List.mem_flatten.1 hmem
  obtain ⟨⟨first, last⟩, hrange, rfl⟩ := List.mem_map.1 hitems
  obtain ⟨id, hid⟩ := List.mem_iff_getElem?.1 hrange
  have hentry : ((first, last), id) ∈ (splitRanges dataset.extentCount n).zipIdx :=
    List.mk_mem_zipIdx_iff_getElem?.2 hid
  refine ⟨_, List.mem_map_of_mem hentry, rfl, ?_⟩
  obtain ⟨k, hk, rfl⟩ := List.mem_iff_getElem.1 hmem
  have hlt : k < last - first := Nat.lt_of_lt_of_le hk (List.length_take_le _ _)
  simp only [itemsIn, List.getElem_take, List.getElem_drop, List.getElem_range]
  exact List.mem_map_of_mem (List.mem_range'_1.2 ⟨Nat.le_add_right _ _, by omega⟩)

/-- If all pieces can be loaded, so can the dataset. -/
theorem exists_extents {partitioner : Partitioner} (h : new disk dataset n = .ok partitioner)
    (hloads : ∀ partition ∈ partitioner.partitions, ∀ piece ∈ partition.pending,
      ∃ extent, partition.load disk piece = .ok extent) :
    ∃ extents, dataset.extents disk = .ok extents := by
  refine Dataset.exists_extents fun i hi => ?_
  unfold new at h
  split at h
  · cases h
  · split at h
    · next hone =>
        obtain ⟨extent, hextent, -⟩ := Attempt.bind_eq_ok.1 h
        obtain rfl : i = 0 := by omega
        exact ⟨extent, hextent⟩
    · cases h
      obtain ⟨partition, hpartition, hsame, hpiece⟩ :=
        exists_piece dataset (Nat.lt_of_lt_of_le Nat.one_pos (Nat.le_max_left _ _)) hi
      have hload := hloads partition hpartition _ hpiece
      rwa [Partition.load, hsame] at hload

end Partitioner
end ExtentEngine
