import ExtentEngine.Dataset.Basic

/-!
# Partitions

A dataset is split into disjoint parts for workers of their own.  A dataset of one extent
is cut by records; otherwise each part is a range of whole extents, and there are no more
parts than extents.

A partition hands out its pieces one by one.  `requestNext` gives the next piece, and
`request` starts over first, if the pieces are whole extents.

**Results.**
* `splitPoint_zero` and `splitPoint_self`: the parts begin at the first item and end behind
  the last one.
* `length_splitRanges`: there are as many ranges as asked for.
-/

namespace ExtentEngine

-- Sums start from the zero of the core library, whatever algebra is in scope.
attribute [local instance (high)] Zero.ofOfNat0

/-- Where the part with a number begins when `total` items are split into `n` parts of
nearly the same size, the larger ones in front. -/
def splitPoint (total n index : Nat) : Nat := index * (total / n) + min index (total % n)

/-- The parts of `total` items, each given by its first item and the one behind its last. -/
def splitRanges (total n : Nat) : List (Nat × Nat) :=
  (List.range n).map fun index => (splitPoint total n index, splitPoint total n (index + 1))

/-- The first part begins at the first item. -/
@[simp]
theorem splitPoint_zero (total n : Nat) : splitPoint total n 0 = 0 := by
  simp [splitPoint]

/-- The last part ends behind the last item. -/
theorem splitPoint_self {n : Nat} (h : 0 < n) (total : Nat) : splitPoint total n n = total := by
  have hr : total % n < n := Nat.mod_lt _ h
  rw [splitPoint, Nat.min_eq_right (Nat.le_of_lt hr), Nat.div_add_mod]

theorem length_splitRanges (total n : Nat) : (splitRanges total n).length = n := by
  simp [splitRanges]

/-- What a partition hands out at a time. -/
inductive Piece
  /-- Records cut out of the one extent of a dataset. -/
  | rows (extent : Extent)
  /-- A whole extent, by its number. -/
  | whole (extent : Nat)
deriving DecidableEq, Repr

/-- The two ways of splitting a dataset. -/
inductive SplitStrategy
  | byRecords
  | byExtents
deriving DecidableEq, Repr

/-- The part of a dataset that is assigned to one worker. -/
structure Partition where
  id : Nat
  /-- How many records are assigned. -/
  elements : Nat
  strategy : SplitStrategy
  dataset : Dataset
  /-- All pieces in order. -/
  assigned : List Piece
  /-- The pieces that were not handed out yet. -/
  pending : List Piece
deriving DecidableEq, Repr

namespace Partition

/-- The records of a piece. -/
def load (disk : Disk) (partition : Partition) : Piece → Attempt Extent
  | .rows extent => .ok extent
  | .whole index => partition.dataset.extent disk index

/-- Whether a piece is left. -/
def canRequest (partition : Partition) : Bool := !partition.pending.isEmpty

/-- Hands out the next piece; one that cannot be loaded stays the next one. -/
def requestNext (disk : Disk) : Step Partition (Option Extent) := fun partition =>
  match partition.pending with
  | [] => (.ok none, partition)
  | piece :: rest =>
    match partition.load disk piece with
    | .error fault => (.error fault, partition)
    | .ok extent => (.ok (some extent), { partition with pending := rest })

/-- Hands out the first piece again.  Records that were cut out are handed out once only. -/
def request (disk : Disk) : Step Partition (Option Extent) := fun partition =>
  match partition.strategy with
  | .byRecords => requestNext disk partition
  | .byExtents => requestNext disk { partition with pending := partition.assigned }

/-- The extents of pieces up to the first one that cannot be loaded, and the failure to load
it. -/
def loadPieces (disk : Disk) (partition : Partition) : List Piece → List Extent × Option Fault
  | [] => ([], none)
  | piece :: rest =>
    match partition.load disk piece with
    | .error fault => ([], some fault)
    | .ok extent =>
      let (extents, fault) := loadPieces disk partition rest
      (extent :: extents, fault)

/-- What is left to be handed out, piece by piece, up to the first failure. -/
def remaining (disk : Disk) (partition : Partition) : List Extent × Option Fault :=
  partition.loadPieces disk partition.pending

end Partition

/-- A dataset split into partitions. -/
structure Partitioner where
  strategy : SplitStrategy
  partitions : List Partition
deriving DecidableEq, Repr

namespace Partitioner

/-- The one extent of a dataset, cut into parts. -/
def byRecords (disk : Disk) (dataset : Dataset) (n : Nat) : Attempt Partitioner := do
  let extent ← dataset.extent disk 0
  let partitions ← (splitRanges extent.length n).zipIdx.mapM fun ((first, last), id) => do
    let rows ← extent.slice first last
    pure ⟨id, rows.length, .byRecords, dataset, [.rows rows], [.rows rows]⟩
  pure ⟨.byRecords, partitions⟩

/-- The extents of a dataset in ranges. -/
def byExtents (dataset : Dataset) (n : Nat) : Partitioner :=
  ⟨.byExtents, (splitRanges dataset.extentCount n).zipIdx.map fun ((first, last), id) =>
    let pieces := (List.range' first (last - first)).map Piece.whole
    ⟨id, ((dataset.extentLengths.drop first).take (last - first)).sum, .byExtents, dataset,
      pieces, pieces⟩⟩

/-- Splits a dataset into a requested number of partitions. -/
def new (disk : Disk) (dataset : Dataset) (requested : Nat) : Attempt Partitioner :=
  if requested = 0 then .error (.notPositive .requestedPartitions)
  else if dataset.extentCount = 1 then byRecords disk dataset requested
  else .ok (byExtents dataset (max 1 (min requested dataset.extentCount)))

/-- The partition with a number must exist. -/
def get (partitioner : Partitioner) (id : Nat) : Attempt Partition :=
  match partitioner.partitions[id]? with
  | some partition => .ok partition
  | none => .error (.partitionMissing id partitioner.partitions.length)

/-- Does a step on the partition with a number. -/
def onPartition {α : Type} (id : Nat) (step : Step Partition α) : Step Partitioner α :=
  fun partitioner =>
    match partitioner.get id with
    | .error fault => (.error fault, partitioner)
    | .ok partition =>
      let (result, partition) := step.run partition
      (result, { partitioner with partitions := partitioner.partitions.set id partition })

/-- How many records are assigned to a partition. -/
def elements (partitioner : Partitioner) (id : Nat) : Attempt Nat :=
  (partitioner.get id).map Partition.elements

/-- Whether a partition has a piece left. -/
def canRequest (partitioner : Partitioner) (id : Nat) : Attempt Bool :=
  (partitioner.get id).map Partition.canRequest

/-- Requests the first piece of a partition. -/
def request (disk : Disk) (id : Nat) : Step Partitioner (Option Extent) :=
  onPartition id (Partition.request disk)

/-- Requests the next piece of a partition. -/
def requestNext (disk : Disk) (id : Nat) : Step Partitioner (Option Extent) :=
  onPartition id (Partition.requestNext disk)

end Partitioner
end ExtentEngine
