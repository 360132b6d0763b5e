import ExtentEngine.Partition.Basic

/-!
# Requests

Whoever has a partitioner may ask any of its partitions for the next piece, and whether one is
left, in whatever order.  `handouts` lists what a sequence of requests makes the partitions
hand out.
-/

namespace ExtentEngine

/-- What a caller asks of a partitioner. -/
inductive Request
  /-- Asks a partition for its next piece. -/
  | next (id : Nat)
  /-- Asks a partition whether it has a piece left. -/
  | canRequest (id : Nat)
deriving DecidableEq, Repr

/-- A part of a dataset that is handed out as a whole. -/
inductive Portion
  /-- The slice of the one extent of a dataset that was cut for a partition. -/
  | slice (id : Nat)
  /-- An extent by its number. -/
  | extent (index : Nat)
deriving DecidableEq, Repr

/-- The part of a dataset that a piece of a partition is. -/
def Piece.portion (id : Nat) : Piece → Portion
  | .rows _ => .slice id
  | .whole index => .extent index

/-- A piece that a partition has handed out, with its records. -/
structure Handout where
  id : Nat
  piece : Piece
  records : Extent
deriving DecidableEq, Repr

namespace Handout

def portion (handout : Handout) : Portion := handout.piece.portion handout.id

/-- The records that a partition handed out, in order. -/
def recordsOf (id : Nat) (handouts : List Handout) : List Record :=
  (handouts.filter (·.id = id)).flatMap records

end Handout

namespace Partition

/-- The size of a partition: in records if these were cut, and else in extents. -/
def size (partition : Partition) : Nat :=
  match partition.strategy with
  | .byRecords => partition.elements
  | .byExtents => partition.assigned.length

end Partition

namespace Partitioner

/-- What a request makes a partition hand out. -/
def handout? (disk : Disk) (partitioner : Partitioner) : Request → Option Handout
  | .canRequest _ => none
  | .next id =>
    match partitioner.get id, ((requestNext disk id).run partitioner).1 with
    | .ok partition, .ok (some records) =>
      partition.pending.head?.map fun piece => ⟨id, piece, records⟩
    | _, _ => none

/-- The partitioner after a request. -/
def serve (disk : Disk) (partitioner : Partitioner) : Request → Partitioner
  | .canRequest _ => partitioner
  | .next id => ((requestNext disk id).run partitioner).2

/-- The partitioner after requests, whatever became of them. -/
def serveAll (disk : Disk) (partitioner : Partitioner) (requests : List Request) : Partitioner :=
  requests.foldl (serve disk) partitioner

/-- What requests make the partitions hand out, in order. -/
def handouts (disk : Disk) : Partitioner → List Request → List Handout
  | _, [] => []
  | partitioner, request :: requests =>
    (partitioner.handout? disk request).toList ++
      handouts disk (partitioner.serve disk request) requests

end Partitioner
end ExtentEngine
