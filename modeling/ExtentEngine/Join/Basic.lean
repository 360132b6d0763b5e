import ExtentEngine.Join.HashTable
import ExtentEngine.Join.NestedLoop
import ExtentEngine.Join.SortMerge

/-!
# Joins

`JoinSpec.execute` joins two datasets by the algorithm that the caller asks for, or by the
one that fits the inputs.  Whatever the algorithm, the same pairs match.  The sort-merge
join sorts its inputs in place.
-/

namespace ExtentEngine

/-- The ratio of the smaller to the larger input up to which the nested loop is taken. -/
def defaultNestedLoopRatio : Binary64 := Binary64.ofDecimal false 5 (-2)

/-- How a caller wants the pairs to be found. -/
structure JoinOptions where
  /-- The algorithm; without one it is chosen by the inputs. -/
  algorithm : Option JoinAlgorithm
  nestedLoopRatio : Binary64
deriving DecidableEq, Repr

/-- What a join did. -/
structure JoinStats where
  algorithm : JoinAlgorithm
  leftRows : Nat
  rightRows : Nat
  emitted : Nat
deriving DecidableEq, Repr

/-- Two datasets on a disk. -/
structure JoinInputs where
  left : Dataset
  right : Dataset
  disk : Disk

namespace JoinInputs

def schemas (inputs : JoinInputs) : SchemaPair := ⟨inputs.left.schema, inputs.right.schema⟩

/-- Sorts the left dataset. -/
def sortLeft (key : Key) : Step JoinInputs Unit := fun inputs =>
  let (result, left, disk) := (Dataset.sort key).run (inputs.left, inputs.disk)
  (result, { inputs with left, disk })

/-- Sorts the right dataset. -/
def sortRight (key : Key) : Step JoinInputs Unit := fun inputs =>
  let (result, right, disk) := (Dataset.sort key).run (inputs.right, inputs.disk)
  (result, { inputs with right, disk })

end JoinInputs

namespace JoinSpec

/-- The algorithm that is run: the one asked for or chosen, if there are keys to go by. -/
def algorithmFor (spec : JoinSpec) (options : JoinOptions) (inputs : JoinInputs) :
    JoinAlgorithm :=
  if spec.needsNestedLoop then .nestedLoop
  else options.algorithm.getD (spec.choose inputs.left inputs.right options.nestedLoopRatio)

/-- What is done to the inputs before they are joined. -/
def prepare (spec : JoinSpec) (options : JoinOptions) : Step JoinInputs JoinAlgorithm := do
  let inputs ← Step.get
  Step.ofAttempt (spec.validate inputs.schemas)
  let algorithm := spec.algorithmFor options inputs
  if algorithm = .sortMerge then
    JoinInputs.sortLeft spec.leftKey
    JoinInputs.sortRight spec.rightKey
  pure algorithm

/-- Emits the pairs that an algorithm finds in the extents of the inputs. -/
def emitWith (spec : JoinSpec) (schemas : SchemaPair) (lefts rights : JoinSide) :
    JoinAlgorithm → Emission Unit
  | .nestedLoop => do
    let condition ← .ofAttempt spec.pairCondition
    NestedLoop.run (.ofSpec spec schemas) condition lefts rights
  | .sortMerge =>
    SortMerge.run (.ofSpec spec schemas) spec lefts.extents.flatten rights.extents.flatten
  | .hashTable => HashTable.run (.ofSpec spec schemas) spec lefts rights

/-- Emits the join of prepared inputs.  All extents of both are loaded before any rows are paired,
so nothing is emitted if one of them cannot be loaded.  A join that loads each extent when it comes
to it has emitted some rows by then, and has no use for the extents of one input if the other has
none. -/
def emitJoin (spec : JoinSpec) (algorithm : JoinAlgorithm) (inputs : JoinInputs) :
    Emission JoinStats :=
  let output : Emission Unit := do
    let lefts ← .ofAttempt (inputs.left.extents inputs.disk)
    let rights ← .ofAttempt (inputs.right.extents inputs.disk)
    spec.emitWith inputs.schemas ⟨lefts, inputs.left.extentLengths⟩
      ⟨rights, inputs.right.extentLengths⟩ algorithm
  do
    output
    pure ⟨algorithm, inputs.left.recordCount, inputs.right.recordCount, output.rows.length⟩

/-- Joins two datasets. -/
def execute (spec : JoinSpec) (options : JoinOptions) (inputs : JoinInputs) :
    Emission JoinStats × JoinInputs :=
  match (spec.prepare options).run inputs with
  | (.error fault, inputs) => (.ofAttempt (.error fault), inputs)
  | (.ok algorithm, inputs) => (spec.emitJoin algorithm inputs, inputs)

end JoinSpec
end ExtentEngine
