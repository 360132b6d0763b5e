import ExtentEngine.Binary64.Arithmetic
import ExtentEngine.Dataset.Emission
import ExtentEngine.Expr.Evaluation
import ExtentEngine.Expr.Typing
import ExtentEngine.Join.Method

/-!
# Join specifications

A specification holds what a join is to compute.  Two rows match if their keys are equal
and not null and the residual holds of them; every output record is the projection of a
pair of rows.
-/

namespace ExtentEngine

/-- What to join by and what to emit. -/
structure JoinSpec where
  method : JoinMethod
  leftKey : Key
  rightKey : Key
  /-- The keys are compared column by column. -/
  keys_length : leftKey.length = rightKey.length
  /-- A condition beyond the keys. -/
  residual : Predicate
  /-- The output; without one, the columns of both sides. -/
  projection : Option Projection

namespace JoinSpec

/-- A join by two keys of one length. -/
def new (method : JoinMethod) (leftKey rightKey : Key) : Attempt JoinSpec :=
  if h : leftKey.length = rightKey.length then
    .ok ⟨method, leftKey, rightKey, h, .always, none⟩
  else .error (.keyArities leftKey.length rightKey.length)

/-- A join without keys. -/
def keyless (method : JoinMethod) : JoinSpec := ⟨method, [], [], rfl, .always, none⟩

/-- Fails unless both inputs have the columns of their keys. -/
def validate (spec : JoinSpec) (schemas : SchemaPair) : Attempt Unit := do
  spec.leftKey.validate schemas.left.length
  spec.rightKey.validate schemas.right.length

/-- The projection that computes the output records. -/
def outputProjection (spec : JoinSpec) (schemas : SchemaPair) : Projection :=
  spec.projection.getD (.both schemas.left.length schemas.right.length)

/-- The field of an output expression.  A column keeps its name, and any other expression
is named by its text; padding makes every field nullable. -/
def outputField (schemas : SchemaPair) (expr : Expr) : Attempt Field := do
  let column : Option Field :=
    match expr with
    | .column ref => schemas.field? ref
    | _ => none
  let dataType ← expr.typeIn schemas
  pure ⟨(column.map Field.name).getD (String.ofList expr.display), dataType, true⟩

/-- The schema of the output records. -/
def outputSchema (spec : JoinSpec) (schemas : SchemaPair) : Attempt Schema :=
  match spec.projection with
  | none => .ok (Schema.nullable (schemas.left ++ schemas.right))
  | some projection => projection.mapM (outputField schemas)

/-- Whether there is nothing but the residual to find pairs by. -/
def needsNestedLoop (spec : JoinSpec) : Bool := spec.method = .cross || spec.leftKey.isEmpty

/-- The algorithm for two inputs: sort-merge if both are sorted by their keys, the nested
loop if one is tiny beside the other, and else the hash table. -/
def choose (spec : JoinSpec) (left right : Dataset) (ratio : Binary64) : JoinAlgorithm :=
  if spec.needsNestedLoop then .nestedLoop
  else if left.isSortedBy spec.leftKey && right.isSortedBy spec.rightKey then .sortMerge
  else
    let smaller := min left.recordCount right.recordCount
    let larger := max left.recordCount right.recordCount
    if larger = 0 then .nestedLoop
    else if (Binary64.ofInt smaller / Binary64.ofInt larger).le ratio then .nestedLoop
    else .hashTable

/-- The condition that the nested loop tests: the residual, then the keys. -/
def pairCondition (spec : JoinSpec) : Attempt Predicate :=
  if spec.method = .cross then .ok .always
  else (Predicate.keyEquality spec.leftKey spec.rightKey).map spec.residual.and

end JoinSpec

/-- What the emission of a join needs to know: the projection, the method, and the rows
that pad a side without a partner. -/
structure JoinOutput where
  method : JoinMethod
  projection : Projection
  leftNulls : Record
  rightNulls : Record

namespace JoinOutput

/-- The output of a specification over inputs of the given schemas. -/
def ofSpec (spec : JoinSpec) (schemas : SchemaPair) : JoinOutput :=
  ⟨spec.method, spec.outputProjection schemas, schemas.left.nullRecord,
    schemas.right.nullRecord⟩

/-- Emits a pair of rows. -/
def pair (out : JoinOutput) (left right : Record) : Emission Unit :=
  .project out.projection (.ofPair left right)

/-- Emits a matching pair, if the method does. -/
def matched (out : JoinOutput) (left right : Record) : Emission Unit :=
  if out.method.emitsMatches then out.pair left right else pure ()

/-- Emits a left row without a partner, if the method does. -/
def leftUnmatched (out : JoinOutput) (left : Record) : Emission Unit :=
  if out.method.emitsLeftUnmatched then out.pair left out.rightNulls else pure ()

/-- Emits a right row without a partner, if the method does. -/
def rightUnmatched (out : JoinOutput) (right : Record) : Emission Unit :=
  if out.method.emitsRightUnmatched then out.pair out.leftNulls right else pure ()

end JoinOutput
end ExtentEngine
