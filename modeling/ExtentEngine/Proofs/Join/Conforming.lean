import ExtentEngine.Proofs.Dataset.Typed
import ExtentEngine.Proofs.Join.Execute
import ExtentEngine.Proofs.Join.Parts

/-!
# Joins of typed inputs

A join pairs rows of its inputs with one another and with rows of nulls, and all of these are
admitted by the schemas of the inputs.  So whatever the method and the algorithm are, and also if
the join fails in the end, the records that it emits have the types of its output expressions.

**Results.**
* `outputSchema_typed`: the output schema has the types of the output expressions.
* `yields_emitWith`: what every algorithm emits of rows that the schemas admit.
* `yields_execute`: what a join of typed inputs emits.
-/

namespace ExtentEngine

theorem Schema.nullable_of_mem_nullable {schema : Schema} {field : Field}
    (h : field ∈ schema.nullable) : field.nullable = true := by
  obtain ⟨original, -, rfl⟩ := List.mem_map.1 h
  rfl

namespace Projection

variable {schemas : SchemaPair}

/-- The columns of one side have the types of its fields. -/
theorem typedBy_columns (side : Side) :
    TypedBy schemas (schemas.schema side).nullable
      ((List.range (schemas.schema side).length).map fun index => .column ⟨side, index⟩) := by
  refine List.forall₂_iff_get.2 ⟨by simp [Schema.nullable], fun i hi hi' => ?_⟩
  have hi : i < (schemas.schema side).length := by simpa using hi
  simp [Expr.typeIn, SchemaPair.field?, Schema.nullable, List.getElem?_eq_getElem hi]

theorem typedBy_both : TypedBy schemas (Schema.nullable (schemas.left ++ schemas.right))
    (both schemas.left.length schemas.right.length) := by
  rw [Schema.nullable, List.map_append]
  exact List.rel_append (typedBy_columns .left) (typedBy_columns .right)

end Projection

namespace JoinSpec

variable {spec : JoinSpec} {schemas : SchemaPair} {schema : Schema}

theorem outputField_typed {expr : Expr} {field : Field}
    (h : outputField schemas expr = .ok field) :
    expr.typeIn schemas = .ok field.dataType ∧ field.nullable = true := by
  obtain ⟨dataType, htype, h⟩ := Attempt.bind_eq_ok.1 h
  cases h
  exact ⟨htype, rfl⟩

/-- The output schema has the types of the output expressions, and every field may be null. -/
theorem outputSchema_typed (h : spec.outputSchema schemas = .ok schema) :
    (spec.outputProjection schemas).TypedBy schemas schema ∧
      ∀ field ∈ schema, field.nullable = true := by
  rw [outputSchema] at h
  rw [outputProjection]
  cases hprojection : spec.projection with
  | none =>
      rw [hprojection] at h
      cases h
      exact ⟨Projection.typedBy_both, fun _ => Schema.nullable_of_mem_nullable⟩
  | some projection =>
      rw [hprojection] at h
      have hfields := Attempt.mapM_eq_ok.1 h
      refine ⟨hfields.imp fun _ _ hfield => (outputField_typed hfield).1, fun field hfield => ?_⟩
      obtain ⟨expr, -, hexpr⟩ := exists_of_mem_right hfields hfield
      exact (outputField_typed hexpr).2

theorem arityFree_outputSchema (spec : JoinSpec) (schemas : SchemaPair) :
    (spec.outputSchema schemas).ArityFree := by
  rw [outputSchema]
  split
  · exact .ok _
  · exact .mapM (fun expr => (expr.arityFree_typeIn schemas).bind fun _ => .ok _) _

end JoinSpec

namespace MatchFlags

theorem arityFree_mark (flags : MatchFlags) (row : Nat) : (flags.mark row).ArityFree := by
  rw [mark]
  split
  · exact .ok _
  · exact .error rfl

theorem arityFree_unmatched (flags : MatchFlags) (first last : Nat) :
    (flags.unmatched first last).ArityFree := by
  refine Attempt.EndsIn.map ?_ _
  rw [range]
  split
  · exact .ok _
  · exact .error rfl

end MatchFlags

namespace MatchScan

theorem arityFree_seek (scan : MatchScan) (position : Nat) (flags : List Bool) :
    (scan.seek position flags).1.ArityFree := by
  induction flags generalizing position with
  | nil => exact .error rfl
  | cons flag flags ih =>
      rw [seek]
      split
      · exact .ok _
      · exact ih (position + 1)

theorem arityFree_take (count : Nat) (scan : MatchScan) : (take count scan).ArityFree := by
  induction count generalizing scan with
  | zero => exact .ok _
  | succ count ih =>
      have hnext : scan.next.1.ArityFree := by
        rw [next]
        split
        · exact .ok _
        · exact arityFree_seek _ _ _
      rw [take]
      split
      · next hfault => exact .error (hnext _ (congrArg Prod.fst hfault))
      · exact .ok _
      · exact (ih _).map _

end MatchScan

theorem arityFree_rowAt (extent : Extent) (row : Nat) : (rowAt extent row).ArityFree := by
  rw [rowAt]
  split
  · exact .ok _
  · exact .error rfl

theorem mem_of_rowAt {extent : Extent} {row : Nat} {record : Record}
    (h : rowAt extent row = .ok record) : record ∈ extent := by
  rw [rowAt] at h
  split at h
  · next hrecord =>
      cases h
      exact List.mem_of_getElem? hrecord
  · cases h

namespace HashTable

theorem arityFree_rowOf (extents : List Extent) (id : RowId) : (rowOf extents id).ArityFree := by
  rw [rowOf]
  split
  · exact arityFree_rowAt _ _
  · exact .error rfl

theorem mem_of_rowOf {extents : List Extent} {id : RowId} {record : Record}
    (h : rowOf extents id = .ok record) : record ∈ extents.flatten := by
  rw [rowOf] at h
  split at h
  · next hextent =>
      exact List.mem_flatten.2 ⟨_, List.mem_of_getElem? hextent, mem_of_rowAt h⟩
  · cases h

theorem arityFree_positionOf (offsets : List Nat) (id : RowId) :
    (positionOf offsets id).ArityFree := by
  rw [positionOf]
  split
  · exact .ok _
  · exact .error rfl

end HashTable

open Emission (Yields)

variable {kind : Record → Prop}

/-- Emitting rows without a partner, if any such row can be emitted. -/
theorem yields_emitUnmatched {emitRow : Record → Emission Unit} {extents : List Extent}
    (h : ∀ record ∈ extents.flatten, (emitRow record).Yields kind) (flags : MatchFlags)
    (offset : Nat) : (emitUnmatched emitRow flags offset extents).Yields kind := by
  induction extents generalizing offset with
  | nil => exact .pure ()
  | cons extent extents ih =>
      obtain ⟨hextent, hextents⟩ := List.forall_mem_append.1 h
      refine Yields.bind (.of_attempt (flags.arityFree_unmatched _ _)) fun scan _ => ?_
      refine Yields.bind (.of_attempt ((scan.arityFree_take _).map _)) fun rows _ => ?_
      refine Yields.bind (.forEach fun row _ => ?_) fun _ _ => ih hextents _
      exact Yields.bind (.of_attempt (arityFree_rowAt extent row)) fun record hrecord =>
        hextent record (mem_of_rowAt hrecord)

namespace JoinOutput

/-- Whether pairs of rows that the schemas admit can be emitted: what is emitted is of a kind, and
the rows of nulls are among those rows. -/
structure Emits (out : JoinOutput) (schemas : SchemaPair) (kind : Record → Prop) : Prop where
  pair : ∀ left right, schemas.left.Admits left → schemas.right.Admits right →
    (out.pair left right).Yields kind
  leftNulls : schemas.left.Admits out.leftNulls
  rightNulls : schemas.right.Admits out.rightNulls

namespace Emits

variable {out : JoinOutput} {schemas : SchemaPair} {left right : Record}

theorem matched (h : out.Emits schemas kind) (hleft : schemas.left.Admits left)
    (hright : schemas.right.Admits right) : (out.matched left right).Yields kind :=
  .ite (h.pair left right hleft hright) _

theorem leftUnmatched (h : out.Emits schemas kind) (hleft : schemas.left.Admits left) :
    (out.leftUnmatched left).Yields kind :=
  .ite (h.pair left _ hleft h.rightNulls) _

theorem rightUnmatched (h : out.Emits schemas kind) (hright : schemas.right.Admits right) :
    (out.rightUnmatched right).Yields kind :=
  .ite (h.pair _ right h.leftNulls hright) _

/-- Whatever the condition is, and whether or not there are flags for the rows. -/
theorem test (h : out.Emits schemas kind) (hleft : schemas.left.Admits left)
    (hright : schemas.right.Admits right) (condition : Predicate) (leftRow rightRow : Nat)
    (flags : PairFlags) : (out.test condition left right leftRow rightRow flags).Yields kind := by
  refine Yields.bind (.of_attempt (condition.arityFree_holds _)) fun holds _ => ?_
  split
  · have hmark : (flags.mark leftRow rightRow).ArityFree :=
      (flags.left.arityFree_mark leftRow).bind fun _ =>
        (flags.right.arityFree_mark rightRow).bind fun _ => .ok _
    exact Yields.bind (.of_attempt hmark) fun _ _ =>
      Yields.bind (h.matched hleft hright) fun _ _ => .pure _
  · exact .pure flags

section NestedLoop

theorem extentWithExtent (h : out.Emits schemas kind) {condition : Predicate}
    {left right : Extent} (hleft : ∀ record ∈ left, schemas.left.Admits record)
    (hright : ∀ record ∈ right, schemas.right.Admits record) (offset : Nat) (flags : PairFlags) :
    (NestedLoop.extentWithExtent out condition left right offset flags).Yields kind := by
  refine .foldlM (fun item hitem flags => .foldlM (fun item' hitem' flags => ?_) flags) flags
  exact h.test (hleft _ (List.fst_mem_of_mem_zipIdx hitem))
    (hright _ (List.fst_mem_of_mem_zipIdx hitem')) _ _ _ _

theorem extentWithAll (h : out.Emits schemas kind) {condition : Predicate} {left : Extent}
    {rights : List Extent} (hleft : ∀ record ∈ left, schemas.left.Admits record)
    (hrights : ∀ record ∈ rights.flatten, schemas.right.Admits record) (offset : Nat)
    (flags : PairFlags) :
    (NestedLoop.extentWithAll out condition left offset flags rights).Yields kind := by
  induction rights generalizing offset flags with
  | nil => exact .pure flags
  | cons right rights ih =>
      obtain ⟨hright, hrights⟩ := List.forall_mem_append.1 hrights
      exact Yields.bind (h.extentWithExtent hleft hright offset flags) fun flags _ =>
        ih hrights _ flags

theorem leftExtents (h : out.Emits schemas kind) {condition : Predicate}
    {lefts rights : List Extent} (hlefts : ∀ record ∈ lefts.flatten, schemas.left.Admits record)
    (hrights : ∀ record ∈ rights.flatten, schemas.right.Admits record) (rightFlags : MatchFlags) :
    (NestedLoop.leftExtents out condition rights rightFlags lefts).Yields kind := by
  induction lefts generalizing rightFlags with
  | nil => exact .pure rightFlags
  | cons left lefts ih =>
      obtain ⟨hleft, hlefts⟩ := List.forall_mem_append.1 hlefts
      have hunmatched : ∀ record ∈ [left].flatten, (out.leftUnmatched record).Yields kind := by
        rw [List.flatten_singleton]
        exact fun record hrecord => h.leftUnmatched (hleft record hrecord)
      rw [NestedLoop.leftExtents]
      refine Yields.bind (h.extentWithAll hleft hrights 0 _) fun flags _ => ?_
      rw [Emission.ite_bind]
      exact Yields.bind (.ite (yields_emitUnmatched hunmatched flags.left 0) _) fun _ _ =>
        ih hlefts flags.right

theorem nestedLoop (h : out.Emits schemas kind) (condition : Predicate) {lefts rights : JoinSide}
    (hlefts : ∀ record ∈ lefts.extents.flatten, schemas.left.Admits record)
    (hrights : ∀ record ∈ rights.extents.flatten, schemas.right.Admits record) :
    (NestedLoop.run out condition lefts rights).Yields kind :=
  Yields.bind (h.leftExtents hlefts hrights _) fun flags _ =>
    .ite (yields_emitUnmatched (fun record hrecord => h.rightUnmatched (hrights record hrecord))
      flags 0) _

end NestedLoop

/-- The rows of a part are rows of the inputs. -/
theorem sortMerge (h : out.Emits schemas kind) (spec : JoinSpec) {lefts rights : List Record}
    (hlefts : ∀ record ∈ lefts, schemas.left.Admits record)
    (hrights : ∀ record ∈ rights, schemas.right.Admits record) :
    (SortMerge.run out spec lefts rights).Yields kind := by
  rw [SortMerge.run_eq_parts]
  refine .forEach fun part hpart => h.nestedLoop _ ?_ ?_
  · intro record hrecord
    rw [JoinSide.ofExtents, flatten_singletons] at hrecord
    exact hlefts record (SortMerge.lefts_subset_of_mem_parts hpart hrecord)
  · intro record hrecord
    rw [JoinSide.ofExtents, List.flatten_singleton] at hrecord
    exact hrights record (SortMerge.rights_subset_of_mem_parts hpart hrecord)

section HashTable

variable {condition : Predicate} {lefts rights : JoinSide}

theorem testTuple (h : out.Emits schemas kind)
    (hlefts : ∀ record ∈ lefts.extents.flatten, schemas.left.Admits record)
    (hrights : ∀ record ∈ rights.extents.flatten, schemas.right.Admits record)
    (flags : PairFlags) (tuple : RowId × RowId) :
    (HashTable.testTuple out condition (.ofNoted lefts) (.ofNoted rights) flags
      tuple).Yields kind := by
  refine Yields.bind (.of_attempt (HashTable.arityFree_rowOf _ _)) fun left hleft => ?_
  refine Yields.bind (.of_attempt (HashTable.arityFree_rowOf _ _)) fun right hright => ?_
  refine Yields.bind (.of_attempt (HashTable.arityFree_positionOf _ _)) fun leftRow _ => ?_
  refine Yields.bind (.of_attempt (HashTable.arityFree_positionOf _ _)) fun rightRow _ => ?_
  exact h.test (hlefts left (HashTable.mem_of_rowOf hleft))
    (hrights right (HashTable.mem_of_rowOf hright)) _ _ _ flags

theorem hashTable (h : out.Emits schemas kind) (spec : JoinSpec)
    (hlefts : ∀ record ∈ lefts.extents.flatten, schemas.left.Admits record)
    (hrights : ∀ record ∈ rights.extents.flatten, schemas.right.Admits record) :
    (HashTable.run out spec lefts rights).Yields kind := by
  refine Yields.bind (.foldlM (fun tuple _ flags => h.testTuple hlefts hrights flags tuple) _)
    fun flags _ => ?_
  rw [Emission.ite_bind]
  refine Yields.bind (.ite (yields_emitUnmatched (fun record hrecord =>
    h.leftUnmatched (hlefts record hrecord)) flags.left 0) _) fun _ _ => ?_
  exact .ite (yields_emitUnmatched (fun record hrecord =>
    h.rightUnmatched (hrights record hrecord)) flags.right 0) _

end HashTable
end Emits
end JoinOutput

namespace JoinInputs

/-- Both inputs are typed. -/
structure Typed (inputs : JoinInputs) : Prop where
  left : inputs.left.Typed inputs.disk
  right : inputs.right.Typed inputs.disk

/-- Typed inputs of the given schemas. -/
structure TypedBy (schemas : SchemaPair) (inputs : JoinInputs) : Prop extends inputs.Typed where
  schemas : inputs.schemas = schemas

variable {inputs : JoinInputs} {schemas : SchemaPair}

theorem keeps_sortLeft (key : Key) (h : inputs.TypedBy schemas) :
    (sortLeft key).Keeps (TypedBy schemas) inputs := by
  obtain ⟨⟨hschema, hleft, hright⟩, hresult⟩ :=
    Dataset.keeps_sort (s := (inputs.left, inputs.disk)) key ⟨rfl, h.left, h.right⟩
  refine ⟨⟨⟨hleft, hright⟩, ?_⟩, hresult⟩
  rw [← h.schemas]
  exact congrArg (SchemaPair.mk · inputs.right.schema) hschema

theorem keeps_sortRight (key : Key) (h : inputs.TypedBy schemas) :
    (sortRight key).Keeps (TypedBy schemas) inputs := by
  obtain ⟨⟨hschema, hright, hleft⟩, hresult⟩ :=
    Dataset.keeps_sort (s := (inputs.right, inputs.disk)) key ⟨rfl, h.right, h.left⟩
  refine ⟨⟨⟨hleft, hright⟩, ?_⟩, hresult⟩
  rw [← h.schemas]
  exact congrArg (SchemaPair.mk inputs.left.schema ·) hschema

end JoinInputs

namespace JoinSpec

variable {spec : JoinSpec} {inputs : JoinInputs} {schemas : SchemaPair} {schema : Schema}

theorem keeps_prepare (spec : JoinSpec) (options : JoinOptions) (h : inputs.TypedBy schemas) :
    (spec.prepare options).Keeps (JoinInputs.TypedBy schemas) inputs := by
  refine Step.Keeps.get_bind ?_
  have hvalidate : (spec.validate inputs.schemas).ArityFree :=
    (spec.leftKey.arityFree_validate _).bind fun _ => spec.rightKey.arityFree_validate _
  refine (Step.Keeps.of_attempt h hvalidate).bind fun _ u _ hu => ?_
  simp only
  split
  · exact (JoinInputs.keeps_sortLeft _ hu).bind fun _ _ _ hv =>
      (JoinInputs.keeps_sortRight _ hv).bind fun _ _ _ hw => .pure hw _
  · exact .pure hu _

/-- The records that a pair of rows gives are admitted by the output schema. -/
theorem emits_ofSpec (hschema : spec.outputSchema schemas = .ok schema) :
    (JoinOutput.ofSpec spec schemas).Emits schemas schema.Admits where
  pair left right hleft hright := by
    refine Yields.bind (.of_attempt (Projection.arityFree_evaluate _ _)) fun record hrecord => ?_
    refine ⟨List.forall_mem_singleton.2 ?_, .ok ()⟩
    exact Projection.admits_evaluate (outputSchema_typed hschema).1 hleft hright hrecord
  leftNulls := schemas.left.admits_nullRecord
  rightNulls := schemas.right.admits_nullRecord

/-- Whatever the algorithm is. -/
theorem yields_emitWith {lefts rights : JoinSide}
    (hschema : spec.outputSchema schemas = .ok schema)
    (hlefts : ∀ record ∈ lefts.extents.flatten, schemas.left.Admits record)
    (hrights : ∀ record ∈ rights.extents.flatten, schemas.right.Admits record)
    (algorithm : JoinAlgorithm) :
    (spec.emitWith schemas lefts rights algorithm).Yields schema.Admits := by
  have hemits := emits_ofSpec hschema
  cases algorithm with
  | nestedLoop =>
      obtain ⟨condition, hcondition⟩ := spec.exists_condition
      rw [emitWith, hcondition, Emission.bind_ofAttempt_ok]
      exact hemits.nestedLoop condition hlefts hrights
  | sortMerge => exact hemits.sortMerge spec hlefts hrights
  | hashTable => exact hemits.hashTable spec hlefts hrights

theorem yields_emitJoin (hschema : spec.outputSchema schemas = .ok schema)
    (h : inputs.TypedBy schemas) (algorithm : JoinAlgorithm) :
    (spec.emitJoin algorithm inputs).Yields schema.Admits := by
  obtain ⟨⟨hleft, hright⟩, rfl⟩ := h
  refine Yields.bind (Yields.bind (.of_attempt (Dataset.arityFree_extents _ _)) fun lefts hlefts =>
    Yields.bind (.of_attempt (Dataset.arityFree_extents _ _)) fun rights hrights => ?_)
    fun _ _ => .pure _
  have hlefts : ∀ record ∈ lefts.flatten, inputs.left.schema.Admits record :=
    hleft.of_extents hlefts
  have hrights : ∀ record ∈ rights.flatten, inputs.right.schema.Admits record :=
    hright.of_extents hrights
  exact yields_emitWith hschema hlefts hrights algorithm

/-- What a join of typed inputs emits is admitted by the output schema, also if it fails. -/
theorem yields_execute (options : JoinOptions) (h : inputs.Typed)
    (hschema : spec.outputSchema inputs.schemas = .ok schema) :
    (spec.execute options inputs).1.Yields schema.Admits := by
  obtain ⟨hstate, hresult⟩ := spec.keeps_prepare options ⟨h, rfl⟩
  rw [execute]
  rcases hrun : (spec.prepare options).run inputs with ⟨result, prepared⟩
  rw [hrun] at hstate hresult
  cases result with
  | error fault => exact .of_attempt (.error (hresult fault rfl))
  | ok algorithm => exact yields_emitJoin hschema hstate algorithm

end JoinSpec
end ExtentEngine
