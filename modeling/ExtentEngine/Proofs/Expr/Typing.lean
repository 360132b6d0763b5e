import ExtentEngine.Expr.Evaluation
import ExtentEngine.Expr.Typing
import ExtentEngine.Proofs.Arity
import ExtentEngine.Proofs.Attempt

/-!
# Values of expressions have the types of the expressions

A type admits null beside the scalars that are of it, and a schema admits the records with a cell
for each field that the type of the field admits.  On rows that two schemas admit, the value of an
expression is admitted by the type that the expression has in these schemas.

Only arithmetic has a type that depends on those of its operands.  A comparison or a connective is
a truth value or null, whatever it is made of.

Evaluation may fail, but then some value is to blame, so it is free of faults of arity, and so is
finding the type: a column that is not there is another fault.

**Results.**
* `Arithmetic.admits_apply`: the result of arithmetic has the result type of its operands' types.
* `Expr.admits_evaluate`: the value of an expression has the type of the expression.
* `Projection.admits_evaluate`: a record is admitted by a schema with the types of its expressions.
* `Schema.Admits.checkRecord`: records that a schema admits pass its check if nulls are allowed.
* `Expr.ofValues_evaluate`: the faults of evaluation come of the values.
* `Expr.arityFree_typeIn`: finding the type is free of faults of arity.
-/

namespace ExtentEngine

/-- Whether a scalar is of a type or null. -/
def DataType.Admits (type : DataType) (value : Scalar) : Prop :=
  value = .null ∨ value.dataType = type

instance (type : DataType) (value : Scalar) : Decidable (type.Admits value) :=
  inferInstanceAs (Decidable (_ ∨ _))

namespace Schema

/-- Whether a record has one cell for each field, each admitted by the type of its field. -/
def Admits (schema : Schema) (record : Record) : Prop :=
  List.Forall₂ (fun field value => field.dataType.Admits value) schema record

instance (schema : Schema) (record : Record) : Decidable (schema.Admits record) :=
  inferInstanceAs (Decidable (List.Forall₂ _ schema record))

variable {schema : Schema} {record : Record}

theorem Admits.length_eq (h : schema.Admits record) : record.length = schema.length :=
  (List.Forall₂.length_eq h).symm

/-- A cell is admitted by the type of the field in its place. -/
theorem Admits.cell (h : schema.Admits record) {index : Nat} {field : Field} {value : Scalar}
    (hfield : schema[index]? = some field) (hvalue : record.cell index = .ok value) :
    field.dataType.Admits value := by
  obtain ⟨hi, rfl⟩ := List.getElem?_eq_some_iff.1 hfield
  have hi' : index < record.length := h.length_eq.symm ▸ hi
  rw [Record.cell, List.getElem?_eq_getElem hi'] at hvalue
  cases hvalue
  exact List.Forall₂.get h hi hi'

/-- The row that pads a side fits every schema of its length. -/
theorem admits_nullRecord (schema : Schema) : schema.Admits schema.nullRecord := by
  induction schema with
  | nil => exact .nil
  | cons field fields ih => exact .cons (Or.inl rfl) ih

/-- Records that a schema admits pass its check if every field may be null. -/
theorem Admits.checkRecord (h : schema.Admits record)
    (hnullable : ∀ field ∈ schema, field.nullable = true) : schema.checkRecord record = .ok () := by
  rw [checkRecord_eq_ok_iff]
  induction h with
  | nil => trivial
  | @cons field value fields values hvalue _ ih =>
      obtain ⟨hfield, hfields⟩ := List.forall_mem_cons.1 hnullable
      refine ⟨?_, ih hfields⟩
      rw [Field.Fits]
      split
      · exact hfield
      · next hne => exact hvalue.resolve_left hne

end Schema

theorem Scalar.admits_ofTruth (truth : Option Bool) : DataType.boolean.Admits (ofTruth truth) := by
  cases truth with
  | none => exact Or.inl rfl
  | some b => exact Or.inr rfl

theorem Comparison.admits_apply (op : Comparison) (left right : Scalar) :
    DataType.boolean.Admits (op.apply left right) := by
  rw [Comparison.apply]
  split
  · exact Or.inl rfl
  · exact Or.inr rfl

namespace Arithmetic

variable {op : Arithmetic} {left right value : Scalar} {leftType rightType : DataType}

/-- What is computed on floats is a float, or null after a division by zero. -/
theorem admits_applyFloats (h : op.applyFloats left right = .ok value) :
    DataType.float64.Admits value := by
  obtain ⟨a, -, h⟩ := Attempt.bind_eq_ok.1 h
  obtain ⟨b, -, h⟩ := Attempt.bind_eq_ok.1 h
  split at h
  · cases h
    exact Or.inr rfl
  · cases h
    exact Or.inl rfl

/-- Integers give an integer, except in a division. -/
theorem admits_apply_int {m n : Int64} (h : op.apply (.int m) (.int n) = .ok value) :
    (op.resultType .int64 .int64).Admits value := by
  rw [Arithmetic.apply] at h
  split at h
  · next hexact =>
      cases op with
      | div => exact admits_applyFloats h
      | add | sub | mul => cases hexact
  · next exact hexact =>
      split at h
      · cases h
        cases op with
        | div => cases hexact
        | add | sub | mul => exact Or.inr rfl
      · cases h

theorem apply_null (op : Arithmetic) (left : Scalar) : op.apply left .null = .ok .null := by
  cases left <;> rfl

/-- The result of arithmetic has the result type of the types of the operands. -/
theorem admits_apply (hleft : leftType.Admits left) (hright : rightType.Admits right)
    (h : op.apply left right = .ok value) : (op.resultType leftType rightType).Admits value := by
  rcases hleft with rfl | rfl
  · cases h
    exact Or.inl rfl
  rcases hright with rfl | rfl
  · rw [apply_null] at h
    cases h
    exact Or.inl rfl
  -- Now the types are those of the values, and only integers do not become floats.
  cases left with
  | null =>
      cases h
      exact Or.inl rfl
  | int m =>
      cases right with
      | null =>
          cases h
          exact Or.inl rfl
      | int n => exact admits_apply_int h
      | bool | float | text => exact admits_applyFloats h
  | bool | float | text =>
      cases right with
      | null =>
          cases h
          exact Or.inl rfl
      | bool | int | float | text => exact admits_applyFloats h

end Arithmetic

namespace Expr

variable {binding : Binding} {op : Connective} {value : Scalar}

/-- A connective is a truth value or null. -/
theorem admits_evaluateMembers {sawNull : Bool} {members : List Expr}
    (h : evaluateMembers binding op sawNull members = .ok value) :
    DataType.boolean.Admits value := by
  induction members generalizing sawNull with
  | nil =>
      rw [evaluateMembers] at h
      cases h
      exact Scalar.admits_ofTruth _
  | cons member members ih =>
      rw [evaluateMembers] at h
      obtain ⟨a, -, h⟩ := Attempt.bind_eq_ok.1 h
      obtain ⟨truth, -, h⟩ := Attempt.bind_eq_ok.1 h
      cases truth with
      | none => exact ih h
      | some b =>
          simp only at h
          split at h
          · cases h
            exact Or.inr rfl
          · exact ih h

variable {schemas : SchemaPair} {left right : Record}

/-- On rows that the schemas admit, a column has the type of its field. -/
theorem admits_column (hleft : schemas.left.Admits left) (hright : schemas.right.Admits right)
    {ref : ColumnRef} {type : DataType} (htype : typeIn schemas (.column ref) = .ok type)
    (h : evaluate (.ofPair left right) (.column ref) = .ok value) : type.Admits value := by
  rw [typeIn] at htype
  split at htype
  · next field hfield =>
      cases htype
      rw [evaluate] at h
      obtain ⟨record, hrecord, hcell⟩ := Attempt.bind_eq_ok.1 h
      obtain ⟨side, index⟩ := ref
      cases side with
      | left =>
          cases hrecord
          exact hleft.cell hfield hcell
      | right =>
          cases hrecord
          exact hright.cell hfield hcell
  · cases htype

/-- On rows that the schemas admit, the value of an expression has the type of the expression. -/
theorem admits_evaluate (hleft : schemas.left.Admits left) (hright : schemas.right.Admits right) :
    ∀ {expr : Expr} {type : DataType} {value : Scalar}, expr.typeIn schemas = .ok type →
      expr.evaluate (.ofPair left right) = .ok value → type.Admits value
  | .column ref, type, value, htype, h => admits_column hleft hright htype h
  | .literal scalar, type, value, htype, h => by
      rw [typeIn] at htype
      rw [evaluate] at h
      cases htype
      cases h
      exact Or.inr rfl
  | .compare op a b, type, value, htype, h => by
      rw [typeIn] at htype
      rw [evaluate] at h
      cases htype
      obtain ⟨x, -, h⟩ := Attempt.bind_eq_ok.1 h
      obtain ⟨y, -, h⟩ := Attempt.bind_eq_ok.1 h
      cases h
      exact op.admits_apply x y
  | .connect op members, type, value, htype, h => by
      rw [typeIn] at htype
      rw [evaluate] at h
      cases htype
      exact admits_evaluateMembers h
  | .not operand, type, value, htype, h => by
      rw [typeIn] at htype
      rw [evaluate] at h
      cases htype
      obtain ⟨x, -, h⟩ := Attempt.bind_eq_ok.1 h
      obtain ⟨truth, -, h⟩ := Attempt.bind_eq_ok.1 h
      cases h
      exact Scalar.admits_ofTruth _
  | .isNull operand, type, value, htype, h => by
      rw [typeIn] at htype
      rw [evaluate] at h
      cases htype
      obtain ⟨x, -, h⟩ := Attempt.bind_eq_ok.1 h
      cases h
      exact Or.inr rfl
  | .arithmetic op a b, type, value, htype, h => by
      rw [typeIn] at htype
      rw [evaluate] at h
      obtain ⟨s, hs, htype⟩ := Attempt.bind_eq_ok.1 htype
      obtain ⟨t, ht, htype⟩ := Attempt.bind_eq_ok.1 htype
      cases htype
      obtain ⟨x, hx, h⟩ := Attempt.bind_eq_ok.1 h
      obtain ⟨y, hy, h⟩ := Attempt.bind_eq_ok.1 h
      exact Arithmetic.admits_apply (admits_evaluate hleft hright hs hx)
        (admits_evaluate hleft hright ht hy) h

end Expr

namespace Projection

variable {schemas : SchemaPair} {schema : Schema} {projection : Projection}
  {left right record : Record}

/-- Whether the fields of a schema have the types of the expressions of a projection. -/
def TypedBy (schemas : SchemaPair) (schema : Schema) (projection : Projection) : Prop :=
  List.Forall₂ (fun expr field => expr.typeIn schemas = .ok field.dataType) projection schema

/-- A record that a projection computes is admitted by a schema with the types of its
expressions. -/
theorem admits_evaluate (htyped : projection.TypedBy schemas schema)
    (hleft : schemas.left.Admits left) (hright : schemas.right.Admits right)
    (h : projection.evaluate (.ofPair left right) = .ok record) : schema.Admits record := by
  have hcells := Attempt.mapM_eq_ok.1 h
  have hlength : schema.length = record.length := htyped.length_eq.symm.trans hcells.length_eq
  refine List.forall₂_iff_get.2 ⟨hlength, fun i hi hi' => ?_⟩
  have hexpr : i < projection.length := htyped.length_eq.symm ▸ hi
  exact Expr.admits_evaluate hleft hright (htyped.get hexpr hi) (hcells.get hexpr hi')

end Projection

/-- Whether a fault comes of the values that an expression is evaluated on. -/
def Fault.isOfValues : Fault → Bool
  | .needed _ => true
  | .notNumeric _ => true
  | .notBoolean _ => true
  | .cellMissing _ _ => true
  | .integerOverflow _ _ _ => true
  | _ => false

theorem Fault.isArity_of_isOfValues {fault : Fault} (h : fault.isOfValues = true) :
    fault.isArity = false := by
  cases fault <;> first | rfl | cases h

/-- Whether an attempt fails in a fault that comes of values only. -/
abbrev Attempt.OfValues {α : Type} (attempt : Attempt α) : Prop :=
  attempt.EndsIn fun fault => fault.isOfValues = true

namespace Scalar

theorem ofValues_number? (value : Scalar) : value.number?.OfValues := by
  cases value with
  | null | int | float => exact .ok _
  | bool | text => exact .error rfl

theorem ofValues_truth? (value : Scalar) : value.truth?.OfValues := by
  cases value with
  | null | bool => exact .ok _
  | int | float | text => exact .error rfl

end Scalar

namespace Arithmetic

theorem ofValues_applyFloats (op : Arithmetic) (left right : Scalar) :
    (op.applyFloats left right).OfValues := by
  refine (left.ofValues_number?).bind fun a => (right.ofValues_number?).bind fun b => ?_
  split
  · exact .ok _
  · exact .ok _

theorem ofValues_apply (op : Arithmetic) (left right : Scalar) :
    (op.apply left right).OfValues := by
  rw [Arithmetic.apply.eq_def]
  split
  · exact .ok _
  · exact .ok _
  · split
    · exact ofValues_applyFloats _ _ _
    · split
      · exact .ok _
      · exact .error rfl
  · exact ofValues_applyFloats _ _ _

end Arithmetic

namespace Expr

variable (binding : Binding)

theorem ofValues_column (ref : ColumnRef) : (evaluate binding (.column ref)).OfValues := by
  rw [evaluate]
  refine Attempt.EndsIn.bind ?_ fun record => ?_
  · rw [Register.current.eq_def]
    split
    · exact .ok _
    · exact .error rfl
  · rw [Record.cell]
    split
    · exact .ok _
    · exact .error rfl

mutual

/-- What evaluation fails in has come of the values. -/
theorem ofValues_evaluate : ∀ expr : Expr, (evaluate binding expr).OfValues
  | .column ref => ofValues_column binding ref
  | .literal scalar => by
      rw [evaluate]
      exact .ok scalar
  | .compare op a b => by
      rw [evaluate]
      exact (ofValues_evaluate a).bind fun _ => (ofValues_evaluate b).bind fun _ => .ok _
  | .connect op members => by
      rw [evaluate]
      exact ofValues_evaluateMembers op false members
  | .arithmetic op a b => by
      rw [evaluate]
      exact (ofValues_evaluate a).bind fun x => (ofValues_evaluate b).bind fun y =>
        op.ofValues_apply x y
  | .not operand => by
      rw [evaluate]
      exact (ofValues_evaluate operand).bind fun x => x.ofValues_truth?.bind fun _ => .ok _
  | .isNull operand => by
      rw [evaluate]
      exact (ofValues_evaluate operand).bind fun _ => .ok _

theorem ofValues_evaluateMembers (op : Connective) (sawNull : Bool) :
    ∀ members : List Expr, (evaluateMembers binding op sawNull members).OfValues
  | [] => by
      rw [evaluateMembers]
      exact .ok _
  | member :: members => by
      rw [evaluateMembers]
      refine (ofValues_evaluate member).bind fun x => x.ofValues_truth?.bind fun truth => ?_
      cases truth with
      | none => exact ofValues_evaluateMembers op true members
      | some b =>
          simp only
          split
          · exact .ok _
          · exact ofValues_evaluateMembers op sawNull members

end

/-- Finding the type of an expression is free of faults of arity. -/
theorem arityFree_typeIn (schemas : SchemaPair) : ∀ expr : Expr, (expr.typeIn schemas).ArityFree
  | .column ref => by
      rw [typeIn]
      split
      · exact .ok _
      · exact .error rfl
  | .literal _ | .compare _ _ _ | .connect _ _ | .not _ | .isNull _ => by
      rw [typeIn]
      exact .ok _
  | .arithmetic op a b => by
      rw [typeIn]
      exact (arityFree_typeIn schemas a).bind fun _ => (arityFree_typeIn schemas b).bind fun _ =>
        .ok _

end Expr

namespace Predicate

theorem ofValues_holds (p : Predicate) (binding : Binding) : (p.holds binding).OfValues := by
  rw [holds]
  split
  · exact .ok true
  · exact (p.expr.ofValues_evaluate binding).bind fun x => x.ofValues_truth?.bind fun _ => .ok _

theorem arityFree_holds (p : Predicate) (binding : Binding) : (p.holds binding).ArityFree :=
  (p.ofValues_holds binding).mono fun _ => Fault.isArity_of_isOfValues

end Predicate

theorem Projection.ofValues_evaluate (projection : Projection) (binding : Binding) :
    (projection.evaluate binding).OfValues :=
  .mapM (fun expr => expr.ofValues_evaluate binding) _

theorem Projection.arityFree_evaluate (projection : Projection) (binding : Binding) :
    (projection.evaluate binding).ArityFree :=
  (projection.ofValues_evaluate binding).mono fun _ => Fault.isArity_of_isOfValues

end ExtentEngine
