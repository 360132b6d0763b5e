import ExtentEngine.Proofs.Expr.Predicate
import Mathlib.Order.Basic
import Mathlib.Order.MinMax

/-!
# Three-valued logic

Null stands between false and true.  In this order a conjunction is the least of its members and
true without any, and a disjunction is the greatest of its members and false without any.

Evaluation goes through the members from left to right and keeps of those before no more than
whether one was null.  This is enough: until a member decides, all of them together come to null
or to the value without members (`Connective.pending`).

**Results.**
* `Connective.combine_append` and `combine_perm`: members may be grouped and permuted.
* `Connective.not_combine`: the laws of De Morgan.
* `Expr.evaluateMembers_eq`: evaluation combines the values of the members.
-/

namespace ExtentEngine

/-- A truth value. -/
inductive Kleene
  | false
  | null
  | true
deriving DecidableEq, Repr

namespace Kleene

/-- The place of a truth value in the order. -/
def rank : Kleene → Nat
  | .false => 0
  | .null => 1
  | .true => 2

theorem rank_injective : Function.Injective rank := by
  intro a b h
  cases a <;> cases b <;> first | rfl | cases h

instance : LinearOrder Kleene := LinearOrder.lift' rank rank_injective

/-- Exchanges true and false. -/
def not : Kleene → Kleene
  | .false => .true
  | .null => .null
  | .true => .false

/-- The truth value as evaluation has it, where null is none. -/
def truth : Kleene → Option Bool
  | .false => some Bool.false
  | .null => none
  | .true => some Bool.true

def ofTruth : Option Bool → Kleene
  | some b => if b then .true else .false
  | none => .null

theorem ofTruth_truth (k : Kleene) : ofTruth k.truth = k := by
  cases k <;> rfl

/-- The scalar that stands for a truth value. -/
def scalar (k : Kleene) : Scalar := .ofTruth k.truth

end Kleene

/-- The truth value that a scalar stands for. -/
def Scalar.kleene? (value : Scalar) : Attempt Kleene := value.truth?.map Kleene.ofTruth

@[simp]
theorem Scalar.kleene?_scalar (k : Kleene) : k.scalar.kleene? = .ok k := by
  rw [kleene?, Kleene.scalar, truth?_ofTruth]
  exact congrArg Except.ok k.ofTruth_truth

namespace Connective

variable (op : Connective)

/-- The connective of two members. -/
def apply : Connective → Kleene → Kleene → Kleene
  | and => min
  | or => max

/-- The value without members. -/
def unit : Connective → Kleene
  | and => .true
  | or => .false

/-- The value over members with the given values. -/
def combine (values : List Kleene) : Kleene := values.foldr op.apply op.unit

/-- The connective that takes the place of another under a negation. -/
def dual : Connective → Connective
  | and => or
  | or => and

instance : Std.Associative op.apply where
  assoc a b c := by
    cases op
    · exact min_assoc a b c
    · exact max_assoc a b c

instance : Std.Commutative op.apply where
  comm a b := by
    cases op
    · exact min_comm a b
    · exact max_comm a b

theorem unit_apply (k : Kleene) : op.apply op.unit k = k := by
  cases op <;> cases k <;> rfl

theorem apply_unit (k : Kleene) : op.apply k op.unit = k :=
  (Std.Commutative.comm k op.unit).trans (op.unit_apply k)

/-- The negation of the unit decides. -/
theorem not_unit_apply (k : Kleene) : op.apply op.unit.not k = op.unit.not := by
  cases op <;> cases k <;> rfl

theorem apply_not_unit (k : Kleene) : op.apply k op.unit.not = op.unit.not :=
  (Std.Commutative.comm k op.unit.not).trans (op.not_unit_apply k)

/-- A member is null, changes nothing or decides. -/
theorem eq_null_or_unit (k : Kleene) : k = .null ∨ k = op.unit ∨ k = op.unit.not := by
  cases op <;> cases k <;> decide

theorem truth_unit : op.unit.truth = some !op.deciding := by
  cases op <;> rfl

theorem truth_not_unit : op.unit.not.truth = some op.deciding := by
  cases op <;> rfl

theorem not_apply (a b : Kleene) : (op.apply a b).not = op.dual.apply a.not b.not := by
  cases op <;> cases a <;> cases b <;> rfl

@[simp]
theorem combine_nil : op.combine [] = op.unit := rfl

@[simp]
theorem combine_cons (k : Kleene) (values : List Kleene) :
    op.combine (k :: values) = op.apply k (op.combine values) := rfl

theorem combine_append (first last : List Kleene) :
    op.combine (first ++ last) = op.apply (op.combine first) (op.combine last) := by
  induction first with
  | nil => exact (op.unit_apply _).symm
  | cons k first ih =>
      rw [List.cons_append, combine_cons, ih, combine_cons]
      exact (Std.Associative.assoc k (op.combine first) (op.combine last)).symm

/-- A member may be replaced by members that come to its value. -/
theorem combine_flatten (before inner after : List Kleene) :
    op.combine (before ++ op.combine inner :: after) = op.combine (before ++ inner ++ after) := by
  rw [combine_append, combine_cons, combine_append, combine_append]
  exact (Std.Associative.assoc _ _ _).symm

theorem combine_perm {values values' : List Kleene} (h : values.Perm values') :
    op.combine values = op.combine values' :=
  h.foldr_eq op.unit

/-- The laws of De Morgan. -/
theorem not_combine (values : List Kleene) :
    (op.combine values).not = op.dual.combine (values.map Kleene.not) := by
  induction values with
  | nil => cases op <;> rfl
  | cons k values ih => rw [combine_cons, not_apply, ih, List.map_cons, combine_cons]

/-- What members come to of which none decides and some may be null. -/
def pending (sawNull : Bool) : Kleene := if sawNull then .null else op.unit

theorem scalar_pending (sawNull : Bool) :
    (op.pending sawNull).scalar = .ofTruth (op.undecided sawNull) := by
  cases op <;> cases sawNull <;> rfl

theorem pending_apply_null (sawNull : Bool) : op.apply (op.pending sawNull) .null = .null := by
  cases op <;> cases sawNull <;> rfl

theorem combine_pair_cons (first k : Kleene) (values : List Kleene) :
    op.combine (first :: k :: values) = op.combine (op.apply first k :: values) :=
  (Std.Associative.assoc first k (op.combine values)).symm

end Connective

namespace Expr

variable {binding : Binding}

/-- Evaluation combines the values of the members, those before standing for what they come to. -/
theorem evaluateMembers_eq (op : Connective) {members : List Expr} {values : List Kleene}
    (h : List.Forall₂ (fun member k => member.HasTruth binding (Kleene.truth k)) members values)
    (sawNull : Bool) :
    evaluateMembers binding op sawNull members =
      .ok (op.combine (op.pending sawNull :: values)).scalar := by
  induction h generalizing sawNull with
  | nil => rw [evaluateMembers, op.combine_cons, op.combine_nil, op.apply_unit, op.scalar_pending]
  | @cons member k members values hmember _ ih =>
      rw [op.combine_pair_cons]
      rcases op.eq_null_or_unit k with rfl | rfl | rfl
      · rw [op.pending_apply_null]
        exact (evaluateMembers_cons hmember).trans (ih true)
      · rw [op.truth_unit] at hmember
        rw [op.apply_unit, ← ih sawNull]
        exact (evaluateMembers_cons hmember).trans (if_neg (Bool.not_ne_self op.deciding))
      · -- What the members behind come to is of no account any more.
        rw [op.truth_not_unit] at hmember
        rw [op.apply_not_unit, op.combine_cons, op.not_unit_apply, Kleene.scalar, op.truth_not_unit]
        exact (evaluateMembers_cons hmember).trans (if_pos rfl)

end Expr
end ExtentEngine
