import ExtentEngine.Proofs.Expr.Kleene

/-!
# Formulas

A formula is built by connectives and negations, to any depth, from expressions that are its atoms.
Where the atoms have truth values, evaluation gives the formula its value in strong Kleene logic:
it does not matter that evaluation stops at a member that decides, and formulas that come from each
other by the laws of this logic are evaluated to the same.

**Method.**  A formula says which part of an expression is taken as an atom; one expression is that
of several formulas.  An atom may itself be a connective, some members of which fail if they are
evaluated.

**Results.**
* `Formula.hasTruth_expr`: a formula is evaluated to its value.
* `Formula.Rearranged.value_eq`: rearranging a formula keeps its value.
* `Predicate.holds_and_iff`: a conjunction of predicates holds where both do, whatever they are.
* `Formula.evaluates_as_kleene`: all of this for the atoms of a formula.
-/

namespace ExtentEngine

/-- A formula of three-valued logic over expressions. -/
inductive Formula
  | atom (expr : Expr)
  | connect (op : Connective) (members : List Formula)
  | not (operand : Formula)

namespace Formula

mutual

/-- The expression of a formula. -/
def expr : Formula → Expr
  | atom e => e
  | connect op members => .connect op (exprs members)
  | not operand => .not (expr operand)

def exprs : List Formula → List Expr
  | [] => []
  | f :: fs => expr f :: exprs fs

end

mutual

def atoms : Formula → List Expr
  | atom e => [e]
  | connect _ members => atomsOfAll members
  | not operand => atoms operand

def atomsOfAll : List Formula → List Expr
  | [] => []
  | f :: fs => atoms f ++ atomsOfAll fs

end

mutual

/-- The value of a formula in strong Kleene logic, given those of its atoms. -/
def value (valuation : Expr → Kleene) : Formula → Kleene
  | atom e => valuation e
  | connect op members => op.combine (values valuation members)
  | not operand => (value valuation operand).not

def values (valuation : Expr → Kleene) : List Formula → List Kleene
  | [] => []
  | f :: fs => value valuation f :: values valuation fs

end

mutual

/-- Evaluates a formula without stopping at a member that decides. -/
def evaluateFully (binding : Binding) : Formula → Attempt Scalar
  | atom e => e.evaluate binding
  | connect op members => do
    let values ← kleeneOfAll binding members
    pure (op.combine values).scalar
  | not operand => do
    let value ← evaluateFully binding operand
    let k ← value.kleene?
    pure k.not.scalar

/-- The truth values of all members. -/
def kleeneOfAll (binding : Binding) : List Formula → Attempt (List Kleene)
  | [] => .ok []
  | f :: fs => do
    let value ← evaluateFully binding f
    let k ← value.kleene?
    let ks ← kleeneOfAll binding fs
    pure (k :: ks)

end

theorem atomsOfAll_eq_flatMap (fs : List Formula) : atomsOfAll fs = fs.flatMap atoms := by
  induction fs with
  | nil => rfl
  | cons f fs ih => rw [atomsOfAll, ih, List.flatMap_cons]

theorem values_eq_map (valuation : Expr → Kleene) (fs : List Formula) :
    values valuation fs = fs.map (value valuation) := by
  induction fs with
  | nil => rfl
  | cons f fs ih => rw [values, ih, List.map_cons]

theorem value_connect (valuation : Expr → Kleene) (op : Connective) (members : List Formula) :
    (connect op members).value valuation = op.combine (members.map (value valuation)) := by
  rw [value, values_eq_map]

section Evaluation

variable {binding : Binding} {valuation : Expr → Kleene}

/-- Whether the atoms of a formula have the given truth values. -/
def Grounded (binding : Binding) (valuation : Expr → Kleene) (f : Formula) : Prop :=
  ∀ e ∈ f.atoms, e.evaluate binding = .ok (valuation e).scalar

theorem grounded_not_iff {f : Formula} :
    (not f).Grounded binding valuation ↔ f.Grounded binding valuation := by
  rw [Grounded, atoms, Grounded]

theorem grounded_connect_iff {op : Connective} {members : List Formula} :
    (connect op members).Grounded binding valuation ↔
      ∀ f ∈ members, f.Grounded binding valuation := by
  rw [Grounded, atoms, atomsOfAll_eq_flatMap, List.forall_mem_flatMap]
  rfl

mutual

/-- A formula is evaluated to its value. -/
theorem hasTruth_expr : ∀ {f : Formula}, f.Grounded binding valuation →
    f.expr.HasTruth binding (f.value valuation).truth
  | atom e, h => h e List.mem_cons_self
  | connect op members, h => by
      have hmembers := forall₂_exprs (grounded_connect_iff.1 h)
      rw [expr, value, Expr.HasTruth, Expr.evaluate, Expr.evaluateMembers_eq op hmembers,
        op.combine_cons]
      exact congrArg (fun k => Except.ok (Kleene.scalar k)) (op.unit_apply _)
  | not operand, h => by
      have hoperand := hasTruth_expr (grounded_not_iff.1 h)
      rw [expr, value, Expr.HasTruth, Expr.evaluate, hoperand]
      cases operand.value valuation <;> rfl

theorem forall₂_exprs : ∀ {fs : List Formula}, (∀ f ∈ fs, f.Grounded binding valuation) →
    List.Forall₂ (fun member k => member.HasTruth binding (Kleene.truth k)) (exprs fs)
      (values valuation fs)
  | [], _ => .nil
  | f :: _, h =>
      .cons (hasTruth_expr (h f List.mem_cons_self))
        (forall₂_exprs fun g hg => h g (List.mem_cons_of_mem f hg))

end

mutual

/-- Evaluation that does not stop at a member that decides comes to the same value. -/
theorem evaluateFully_eq : ∀ {f : Formula}, f.Grounded binding valuation →
    f.evaluateFully binding = .ok (f.value valuation).scalar
  | atom e, h => h e List.mem_cons_self
  | connect op members, h => by
      rw [evaluateFully, kleeneOfAll_eq (grounded_connect_iff.1 h)]
      rfl
  | not operand, h => by
      rw [evaluateFully]
      exact Attempt.bind_eq_ok.2 ⟨_, evaluateFully_eq (grounded_not_iff.1 h),
        Attempt.bind_eq_ok.2 ⟨_, Scalar.kleene?_scalar _, rfl⟩⟩

theorem kleeneOfAll_eq : ∀ {fs : List Formula}, (∀ f ∈ fs, f.Grounded binding valuation) →
    kleeneOfAll binding fs = .ok (values valuation fs)
  | [], _ => rfl
  | f :: _, h => by
      have hrest := kleeneOfAll_eq fun g hg => h g (List.mem_cons_of_mem f hg)
      rw [kleeneOfAll]
      exact Attempt.bind_eq_ok.2 ⟨_, evaluateFully_eq (h f List.mem_cons_self),
        Attempt.bind_eq_ok.2 ⟨_, Scalar.kleene?_scalar _,
          Attempt.bind_eq_ok.2 ⟨_, hrest, rfl⟩⟩⟩

end

end Evaluation

/-- Formulas that come from each other by laws of the logic, in any part. -/
inductive Rearranged : Formula → Formula → Prop
  | refl (f : Formula) : Rearranged f f
  | symm {f g : Formula} : Rearranged f g → Rearranged g f
  | trans {f g h : Formula} : Rearranged f g → Rearranged g h → Rearranged f h
  | permute (op : Connective) {members members' : List Formula} :
      members.Perm members' → Rearranged (connect op members) (connect op members')
  | flatten (op : Connective) (before inner after : List Formula) :
      Rearranged (connect op (before ++ connect op inner :: after))
        (connect op (before ++ inner ++ after))
  | deMorgan (op : Connective) (members : List Formula) :
      Rearranged (not (connect op members)) (connect op.dual (members.map not))
  | member (op : Connective) (before after : List Formula) {f g : Formula} :
      Rearranged f g →
        Rearranged (connect op (before ++ f :: after)) (connect op (before ++ g :: after))
  | operand {f g : Formula} : Rearranged f g → Rearranged (not f) (not g)

namespace Rearranged

/-- Rearranging a formula keeps its value. -/
theorem value_eq {f g : Formula} (h : Rearranged f g) (valuation : Expr → Kleene) :
    f.value valuation = g.value valuation := by
  induction h with
  | refl f => rfl
  | symm _ ih => exact ih.symm
  | trans _ _ ih ih' => exact ih.trans ih'
  | permute op hperm =>
      rw [value_connect, value_connect, op.combine_perm (hperm.map _)]
  | flatten op before inner after =>
      rw [value_connect, value_connect, List.map_append, List.map_cons, value_connect,
        op.combine_flatten, List.map_append, List.map_append]
  | deMorgan op members =>
      rw [value_connect, value, value_connect, op.not_combine, List.map_map, List.map_map]
      refine congrArg op.dual.combine (List.map_congr_left fun f _ => ?_)
      rw [Function.comp_apply, Function.comp_apply, value]
  | member op before after _ ih =>
      rw [value_connect, value_connect, List.map_append, List.map_append, List.map_cons,
        List.map_cons, ih]
  | operand _ ih => rw [value, value, ih]

/-- Rearranging a formula keeps its atoms, but for their order. -/
theorem atoms_perm {f g : Formula} (h : Rearranged f g) : f.atoms.Perm g.atoms := by
  induction h with
  | refl f => exact .refl _
  | symm _ ih => exact ih.symm
  | trans _ _ ih ih' => exact ih.trans ih'
  | permute op hperm =>
      rw [atoms, atoms, atomsOfAll_eq_flatMap, atomsOfAll_eq_flatMap]
      exact hperm.flatMap_right _
  | flatten op before inner after =>
      simp only [atoms, atomsOfAll_eq_flatMap, List.flatMap_append, List.flatMap_cons,
        List.append_assoc]
      exact .refl _
  | deMorgan op members =>
      simp only [atoms, atomsOfAll_eq_flatMap, List.flatMap_map]
      exact .refl _
  | member op before after _ ih =>
      simp only [atoms, atomsOfAll_eq_flatMap, List.flatMap_append, List.flatMap_cons]
      exact (ih.append_right _).append_left _
  | operand _ ih =>
      rw [atoms, atoms]
      exact ih

end Rearranged

/-- Where the atoms of a formula have truth values, evaluation gives it its value in strong Kleene
logic.  Evaluating all members instead of stopping at one that decides comes to the same, and so
does every formula that comes from this one by permuting members, by moving the members of a
connective into the same connective around it, or by the laws of De Morgan.  And the conjunction of
two predicates is found to hold just where both are. -/
theorem evaluates_as_kleene {binding : Binding} {valuation : Expr → Kleene} {f : Formula}
    (h : ∀ e ∈ f.atoms, e.evaluate binding = .ok (valuation e).scalar) :
    f.expr.evaluate binding = .ok (f.value valuation).scalar ∧
    f.evaluateFully binding = f.expr.evaluate binding ∧
    (∀ g, Rearranged f g → g.expr.evaluate binding = f.expr.evaluate binding) ∧
    ∀ p q : Predicate, (p.and q).holds binding = .ok true ↔
      p.holds binding = .ok true ∧ q.holds binding = .ok true := by
  have hvalue : f.expr.evaluate binding = .ok (f.value valuation).scalar := hasTruth_expr h
  refine ⟨hvalue, (evaluateFully_eq h).trans hvalue.symm, fun g hg => ?_,
    fun p q => Predicate.holds_and_iff⟩
  have hatoms : g.Grounded binding valuation := fun e he => h e (hg.atoms_perm.mem_iff.2 he)
  have hvalue' : g.expr.evaluate binding = .ok (g.value valuation).scalar := hasTruth_expr hatoms
  rw [hvalue', hvalue, hg.value_eq]

/-- A null comes first, and of the members behind it the last decides. -/
def lateDecision : Formula :=
  .not (.connect .and [.atom (.leftColumn 0),
    .connect .or [.atom (.literal (.bool false)), .atom (.leftColumn 0)],
    .atom (.compare .lt (.leftColumn 1) (.literal (.int 1)))])

/-- The first column is null. -/
def nullFirst (e : Expr) : Kleene := if e = .leftColumn 0 then .null else .false

/-- A null does not hide the member that decides, here and after an application of De Morgan. -/
theorem evaluates_as_kleene_late :
    (∀ e ∈ lateDecision.atoms,
      e.evaluate (.ofLeft [.null, .int 2]) = .ok (nullFirst e).scalar) ∧
    lateDecision.expr.evaluate (.ofLeft [.null, .int 2]) = .ok (.bool true) ∧
    (connect .or [not (atom (.leftColumn 0)),
      not (connect .or [atom (.literal (.bool false)), atom (.leftColumn 0)]),
      not (atom (.compare .lt (.leftColumn 1) (.literal (.int 1))))]).expr.evaluate
        (.ofLeft [.null, .int 2]) = .ok (.bool true) := by
  have hatoms : ∀ e ∈ lateDecision.atoms,
      e.evaluate (.ofLeft [.null, .int 2]) = .ok (nullFirst e).scalar := by
    decide +kernel
  obtain ⟨hvalue, -, hrearranged, -⟩ := evaluates_as_kleene hatoms
  have htrue : lateDecision.value nullFirst = .true := by decide +kernel
  rw [htrue] at hvalue
  exact ⟨hatoms, hvalue, (hrearranged _ (.deMorgan .and _)).trans hvalue⟩

end Formula
end ExtentEngine
