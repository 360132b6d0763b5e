import ExtentEngine.Expr.Evaluation
import ExtentEngine.Proofs.Expr.Projection
import ExtentEngine.Proofs.Record.Order
import Mathlib.Data.List.Forall2

/-!
# Where predicates hold

A predicate that has a truth value on some rows holds there if that value is true, and a
conjunction is true if all its members are.

**Results.**
* `holds_and`: a conjunction of predicates holds where both do.
* `holds_and_iff`: it is found to hold just where both are, also if one of them may fail.
* `hasTruth_keyEquality`: the equality of keys holds where the keys are equal and not null.
-/

namespace ExtentEngine

variable {binding : Binding}

namespace Scalar

@[simp]
theorem truth?_ofTruth (truth : Option Bool) : (ofTruth truth).truth? = .ok truth := by
  cases truth <;> rfl

theorem truth?_eq_some_iff {value : Scalar} {b : Bool} :
    value.truth? = .ok (some b) ↔ value = .bool b := by
  cases value <;> simp [truth?]

end Scalar

namespace Expr

/-- An expression that has a truth value, which may be null. -/
def HasTruth (binding : Binding) (expr : Expr) (truth : Option Bool) : Prop :=
  expr.evaluate binding = .ok (.ofTruth truth)

theorem evaluateMembers_cons {op : Connective} {sawNull : Bool} {member : Expr}
    {members : List Expr} {truth : Option Bool} (h : member.HasTruth binding truth) :
    evaluateMembers binding op sawNull (member :: members) =
      match truth with
      | none => evaluateMembers binding op true members
      | some b =>
        if b = op.deciding then .ok (.bool b) else evaluateMembers binding op sawNull members := by
  rw [evaluateMembers, h]
  cases truth with
  | none => rfl
  | some b => rfl

/-- A conjunction has a truth value, and it is true if all members are and none before was
null. -/
theorem exists_evaluateMembers {members : List Expr} {truths : List (Option Bool)}
    (h : List.Forall₂ (HasTruth binding) members truths) (sawNull : Bool) :
    ∃ truth, evaluateMembers binding .and sawNull members = .ok (.ofTruth truth) ∧
      truth.getD false = (!sawNull && truths.all (·.getD false)) := by
  induction h generalizing sawNull with
  | nil =>
      rw [evaluateMembers]
      exact ⟨_, rfl, by cases sawNull <;> rfl⟩
  | @cons member truth members truths hmember _ ih =>
      rw [evaluateMembers_cons hmember, List.all_cons]
      match truth with
      | none =>
          obtain ⟨truth, heval, htruth⟩ := ih true
          exact ⟨truth, heval, htruth.trans (by simp)⟩
      | some true => exact ih sawNull
      | some false => exact ⟨some false, rfl, by simp⟩

/-- A conjunction is found to be true if all its members are and none before was null. -/
theorem evaluateMembers_and_eq_true_iff {members : List Expr} {sawNull : Bool} :
    evaluateMembers binding .and sawNull members = .ok (.bool true) ↔
      sawNull = false ∧ ∀ member ∈ members, member.evaluate binding = .ok (.bool true) := by
  induction members generalizing sawNull with
  | nil => cases sawNull <;> simp [evaluateMembers, Connective.undecided, Scalar.ofTruth,
      Connective.deciding]
  | cons member members ih =>
      rw [evaluateMembers, Attempt.bind_eq_ok, List.forall_mem_cons]
      constructor
      · rintro ⟨value, hvalue, hrest⟩
        obtain ⟨truth, htruth, hrest⟩ := Attempt.bind_eq_ok.1 hrest
        cases truth with
        | none => exact absurd (ih.1 hrest).1 (by decide)
        | some b =>
            rw [Scalar.truth?_eq_some_iff.1 htruth] at hvalue
            cases b with
            | false => cases hrest
            | true => exact ⟨(ih.1 hrest).1, hvalue, (ih.1 hrest).2⟩
      · rintro ⟨hnull, hmember, hmembers⟩
        exact ⟨_, hmember, ih.2 ⟨hnull, hmembers⟩⟩

end Expr

namespace Predicate

theorem isAlways_iff {p : Predicate} : p.isAlways = true ↔ p.expr = .alwaysTrue :=
  decide_eq_true_iff

theorem hasTruth_alwaysTrue {truth : Option Bool} (h : Expr.alwaysTrue.HasTruth binding truth) :
    truth = some true := by
  rw [Expr.HasTruth, Expr.alwaysTrue, Expr.evaluate] at h
  cases truth with
  | none => cases h
  | some b => cases b <;> cases h; rfl

theorem holds_of_hasTruth {p : Predicate} {truth : Option Bool}
    (h : p.expr.HasTruth binding truth) : p.holds binding = .ok (truth.getD false) := by
  rw [holds]
  split
  · next halways =>
      rw [isAlways_iff.1 halways] at h
      rw [hasTruth_alwaysTrue h]
      rfl
  · rw [h]
    cases truth <;> rfl

/-- A conjunction of predicates holds where both do. -/
theorem holds_and {p q : Predicate} {first last : Option Bool}
    (hp : p.expr.HasTruth binding first) (hq : q.expr.HasTruth binding last) :
    (p.and q).holds binding = .ok (first.getD false && last.getD false) := by
  rw [and]
  split
  · next halways =>
      rw [isAlways_iff.1 halways] at hp
      rw [holds_of_hasTruth hq, hasTruth_alwaysTrue hp]
      rfl
  · split
    · next halways =>
        rw [isAlways_iff.1 halways] at hq
        rw [holds_of_hasTruth hp, hasTruth_alwaysTrue hq, Option.getD_some, Bool.and_true]
    · obtain ⟨truth, heval, htruth⟩ :=
        Expr.exists_evaluateMembers (.cons hp (.cons hq .nil)) false
      have hboth : Expr.HasTruth binding (.connect .and [p.expr, q.expr]) truth := by
        rw [Expr.HasTruth, Expr.evaluate, heval]
      have hholds := holds_of_hasTruth (p := ⟨.connect .and [p.expr, q.expr]⟩) hboth
      rw [hholds, htruth]
      simp

/-- A predicate holds where its expression is true. -/
theorem holds_eq_true_iff {p : Predicate} :
    p.holds binding = .ok true ↔ p.expr.evaluate binding = .ok (.bool true) := by
  rw [holds]
  split
  · next halways =>
      rw [isAlways_iff.1 halways]
      exact iff_of_true rfl (by rw [Expr.alwaysTrue, Expr.evaluate])
  · rw [Attempt.bind_eq_ok]
    constructor
    · rintro ⟨value, hvalue, hholds⟩
      obtain ⟨truth, htruth, hholds⟩ := Attempt.bind_eq_ok.1 hholds
      cases truth with
      | none => cases hholds
      | some b =>
          have hb : b = true := Except.ok.inj hholds
          rw [hvalue, Scalar.truth?_eq_some_iff.1 htruth, hb]
    · exact fun h => ⟨_, h, rfl⟩

theorem holds_of_isAlways {p : Predicate} (h : p.isAlways = true) :
    p.holds binding = .ok true := by
  rw [holds, if_pos h]

/-- A conjunction holds just where both predicates do, whatever else may become of them. -/
theorem holds_and_iff {p q : Predicate} : (p.and q).holds binding = .ok true ↔
    p.holds binding = .ok true ∧ q.holds binding = .ok true := by
  rw [and]
  split
  · next hp => exact (and_iff_right (holds_of_isAlways hp)).symm
  · split
    · next hq => exact (and_iff_left (holds_of_isAlways hq)).symm
    · rw [holds_eq_true_iff, holds_eq_true_iff, holds_eq_true_iff, Expr.evaluate,
        Expr.evaluateMembers_and_eq_true_iff]
      simp

section Keys

variable {left right : Record}

/-- Two columns are equal if they hold the same scalar and it is not null. -/
theorem hasTruth_compareColumns {l r : Nat} (hl : l < left.length) (hr : r < right.length) :
    ∃ truth, Expr.HasTruth (.ofPair left right)
        (.compare .eq (.leftColumn l) (.rightColumn r)) truth ∧
      truth.getD false =
        (!(left.cellOrNull l).isNull && decide (left.cellOrNull l = right.cellOrNull r)) := by
  have heval : Expr.evaluate (.ofPair left right) (.compare .eq (.leftColumn l) (.rightColumn r)) =
      .ok (Comparison.eq.apply (left.cellOrNull l) (right.cellOrNull r)) := by
    rw [Expr.evaluate, Expr.evaluate_leftColumn rfl, Expr.evaluate_rightColumn rfl,
      Record.cell_eq_ok hl, Record.cell_eq_ok hr]
    rfl
  generalize left.cellOrNull l = a at heval ⊢
  generalize right.cellOrNull r = b at heval ⊢
  rw [Comparison.apply] at heval
  cases ha : a.isNull with
  | true =>
      rw [ha] at heval
      exact ⟨none, heval, rfl⟩
  | false =>
      rw [ha] at heval
      cases hb : b.isNull with
      | true =>
          rw [hb] at heval
          refine ⟨none, heval, ?_⟩
          have hne : a ≠ b := fun h => by rw [h, hb] at ha; cases ha
          simp [hne]
      | false =>
          rw [hb] at heval
          refine ⟨some (a.compare b == .eq), heval, ?_⟩
          rw [Option.getD_some, Bool.not_false, Bool.true_and, Bool.eq_iff_iff, beq_iff_eq,
            Std.LawfulEqCmp.compare_eq_iff_eq, decide_eq_true_iff]

/-- The comparisons of two keys have truth values, which are all true if the keys are equal and
not null. -/
theorem exists_truths {leftKey rightKey : Key} (hlength : leftKey.length = rightKey.length)
    (hleft : ∀ column ∈ leftKey, column < left.length)
    (hright : ∀ column ∈ rightKey, column < right.length) :
    ∃ truths, List.Forall₂ (Expr.HasTruth (.ofPair left right))
        ((leftKey.zip rightKey).map fun (l, r) =>
          .compare .eq (.leftColumn l) (.rightColumn r)) truths ∧
      truths.all (·.getD false) =
        (!left.hasNullKey leftKey &&
          decide (left.keyValues leftKey = right.keyValues rightKey)) := by
  induction leftKey generalizing rightKey with
  | nil =>
      cases rightKey with
      | nil => exact ⟨[], .nil, rfl⟩
      | cons r rights => cases hlength
  | cons l lefts ih =>
      cases rightKey with
      | nil => cases hlength
      | cons r rights =>
          obtain ⟨hl, hlefts⟩ := List.forall_mem_cons.1 hleft
          obtain ⟨hr, hrights⟩ := List.forall_mem_cons.1 hright
          obtain ⟨truths, htruths, hall⟩ := ih (Nat.succ.inj hlength) hlefts hrights
          obtain ⟨truth, htruth, hfirst⟩ := hasTruth_compareColumns hl hr
          refine ⟨truth :: truths, .cons htruth htruths, ?_⟩
          rw [List.all_cons, hfirst, hall]
          simp only [Record.hasNullKey, Record.keyValues, List.any_cons, List.map_cons,
            List.cons.injEq, Bool.not_or, Bool.decide_and]
          ac_rfl

/-- The equality of keys has a truth value: whether the keys are equal and not null. -/
theorem hasTruth_keyEquality {leftKey rightKey : Key} {p : Predicate}
    (hp : keyEquality leftKey rightKey = .ok p) (hlength : leftKey.length = rightKey.length)
    (hleft : ∀ column ∈ leftKey, column < left.length)
    (hright : ∀ column ∈ rightKey, column < right.length) :
    ∃ truth, p.expr.HasTruth (.ofPair left right) truth ∧
      truth.getD false =
        (!left.hasNullKey leftKey &&
          decide (left.keyValues leftKey = right.keyValues rightKey)) := by
  obtain ⟨truths, htruths, hall⟩ := exists_truths hlength hleft hright
  obtain ⟨truth, heval, htruth⟩ := Expr.exists_evaluateMembers htruths false
  rw [keyEquality, if_pos hlength] at hp
  cases hp
  refine ⟨truth, ?_, htruth.trans ?_⟩
  · rw [Expr.HasTruth, Expr.evaluate, heval]
  · rw [hall, Bool.not_false, Bool.true_and]

end Keys
end Predicate
end ExtentEngine
