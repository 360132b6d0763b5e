import ExtentEngine.Proofs.Dataset.Success
import ExtentEngine.Proofs.Join.Pairing

/-!
# When tests of pairs succeed

A join tries the pairs of rows of some kind: all of them, or those whose keys match.  It
succeeds if the condition can be evaluated on the pairs that it tries and the output record of
every pair that it asks for can be computed.

**Results.**
* `JoinOutput.succeedsIff_test` and `JoinOutput.succeedsIff_foldlM`: when tests succeed.
* `Tries.passes_iff`: what this comes to for the tests of all pairs that are tried.
-/

namespace ExtentEngine

open Emission

namespace Predicate

/-- Whether a predicate can be evaluated on a pair of rows. -/
def Evaluates (condition : Predicate) (left right : Record) : Prop :=
  ∃ b, condition.holds (.ofPair left right) = .ok b

/-- Whether a predicate can be evaluated on a pair of rows and holds. -/
def decides (condition : Predicate) (left right : Record) : Bool :=
  (condition.holds (.ofPair left right)).toOption.getD false

/-- Whether a pair of rows is tried and the predicate holds. -/
def among (condition : Predicate) (tried : Record → Record → Bool) (left right : Record) : Bool :=
  tried left right && condition.decides left right

theorem holds_eq_ok_iff {condition : Predicate} {left right : Record} (b : Bool) :
    condition.holds (.ofPair left right) = .ok b ↔
      condition.Evaluates left right ∧ b = condition.decides left right := by
  rw [Evaluates, decides]
  cases condition.holds (.ofPair left right) with
  | error fault => simp
  | ok b' => simp [Except.toOption, eq_comm]

end Predicate

variable {condition : Predicate} {tried : Record → Record → Bool} {out : JoinOutput}
  {lefts rights lefts' rights' : List Record}

namespace JoinOutput

/-- Whether the output record of a pair of rows can be computed. -/
def Projects (out : JoinOutput) (pair : Record × Record) : Prop :=
  ∃ record, out.projection.evaluate (.ofPair pair.1 pair.2) = .ok record

theorem succeedsIff_pair (out : JoinOutput) (left right : Record) :
    (out.pair left right).SucceedsIff (out.Projects (left, right)) () := by
  intro b
  rw [pair, Emission.project, Projects]
  cases out.projection.evaluate (.ofPair left right) with
  | error fault => simp [ofAttempt, result_bind]
  | ok record => simp [ofAttempt, result_bind, emit]

/-- Whether a test succeeds: the condition can be evaluated, and the output record if the pair
matches and is emitted. -/
def Passes (out : JoinOutput) (condition : Predicate) (test : PairTest) : Prop :=
  condition.Evaluates test.left test.right ∧
    (condition.decides test.left test.right = true → out.method.emitsMatches = true →
      out.Projects test.pair)

theorem succeedsIff_test {test : PairTest} {leftRows rightRows : Nat} {flags : PairFlags}
    (hflags : flags.Fits leftRows rightRows) (hleft : test.leftRow < leftRows)
    (hright : test.rightRow < rightRows) :
    (out.test condition test.left test.right test.leftRow test.rightRow flags).SucceedsIff
      (out.Passes condition test) (flags.after condition.decides [test]) := by
  have hmark : flags.mark test.leftRow test.rightRow =
      .ok ⟨flags.left.set test.leftRow true, flags.right.set test.rightRow true⟩ := by
    rw [PairFlags.mark, MatchFlags.mark, MatchFlags.mark, if_pos (hflags.1.symm ▸ hleft),
      if_pos (hflags.2.symm ▸ hright)]
    rfl
  refine SucceedsIff.bind (SucceedsIff.of_attempt Predicate.holds_eq_ok_iff) fun _ => ?_
  rw [PairFlags.after]
  have hholds : test.holds condition.decides = condition.decides test.left test.right := rfl
  cases hdecides : condition.decides test.left test.right with
  | false =>
      rw [List.filter_cons_of_neg (by rw [hholds, hdecides]; exact Bool.false_ne_true)]
      exact (SucceedsIff.pure _).congr (iff_of_true trivial Bool.false_ne_true.elim)
  | true =>
      rw [List.filter_cons_of_pos (hholds.trans hdecides)]
      have hmatched : (out.matched test.left test.right).SucceedsIff
          (out.method.emitsMatches = true → out.Projects test.pair) () :=
        SucceedsIff.ite fun _ => out.succeedsIff_pair test.left test.right
      rw [if_pos rfl]
      refine SucceedsIff.congr (SucceedsIff.bind (SucceedsIff.of_ok hmark) fun _ =>
        SucceedsIff.bind hmatched fun _ => SucceedsIff.pure _) ?_
      simp

/-- Tests that are made in portions. -/
theorem succeedsIff_foldlM {β : Type} {step : PairFlags → β → Emission PairFlags}
    {portion : β → List PairTest} {leftRows rightRows : Nat} {items : List β}
    (h : ∀ item ∈ items, ∀ flags : PairFlags, flags.Fits leftRows rightRows →
      (step flags item).SucceedsIff (∀ test ∈ portion item, out.Passes condition test)
        (flags.after condition.decides (portion item)))
    {flags : PairFlags} (hflags : flags.Fits leftRows rightRows) :
    (items.foldlM step flags).SucceedsIff
      (∀ test ∈ items.flatMap portion, out.Passes condition test)
      (flags.after condition.decides (items.flatMap portion)) := by
  induction items generalizing flags with
  | nil => exact (SucceedsIff.pure flags).congr (iff_of_true trivial (List.forall_mem_nil _))
  | cons item items ih =>
      obtain ⟨hitem, hitems⟩ := List.forall_mem_cons.1 h
      rw [List.foldlM_cons, List.flatMap_cons, PairFlags.after_append]
      refine SucceedsIff.congr ((hitem flags hflags).bind fun _ =>
        ih hitems (hflags.after condition.decides (portion item))) ?_
      exact List.forall_mem_append.symm

end JoinOutput

section Tries

variable {tests : List PairTest}

/-- The tests are those of all pairs that are tried, each of them once. -/
structure Tries (tried : Record → Record → Bool) (lefts rights : List Record)
    (tests : List PairTest) : Prop where
  perm : tests.Perm ((grid 0 0 lefts rights).filter (PairTest.holds tried))

namespace Tries

variable (h : Tries tried lefts rights tests)

include h

theorem mem_iff {test : PairTest} :
    test ∈ tests ↔ (lefts[test.leftRow]? = some test.left ∧
      rights[test.rightRow]? = some test.right) ∧ tried test.left test.right = true := by
  rw [h.perm.mem_iff, List.mem_filter, mem_grid, PairTest.holds]

/-- A pair that is tried is that of some test. -/
theorem exists_test {left right : Record} (hleft : left ∈ lefts) (hright : right ∈ rights)
    (htried : tried left right = true) : ∃ test ∈ tests, test.left = left ∧ test.right = right := by
  obtain ⟨i, hi⟩ := List.mem_iff_getElem?.1 hleft
  obtain ⟨j, hj⟩ := List.mem_iff_getElem?.1 hright
  exact ⟨⟨left, right, i, j⟩, h.mem_iff.2 ⟨⟨hi, hj⟩, htried⟩, rfl, rfl⟩

/-- Of the tests those hold whose pairs are among those tried and match. -/
theorem filter_eq : tests.filter (PairTest.holds condition.decides) =
    tests.filter (PairTest.holds (condition.among tried)) := by
  refine List.filter_congr fun test htest => ?_
  rw [PairTest.holds, PairTest.holds, Predicate.among, (h.mem_iff.1 htest).2, Bool.true_and]

theorem covers : Covers (condition.among tried) lefts rights tests := by
  refine (h.perm.filter _).trans (List.Perm.of_eq ?_)
  rw [List.filter_filter]
  refine List.filter_congr fun test _ => ?_
  rw [PairTest.holds, PairTest.holds, Predicate.among]
  cases tried test.left test.right <;> simp

/-- The tests set the flags of the rows with a partner. -/
theorem after_eq (f g : Record → Bool) :
    PairFlags.after condition.decides ⟨lefts.map f, rights.map g⟩ tests =
      ⟨lefts.map fun left => f left || rights.any (condition.among tried left),
        rights.map fun right => g right || lefts.any (condition.among tried · right)⟩ := by
  rw [← after_of_covers h.covers f g, PairFlags.after, PairFlags.after, h.filter_eq]

theorem mem_declaredMatches {pair : Record × Record} :
    pair ∈ out.declaredMatches (condition.among tried) lefts rights ↔
      out.method.emitsMatches = true ∧ ∃ test ∈ tests,
        condition.decides test.left test.right = true ∧ test.pair = pair := by
  rw [JoinOutput.declaredMatches]
  cases out.method.emitsMatches with
  | false => simp
  | true =>
      rw [if_pos rfl, ← filter_grid 0 0, ← (h.covers.map _).mem_iff, ← h.filter_eq]
      simp [PairTest.holds, and_assoc]

/-- All tests succeed if the condition can be evaluated on the pairs that are tried and the
matches can be emitted. -/
theorem passes_iff : (∀ test ∈ tests, out.Passes condition test) ↔
    (∀ left ∈ lefts, ∀ right ∈ rights, tried left right = true →
      condition.Evaluates left right) ∧
    ∀ pair ∈ out.declaredMatches (condition.among tried) lefts rights, out.Projects pair := by
  constructor
  · intro hpasses
    constructor
    · intro left hleft right hright htried
      obtain ⟨test, htest, rfl, rfl⟩ := h.exists_test hleft hright htried
      exact (hpasses test htest).1
    · intro pair hpair
      obtain ⟨hemits, test, htest, hdecides, rfl⟩ := h.mem_declaredMatches.1 hpair
      exact (hpasses test htest).2 hdecides hemits
  · rintro ⟨hevaluates, hprojects⟩ test htest
    obtain ⟨⟨hleft, hright⟩, htried⟩ := h.mem_iff.1 htest
    refine ⟨hevaluates _ (List.mem_of_getElem? hleft) _ (List.mem_of_getElem? hright) htried, ?_⟩
    exact fun hdecides hemits =>
      hprojects _ (h.mem_declaredMatches.2 ⟨hemits, test, htest, hdecides, rfl⟩)

end Tries
end Tries
end ExtentEngine
