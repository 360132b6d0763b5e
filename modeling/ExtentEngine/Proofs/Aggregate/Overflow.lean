import ExtentEngine.Proofs.Aggregate.Refusals

/-!
# Sums that get out of range

An accumulator that refuses a row or another accumulator stays as it is, with one exception.  A sum
of integers is taken out of the accumulator before anything is added to it, so if the two are
beyond 128 bits together, the sum is gone.

**Results.**
* `Accumulator.addTotal_fails_iff`: when a total cannot be added to a sum, and what is left then.
* `Accumulator.refusal_changes_iff`: a refusal changes an accumulator just if it is such a sum.
* `Accumulator.refused_integer_empties_sum`: so refusals are not without consequences.
-/

namespace ExtentEngine
namespace Accumulator

/-- A sum of integers that gets out of its 128 bits with one more integer. -/
def Overflows (state : Accumulator) (n : Int) : Prop :=
  ∃ a : Int128, state = sum (some (.int a)) ∧ Int128.ofInt? (a.val + n) = none

variable {state state' other : Accumulator} {inputs : List Scalar} {fault : Fault}

theorem Overflows.ne {n : Int} (h : state.Overflows n) : sum none ≠ state := by
  obtain ⟨a, rfl, -⟩ := h
  exact nofun

/-- Only integers cannot be added, and the sum is gone then. -/
theorem addTotal_fails_iff {total : Option Total} {input : Total} :
    addTotal total input = (.error fault, state') ↔
      fault = .needed .sumInRange ∧ state' = sum none ∧
        ∃ m, input = .int m ∧ (sum total).Overflows m.val := by
  constructor
  · intro h
    rcases total with _ | current
    · cases h
    rcases current with a | x <;> rcases input with m | y
    case int.int =>
      simp only [addTotal, Total.add] at h
      cases hsum : Int128.ofInt? (a.val + m.val) with
      | some both =>
          rw [hsum] at h
          cases h
      | none =>
          rw [hsum] at h
          cases h
          exact ⟨rfl, rfl, m, rfl, a, rfl, hsum⟩
    all_goals cases h
  · rintro ⟨rfl, rfl, m, rfl, a, hstate, hsum⟩
    cases hstate
    simp only [addTotal, Total.add, hsum]

section Update

/-- A row without nulls is refused by a sum as its first input is. -/
theorem updatePresent_changes_iff :
    ((updatePresent inputs).run state = (.error fault, state') ∧ state' ≠ state) ↔
      fault = .needed .sumInRange ∧ state' = sum none ∧
        ∃ n rest, inputs = .int n :: rest ∧ state.Overflows n.toInt := by
  constructor
  · rintro ⟨h, hne⟩
    cases state with
    | count n skips => cases h
    | sum total =>
        rw [Step.run, updatePresent] at h
        cases hinput : firstInput inputs >>= Total.ofScalar with
        | error other =>
            rw [hinput] at h
            cases h
            exact absurd rfl hne
        | ok input =>
            rw [hinput] at h
            obtain ⟨rfl, rfl, m, rfl, hsum⟩ := addTotal_fails_iff.1 h
            obtain ⟨value, hfirst, hvalue⟩ := Attempt.bind_eq_ok.1 hinput
            cases inputs with
            | nil => cases hfirst
            | cons first rest =>
                cases hfirst
                cases value with
                | int n =>
                    cases hvalue
                    exact ⟨rfl, rfl, n, rest, rfl, hsum⟩
                | _ => cases hvalue
    | _ => exact absurd (replaceBy_error h) hne
  · rintro ⟨rfl, rfl, n, rest, rfl, hsum⟩
    refine ⟨?_, hsum.ne⟩
    obtain ⟨a, rfl, -⟩ := id hsum
    exact addTotal_fails_iff.2 ⟨rfl, rfl, .ofInt64 n, rfl, hsum⟩

/-- Rows with a null are passed over. -/
theorem update_changes_iff :
    ((update inputs).run state = (.error fault, state') ∧ state' ≠ state) ↔
      fault = .needed .sumInRange ∧ state' = sum none ∧
        ∃ n rest, inputs = .int n :: rest ∧ rest.any Scalar.isNull = false ∧
          state.Overflows n.toInt := by
  cases hnull : inputs.any Scalar.isNull with
  | true =>
      have hrun : ((update inputs).run state).1 = .ok () := by
        rw [Step.run]
        unfold update
        split
        · rfl
        · rw [hnull]
          rfl
      constructor
      · rintro ⟨h, -⟩
        rw [h] at hrun
        cases hrun
      · rintro ⟨-, -, n, rest, rfl, hrest, -⟩
        rw [List.any_cons, hrest] at hnull
        cases hnull
  | false =>
      by_cases hcount : ∃ n, state = count n false
      · obtain ⟨n, rfl⟩ := hcount
        constructor
        · rintro ⟨h, -⟩
          cases h
        · rintro ⟨-, -, m, rest, -, -, hsum⟩
          obtain ⟨a, hstate, -⟩ := hsum
          cases hstate
      · have hrun : (update inputs).run state = (updatePresent inputs).run state := by
          rw [Step.run]
          unfold update
          split
          · next n => exact absurd ⟨n, rfl⟩ hcount
          · rw [hnull]
            rfl
        rw [hrun, updatePresent_changes_iff]
        constructor
        · rintro ⟨rfl, rfl, n, rest, rfl, hsum⟩
          exact ⟨rfl, rfl, n, rest, rfl, hnull, hsum⟩
        · rintro ⟨rfl, rfl, n, rest, rfl, -, hsum⟩
          exact ⟨rfl, rfl, n, rest, rfl, hsum⟩

end Update

theorem merge_changes_iff :
    ((merge other).run state = (.error fault, state') ∧ state' ≠ state) ↔
      fault = .needed .sumInRange ∧ state' = sum none ∧
        ∃ m : Int128, other = sum (some (.int m)) ∧ state.Overflows m.val := by
  constructor
  · rintro ⟨h, hne⟩
    by_cases hfault : fault = .needed .sumInRange
    · subst hfault
      rw [Step.run] at h
      cases state <;> cases other
      case sum.sum total more =>
        cases more with
        | none => cases h
        | some more =>
            obtain ⟨-, rfl, m, rfl, hsum⟩ := addTotal_fails_iff.1 h
            exact ⟨rfl, rfl, m, rfl, hsum⟩
      case variance.variance kind moments otherKind more =>
        rw [merge] at h
        split at h <;> cases h
      case covariance.covariance kind moments otherKind more =>
        rw [merge] at h
        split at h <;> cases h
      all_goals cases h
    · exact absurd (merge_error h hfault) hne
  · rintro ⟨rfl, rfl, m, rfl, hsum⟩
    refine ⟨?_, hsum.ne⟩
    obtain ⟨a, rfl, -⟩ := id hsum
    exact addTotal_fails_iff.2 ⟨rfl, rfl, m, rfl, hsum⟩

/-- A row or another accumulator that is refused changes an accumulator just if this is a sum of
integers that one more integer takes beyond 128 bits.  The sum is gone then. -/
theorem refusal_changes_iff (state state' : Accumulator) (fault : Fault) :
    (∀ inputs, ((update inputs).run state = (.error fault, state') ∧ state' ≠ state) ↔
      fault = .needed .sumInRange ∧ state' = sum none ∧
        ∃ n rest, inputs = .int n :: rest ∧ rest.any Scalar.isNull = false ∧
          state.Overflows n.toInt) ∧
    ∀ other, ((merge other).run state = (.error fault, state') ∧ state' ≠ state) ↔
      fault = .needed .sumInRange ∧ state' = sum none ∧
        ∃ m : Int128, other = sum (some (.int m)) ∧ state.Overflows m.val :=
  ⟨fun _ => update_changes_iff, fun _ => merge_changes_iff⟩

/-- The largest sum of integers. -/
def fullSum : Accumulator := sum (some (.int ⟨2 ^ 127 - 1, by decide, by decide⟩))

/-- An integer that is refused, be it an input or a sum, takes away what was there. -/
theorem refused_integer_empties_sum :
    (¬∀ inputs fault state', (update inputs).run fullSum = (.error fault, state') →
      state' = fullSum) ∧
    ¬∀ other fault state', (merge other).run fullSum = (.error fault, state') →
      state' = fullSum := by
  constructor
  · intro hsame
    have hrun : (update [.int 1]).run fullSum = (.error (.needed .sumInRange), sum none) := by
      decide +kernel
    cases hsame _ _ _ hrun
  · intro hsame
    have hrun : (merge (sum (some (.int (.ofInt64 1))))).run fullSum =
        (.error (.needed .sumInRange), sum none) := by
      decide +kernel
    cases hsame _ _ _ hrun

end Accumulator
end ExtentEngine
