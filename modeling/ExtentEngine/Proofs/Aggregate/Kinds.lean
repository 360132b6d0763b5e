import ExtentEngine.Aggregate.Table
import ExtentEngine.Proofs.Aggregate.Groups
import ExtentEngine.Proofs.Attempt
import ExtentEngine.Proofs.Lists

/-!
# What accumulators are the state of

An accumulator keeps its kind, whatever is added to it or merged into it and whether or not
this succeeds.  Accumulators of the same kinds can be merged unless an integer total overflows,
which takes more rows than 64 bits can count: no row changes the absolute value of a total by
more than `2 ^ 63`.

**Results.**
* `kind_update` and `kind_merge`: accumulators keep their kinds.
* `magnitude_updateEach` and `magnitude_mergeAll`: totals grow by no more than is added.
* `mergeAll_fails`: accumulators of the same kinds are merged, unless a total overflows.
-/

namespace ExtentEngine

/-- What an accumulator is the state of, and what is made of it in the end. -/
inductive AccumulatorKind
  | count (skipsNulls : Bool)
  | sum
  | average
  | least
  | greatest
  | variance (kind : VarianceKind)
  | covariance (kind : CovarianceKind)
  | slope
deriving DecidableEq, Repr

/-- An attempt that fails by the overflow of a total at most, and only if totals of some
magnitude are large enough together. -/
def FailsByOverflow {α : Type} (magnitude : Nat) (result : Attempt α) : Prop :=
  ∀ fault, result = .error fault → fault = .needed .sumInRange ∧ 2 ^ 127 ≤ magnitude

theorem failsByOverflow_ok {α : Type} (magnitude : Nat) (a : α) :
    FailsByOverflow magnitude (.ok a : Attempt α) := nofun

theorem FailsByOverflow.mono {α : Type} {magnitude magnitude' : Nat} {result : Attempt α}
    (h : FailsByOverflow magnitude result) (hle : magnitude ≤ magnitude') :
    FailsByOverflow magnitude' result :=
  fun fault hfault => ⟨(h fault hfault).1, Nat.le_trans (h fault hfault).2 hle⟩

/-- A failure is passed on. -/
theorem FailsByOverflow.error {α β : Type} {magnitude : Nat} {fault : Fault}
    (h : FailsByOverflow magnitude (.error fault : Attempt α)) :
    FailsByOverflow magnitude (.error fault : Attempt β) := by
  rintro other ⟨⟩
  exact h fault rfl

namespace Accumulator

def kind : Accumulator → AccumulatorKind
  | count _ skips => .count skips
  | sum _ => .sum
  | average _ _ => .average
  | least _ => .least
  | greatest _ => .greatest
  | variance kind _ => .variance kind
  | covariance kind _ => .covariance kind
  | slope _ => .slope

/-- The absolute value of an integer total. -/
def magnitude : Accumulator → Nat
  | sum (some (.int n)) => n.val.natAbs
  | _ => 0

/-- The largest absolute value among integer totals. -/
def largest (states : List Accumulator) : Nat := (states.map magnitude).foldr max 0

/-- What becomes of an accumulator that keeps its kind and to whose total not more than a limit is
added. -/
structure Grows (limit : Nat) (before after : Accumulator) : Prop where
  kind : after.kind = before.kind
  magnitude : after.magnitude ≤ before.magnitude + limit

variable {state other : Accumulator} {states others : List Accumulator} {limit : Nat}

theorem Grows.refl (limit : Nat) (state : Accumulator) : Grows limit state state :=
  ⟨rfl, Nat.le_add_right _ _⟩

theorem Grows.mono {limit' : Nat} (h : Grows limit state other) (hle : limit ≤ limit') :
    Grows limit' state other :=
  ⟨h.kind, Nat.le_trans h.magnitude (Nat.add_le_add_left hle _)⟩

section AddTotal

theorem kind_addTotal (total : Option Total) (input : Total) :
    (addTotal total input).2.kind = .sum := by
  cases total with
  | none => rfl
  | some current =>
      rw [addTotal]
      split <;> rfl

/-- A total is added to another one, unless the two overflow. -/
theorem addTotal_spec (total : Option Total) (input : Total) :
    Grows (sum (some input)).magnitude (sum total) (addTotal total input).2 ∧
      FailsByOverflow ((sum total).magnitude + (sum (some input)).magnitude)
        (addTotal total input).1 := by
  suffices h : (addTotal total input).2.magnitude ≤
        (sum total).magnitude + (sum (some input)).magnitude ∧
      FailsByOverflow ((sum total).magnitude + (sum (some input)).magnitude)
        (addTotal total input).1 from ⟨⟨kind_addTotal total input, h.1⟩, h.2⟩
  rcases total with _ | current
  · exact ⟨Nat.le_add_left _ _, failsByOverflow_ok _ _⟩
  rcases current with n | x <;> rcases input with m | y
  case int.int =>
    simp only [addTotal, Total.add]
    cases hsum : Int128.ofInt? (n.val + m.val) with
    | some both =>
        have hboth := Int128.ofInt?_eq_some_iff.1 hsum
        refine ⟨?_, failsByOverflow_ok _ _⟩
        simp only [magnitude, hboth]
        exact Int.natAbs_add_le _ _
    | none =>
        refine ⟨Nat.zero_le _, fun fault hfault => ⟨by cases hfault; rfl, ?_⟩⟩
        have hout : ¬(-2 ^ 127 ≤ n.val + m.val ∧ n.val + m.val < 2 ^ 127) := fun hin => by
          rw [Int128.ofInt?, dif_pos hin] at hsum
          cases hsum
        simp only [magnitude]
        omega
  all_goals exact ⟨Nat.zero_le _, failsByOverflow_ok _ _⟩

end AddTotal

section Update

theorem magnitude_ofScalar {input : Scalar} {total : Total}
    (h : Total.ofScalar input = .ok total) : (sum (some total)).magnitude ≤ 2 ^ 63 := by
  cases input with
  | int n =>
      cases h
      have hlow := n.le_toInt
      have hhigh := n.toInt_lt
      simp only [magnitude, Int128.ofInt64]
      omega
  | float x =>
      cases h
      exact Nat.zero_le _
  | _ => cases h

/-- Where an accumulator is not put in place of another one, it stays. -/
theorem grows_replaceBy {next : Attempt Accumulator}
    (h : ∀ after, next = .ok after → Grows limit state after) :
    Grows limit state (state.replaceBy next).2 := by
  cases next with
  | error fault => exact .refl _ _
  | ok after => exact h after rfl

theorem grows_updatePresent (inputs : List Scalar) (state : Accumulator) :
    Grows (2 ^ 63) state ((updatePresent inputs).run state).2 := by
  cases state with
  | count n skips => exact ⟨rfl, Nat.zero_le _⟩
  | sum total =>
      simp only [Step.run, updatePresent]
      cases hinput : firstInput inputs >>= Total.ofScalar with
      | error fault => exact .refl _ _
      | ok input =>
          obtain ⟨value, -, hvalue⟩ := Attempt.bind_eq_ok.1 hinput
          exact (addTotal_spec total input).1.mono (magnitude_ofScalar hvalue)
  | _ =>
      refine grows_replaceBy fun after hafter => ?_
      obtain ⟨x, -, hafter⟩ := Attempt.bind_eq_ok.1 hafter
      cases hafter
      exact ⟨rfl, Nat.zero_le _⟩

/-- What becomes of an accumulator when a row is added to it, even if that fails. -/
theorem grows_update (inputs : List Scalar) (state : Accumulator) :
    Grows (2 ^ 63) state ((update inputs).run state).2 := by
  simp only [Step.run, update]
  split
  · exact ⟨rfl, Nat.zero_le _⟩
  · split
    · exact .refl _ _
    · exact grows_updatePresent inputs state

end Update

section Merge

/-- Another accumulator is merged into one.  This fails for different kinds, and otherwise only if
the totals overflow. -/
theorem merge_spec (other state : Accumulator) :
    Grows other.magnitude state ((merge other).run state).2 ∧
      (state.kind = other.kind →
        FailsByOverflow (state.magnitude + other.magnitude) ((merge other).run state).1) := by
  cases state <;> cases other
  case sum.sum total more =>
    cases more with
    | none => exact ⟨.refl _ _, fun _ => failsByOverflow_ok _ _⟩
    | some more =>
        obtain ⟨hgrows, hfails⟩ := addTotal_spec total more
        exact ⟨hgrows, fun _ => hfails⟩
  case variance.variance kind moments otherKind more =>
    simp only [Step.run, merge]
    split
    · exact ⟨⟨rfl, Nat.zero_le _⟩, fun _ => failsByOverflow_ok _ _⟩
    · next hne => exact ⟨.refl _ _, fun h => absurd (AccumulatorKind.variance.inj h) hne⟩
  case covariance.covariance kind moments otherKind more =>
    simp only [Step.run, merge]
    split
    · exact ⟨⟨rfl, Nat.zero_le _⟩, fun _ => failsByOverflow_ok _ _⟩
    · next hne => exact ⟨.refl _ _, fun h => absurd (AccumulatorKind.covariance.inj h) hne⟩
  all_goals first
    | exact ⟨⟨rfl, Nat.zero_le _⟩, fun _ => failsByOverflow_ok _ _⟩
    | exact ⟨.refl _ _, nofun⟩

end Merge

section Lists

theorem magnitude_le_largest (h : state ∈ states) : state.magnitude ≤ largest states := by
  induction states with
  | nil => cases h
  | cons first states ih =>
      rcases List.mem_cons.1 h with rfl | h
      · exact Nat.le_max_left _ _
      · exact Nat.le_trans (ih h) (Nat.le_max_right _ _)

theorem largest_le (h : ∀ state ∈ states, state.magnitude ≤ limit) : largest states ≤ limit := by
  induction states with
  | nil => exact Nat.zero_le _
  | cons first states ih =>
      obtain ⟨hfirst, hstates⟩ := List.forall_mem_cons.1 h
      exact Nat.max_le.2 ⟨hfirst, ih hstates⟩

theorem kinds_of_grows (h : List.Forall₂ (Grows limit) states others) :
    others.map kind = states.map kind :=
  map_eq_map_of_forall₂ h.flip fun _ _ hgrows => hgrows.kind

theorem largest_of_grows (h : List.Forall₂ (Grows limit) states others) :
    largest others ≤ largest states + limit := by
  refine largest_le fun other hother => ?_
  obtain ⟨state, hstate, hgrows⟩ := exists_of_mem_right h hother
  exact Nat.le_trans hgrows.magnitude (Nat.add_le_add_right (magnitude_le_largest hstate) _)

theorem grows_self (limit : Nat) (states : List Accumulator) :
    List.Forall₂ (Grows limit) states states :=
  List.forall₂_same.2 fun state _ => .refl limit state

theorem mergeEach_of_error {fault : Fault} {merged : Accumulator}
    (h : (merge other).run state = (.error fault, merged)) :
    mergeEach (state :: states) (other :: others) = (.error fault, merged :: states) := by
  rw [mergeEach, h]

theorem mergeEach_of_ok {merged : Accumulator} (h : (merge other).run state = (.ok (), merged)) :
    mergeEach (state :: states) (other :: others) =
      ((mergeEach states others).1, merged :: (mergeEach states others).2) := by
  rw [mergeEach, h]

/-- What becomes of accumulators into which others are merged, up to a failure. -/
theorem grows_mergeEach (states others : List Accumulator) :
    List.Forall₂ (Grows (largest others)) states (mergeEach states others).2 := by
  induction states generalizing others with
  | nil => cases others <;> exact .nil
  | cons state states ih =>
      cases others with
      | nil => exact grows_self _ _
      | cons other others =>
          have hfirst := (merge_spec other state).1.mono (Nat.le_max_left _ (largest others))
          have hrest := (ih others).imp fun _ _ h => h.mono (Nat.le_max_right other.magnitude _)
          rcases hmerge : (merge other).run state with ⟨result, merged⟩
          rw [hmerge] at hfirst
          cases result with
          | error fault =>
              rw [mergeEach_of_error hmerge]
              exact .cons hfirst (grows_self _ _)
          | ok _ =>
              rw [mergeEach_of_ok hmerge]
              exact .cons hfirst hrest

theorem mergeEach_fails (h : states.map kind = others.map kind) :
    FailsByOverflow (largest states + largest others) (mergeEach states others).1 := by
  induction states generalizing others with
  | nil => cases others <;> exact failsByOverflow_ok _ _
  | cons state states ih =>
      cases others with
      | nil => exact failsByOverflow_ok _ _
      | cons other others =>
          obtain ⟨hkind, hkinds⟩ := List.cons.inj h
          have hfails := ((merge_spec other state).2 hkind).mono
            (Nat.add_le_add (Nat.le_max_left _ (largest states))
              (Nat.le_max_left _ (largest others)))
          rcases hmerge : (merge other).run state with ⟨result, merged⟩
          cases result with
          | error fault =>
              rw [mergeEach_of_error hmerge]
              rw [hmerge] at hfails
              exact hfails
          | ok _ =>
              rw [mergeEach_of_ok hmerge]
              exact (ih hkinds).mono
                (Nat.add_le_add (Nat.le_max_right state.magnitude _)
                  (Nat.le_max_right other.magnitude _))

theorem grows_mergeAll (states others : List Accumulator) :
    List.Forall₂ (Grows (largest others)) states ((mergeAll others).run states).2 := by
  simp only [Step.run, mergeAll]
  split
  · exact grows_mergeEach states others
  · exact grows_self _ _

/-- Accumulators of the same kinds are merged, unless totals overflow. -/
theorem mergeAll_fails (h : states.map kind = others.map kind) :
    FailsByOverflow (largest states + largest others) ((mergeAll others).run states).1 := by
  have hlength : states.length = others.length := by
    simpa using congrArg List.length h
  rw [Step.run, mergeAll, if_pos hlength]
  exact mergeEach_fails h

end Lists
end Accumulator
end ExtentEngine
