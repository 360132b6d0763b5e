import ExtentEngine.Proofs.Join.NestedLoop
import ExtentEngine.Proofs.Join.Success.Works

/-!
# When the nested loop succeeds

The nested loop tries every pair of rows.

**Results.**
* `succeedsIff_leftExtents`: when the left extents can be gone through.
* `succeedsIff_run`: the nested loop succeeds if the join of all pairs works.
-/

namespace ExtentEngine

open Emission

variable {condition : Predicate} {out : JoinOutput}

namespace NestedLoop

/-- All pairs are tried. -/
def everyPair (_left _right : Record) : Bool := true

section Tests

variable {left right : Extent} {offset rightRows : Nat} {flags : PairFlags}

theorem succeedsIff_extentWithExtent (hflags : flags.Fits left.length rightRows)
    (hright : offset + right.length ≤ rightRows) :
    (extentWithExtent out condition left right offset flags).SucceedsIff
      (∀ test ∈ grid 0 offset left right, out.Passes condition test)
      (flags.after condition.decides (grid 0 offset left right)) := by
  have hrow : ∀ item ∈ left.zipIdx, ∀ flags : PairFlags, flags.Fits left.length rightRows →
      (rowWithExtent out condition item.1 item.2 right offset flags).SucceedsIff
        (∀ test ∈ (right.zipIdx offset).map fun other => ⟨item.1, other.1, item.2, other.2⟩,
          out.Passes condition test)
        (flags.after condition.decides ((right.zipIdx offset).map fun other =>
          ⟨item.1, other.1, item.2, other.2⟩)) := by
    intro item hitem flags hflags
    have hl := (List.getElem?_eq_some_iff.1 (List.mem_zipIdx_iff_getElem?.1 hitem)).1
    have htest : ∀ other ∈ right.zipIdx, ∀ flags : PairFlags, flags.Fits left.length rightRows →
        (out.test condition item.1 other.1 item.2 (offset + other.2) flags).SucceedsIff
          (∀ test ∈ [⟨item.1, other.1, item.2, offset + other.2⟩], out.Passes condition test)
          (flags.after condition.decides [⟨item.1, other.1, item.2, offset + other.2⟩]) := by
      intro other hother flags hflags
      have hr := (List.getElem?_eq_some_iff.1 (List.mem_zipIdx_iff_getElem?.1 hother)).1
      have hplace : offset + other.2 < rightRows :=
        Nat.lt_of_lt_of_le (Nat.add_lt_add_left hr offset) hright
      exact (@JoinOutput.succeedsIff_test condition out
        ⟨item.1, other.1, item.2, offset + other.2⟩ _ _ _ hflags hl hplace).congr
          List.forall_mem_singleton.symm
    have hrow := JoinOutput.succeedsIff_foldlM htest hflags
    rw [← List.map_eq_flatMap] at hrow
    rw [List.zipIdx_eq_map_add, List.map_map]
    exact hrow
  exact JoinOutput.succeedsIff_foldlM hrow hflags

/-- When the tests that a left extent takes part in succeed. -/
theorem succeedsIff_extentWithAll {rights : List Extent} (hflags : flags.Fits left.length rightRows)
    (hright : offset + rights.flatten.length ≤ rightRows) :
    (extentWithAll out condition left offset flags rights).SucceedsIff
      (∀ test ∈ extentTests left offset rights, out.Passes condition test)
      (flags.after condition.decides (extentTests left offset rights)) := by
  induction rights generalizing offset flags with
  | nil => exact (SucceedsIff.pure flags).congr (iff_of_true trivial (List.forall_mem_nil _))
  | cons right rights ih =>
      rw [List.flatten_cons, List.length_append] at hright
      rw [extentWithAll, extentTests, PairFlags.after_append]
      refine SucceedsIff.congr (SucceedsIff.bind (succeedsIff_extentWithExtent hflags ?_)
        fun _ => ih (hflags.after _ _) ?_) List.forall_mem_append.symm
      · omega
      · omega

end Tests

theorem tries_extentTests (left : Extent) (rights : List Extent) :
    Tries everyPair left rights.flatten (extentTests left 0 rights) where
  perm := by
    have hall : (grid 0 0 left rights.flatten).filter (PairTest.holds everyPair) = _ :=
      List.filter_eq_self.2 fun _ _ => rfl
    rw [hall]
    exact extentTests_perm left 0 rights

/-- When the left extents can be gone through, and which right rows have found a partner. -/
theorem succeedsIff_leftExtents {rights : List Extent} (partnered : Record → Bool)
    (lefts : List Extent) :
    (leftExtents out condition rights (rights.flatten.map partnered) lefts).SucceedsIff
      (out.WorksLeft condition everyPair lefts.flatten rights.flatten)
      (rights.flatten.map fun right =>
        partnered right || lefts.flatten.any (condition.among everyPair · right)) := by
  induction lefts generalizing partnered with
  | nil =>
      have hsame : (rights.flatten.map fun right =>
          partnered right || ([] : List Extent).flatten.any (condition.among everyPair · right)) =
          rights.flatten.map partnered := by simp
      rw [hsame]
      exact (SucceedsIff.pure _).congr (iff_of_true trivial JoinOutput.worksLeft_nil)
  | cons left lefts ih =>
      have htries := tries_extentTests left rights
      have hflags : PairFlags.Fits left.length rights.flatten.length
          ⟨left.map fun _ => false, rights.flatten.map partnered⟩ := .of_maps _ _ _ _
      have htests := @succeedsIff_extentWithAll condition out left 0 rights.flatten.length _ rights
        hflags (Nat.le_of_eq (Nat.zero_add _))
      have hlonely := out.succeedsIff_lefts (condition.among everyPair) [left] rights.flatten
      have hrest := ih fun right => partnered right || left.any (condition.among everyPair · right)
      rw [htries.after_eq] at htests
      rw [List.flatten_singleton] at hlonely
      simp only [List.flatten_cons, List.any_append, ← Bool.or_assoc]
      rw [leftExtents, MatchFlags.cleared_length]
      refine SucceedsIff.congr (SucceedsIff.bind (q :=
        (∀ pair ∈ out.declaredLefts (condition.among everyPair) left rights.flatten,
          out.Projects pair) ∧ out.WorksLeft condition everyPair lefts.flatten rights.flatten)
        htests fun _ => ?_) ?_
      · simp only [Emission.ite_bind]
        exact SucceedsIff.bind hlonely fun _ => hrest
      · rw [JoinOutput.worksLeft_append, JoinOutput.worksLeft_iff_of_tries htries, and_assoc]

/-- The nested loop succeeds if the join of all pairs works. -/
theorem succeedsIff_run (out : JoinOutput) (condition : Predicate) (lefts rights : List Extent) :
    (run out condition (.ofExtents lefts) (.ofExtents rights)).SucceedsIff
      (out.Works condition everyPair lefts.flatten rights.flatten) () := by
  have hlefts := @succeedsIff_leftExtents condition out rights (fun _ => false) lefts
  have hrights := out.succeedsIff_rights (condition.among everyPair) lefts.flatten rights
  rw [run, JoinSide.recordCount_ofExtents, MatchFlags.cleared_length]
  exact (hlefts.bind fun _ => hrights).congr JoinOutput.works_iff_worksLeft.symm

end NestedLoop
end ExtentEngine
