import ExtentEngine.Join.NestedLoop
import ExtentEngine.Proofs.Join.Pairing
import ExtentEngine.Proofs.Join.Sequence

/-!
# The nested loop is right

The nested loop tests every pair of rows once, extent by extent.

**Results.**
* `extentWithAll_eq`: the tests that a left extent takes part in.
* `leftExtents_eq`: what has been emitted, and which right rows have found a partner, when
  some of the left extents have been gone through.
* `run_eq`: what the nested loop emits, and in which order.
* `emitsJoin_run`: the nested loop emits the join.
-/

namespace ExtentEngine

variable {hold : Record → Record → Bool} {row : Record × Record → Record} {out : JoinOutput}
  {condition : Predicate}

/-- Grids side by side. -/
theorem grid_append_right (firstLeft firstRight : Nat) (lefts rights rights' : List Record) :
    (grid firstLeft firstRight lefts (rights ++ rights')).Perm
      (grid firstLeft firstRight lefts rights ++
        grid firstLeft (firstRight + rights.length) lefts rights') := by
  simp only [grid, List.zipIdx_append, List.map_append]
  exact (List.flatMap_append_perm _ _ _).symm

namespace NestedLoop

/-- The tests of the rows of a left extent, in the order in which they are made. -/
def extentTests (left : Extent) (offset : Nat) : List Extent → List PairTest
  | [] => []
  | right :: rights => grid 0 offset left right ++ extentTests left (offset + right.length) rights

theorem extentTests_perm (left : Extent) (offset : Nat) (rights : List Extent) :
    (extentTests left offset rights).Perm (grid 0 offset left rights.flatten) := by
  induction rights generalizing offset with
  | nil => simp [extentTests, grid]
  | cons right rights ih =>
      rw [extentTests, List.flatten_cons]
      exact ((ih _).append_left _).trans (grid_append_right 0 offset left right _).symm

section Tests

variable {left : Extent} {rightRows : Nat}

theorem extentWithExtent_eq {right : Extent} {offset : Nat} {flags : PairFlags}
    (hcondition : ∀ l ∈ left, ∀ r ∈ right, condition.holds (.ofPair l r) = .ok (hold l r))
    (hrenders : out.Renders row (out.declaredMatches hold left right))
    (hflags : flags.Fits left.length rightRows) (hright : offset + right.length ≤ rightRows) :
    extentWithExtent out condition left right offset flags =
      out.tested hold row flags (grid 0 offset left right) := by
  have hrow : ∀ item ∈ left.zipIdx, ∀ flags : PairFlags, flags.Fits left.length rightRows →
      rowWithExtent out condition item.1 item.2 right offset flags =
        out.tested hold row flags ((right.zipIdx offset).map fun other =>
          ⟨item.1, other.1, item.2, other.2⟩) := by
    intro item hitem flags hflags
    have hl := List.mem_zipIdx_iff_getElem?.1 hitem
    have htest : ∀ other ∈ right.zipIdx, ∀ flags : PairFlags, flags.Fits left.length rightRows →
        out.test condition item.1 other.1 item.2 (offset + other.2) flags =
          out.tested hold row flags [⟨item.1, other.1, item.2, offset + other.2⟩] := by
      intro other hother flags hflags
      have hr := List.mem_zipIdx_iff_getElem?.1 hother
      have hplace : offset + other.2 < rightRows :=
        Nat.lt_of_lt_of_le (Nat.add_lt_add_left (List.getElem?_eq_some_iff.1 hr).1 offset) hright
      have hmem := List.mem_of_getElem? hl
      have hmem' := List.mem_of_getElem? hr
      have htestable : out.Testable condition hold row left.length rightRows
          ⟨item.1, other.1, item.2, offset + other.2⟩ :=
        ⟨hcondition _ hmem _ hmem', fun hemits hhold =>
          hrenders _ (mem_declaredMatches hemits hmem hmem' hhold),
          (List.getElem?_eq_some_iff.1 hl).1, hplace⟩
      exact JoinOutput.test_eq htestable hflags
    have hrow := JoinOutput.foldlM_tested htest hflags
    rw [← List.map_eq_flatMap] at hrow
    rw [List.zipIdx_eq_map_add, List.map_map]
    exact hrow
  exact JoinOutput.foldlM_tested hrow hflags

/-- The tests that a left extent takes part in. -/
theorem extentWithAll_eq {rights : List Extent} {offset : Nat} {flags : PairFlags}
    (hcondition : ∀ l ∈ left, ∀ r ∈ rights.flatten, condition.holds (.ofPair l r) = .ok (hold l r))
    (hrenders : out.Renders row (out.declaredMatches hold left rights.flatten))
    (hflags : flags.Fits left.length rightRows)
    (hright : offset + rights.flatten.length ≤ rightRows) :
    extentWithAll out condition left offset flags rights =
      out.tested hold row flags (extentTests left offset rights) := by
  induction rights generalizing offset flags with
  | nil =>
      rw [extentWithAll, extentTests, JoinOutput.tested, JoinOutput.found]
      split <;> rfl
  | cons right rights ih =>
      rw [List.flatten_cons, List.length_append] at hright
      rw [List.flatten_cons] at hcondition hrenders
      have hfirst := extentWithExtent_eq
        (fun l hl r hr => hcondition l hl r (List.mem_append_left _ hr))
        (hrenders.mono (declaredMatches_subset (List.Subset.refl _) (List.subset_append_left _ _)))
        hflags (Nat.le_trans (Nat.add_le_add_left (Nat.le_add_right _ _) _) hright)
      have hrest := @ih (offset + right.length) (flags.after hold (grid 0 offset left right))
        (fun l hl r hr => hcondition l hl r (List.mem_append_right _ hr))
        (hrenders.mono (declaredMatches_subset (List.Subset.refl _) (List.subset_append_right _ _)))
        (hflags.after hold (grid 0 offset left right)) (by rw [Nat.add_assoc]; exact hright)
      rw [extentWithAll, extentTests, JoinOutput.tested_append, hfirst]
      simp only [bind, JoinOutput.tested] at hrest ⊢
      rw [hrest]

end Tests

theorem extentTests_covers (left : Extent) (rights : List Extent) :
    Covers hold left rights.flatten (extentTests left 0 rights) :=
  (extentTests_perm left 0 rights).filter _

/-- The matches among the tests of a left extent, in the order in which they are found. -/
theorem filter_extentTests (left : Extent) (offset : Nat) (rights : List Extent) :
    ((extentTests left offset rights).filter (PairTest.holds hold)).map PairTest.pair =
      loopMatches hold [left] rights := by
  rw [loopMatches_singleton]
  induction rights generalizing offset with
  | nil => rfl
  | cons right rights ih =>
      rw [extentTests, List.filter_append, List.map_append, filter_grid, ih, List.flatMap_cons]

/-- What the left extents emit, and which right rows have found a partner among their rows. -/
theorem leftExtents_eq {lefts rights : List Extent} (partnered : Record → Bool)
    (hcondition : ∀ l ∈ lefts.flatten, ∀ r ∈ rights.flatten,
      condition.holds (.ofPair l r) = .ok (hold l r))
    (hmatches : out.Renders row (out.declaredMatches hold lefts.flatten rights.flatten))
    (hlefts : out.Renders row (out.declaredLefts hold lefts.flatten rights.flatten)) :
    leftExtents out condition rights (rights.flatten.map partnered) lefts =
      ⟨(lefts.flatMap (out.leftSequence hold rights)).map row,
        .ok (rights.flatten.map fun right =>
          partnered right || lefts.flatten.any (hold · right))⟩ := by
  induction lefts generalizing partnered with
  | nil =>
      rw [leftExtents]
      simp
      rfl
  | cons left lefts ih =>
      rw [List.flatten_cons] at hcondition hmatches hlefts
      rw [out.declaredMatches_append_left] at hmatches
      rw [out.declaredLefts_append_left] at hlefts
      have hflags : PairFlags.Fits left.length rights.flatten.length
          ⟨left.map fun _ => false, rights.flatten.map partnered⟩ := .of_maps _ _ _ _
      have htests := extentWithAll_eq
        (fun l hl r hr => hcondition l (List.mem_append_left _ hl) r hr)
        (hmatches.mono (List.subset_append_left _ _)) hflags (Nat.le_of_eq (Nat.zero_add _))
      have hcovers : Covers hold left rights.flatten (extentTests left 0 rights) :=
        extentTests_covers left rights
      have hfound : out.found hold row (extentTests left 0 rights) =
          (if out.method.emitsMatches then loopMatches hold [left] rights else []).map row := by
        rw [JoinOutput.found, ← filter_extentTests left 0 rights]
        split
        · exact List.map_map.symm
        · rfl
      have hlonely := @JoinOutput.emitUnmatched_lefts hold row out rights.flatten [left]
        (by rw [List.flatten_singleton]; exact hlefts.mono (List.subset_append_left _ _))
      rw [JoinOutput.tested, after_of_covers hcovers, hfound] at htests
      rw [List.flatten_singleton] at hlonely
      have hrest := ih (fun right => partnered right || left.any (hold · right))
        (fun l hl r hr => hcondition l (List.mem_append_right _ hl) r hr)
        (hmatches.mono (List.subset_append_right _ _)) (hlefts.mono (List.subset_append_right _ _))
      rw [leftExtents, MatchFlags.cleared_length, htests, Emission.bind_emitted]
      simp only
      rw [Emission.ite_bind, hlonely, Emission.bind_emitted, hrest]
      simp only [List.flatten_cons, List.any_append, Bool.or_assoc, List.flatMap_cons,
        JoinOutput.leftSequence, List.map_append, List.append_assoc]

/-- What the nested loop emits, in the order of its loops. -/
theorem run_eq {lefts rights : List Extent}
    (hcondition : ∀ l ∈ lefts.flatten, ∀ r ∈ rights.flatten,
      condition.holds (.ofPair l r) = .ok (hold l r))
    (hrenders : out.Renders row (out.declared hold lefts.flatten rights.flatten)) :
    run out condition (.ofExtents lefts) (.ofExtents rights) =
      ⟨(out.loopSequence hold lefts rights).map row, .ok ()⟩ := by
  have hpairs := hrenders.mono (List.subset_append_left _ _)
  have hrun := leftExtents_eq (fun _ => false) hcondition
    (hpairs.mono (List.subset_append_left _ _)) (hpairs.mono (List.subset_append_right _ _))
  have hlonely := @JoinOutput.emitUnmatched_rights hold row out lefts.flatten rights
    (hrenders.mono (List.subset_append_right _ _))
  rw [run, JoinSide.recordCount_ofExtents, MatchFlags.cleared_length, JoinSide.ofExtents,
    JoinSide.ofExtents, hrun, Emission.bind_emitted, hlonely, JoinOutput.loopSequence,
    List.map_append]

/-- The nested loop emits the join. -/
theorem emitsJoin_run {lefts rights : List Extent}
    (hcondition : ∀ l ∈ lefts.flatten, ∀ r ∈ rights.flatten,
      condition.holds (.ofPair l r) = .ok (hold l r))
    (hcomputes : out.Computes row lefts.flatten rights.flatten) :
    out.EmitsJoin hold row lefts.flatten rights.flatten
      (run out condition (.ofExtents lefts) (.ofExtents rights)) :=
  ⟨_, run_eq hcondition hcomputes.renders, (out.loopSequence_perm lefts rights).map row⟩

end NestedLoop
end ExtentEngine
