import ExtentEngine.Join.NestedLoop
import ExtentEngine.Proofs.Expr.Typing
import ExtentEngine.Proofs.Faults
import ExtentEngine.Proofs.Join.Pairing

/-!
# Tests look inside the flags

What a test of a pair sets are the flags of two rows, and if there are flags for all rows of both
inputs these are there.  Tests leave as many flags as there were, so the flags also cover the
ranges that are looked at for the rows without a partner, and every position that is found in such
a range is that of a row.

All of this is about lengths: it does not matter what the condition says of a pair.  Only the values
of a pair, of which the condition or the projection has none to say, make a test fail.

**Results.**
* `lt_of_mem_positions`: a scan delivers positions of its range.
* `JoinOutput.ofValues_test`, `ofValues_emitUnmatched`: a test and the emission of rows without a
  partner fail because of values only.
* `NestedLoop.ofValues_run`: so does a nested loop.
-/

namespace ExtentEngine

variable {out : JoinOutput} {condition : Predicate}

/-- Whether an emission fails because of values only, and what it comes to has a property. -/
abbrev Emission.OfValues {α : Type} (post : α → Prop) (m : Emission α) : Prop :=
  m.EndsIn (fun fault => fault.isOfValues = true) post

theorem Emission.ofValues_project (projection : Projection) (binding : Binding) :
    (project projection binding).OfValues fun _ => True :=
  EndsIn.bind (.of_attempt (projection.ofValues_evaluate binding)) fun _ _ =>
    ⟨.ok (), fun _ _ => trivial⟩

/-- A scan delivers positions of its range. -/
theorem lt_of_mem_positions {wanted : Bool} {flags : List Bool} {first row : Nat}
    (h : row ∈ positions wanted first flags) : row < first + flags.length := by
  induction flags generalizing first with
  | nil => cases h
  | cons flag flags ih =>
      rw [List.length_cons, Nat.add_comm flags.length, ← Nat.add_assoc]
      rw [positions] at h
      split at h
      · rcases List.mem_cons.1 h with rfl | h
        · omega
        · exact ih h
      · exact ih h

theorem rowAt_of_lt {extent : Extent} {row : Nat} (h : row < extent.length) :
    rowAt extent row = .ok extent[row] := by
  rw [rowAt, List.getElem?_eq_getElem h]

/-- A range of flags that is there is scanned from its start. -/
theorem MatchFlags.exists_unmatched {flags : MatchFlags} {first length : Nat}
    (h : first + length ≤ flags.length) :
    ∃ range : List Bool, range.length = length ∧
      flags.unmatched first (first + length) = .ok (.start false range) := by
  refine ⟨(flags.drop first).take length, ?_, ?_⟩
  · rw [List.length_take, List.length_drop]
    omega
  · rw [unmatched, range, if_pos ⟨Nat.le_add_right _ _, h⟩, Nat.add_sub_cancel_left]
    rfl

/-- The rows without a partner are there if all rows have flags. -/
theorem ofValues_emitUnmatched {emitRow : Record → Emission Unit} {flags : MatchFlags}
    {offset : Nat} {extents : List Extent} (hflags : offset + extents.flatten.length ≤ flags.length)
    (hemit : ∀ record, (emitRow record).OfValues fun _ => True) :
    (emitUnmatched emitRow flags offset extents).OfValues fun _ => True := by
  induction extents generalizing offset with
  | nil => exact .pure trivial
  | cons extent extents ih =>
      rw [List.flatten_cons, List.length_append] at hflags
      obtain ⟨range, hrange, hscan⟩ := @MatchFlags.exists_unmatched flags offset extent.length
        (by omega)
      have hrows : ∀ row ∈ positions false 0 range, (do
          let record ← .ofAttempt (rowAt extent row)
          emitRow record : Emission Unit).OfValues fun _ => True := by
        intro row hrow
        have hlt := lt_of_mem_positions hrow
        rw [Nat.zero_add, hrange] at hlt
        rw [rowAt_of_lt hlt, Emission.bind_ofAttempt_ok]
        exact hemit _
      rw [emitUnmatched, hscan, Emission.bind_ofAttempt_ok, MatchScan.toList_start,
        Emission.bind_ofAttempt_ok]
      exact (Emission.EndsIn.forEach hrows).bind fun _ _ => ih (by omega)

namespace JoinOutput

theorem ofValues_pair (out : JoinOutput) (left right : Record) :
    (out.pair left right).OfValues fun _ => True :=
  Emission.ofValues_project _ _

theorem ofValues_leftUnmatched (out : JoinOutput) (left : Record) :
    (out.leftUnmatched left).OfValues fun _ => True :=
  .ite (fun _ => out.ofValues_pair left out.rightNulls) trivial

theorem ofValues_rightUnmatched (out : JoinOutput) (right : Record) :
    (out.rightUnmatched right).OfValues fun _ => True :=
  .ite (fun _ => out.ofValues_pair out.leftNulls right) trivial

/-- A test of rows that have flags finds these, and leaves as many flags as there were. -/
theorem ofValues_test {left right : Record} {leftRow rightRow leftRows rightRows : Nat}
    {flags : PairFlags} (hflags : flags.Fits leftRows rightRows) (hleft : leftRow < leftRows)
    (hright : rightRow < rightRows) :
    (out.test condition left right leftRow rightRow flags).OfValues
      (PairFlags.Fits leftRows rightRows) := by
  have hmark : flags.mark leftRow rightRow =
      .ok ⟨flags.left.set leftRow true, flags.right.set rightRow true⟩ := by
    rw [PairFlags.mark, MatchFlags.mark, MatchFlags.mark, if_pos (hflags.1.symm ▸ hleft),
      if_pos (hflags.2.symm ▸ hright)]
    rfl
  have hset : PairFlags.Fits leftRows rightRows
      ⟨flags.left.set leftRow true, flags.right.set rightRow true⟩ :=
    ⟨List.length_set.trans hflags.1, List.length_set.trans hflags.2⟩
  refine Emission.EndsIn.bind (.of_attempt (condition.ofValues_holds _)) fun holds _ => ?_
  cases holds with
  | false => exact .pure hflags
  | true =>
      rw [if_pos rfl, hmark, Emission.bind_ofAttempt_ok]
      have hmatched : (out.matched left right).OfValues fun _ => True :=
        .ite (fun _ => out.ofValues_pair left right) trivial
      exact hmatched.bind fun _ _ => .pure hset

end JoinOutput

namespace NestedLoop

variable {left right : Extent} {offset rightRows : Nat} {flags : PairFlags}

theorem ofValues_rowWithExtent {record : Record} {leftRow leftRows : Nat}
    (hflags : flags.Fits leftRows rightRows) (hleft : leftRow < leftRows)
    (hright : offset + right.length ≤ rightRows) :
    (rowWithExtent out condition record leftRow right offset flags).OfValues
      (PairFlags.Fits leftRows rightRows) := by
  refine .foldlM (fun item hitem flags hflags => ?_) hflags
  have hrow := (List.getElem?_eq_some_iff.1 (List.mem_zipIdx_iff_getElem?.1 hitem)).1
  exact JoinOutput.ofValues_test hflags hleft (by omega)

theorem ofValues_extentWithExtent (hflags : flags.Fits left.length rightRows)
    (hright : offset + right.length ≤ rightRows) :
    (extentWithExtent out condition left right offset flags).OfValues
      (PairFlags.Fits left.length rightRows) := by
  refine .foldlM (fun item hitem flags hflags => ?_) hflags
  have hrow := (List.getElem?_eq_some_iff.1 (List.mem_zipIdx_iff_getElem?.1 hitem)).1
  exact ofValues_rowWithExtent hflags hrow hright

theorem ofValues_extentWithAll {rights : List Extent} (hflags : flags.Fits left.length rightRows)
    (hright : offset + rights.flatten.length ≤ rightRows) :
    (extentWithAll out condition left offset flags rights).OfValues
      (PairFlags.Fits left.length rightRows) := by
  induction rights generalizing offset flags with
  | nil => exact .pure hflags
  | cons right rights ih =>
      rw [List.flatten_cons, List.length_append] at hright
      exact (ofValues_extentWithExtent hflags (by omega)).bind fun flags hflags =>
        ih hflags (by omega)

/-- The flags of the right input are handed on, as many as there were. -/
theorem ofValues_leftExtents {rights : List Extent} {rightFlags : MatchFlags}
    (hflags : rightFlags.length = rights.flatten.length) (lefts : List Extent) :
    (leftExtents out condition rights rightFlags lefts).OfValues
      fun flags => flags.length = rights.flatten.length := by
  induction lefts generalizing rightFlags with
  | nil => exact .pure hflags
  | cons left lefts ih =>
      have hfits : PairFlags.Fits left.length rights.flatten.length
          ⟨.cleared left.length, rightFlags⟩ := ⟨List.length_replicate, hflags⟩
      rw [leftExtents]
      refine (ofValues_extentWithAll hfits (Nat.le_of_eq (Nat.zero_add _))).bind
        fun flags hflags => ?_
      rw [Emission.ite_bind]
      refine Emission.EndsIn.bind (.ite (fun _ => ofValues_emitUnmatched ?_
        out.ofValues_leftUnmatched) trivial) fun _ _ => ih hflags.2
      exact Nat.le_of_eq (by rw [List.flatten_singleton, hflags.1, Nat.zero_add])

/-- A nested loop looks inside the flags if the lengths of the right extents are noted. -/
theorem ofValues_run (out : JoinOutput) (condition : Predicate) (lefts : JoinSide)
    (rights : List Extent) :
    (run out condition lefts (.ofExtents rights)).OfValues fun _ => True := by
  have hcleared : (MatchFlags.cleared (JoinSide.ofExtents rights).recordCount).length =
      rights.flatten.length :=
    List.length_replicate.trans (JoinSide.recordCount_ofExtents rights)
  refine (ofValues_leftExtents hcleared lefts.extents).bind fun flags hflags => ?_
  refine .ite (fun _ => ofValues_emitUnmatched ?_ out.ofValues_rightUnmatched) trivial
  exact Nat.le_of_eq ((Nat.zero_add _).trans hflags.symm)

end NestedLoop
end ExtentEngine
