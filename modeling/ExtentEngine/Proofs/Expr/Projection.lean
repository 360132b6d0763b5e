import ExtentEngine.Expr.Evaluation
import ExtentEngine.Proofs.Attempt

/-!
# Projections of columns

**Results.**
* `exists_evaluate_both`: the columns of both sides can be projected from any two rows that
  have them.
* `evaluate_identity`: the identity gives the row back.
-/

namespace ExtentEngine

theorem Record.cell_eq_ok {record : Record} {column : Nat} (h : column < record.length) :
    record.cell column = .ok (record.cellOrNull column) := by
  rw [cell, cellOrNull, List.getElem?_eq_getElem h]
  rfl

namespace Expr

theorem evaluate_leftColumn {binding : Binding} {record : Record} (h : binding.left = some record)
    (column : Nat) : evaluate binding (.leftColumn column) = record.cell column := by
  rw [leftColumn, evaluate, Binding.register, h]
  rfl

theorem evaluate_rightColumn {binding : Binding} {record : Record}
    (h : binding.right = some record) (column : Nat) :
    evaluate binding (.rightColumn column) = record.cell column := by
  rw [rightColumn, evaluate, Binding.register, h]
  rfl

end Expr

namespace Projection

theorem exists_evaluate_both (left right : Record) :
    ∃ record, evaluate (both left.length right.length) (.ofPair left right) = .ok record := by
  refine Attempt.exists_mapM fun expr hexpr => ?_
  rcases List.mem_append.1 hexpr with hexpr | hexpr
  · obtain ⟨column, hcolumn, rfl⟩ := List.mem_map.1 hexpr
    rw [Expr.evaluate_leftColumn rfl]
    exact ⟨_, Record.cell_eq_ok (List.mem_range.1 hcolumn)⟩
  · obtain ⟨column, hcolumn, rfl⟩ := List.mem_map.1 hexpr
    rw [Expr.evaluate_rightColumn rfl]
    exact ⟨_, Record.cell_eq_ok (List.mem_range.1 hcolumn)⟩

/-- The identity gives the row back. -/
theorem evaluate_identity (record : Record) :
    evaluate (identity record.length) (.ofLeft record) = .ok record := by
  refine Attempt.mapM_eq_ok.2 (List.forall₂_iff_get.2 ⟨by simp [identity], fun i hi hi' => ?_⟩)
  have hget : (identity record.length).get ⟨i, hi⟩ = .leftColumn i := by
    simp [identity]
  rw [hget, Expr.evaluate_leftColumn rfl, Record.cell]
  simp [List.getElem?_eq_getElem hi']

end Projection
end ExtentEngine
