import ExtentEngine.Aggregate.Merging
import ExtentEngine.Proofs.Scalar.Order
import Mathlib.Data.List.Perm.Basic

/-!
# Extrema

**Results.**
* `IsExtremum.append`: the better one of two extrema is the extremum of the values of both.
* `IsExtremum.extremum_eq`: an extremum depends on the values alone.
-/

namespace ExtentEngine

/-- The value than which none of the values is better. -/
def extremum (order : Ordering) (values : List Scalar) : Option Scalar :=
  values.find? fun value => values.all fun other => other.compare value ≠ order

/-- An extremum of some values; there is none if there are no values. -/
def IsExtremum (order : Ordering) (values : List Scalar) : Option Scalar → Prop
  | none => values = []
  | some best => best ∈ values ∧ ∀ value ∈ values, value.compare best ≠ order

namespace IsExtremum

variable {order : Ordering} {values others : List Scalar} {best other : Option Scalar}

/-- What is not better than the better one of two values is not better than the other one. -/
theorem ne_of_better (horder : order ≠ .eq) {a b c : Scalar} (hab : a.compare b = order)
    (hcb : c.compare b ≠ order) : c.compare a ≠ order := by
  intro hca
  cases order with
  | eq => exact horder rfl
  | lt => exact hcb (Std.TransCmp.lt_trans hca hab)
  | gt => exact hcb (Std.TransCmp.gt_trans hca hab)

theorem ne_trans (horder : order ≠ .eq) {a b c : Scalar} (hab : a.compare b ≠ order)
    (hca : c.compare a ≠ order) : c.compare b ≠ order := by
  cases order with
  | eq => exact absurd rfl horder
  | lt =>
      exact Ordering.ne_lt_iff_isGE.2 (Std.TransCmp.isGE_trans (Ordering.ne_lt_iff_isGE.1 hca)
        (Ordering.ne_lt_iff_isGE.1 hab))
  | gt =>
      exact Ordering.ne_gt_iff_isLE.2 (Std.TransCmp.isLE_trans (Ordering.ne_gt_iff_isLE.1 hca)
        (Ordering.ne_gt_iff_isLE.1 hab))

/-- The better one of two extrema is the extremum of the values of both. -/
theorem append (horder : order ≠ .eq) (h : IsExtremum order values best)
    (h' : IsExtremum order others other) :
    IsExtremum order (values ++ others) (Accumulator.betterOf order best other) := by
  cases other with
  | none =>
      rw [show others = [] from h', List.append_nil]
      exact h
  | some input =>
      obtain ⟨hmem, hle⟩ := h'
      cases best with
      | none =>
          rw [show values = [] from h]
          exact ⟨hmem, hle⟩
      | some current =>
          obtain ⟨hmem', hle'⟩ := h
          rw [Accumulator.betterOf, Accumulator.better]
          split
          · next hbetter =>
              refine ⟨List.mem_append_right _ hmem, List.forall_mem_append.2 ⟨?_, hle⟩⟩
              exact fun value hvalue => ne_of_better horder hbetter (hle' value hvalue)
          · next hworse =>
              refine ⟨List.mem_append_left _ hmem', List.forall_mem_append.2 ⟨hle', ?_⟩⟩
              exact fun value hvalue => ne_trans horder hworse (hle value hvalue)

theorem singleton (horder : order ≠ .eq) (value : Scalar) :
    IsExtremum order [value] (some value) := by
  refine ⟨List.mem_singleton.2 rfl, fun other hother => ?_⟩
  rw [List.mem_singleton.1 hother, Scalar.compare_self]
  exact horder.symm

theorem perm (h : IsExtremum order values best) (hperm : values.Perm others) :
    IsExtremum order others best := by
  cases best with
  | none =>
      rw [show values = [] from h] at hperm
      exact hperm.symm.eq_nil
  | some best =>
      exact ⟨hperm.mem_iff.1 h.1, fun value hvalue => h.2 value (hperm.mem_iff.2 hvalue)⟩

/-- Values neither of which is better than the other are the same. -/
theorem eq_of_ne (horder : order ≠ .eq) {a b : Scalar} (hab : a.compare b ≠ order)
    (hba : b.compare a ≠ order) : a = b := by
  have hswap : b.compare a = (a.compare b).swap := Std.OrientedCmp.eq_swap
  rw [hswap] at hba
  refine Scalar.eq_of_compare ?_
  cases hcompare : a.compare b <;> cases order <;> simp_all

theorem extremum_eq (horder : order ≠ .eq) (h : IsExtremum order values best) :
    extremum order values = best := by
  cases best with
  | none =>
      rw [show values = [] from h]
      rfl
  | some best =>
      obtain ⟨hmem, hle⟩ := h
      have hbest : (values.all fun other => decide (other.compare best ≠ order)) = true :=
        List.all_eq_true.2 fun other hother => decide_eq_true (hle other hother)
      cases hfound : extremum order values with
      | none => exact absurd hbest (List.find?_eq_none.1 hfound best hmem)
      | some found =>
          have hall := List.find?_some hfound
          have hmem' := List.mem_of_find?_eq_some hfound
          have hne := of_decide_eq_true (List.all_eq_true.1 hall best hmem)
          rw [eq_of_ne horder (hle found hmem') hne]

end IsExtremum
end ExtentEngine
