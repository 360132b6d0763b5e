import ExtentEngine.Expr.Evaluation
import ExtentEngine.Proofs.Binary64.Value
import ExtentEngine.Proofs.Scalar.Order

/-!
# Integers against floats

An integer and a float of different values are compared through the float nearest to the integer.
That is the order of their values unless the integer is rounded down to that very float: then the
integer, although larger, comes before the float.

**Results.**
* `compare_faithful_iff`: when an integer and a float, and comparisons of them in expressions, are
  in the order of their values.
* `rounded_down_comes_first`: they are not always.
-/

namespace ExtentEngine

namespace Comparison

/-- Whether the comparison holds of two numbers. -/
def holdsOf : Comparison → ℚ → ℚ → Bool
  | eq, a, b => a = b
  | ne, a, b => a ≠ b
  | lt, a, b => a < b
  | le, a, b => a ≤ b
  | gt, a, b => b < a
  | ge, a, b => b ≤ a

/-- A comparison by order, which tells apart the two orders that different numbers may have. -/
theorem holds_eq_holdsOf_iff {op : Comparison} {order : Ordering} {a b : ℚ} (hop : op ≠ .eq)
    (hop' : op ≠ .ne) (horder : order ≠ .eq) (hne : a ≠ b) :
    op.holds order = op.holdsOf a b ↔ order = cmp a b := by
  rcases lt_or_gt_of_ne hne with hlt | hgt
  · rw [(cmp_eq_lt_iff a b).2 hlt]
    cases op <;> cases order <;> simp_all [holds, holdsOf, hlt.le, hlt.not_gt, hlt.not_ge]
  · rw [(cmp_eq_gt_iff a b).2 hgt]
    cases op <;> cases order <;> simp_all [holds, holdsOf, hgt.le, hgt.not_gt, hgt.not_ge]

end Comparison

namespace Scalar

/-- The integer is larger than the float and yet rounds to it. -/
def RoundsDownTo (n : Int64) (x : Binary64) : Prop := x.value < n.toInt ∧ floatOfInt n = x

theorem compare_int_float_ne (n : Int64) (x : Binary64) : (int n).compare (float x) ≠ .eq := by
  rw [compare]
  cases (floatOfInt n).totalCompare x <;> decide

/-- Integers of at most 53 bits are not rounded. -/
theorem not_roundsDownTo {n : Int64} (hn : n.toInt.natAbs ≤ 2 ^ 53) (x : Binary64) :
    ¬RoundsDownTo n x := by
  rintro ⟨hgt, rfl⟩
  rw [floatOfInt, Binary64.value_ofInt hn] at hgt
  exact lt_irrefl _ hgt

theorem evaluate_compare {binding : Binding} {op : Comparison} {left right : Expr} {a b : Scalar}
    (hleft : left.evaluate binding = .ok a) (hright : right.evaluate binding = .ok b)
    (ha : a.isNull = false) (hb : b.isNull = false) :
    (Expr.compare op left right).evaluate binding = .ok (.bool (op.holds (a.compare b))) := by
  rw [Expr.evaluate, hleft, hright]
  show Except.ok (op.apply a b) = _
  rw [Comparison.apply, ha, hb]
  rfl

section Finite

variable {n : Int64} {x : Binary64} (hx : x.isFinite = true)

include hx

theorem compare_int_float_of_lt (h : n.toInt < x.value) :
    (int n).compare (float x) = .lt := by
  rw [compare, Binary64.totalCompare, Ordering.then_eq_lt]
  rcases Int.lt_or_eq_of_le (Binary64.totalRank_ofInt_le hx h) with hlt | heq
  · exact Or.inl (Std.compare_eq_lt.2 hlt)
  · exact Or.inr ⟨Std.LawfulEqOrd.compare_eq_iff_eq.2 heq, rfl⟩

/-- An integer above the value of a float comes behind the float unless it rounds to it. -/
theorem compare_int_float_of_gt (h : x.value < n.toInt) :
    (int n).compare (float x) = .gt ↔ floatOfInt n ≠ x := by
  have hle := Binary64.totalRank_le_ofInt hx h
  rw [compare, Binary64.totalCompare, Ordering.then_eq_gt]
  constructor
  · rintro (hgt | ⟨-, hlt⟩) rfl
    · rw [Std.compare_eq_gt] at hgt
      exact lt_irrefl _ hgt
    · cases hlt
  · intro hne
    exact Or.inl (Std.compare_eq_gt.2 (lt_of_le_of_ne hle fun heq =>
      hne (Binary64.totalRank_injective heq.symm)))

/-- An integer and a float of another value are in the order of their values just if the integer
does not round down to the float. -/
theorem compare_int_float_iff (hne : (n.toInt : ℚ) ≠ x.value) :
    (int n).compare (float x) = cmp (n.toInt : ℚ) x.value ↔ ¬RoundsDownTo n x := by
  rcases lt_or_gt_of_ne hne with hlt | hgt
  · rw [(cmp_eq_lt_iff _ _).2 hlt]
    exact iff_of_true (compare_int_float_of_lt hx hlt) fun hdown => lt_asymm hlt hdown.1
  · rw [(cmp_eq_gt_iff _ _).2 hgt, compare_int_float_of_gt hx hgt, RoundsDownTo,
      and_iff_right hgt]

/-- An integer and a float of different values are in the order of these values, and so are they
in every comparison by order, just if the integer does not round down to the float, which it does
not if it has at most 53 bits. -/
theorem compare_faithful_iff (hne : (n.toInt : ℚ) ≠ x.value) :
    ((int n).compare (float x) = cmp (n.toInt : ℚ) x.value ↔ ¬RoundsDownTo n x) ∧
    ((float x).compare (int n) = cmp x.value (n.toInt : ℚ) ↔ ¬RoundsDownTo n x) ∧
    (∀ (binding : Binding) (whole broken : Expr) (op : Comparison), op ≠ .eq → op ≠ .ne →
      whole.evaluate binding = .ok (.int n) → broken.evaluate binding = .ok (.float x) →
      ((Expr.compare op whole broken).evaluate binding =
          .ok (.bool (op.holdsOf n.toInt x.value)) ↔ ¬RoundsDownTo n x) ∧
      ((Expr.compare op broken whole).evaluate binding =
          .ok (.bool (op.holdsOf x.value n.toInt)) ↔ ¬RoundsDownTo n x)) ∧
    (n.toInt.natAbs ≤ 2 ^ 53 → ¬RoundsDownTo n x) := by
  have hfirst := compare_int_float_iff hx hne
  have hswap : (float x).compare (int n) = ((int n).compare (float x)).swap :=
    Std.OrientedCmp.eq_swap
  have hlast : (float x).compare (int n) = cmp x.value (n.toInt : ℚ) ↔ ¬RoundsDownTo n x := by
    rw [hswap, ← cmp_swap, Ordering.swap_inj]
    exact hfirst
  have hdiffer := compare_int_float_ne n x
  have hdiffer' : (float x).compare (int n) ≠ .eq := by
    rw [hswap]
    exact fun heq => hdiffer (Ordering.swap_eq_eq.1 heq)
  refine ⟨hfirst, hlast, fun binding whole broken op hop hop' hwhole hbroken => ⟨?_, ?_⟩,
    fun hn => not_roundsDownTo hn x⟩
  · rw [evaluate_compare hwhole hbroken rfl rfl, Except.ok.injEq, bool.injEq,
      Comparison.holds_eq_holdsOf_iff hop hop' hdiffer hne, hfirst]
  · rw [evaluate_compare hbroken hwhole rfl rfl, Except.ok.injEq, bool.injEq,
      Comparison.holds_eq_holdsOf_iff hop hop' hdiffer' hne.symm, hlast]

end Finite

/-- The least positive integer that is not the value of a float, and the float that it rounds
down to. -/
def leastRounded : Int64 := 9007199254740993

@[inherit_doc leastRounded]
def roundedFloat : Binary64 := ⟨0x4340000000000000⟩

theorem isFinite_roundedFloat : roundedFloat.isFinite = true := by decide

theorem value_roundedFloat : roundedFloat.value = 9007199254740992 := by
  have hround : Binary64.ofInt 9007199254740992 = roundedFloat := by decide +kernel
  rw [← hround, Binary64.value_ofInt (by decide)]
  norm_cast

theorem leastRounded_gt : roundedFloat.value < leastRounded.toInt := by
  have hint : leastRounded.toInt = 9007199254740993 := by decide
  rw [value_roundedFloat, hint]
  norm_num

theorem roundsDownTo_leastRounded : RoundsDownTo leastRounded roundedFloat :=
  ⟨leastRounded_gt, by decide +kernel⟩

theorem compare_faithful_leastRounded :
    roundedFloat.isFinite = true ∧ (leastRounded.toInt : ℚ) ≠ roundedFloat.value ∧
    (int leastRounded).compare (float roundedFloat) ≠ .gt ∧
    (Expr.compare .gt (.literal (.int leastRounded)) (.literal (.float roundedFloat))).evaluate
      .empty ≠ .ok (.bool true) := by
  have hne := leastRounded_gt.ne'
  obtain ⟨hcompare, -, hexprs, -⟩ := compare_faithful_iff isFinite_roundedFloat hne
  obtain ⟨hgt, -⟩ := hexprs .empty (.literal (.int leastRounded)) (.literal (.float roundedFloat))
    .gt nofun nofun rfl rfl
  have hholds : Comparison.gt.holdsOf leastRounded.toInt roundedFloat.value = true :=
    decide_eq_true leastRounded_gt
  rw [(cmp_eq_gt_iff _ _).2 leastRounded_gt] at hcompare
  rw [hholds] at hgt
  exact ⟨isFinite_roundedFloat, hne, fun h => hcompare.1 h roundsDownTo_leastRounded,
    fun h => hgt.1 h roundsDownTo_leastRounded⟩

/-- So an integer may come before a float of a smaller value. -/
theorem rounded_down_comes_first :
    ¬∀ (n : Int64) (x : Binary64), x.isFinite = true → (n.toInt : ℚ) ≠ x.value →
      (int n).compare (float x) = cmp (n.toInt : ℚ) x.value := by
  intro hfaithful
  have hsame := hfaithful leastRounded roundedFloat isFinite_roundedFloat leastRounded_gt.ne'
  exact (compare_int_float_iff isFinite_roundedFloat leastRounded_gt.ne').1 hsame
    roundsDownTo_leastRounded

end Scalar
end ExtentEngine
