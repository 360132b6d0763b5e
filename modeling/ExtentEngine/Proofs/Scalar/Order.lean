import ExtentEngine.Proofs.Binary64.Nearest
import ExtentEngine.Scalar.Basic

/-!
# The order of scalars

`Scalar.compare` is a total order, and scalars that it finds equal are the same scalar.

**Method.**  The order is lexicographic: by kind, by the place of the number among the
floats, integers before floats of the same place, by the integer, and by the text.  An
integer and a float are compared through rounding, so that this agrees with the order of
the integers rests on rounding being monotone.

**Results.**
* `compare_eq_place`: the order is that of the places.
* `Scalar.compare` is transitive (`TransCmp`) and lawful (`LawfulEqCmp`).
-/

namespace ExtentEngine
namespace Scalar

/-- What a scalar is compared by, the most significant first. -/
structure Place where
  rank : Nat
  weight : Int
  late : Nat
  whole : Int
  chars : String

namespace Place

def compare : Place → Place → Ordering :=
  compareLex (compareOn rank) (compareLex (compareOn weight) (compareLex (compareOn late)
    (compareLex (compareOn whole) (compareOn chars))))

instance : Std.TransCmp compare := inferInstanceAs (Std.TransCmp (compareLex _ _))

end Place

def place : Scalar → Place
  | null => ⟨0, 0, 0, 0, ""⟩
  | bool b => ⟨1, if b then 1 else 0, 0, 0, ""⟩
  | int n => ⟨2, (floatOfInt n).totalRank, 0, n.toInt, ""⟩
  | float x => ⟨2, x.totalRank, 1, 0, ""⟩
  | text s => ⟨3, 0, 0, 0, s⟩

theorem place_injective {a b : Scalar} (h : a.place = b.place) : a = b := by
  cases a <;> cases b <;> simp only [place, Place.mk.injEq] at h
  case null.null => rfl
  case bool.bool b c => cases b <;> cases c <;> simp_all
  case int.int n m => rw [Int64.toInt_inj.1 h.2.2.2.1]
  case float.float x y => rw [Binary64.totalRank_injective h.2.1]
  case text.text s t => rw [h.2.2.2.2]
  all_goals omega

/-- Integers in order round to numbers in order, so their places may be compared first. -/
theorem compare_int_int (n m : Int64) :
    Ord.compare n.toInt m.toInt =
      (Ord.compare (floatOfInt n).totalRank (floatOfInt m).totalRank).then
        (Ord.compare n.toInt m.toInt) := by
  rcases Int.lt_trichotomy n.toInt m.toInt with h | h | h
  · have hle := Binary64.totalRank_ofInt_mono h.le
    rw [Std.compare_eq_lt.2 h, eq_comm, Ordering.then_eq_lt]
    rcases Int.lt_or_eq_of_le hle with hlt | heq
    · exact Or.inl (Std.compare_eq_lt.2 hlt)
    · exact Or.inr ⟨Std.LawfulEqOrd.compare_eq_iff_eq.2 heq, rfl⟩
  · rw [Int64.toInt_inj.1 h]
    simp
  · have hle := Binary64.totalRank_ofInt_mono h.le
    rw [Std.compare_eq_gt.2 h, eq_comm, Ordering.then_eq_gt]
    rcases Int.lt_or_eq_of_le hle with hlt | heq
    · exact Or.inl (Std.compare_eq_gt.2 hlt)
    · exact Or.inr ⟨Std.LawfulEqOrd.compare_eq_iff_eq.2 heq.symm, rfl⟩

/-- The order is that of the places. -/
theorem compare_eq_place (a b : Scalar) : a.compare b = a.place.compare b.place := by
  cases a <;> cases b
  case bool.bool b c => cases b <;> cases c <;> rfl
  case int.int n m =>
    simpa [compare, place, Place.compare, compareLex, compareOn] using compare_int_int n m
  all_goals simp [compare, place, Place.compare, compareLex, compareOn, rank,
    Binary64.totalCompare]
  all_goals rfl

instance : Std.TransCmp Scalar.compare where
  eq_swap := by
    intro a b
    rw [compare_eq_place, compare_eq_place]
    exact Std.OrientedCmp.eq_swap
  isLE_trans := by
    intro a b c hab hbc
    rw [compare_eq_place] at hab hbc ⊢
    exact Std.TransCmp.isLE_trans hab hbc

/-- Scalars that are found equal are the same scalar. -/
theorem eq_of_compare {a b : Scalar} (h : a.compare b = .eq) : a = b := by
  rw [compare_eq_place] at h
  simp only [Place.compare, compareLex_eq_eq, compareOn, Std.LawfulEqOrd.compare_eq_iff_eq] at h
  obtain ⟨h1, h2, h3, h4, h5⟩ := h
  apply place_injective
  cases hp : a.place
  cases hq : b.place
  simp_all

instance : Std.LawfulEqCmp Scalar.compare where
  compare_self := compare_self _
  eq_of_compare := eq_of_compare

end Scalar
end ExtentEngine
