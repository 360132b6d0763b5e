import ExtentEngine.Proofs.Scalar.Order
import ExtentEngine.Record.Basic

/-!
# The order of records

Records are compared lexicographically, and comparing two records on a key each is comparing
their key values.

**Results.**
* `compareOn_eq_compare`: comparison on keys is comparison of key values.
* `compareOn_eq_iff`: records that it finds equal have the same key values.
* `sortOn_perm` and `pairwise_sortOn`: sorting rearranges the records and puts them in order.
-/

namespace ExtentEngine
namespace Record

theorem compare_eq_compareLex : ∀ a b : Record, a.compare b = List.compareLex Scalar.compare a b
  | [], [] => rfl
  | [], _ :: _ => rfl
  | _ :: _, [] => rfl
  | a :: as, b :: bs => by
      rw [compare, List.compareLex_cons_cons, compare_eq_compareLex as bs]

instance : Std.TransCmp Record.compare := by
  have h : Record.compare = List.compareLex Scalar.compare :=
    funext fun a => funext fun b => compare_eq_compareLex a b
  rw [h]
  infer_instance

instance : Std.LawfulEqCmp Record.compare := by
  have h : Record.compare = List.compareLex Scalar.compare :=
    funext fun a => funext fun b => compare_eq_compareLex a b
  rw [h]
  infer_instance

theorem compare_eq_iff {a b : Record} : a.compare b = .eq ↔ a = b :=
  Std.LawfulEqCmp.compare_eq_iff_eq

/-- Comparison on keys is comparison of key values. -/
theorem compareOn_eq_compare (a b : Record) :
    ∀ ka kb : Key, compareOn a ka b kb = Record.compare (a.keyValues ka) (b.keyValues kb)
  | [], [] => rfl
  | [], _ :: _ => rfl
  | _ :: _, [] => rfl
  | ka :: kas, kb :: kbs => by
      rw [compareOn, compareOn_eq_compare a b kas kbs]
      rfl

theorem compareOn_eq_compareLex (a b : Record) (ka kb : Key) :
    compareOn a ka b kb = List.compareLex Scalar.compare (a.keyValues ka) (b.keyValues kb) := by
  rw [compareOn_eq_compare, compare_eq_compareLex]

theorem compareOn_eq_iff {a b : Record} {ka kb : Key} :
    compareOn a ka b kb = .eq ↔ a.keyValues ka = b.keyValues kb := by
  rw [compareOn_eq_compare, compare_eq_iff]

theorem leOn_iff {key : Key} {a b : Record} :
    leOn key a b = true ↔ (Record.compare (a.keyValues key) (b.keyValues key)).isLE = true := by
  rw [leOn, compareOn_eq_compare, bne_iff_ne]
  exact Ordering.ne_gt_iff_isLE

theorem leOn_trans (key : Key) (a b c : Record) (hab : leOn key a b = true)
    (hbc : leOn key b c = true) : leOn key a c = true := by
  rw [leOn_iff] at hab hbc ⊢
  exact Std.TransCmp.isLE_trans hab hbc

theorem leOn_total (key : Key) (a b : Record) : (leOn key a b || leOn key b a) = true := by
  have hswap : Record.compare (b.keyValues key) (a.keyValues key) =
      (Record.compare (a.keyValues key) (b.keyValues key)).swap := Std.OrientedCmp.eq_swap
  rw [Bool.or_eq_true, leOn_iff, leOn_iff, hswap]
  cases Record.compare (a.keyValues key) (b.keyValues key) <;> simp

theorem sortOn_perm (key : Key) (records : List Record) : (sortOn key records).Perm records :=
  List.mergeSort_perm records (leOn key)

theorem pairwise_sortOn (key : Key) (records : List Record) :
    (sortOn key records).Pairwise fun a b => leOn key a b = true :=
  List.pairwise_mergeSort (leOn_trans key) (leOn_total key) records

end Record
end ExtentEngine
