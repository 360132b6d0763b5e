import ExtentEngine.Proofs.Join.RowIndex
import ExtentEngine.Proofs.Lists
import Mathlib.Data.List.ProdSigma
import Mathlib.Data.Prod.Lex

/-!
# The order of joined places

A hash table join gathers the pairs of places that share a key in whatever order its index has
them, and then sorts them by the extents and by the rows.  No pair is there twice, so sorting
leaves nothing open: what comes out is the order in which loops over the left extents, the right
extents, the left rows and the right rows come by the pairs.

**Results.**
* `pairwise_loopPairs`: the loops come by the pairs of places in strictly increasing order.
* `joinTuples_eq`: the pairs of places that share a key are in the order of the loops.
* `joinTuples_congr`: the order of the entries of the indices is of no account.
-/

namespace ExtentEngine
namespace RowIndex

section Order

/-- What pairs of places are sorted by. -/
def tupleKey (tuple : RowId × RowId) : Nat ×ₗ Nat ×ₗ Nat ×ₗ Nat :=
  toLex (tuple.1.extent, toLex (tuple.2.extent, toLex (tuple.1.row, tuple.2.row)))

variable {a b : RowId × RowId}

theorem tupleKey_le_iff : tupleKey a ≤ tupleKey b ↔
    a.1.extent < b.1.extent ∨ a.1.extent = b.1.extent ∧ (a.2.extent < b.2.extent ∨
      a.2.extent = b.2.extent ∧ (a.1.row < b.1.row ∨ a.1.row = b.1.row ∧ a.2.row ≤ b.2.row)) := by
  simp only [tupleKey, Prod.Lex.toLex_le_toLex]

theorem tupleKey_lt_iff : tupleKey a < tupleKey b ↔
    a.1.extent < b.1.extent ∨ a.1.extent = b.1.extent ∧ (a.2.extent < b.2.extent ∨
      a.2.extent = b.2.extent ∧ (a.1.row < b.1.row ∨ a.1.row = b.1.row ∧ a.2.row < b.2.row)) := by
  simp only [tupleKey, Prod.Lex.toLex_lt_toLex]

theorem tupleKey_injective : Function.Injective tupleKey := by
  rintro ⟨⟨le, lr⟩, re, rr⟩ ⟨⟨le', lr'⟩, re', rr'⟩ h
  simp only [tupleKey, toLex_inj, Prod.mk.injEq] at h
  obtain ⟨rfl, rfl, rfl, rfl⟩ := h
  rfl

theorem tupleLe_iff : tupleLe a b = true ↔ tupleKey a ≤ tupleKey b := by
  rw [tupleLe, bne_iff_ne, ne_eq, tupleKey_le_iff]
  simp only [Ordering.then_eq_gt, Nat.compare_eq_gt, Nat.compare_eq_eq, Ordering.then_eq_eq]
  omega

end Order

/-- Pairs of places that are in order are in the order of any sorted list of them. -/
theorem eq_of_perm_of_sorted {first last : List (RowId × RowId)} (hperm : first.Perm last)
    (hfirst : first.Pairwise fun a b => tupleKey a ≤ tupleKey b)
    (hlast : last.Pairwise fun a b => tupleKey a ≤ tupleKey b) : first = last :=
  hperm.eq_of_pairwise (fun _ _ _ _ hab hba => tupleKey_injective (le_antisymm hab hba)) hfirst
    hlast

theorem pairwise_joinTuples (left right : RowIndex) :
    (joinTuples left right).Pairwise fun a b => tupleKey a ≤ tupleKey b := by
  refine (List.pairwise_mergeSort (fun a b c => ?_) (fun a b => ?_) _).imp tupleLe_iff.1
  · rw [tupleLe_iff, tupleLe_iff, tupleLe_iff]
    exact le_trans
  · rw [Bool.or_eq_true, tupleLe_iff, tupleLe_iff]
    exact le_total _ _

/-- The order of the entries of the indices is of no account. -/
theorem joinTuples_congr {left left' right right' : RowIndex} (hleft : left.Perm left')
    (hright : ∀ values, right.get? values = right'.get? values) :
    joinTuples left right = joinTuples left' right' := by
  refine eq_of_perm_of_sorted ?_ (pairwise_joinTuples _ _) (pairwise_joinTuples _ _)
  refine (List.mergeSort_perm _ _).trans (.trans ?_ (List.mergeSort_perm _ _).symm)
  simp only [hright]
  exact hleft.flatMap_right _

/-- The rows of the extent with a number, with their places. -/
def placedIn (number : Nat) (extent : Extent) : List (Record × RowId) :=
  extent.zipIdx.map fun (record, row) => (record, ⟨number, row⟩)

/-- The pairs of rows with their places, as loops over the left extents, the right extents, the
left rows and the right rows come by them. -/
def loopPairs (lefts rights : List Extent) : List ((Record × RowId) × (Record × RowId)) :=
  lefts.zipIdx.flatMap fun left => rights.zipIdx.flatMap fun right =>
    placedIn left.2 left.1 ×ˢ placedIn right.2 right.1

/-- The places of a pair of rows. -/
def places (pair : (Record × RowId) × (Record × RowId)) : RowId × RowId := (pair.1.2, pair.2.2)

theorem extent_of_mem_placedIn {number : Nat} {extent : Extent} {item : Record × RowId}
    (h : item ∈ placedIn number extent) : item.2.extent = number := by
  obtain ⟨other, -, rfl⟩ := List.mem_map.1 h
  rfl

theorem pairwise_zipIdx {α : Type} (items : List α) :
    items.zipIdx.Pairwise fun a b => a.2 < b.2 := by
  rw [← List.pairwise_map (f := Prod.snd) (R := (· < ·)), List.zipIdx_map_snd]
  exact List.pairwise_lt_range' 1

theorem pairwise_placedIn (number : Nat) (extent : Extent) :
    (placedIn number extent).Pairwise fun a b => a.2.row < b.2.row :=
  List.pairwise_map.2 (pairwise_zipIdx extent)

/-- The inner loops, over the rows of two extents. -/
theorem pairwise_product_placedIn (left right : Extent × Nat) :
    (placedIn left.2 left.1 ×ˢ placedIn right.2 right.1).Pairwise fun a b =>
      tupleKey (places a) < tupleKey (places b) := by
  refine List.pairwise_flatMap.2 ⟨fun l hl => List.pairwise_map.2 ?_, ?_⟩
  · refine (pairwise_placedIn right.2 right.1).imp_of_mem fun hr hr' hrow => ?_
    rw [tupleKey_lt_iff]
    refine Or.inr ⟨rfl, Or.inr ⟨?_, Or.inr ⟨rfl, hrow⟩⟩⟩
    exact (extent_of_mem_placedIn hr).trans (extent_of_mem_placedIn hr').symm
  · refine (pairwise_placedIn left.2 left.1).imp_of_mem fun hl hl' hrow x hx y hy => ?_
    obtain ⟨r, hr, rfl⟩ := List.mem_map.1 hx
    obtain ⟨r', hr', rfl⟩ := List.mem_map.1 hy
    rw [tupleKey_lt_iff]
    refine Or.inr ⟨?_, Or.inr ⟨?_, Or.inl hrow⟩⟩
    · exact (extent_of_mem_placedIn hl).trans (extent_of_mem_placedIn hl').symm
    · exact (extent_of_mem_placedIn hr).trans (extent_of_mem_placedIn hr').symm

theorem extents_of_mem_product {left right : Extent × Nat}
    {pair : (Record × RowId) × (Record × RowId)}
    (h : pair ∈ placedIn left.2 left.1 ×ˢ placedIn right.2 right.1) :
    (places pair).1.extent = left.2 ∧ (places pair).2.extent = right.2 := by
  obtain ⟨hl, hr⟩ := List.mem_product.1 h
  exact ⟨extent_of_mem_placedIn hl, extent_of_mem_placedIn hr⟩

/-- The loops come by the pairs of places in strictly increasing order. -/
theorem pairwise_loopPairs (lefts rights : List Extent) :
    (loopPairs lefts rights).Pairwise fun a b => tupleKey (places a) < tupleKey (places b) := by
  -- Two pairs may share both extents, the left one only, or neither.
  refine List.pairwise_flatMap.2 ⟨fun left _ => List.pairwise_flatMap.2
    ⟨fun right _ => pairwise_product_placedIn left right, ?_⟩, ?_⟩
  · refine (pairwise_zipIdx rights).imp fun hnumber a ha b hb => ?_
    obtain ⟨hleft, hright⟩ := extents_of_mem_product ha
    obtain ⟨hleft', hright'⟩ := extents_of_mem_product hb
    rw [tupleKey_lt_iff, hleft, hright, hleft', hright']
    exact Or.inr ⟨rfl, Or.inl hnumber⟩
  · refine (pairwise_zipIdx lefts).imp fun hnumber a ha b hb => ?_
    obtain ⟨right, -, ha⟩ := List.mem_flatMap.1 ha
    obtain ⟨right', -, hb⟩ := List.mem_flatMap.1 hb
    rw [tupleKey_lt_iff, (extents_of_mem_product ha).1, (extents_of_mem_product hb).1]
    exact Or.inl hnumber

theorem product_flatMap_perm {α β γ : Type} (as : List α) (bs : List β) (f : β → List γ) :
    (bs.flatMap fun b => as ×ˢ f b).Perm (as ×ˢ bs.flatMap f) := by
  induction bs with
  | nil => rw [List.flatMap_nil, List.flatMap_nil, List.product_nil]
  | cons b bs ih =>
      have happend : as ×ˢ (f b ++ bs.flatMap f) =
          as.flatMap fun a => ((f b).map (a, ·)) ++ (bs.flatMap f).map (a, ·) :=
        List.flatMap_congr fun a _ => List.map_append
      rw [List.flatMap_cons, List.flatMap_cons, happend]
      exact (ih.append_left _).trans (List.flatMap_append_perm as _ _)

/-- The loops come by every pair of rows once. -/
theorem loopPairs_perm (lefts rights : List Extent) :
    (loopPairs lefts rights).Perm (placed lefts ×ˢ placed rights) := by
  have hproduct : placed lefts ×ˢ placed rights =
      lefts.zipIdx.flatMap fun left => placedIn left.2 left.1 ×ˢ placed rights :=
    List.flatMap_assoc
  rw [hproduct]
  exact List.Perm.flatMap_left _ fun left _ => product_flatMap_perm _ _ _

/-- Whether two rows share a key without nulls. -/
def shares (leftKey rightKey : Key) (pair : (Record × RowId) × (Record × RowId)) : Bool :=
  !pair.1.1.hasNullKey leftKey && !pair.2.1.hasNullKey rightKey &&
    pair.1.1.keyValues leftKey = pair.2.1.keyValues rightKey

/-- The rows that an index has under the keys of others are those that share a key with them. -/
theorem filter_shares_product (lefts rights : List (Record × RowId)) (leftKey rightKey : Key) :
    (lefts ×ˢ rights).filter (shares leftKey rightKey) =
      (keyed leftKey lefts).flatMap fun l =>
        (having rightKey (l.1.keyValues leftKey) rights).map (l, ·) := by
  have hnone : ∀ l ∈ lefts, (!l.1.hasNullKey leftKey) = false →
      (rights.map (l, ·)).filter (shares leftKey rightKey) = [] := by
    intro l _ hnull
    refine List.filter_eq_nil_iff.2 fun pair hpair => ?_
    obtain ⟨r, -, rfl⟩ := List.mem_map.1 hpair
    simp only [shares, hnull, Bool.false_and, Bool.false_eq_true, not_false_eq_true]
  have hfilter : (lefts ×ˢ rights).filter (shares leftKey rightKey) =
      lefts.flatMap fun l => (rights.map (l, ·)).filter (shares leftKey rightKey) :=
    List.filter_flatMap
  rw [hfilter, ← flatMap_filter_of_nil hnone, keyed]
  refine List.flatMap_congr fun l hl => ?_
  have hnull := (List.mem_filter.1 hl).2
  rw [List.filter_map, having, keyed, List.filter_filter]
  refine congrArg (List.map (l, ·)) (List.filter_congr fun r _ => ?_)
  simp only [Function.comp_apply, shares, hnull, Bool.true_and, Bool.and_comm, eq_comm]

/-- The pairs of places that share a key are in the order of the loops. -/
theorem joinTuples_eq (lefts rights : List Extent) (leftKey rightKey : Key) :
    (build lefts leftKey).joinTuples (build rights rightKey) =
      ((loopPairs lefts rights).filter (shares leftKey rightKey)).map places := by
  refine eq_of_perm_of_sorted ?_ (pairwise_joinTuples _ _)
    (List.pairwise_map.2 (((pairwise_loopPairs lefts rights).filter _).imp le_of_lt))
  have hperm := ((loopPairs_perm lefts rights).filter (shares leftKey rightKey)).map places
  rw [filter_shares_product, List.map_flatMap] at hperm
  simp only [List.map_map] at hperm
  exact (joinTuples_perm lefts rights leftKey rightKey).trans hperm.symm

end RowIndex
end ExtentEngine
