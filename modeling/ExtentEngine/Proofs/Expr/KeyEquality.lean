import ExtentEngine.Proofs.Expr.Predicate

/-!
# When keys match

The methods of joining find out in three ways whether the keys of two rows match: the nested loop
evaluates an expression, the hash join looks the values of a key up, and the merge join compares
the columns of the keys.

**Method.**  Scalars that compare as equal are the same, so the comparison of the columns and the
equality of the values come to the same.  The expression differs from both in what it makes of
null, which is why each of the others has to leave out the keys that have one.

**Results.**
* `holds_keyEquality`: the equality of keys holds where neither is null and their values are the
  same, and elsewhere it is found not to hold.
* `keyEquality_agrees`: the three ways agree.
-/

namespace ExtentEngine

namespace Record

/-- The same scalars are those that compare as equal one by one. -/
theorem forall₂_compare_iff {values others : List Scalar} :
    List.Forall₂ (fun a b => a.compare b = .eq) values others ↔ values = others := by
  simp only [Std.LawfulEqCmp.compare_eq_iff_eq, List.forall₂_eq_eq_eq]

end Record

namespace Predicate

variable {left right : Record} {leftKey rightKey : Key}

/-- The equality of keys of the same length is found to hold or not to hold, and it holds if the
keys have the same values and neither of them is null. -/
theorem holds_keyEquality {p : Predicate} (hp : keyEquality leftKey rightKey = .ok p)
    (hlength : leftKey.length = rightKey.length)
    (hleft : ∀ column ∈ leftKey, column < left.length)
    (hright : ∀ column ∈ rightKey, column < right.length) :
    ∃ b, p.holds (.ofPair left right) = .ok b ∧
      (b = true ↔ left.hasNullKey leftKey = false ∧ right.hasNullKey rightKey = false ∧
        left.keyValues leftKey = right.keyValues rightKey) := by
  obtain ⟨truth, htruth, hvalue⟩ := hasTruth_keyEquality hp hlength hleft hright
  refine ⟨truth.getD false, holds_of_hasTruth htruth, ?_⟩
  rw [hvalue, Bool.and_eq_true, Bool.not_eq_true', decide_eq_true_iff]
  constructor
  · rintro ⟨hnull, hvalues⟩
    exact ⟨hnull, Record.hasNullKey_congr hvalues ▸ hnull, hvalues⟩
  · rintro ⟨hnull, -, hvalues⟩
    exact ⟨hnull, hvalues⟩

/-- The equality of two keys whose columns the records have can be evaluated on the records.  It is
true just if neither key is null and they have the same values, which is to say values that compare
as equal one by one, and just if neither key is null and the records compare as equal on them.  On
any keys, comparing the records is comparing the values of the keys lexicographically. -/
theorem keyEquality_agrees (left right : Record) (leftKey rightKey : Key) :
    (leftKey.length = rightKey.length →
      (∀ column ∈ leftKey, column < left.length) →
      (∀ column ∈ rightKey, column < right.length) →
      ∃ p b, keyEquality leftKey rightKey = .ok p ∧ p.holds (.ofPair left right) = .ok b ∧
        (b = true ↔ left.hasNullKey leftKey = false ∧ right.hasNullKey rightKey = false ∧
          left.keyValues leftKey = right.keyValues rightKey) ∧
        (b = true ↔ left.hasNullKey leftKey = false ∧ right.hasNullKey rightKey = false ∧
          List.Forall₂ (fun a b => a.compare b = .eq)
            (left.keyValues leftKey) (right.keyValues rightKey)) ∧
        (b = true ↔ left.hasNullKey leftKey = false ∧ right.hasNullKey rightKey = false ∧
          Record.compareOn left leftKey right rightKey = .eq)) ∧
    Record.compareOn left leftKey right rightKey =
      List.compareLex Scalar.compare (left.keyValues leftKey) (right.keyValues rightKey) := by
  refine ⟨fun hlength hleft hright => ?_, Record.compareOn_eq_compareLex _ _ _ _⟩
  obtain ⟨b, hb, hiff⟩ := holds_keyEquality (if_pos hlength) hlength hleft hright
  refine ⟨_, b, if_pos hlength, hb, hiff, ?_, ?_⟩
  · rw [Record.forall₂_compare_iff]
    exact hiff
  · rw [Record.compareOn_eq_iff]
    exact hiff

/-- A record with the integer three, a null and a text. -/
def sparseRow : Record := [.int 3, .null, .text "a"]

/-- A record with the same text and integer in other places, and with a null. -/
def turnedRow : Record := [.text "a", .int 3, .null]

/-- Keys match across the places of their columns, but a null keeps them from it even if the
comparison of the records finds both of them equal. -/
theorem keyEquality_agrees_sparse :
    (∃ p, keyEquality [0, 2] [1, 0] = .ok p ∧ p.holds (.ofPair sparseRow turnedRow) = .ok true) ∧
    (∃ p, keyEquality [0, 1] [1, 2] = .ok p ∧
      p.holds (.ofPair sparseRow turnedRow) = .ok false) ∧
    Record.compareOn sparseRow [0, 1] turnedRow [1, 2] = .eq := by
  obtain ⟨hfirst, -⟩ := keyEquality_agrees sparseRow turnedRow [0, 2] [1, 0]
  obtain ⟨hlast, hcompare⟩ := keyEquality_agrees sparseRow turnedRow [0, 1] [1, 2]
  obtain ⟨p, b, hp, hb, hiff, -⟩ := hfirst rfl (by decide) (by decide)
  obtain ⟨q, c, hq, hc, hiff', -⟩ := hlast rfl (by decide) (by decide)
  refine ⟨⟨p, hp, ?_⟩, ⟨q, hq, ?_⟩, ?_⟩
  · rw [hb, hiff.2 (by decide)]
  · rw [hc, Bool.eq_false_iff.2 fun h => absurd (hiff'.1 h).1 (by decide)]
  · rw [hcompare]
    decide

end Predicate
end ExtentEngine
