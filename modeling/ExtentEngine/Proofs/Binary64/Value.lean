import ExtentEngine.Proofs.Binary64.Nearest

/-!
# Exact values

The exact value of a finite number is a rational number.  Rounding an integer never takes it past
a number: an integer below the value of a number rounds to that number at most, and an integer
above it at least.

**Results.**
* `totalRank_ofInt_le` and `totalRank_le_ofInt`: rounding takes an integer past no number.
* `value_ofInt`: integers of at most 53 bits are numbers.
-/

namespace ExtentEngine
namespace Binary64

/-- The exact value of a finite number. -/
def value (x : Binary64) : ℚ := x.signedSignificand * 2 ^ x.exponent

variable {x : Binary64}

theorem value_eq (x : Binary64) : x.value = if x.isNegative then -x.absValue else x.absValue := by
  rw [value, signedSignificand, absValue]
  split
  · push_cast
    ring
  · push_cast
    rfl

theorem absValue_nonneg (x : Binary64) : 0 ≤ x.absValue := by
  rw [absValue]
  positivity

theorem cast_eq_natAbs (n : ℤ) : (n : ℚ) = if n < 0 then -(n.natAbs : ℚ) else n.natAbs := by
  split
  · next h => rw [Nat.cast_natAbs, abs_of_neg h, Int.cast_neg, neg_neg]
  · next h => rw [Nat.cast_natAbs, abs_of_nonneg (not_lt.1 h)]

section Rounding

variable (hx : x.isFinite = true) {k : ℕ}

include hx

theorem roundMagnitude_le_magnitude (h : k ≤ x.absValue) : roundMagnitude k 1 ≤ x.magnitude :=
  (roundsTo_roundMagnitude k one_pos).mono (roundsTo_absValue hx) (by simpa using h)

theorem magnitude_le_roundMagnitude (h : x.absValue ≤ k) : x.magnitude ≤ roundMagnitude k 1 :=
  (roundsTo_absValue hx).mono (roundsTo_roundMagnitude k one_pos) (by simpa using h)

end Rounding

/-- The place of a rounded integer among the numbers. -/
theorem totalRank_ofInt (n : ℤ) :
    (ofInt n).totalRank =
      if n < 0 then -(roundMagnitude n.natAbs 1 : ℤ) - 1 else roundMagnitude n.natAbs 1 := by
  rw [ofInt, ofRatio, totalRank_ofParts _ (roundMagnitude_le _ _)]
  simp only [decide_eq_true_eq]

/-- An integer below the value of a number rounds to the number at most. -/
theorem totalRank_ofInt_le (hx : x.isFinite = true) {n : ℤ} (h : n < x.value) :
    (ofInt n).totalRank ≤ x.totalRank := by
  have hsize := x.absValue_nonneg
  have hsize' : (0 : ℚ) ≤ n.natAbs := Nat.cast_nonneg _
  rw [value_eq, cast_eq_natAbs] at h
  rw [totalRank_ofInt, totalRank]
  by_cases hn : n < 0 <;> cases hneg : x.isNegative <;>
    simp only [hn, hneg, if_true, if_false, Bool.false_eq_true] at h ⊢
  · omega
  · have hle := magnitude_le_roundMagnitude hx (neg_lt_neg_iff.1 h).le
    omega
  · have hle := roundMagnitude_le_magnitude hx h.le
    omega
  · linarith

/-- An integer above the value of a number rounds to the number at least. -/
theorem totalRank_le_ofInt (hx : x.isFinite = true) {n : ℤ} (h : x.value < n) :
    x.totalRank ≤ (ofInt n).totalRank := by
  have hsize := x.absValue_nonneg
  have hsize' : (0 : ℚ) ≤ n.natAbs := Nat.cast_nonneg _
  rw [value_eq, cast_eq_natAbs] at h
  rw [totalRank_ofInt, totalRank]
  by_cases hn : n < 0 <;> cases hneg : x.isNegative <;>
    simp only [hn, hneg, if_true, if_false, Bool.false_eq_true] at h ⊢
  · linarith
  · have hle := roundMagnitude_le_magnitude hx (neg_lt_neg_iff.1 h).le
    omega
  · have hle := magnitude_le_roundMagnitude hx h.le
    omega
  · omega

section Small

theorem isNegative_ofParts (negative : Bool) {m : ℕ} (hm : m ≤ infinityMagnitude) :
    (ofParts negative m).isNegative = negative := by
  have hinf : infinityMagnitude < 2 ^ 63 := by decide
  rw [isNegative, ofParts, UInt64.toNat_ofNat', signWeight]
  cases negative
  · simp only [Bool.false_eq_true, if_false, decide_eq_false_iff_not]
    omega
  · simp only [if_true, decide_eq_true_eq]
    omega

/-- A number is read off from its exponent and a significand with the leading one. -/
theorem absValue_ofParts (negative : Bool) {e : ℤ} {q : ℕ} (hleast : -1074 ≤ e)
    (hlow : 2 ^ 52 ≤ q) (hhigh : q < 2 ^ 53)
    (hfinite : (e + 1074).toNat * 2 ^ 52 + q ≤ infinityMagnitude) :
    (ofParts negative ((e + 1074).toNat * 2 ^ 52 + q)).absValue = q * 2 ^ e := by
  have hfield : ((e + 1074).toNat * 2 ^ 52 + q) / 2 ^ 52 = (e + 1074).toNat + 1 := by omega
  have hfraction : ((e + 1074).toNat * 2 ^ 52 + q) % 2 ^ 52 + 2 ^ 52 = q := by omega
  have hexponent : (((e + 1074).toNat + 1 : ℕ) : ℤ) - 1075 = e := by omega
  rw [absValue, significand, exponent, magnitude_ofParts _ hfinite, hfield, hfraction, hexponent,
    if_neg (Nat.succ_ne_zero _), if_neg (Nat.succ_ne_zero _)]

/-- An integer of at most 53 bits lies on its grid. -/
theorem exists_significand {k : ℕ} (hpos : 0 < k) (hk : k ≤ 2 ^ 53) {e : ℤ} (he : OnGrid k e) :
    e ≤ 1 ∧ ∃ q : ℕ, (k : ℚ) / 2 ^ e = q ∧ 2 ^ 52 ≤ q ∧ q < 2 ^ 53 := by
  have hpow : (0 : ℚ) < 2 ^ e := by positivity
  have hone : (1 : ℚ) ≤ k := by exact_mod_cast hpos
  have hmost : (k : ℚ) ≤ 2 ^ 53 := by exact_mod_cast hk
  have hlow : (2 : ℚ) ^ 52 ≤ k / 2 ^ e := by
    rcases he.lower with rfl | hlow
    · have htiny : (2 : ℚ) ^ 53 * 2 ^ (-1074 : ℤ) < 1 := by
        rw [← zpow_natCast, ← zpow_add₀ two_ne_zero]
        exact zpow_lt_one_of_neg₀ one_lt_two (by norm_num)
      exact absurd ((div_lt_iff₀ hpow).1 he.upper) (not_lt.2 (htiny.le.trans hone))
    · exact hlow
  have hle : e ≤ 1 := by
    by_contra hlarge
    have hstep : (2 : ℚ) ^ (2 : ℤ) ≤ 2 ^ e := zpow_le_zpow_right₀ one_le_two (by omega)
    have hbelow := (le_div_iff₀ hpow).1 hlow
    norm_num at hstep hbelow
    linarith
  have hexact : ∃ q : ℕ, (k : ℚ) / 2 ^ e = q := by
    rcases hle.eq_or_lt with rfl | hlt
    · refine ⟨2 ^ 52, ?_⟩
      have hbelow := (le_div_iff₀ hpow).1 hlow
      rw [div_eq_iff hpow.ne']
      push_cast
      norm_num at hbelow ⊢
      linarith
    · obtain ⟨j, hj⟩ := Int.eq_ofNat_of_zero_le (show 0 ≤ -e by omega)
      refine ⟨k * 2 ^ j, ?_⟩
      rw [show e = -(j : ℤ) by omega, zpow_neg, zpow_natCast, div_inv_eq_mul]
      push_cast
      rfl
  obtain ⟨q, hq⟩ := hexact
  have hupper := he.upper
  rw [hq] at hlow hupper
  exact ⟨hle, q, hq, by exact_mod_cast hlow, by exact_mod_cast hupper⟩

/-- Integers of at most 53 bits are numbers. -/
theorem value_ofInt {n : ℤ} (h : n.natAbs ≤ 2 ^ 53) : (ofInt n).value = n := by
  have hfinite := roundMagnitude_le n.natAbs 1
  rw [cast_eq_natAbs, value_eq, ofInt, ofRatio, isNegative_ofParts _ hfinite]
  have habs : (ofParts (decide (n < 0)) (roundMagnitude n.natAbs 1)).absValue = n.natAbs := by
    rcases Nat.eq_zero_or_pos n.natAbs with hzero | hpos
    · rw [hzero, roundMagnitude, if_pos rfl, absValue, significand, magnitude_ofParts _ (by decide)]
      simp
    · obtain ⟨e, r, hgrid, hnearest, hmagnitude⟩ := roundsTo_roundMagnitude n.natAbs one_pos
      rw [Nat.cast_one, div_one] at hgrid hnearest
      obtain ⟨hle, q, hq, hlow, hhigh⟩ := exists_significand hpos h hgrid
      rw [hq] at hnearest
      obtain rfl : r = q := Nat.le_antisymm (hnearest.mono (nearest_natCast q) le_rfl)
        ((nearest_natCast q).mono hnearest le_rfl)
      have hleast := hgrid.least
      have hsmall : (e + 1074).toNat * 2 ^ 52 + r ≤ infinityMagnitude := by
        rw [infinityMagnitude]
        omega
      rw [min_eq_right hsmall] at hmagnitude
      rw [hmagnitude, absValue_ofParts _ hleast hlow hhigh hsmall, ← hq]
      field_simp
  simp only [habs, decide_eq_true_eq]

end Small

end Binary64
end ExtentEngine
