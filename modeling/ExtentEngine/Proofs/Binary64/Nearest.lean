import ExtentEngine.Binary64.Arithmetic
import Mathlib.Algebra.Order.Field.Power
import Mathlib.Data.Rat.Cast.Order
import Mathlib.Tactic.FieldSimp
import Mathlib.Tactic.Linarith
import Mathlib.Tactic.Positivity
import Mathlib.Tactic.Push
import Mathlib.Tactic.Ring

/-!
# Rounding to the nearest number

The magnitude that `roundMagnitude` computes is determined by the ratio alone, whatever
numerator and denominator it is given by.

**Method.**  `Nearest`, `OnGrid` and `RoundsTo` say of a rational number what the nearest
integer, the grid and the magnitude of the nearest number are.  Each of them is monotone,
and the computation meets each of them.

**Results.**
* `roundMagnitude_mono`: of two ratios the larger one has the larger magnitude.
* `totalRank_ofInt_mono`: rounding keeps the order of integers.
* `ofRatio_absValue`: the exact value of a number rounds to the number.
-/

namespace ExtentEngine
namespace Binary64

/-- `r` is the integer nearest to `x`, and of two the even one. -/
structure Nearest (x : ℚ) (r : ℕ) : Prop where
  lower : (r : ℚ) - 1 / 2 ≤ x
  upper : x ≤ r + 1 / 2
  even_lower : (r : ℚ) - 1 / 2 = x → Even r
  even_upper : x = r + 1 / 2 → Even r

theorem Nearest.mono {x y : ℚ} {r s : ℕ} (hr : Nearest x r) (hs : Nearest y s) (h : x ≤ y) :
    r ≤ s := by
  by_contra hlt
  have hsr : (s : ℚ) + 1 ≤ r := by exact_mod_cast Nat.lt_of_not_le hlt
  have h1 := hr.lower
  have h2 := hs.upper
  -- Both bounds are met with equality, so `r` and `s = r - 1` are both even.
  have hr' : (r : ℚ) = s + 1 := by linarith
  have er := hr.even_lower (by linarith)
  have es := hs.even_upper (by linarith)
  have hnat : r = s + 1 := by exact_mod_cast hr'
  subst hnat
  exact Nat.even_add_one.1 er es

theorem nearest_natCast (r : ℕ) : Nearest r r :=
  ⟨by linarith, by linarith, fun h => by linarith, fun h => by linarith⟩

theorem nearest_below_half (q : ℕ) {t : ℚ} (h0 : 0 ≤ t) (h : t < 1 / 2) : Nearest (q + t) q :=
  ⟨by linarith, by linarith, fun h => by linarith, fun h => by linarith⟩

theorem nearest_above_half (q : ℕ) {t : ℚ} (h : 1 / 2 < t) (h1 : t < 1) :
    Nearest (q + t) (q + 1) := by
  refine ⟨?_, ?_, fun he => ?_, fun he => ?_⟩ <;> push_cast at * <;> linarith

theorem nearest_half (q : ℕ) : Nearest (q + 1 / 2) (q + q % 2) := by
  have heven : Even (q + q % 2) := Nat.even_iff.2 (by omega)
  refine ⟨?_, ?_, fun _ => heven, fun _ => heven⟩
  all_goals
    rcases Nat.mod_two_eq_zero_or_one q with hm | hm
    all_goals
      rw [hm]
      push_cast
      linarith

/-- The nearest integer of a ratio is computed. -/
theorem nearest_roundedQuotient {n d : ℕ} (hd : 0 < d) :
    Nearest ((n : ℚ) / d) (roundedQuotient n d) := by
  have hdq : (0 : ℚ) < d := by exact_mod_cast hd
  have hsplit : (n : ℚ) / d = (n / d : ℕ) + (n % d : ℕ) / (d : ℚ) := by
    have h : (n : ℚ) = d * (n / d : ℕ) + (n % d : ℕ) := by exact_mod_cast (Nat.div_add_mod n d).symm
    rw [div_eq_iff hdq.ne', add_mul, div_mul_cancel₀ _ hdq.ne']
    linarith
  rw [hsplit]
  unfold roundedQuotient
  dsimp only
  split
  · next hless =>
      have hhalf : (2 * (n % d : ℕ) : ℚ) < d := by exact_mod_cast hless
      refine nearest_below_half _ (by positivity) ?_
      rw [div_lt_div_iff₀ hdq two_pos]
      linarith
  · next hless =>
      split
      · next hmore =>
          have hhalf : (d : ℚ) < 2 * (n % d : ℕ) := by exact_mod_cast hmore
          refine nearest_above_half _ ?_ ((div_lt_one hdq).2 ?_)
          · rw [div_lt_div_iff₀ two_pos hdq]
            linarith
          · exact_mod_cast Nat.mod_lt n hd
      · next hmore =>
          have heq : 2 * (n % d) = d := by omega
          have hhalf : ((n % d : ℕ) : ℚ) / d = 1 / 2 := by
            have : (2 * (n % d : ℕ) : ℚ) = d := by exact_mod_cast heq
            rw [div_eq_div_iff hdq.ne' two_ne_zero]
            linarith
          rw [hhalf]
          exact nearest_half _

/-- The nearest number of `x` is a multiple of `2 ^ e`, of at most 53 bits. -/
structure OnGrid (x : ℚ) (e : ℤ) : Prop where
  least : -1074 ≤ e
  upper : x / 2 ^ e < 2 ^ 53
  lower : e = -1074 ∨ 2 ^ 52 ≤ x / (2 : ℚ) ^ e

theorem OnGrid.mono {x y : ℚ} {e f : ℤ} (he : OnGrid x e) (hf : OnGrid y f) (h : x ≤ y) :
    e ≤ f := by
  by_contra hlt
  rcases he.lower with rfl | hlow
  · exact hlt hf.least
  · have hpe : (0 : ℚ) < 2 ^ e := by positivity
    have hpf : (0 : ℚ) < 2 ^ f := by positivity
    rw [le_div_iff₀ hpe] at hlow
    have hup := (div_lt_iff₀ hpf).1 hf.upper
    have hstep : (2 : ℚ) ^ (f + 1) ≤ 2 ^ e := zpow_le_zpow_right₀ (by norm_num) (by omega)
    rw [zpow_add_one₀ (by norm_num)] at hstep
    linarith

/-- A power as a quotient of powers with natural exponents. -/
theorem zpow_eq_div (b : ℚ) (e : ℤ) : b ^ e = b ^ e.toNat / b ^ (-e).toNat := by
  rcases Int.le_total 0 e with h | h
  · obtain ⟨k, rfl⟩ := Int.eq_ofNat_of_zero_le h
    simp
  · obtain ⟨k, hk⟩ := Int.eq_ofNat_of_zero_le (Int.neg_nonneg.2 h)
    obtain rfl : e = -(k : ℤ) := by omega
    simp

theorem ratio_scaleDown (n : ℕ) {d : ℕ} (hd : 0 < d) (e : ℤ) :
    ((scaleDown n d e).1 : ℚ) / (scaleDown n d e).2 = (n / d : ℚ) / 2 ^ e := by
  have hdq : (d : ℚ) ≠ 0 := by exact_mod_cast hd.ne'
  simp only [scaleDown, Nat.cast_mul, Nat.cast_pow, Nat.cast_ofNat, zpow_eq_div 2 e]
  field_simp

theorem scaleDown_denominator_pos (n : ℕ) {d : ℕ} (hd : 0 < d) (e : ℤ) :
    0 < (scaleDown n d e).2 := Nat.mul_pos hd (by positivity)

/-- The leading bits of numerator and denominator enclose the ratio. -/
theorem ratio_between {n d : ℕ} (hn : 0 < n) (hd : 0 < d) :
    (2 : ℚ) ^ ((n.log2 : ℤ) - d.log2 - 1) < n / d ∧
      (n : ℚ) / d < 2 ^ ((n.log2 : ℤ) - d.log2 + 1) := by
  have hdq : (0 : ℚ) < d := by exact_mod_cast hd
  have nlow : (2 : ℚ) ^ n.log2 ≤ n := by exact_mod_cast Nat.log2_self_le hn.ne'
  have nhigh : (n : ℚ) < 2 ^ n.log2 * 2 := by
    exact_mod_cast (pow_succ 2 n.log2) ▸ Nat.lt_log2_self (n := n)
  have dlow : (2 : ℚ) ^ d.log2 ≤ d := by exact_mod_cast Nat.log2_self_le hd.ne'
  have dhigh : (d : ℚ) < 2 ^ d.log2 * 2 := by
    exact_mod_cast (pow_succ 2 d.log2) ▸ Nat.lt_log2_self (n := d)
  have hp : (0 : ℚ) < 2 ^ d.log2 := by positivity
  constructor
  · rw [zpow_sub_one₀ (by norm_num), zpow_sub₀ (by norm_num), zpow_natCast, zpow_natCast,
      ← div_eq_mul_inv, div_div, div_lt_div_iff₀ (by positivity) hdq]
    calc (2 : ℚ) ^ n.log2 * d ≤ n * d := by gcongr
      _ < n * (2 ^ d.log2 * 2) := by gcongr
  · rw [zpow_add_one₀ (by norm_num), zpow_sub₀ (by norm_num), zpow_natCast, zpow_natCast,
      div_mul_eq_mul_div, div_lt_div_iff₀ hdq hp]
    calc (n : ℚ) * 2 ^ d.log2 < 2 ^ n.log2 * 2 * 2 ^ d.log2 := by gcongr
      _ ≤ 2 ^ n.log2 * 2 * d := by gcongr

/-- The grid of a ratio is computed. -/
theorem onGrid_gridExponent {n d : ℕ} (hn : 0 < n) (hd : 0 < d) :
    OnGrid ((n : ℚ) / d) (gridExponent n d) := by
  obtain ⟨hlow, hhigh⟩ := ratio_between hn hd
  set guess : ℤ := (n.log2 : ℤ) - d.log2 - 53 with hguess
  have hfirst : (n.log2 : ℤ) - d.log2 - 1 = guess + 52 := by omega
  have hlast : (n.log2 : ℤ) - d.log2 + 1 = guess + 54 := by omega
  rw [hfirst, zpow_add₀ (by norm_num)] at hlow
  rw [hlast, zpow_add₀ (by norm_num)] at hhigh
  -- The exponent before it is kept above the least one.
  have hexact : ∃ e : ℤ, gridExponent n d = max e (-1074) ∧
      2 ^ 52 ≤ (n / d : ℚ) / 2 ^ e ∧ (n / d : ℚ) / 2 ^ e < 2 ^ 53 := by
    have hp : (0 : ℚ) < 2 ^ guess := by positivity
    have hden := scaleDown_denominator_pos n hd guess
    have hdenq : (0 : ℚ) < (scaleDown n d guess).2 := by exact_mod_cast hden
    have htest : 2 ^ 53 * (scaleDown n d guess).2 ≤ (scaleDown n d guess).1 ↔
        2 ^ 53 ≤ (n / d : ℚ) / 2 ^ guess := by
      rw [← ratio_scaleDown n hd, le_div_iff₀ hdenq]
      norm_cast
    by_cases ht : 2 ^ 53 * (scaleDown n d guess).2 ≤ (scaleDown n d guess).1
    · refine ⟨guess + 1, by simp only [gridExponent, ← hguess, if_pos ht], ?_, ?_⟩
      · have := htest.1 ht
        rw [zpow_add_one₀ (by norm_num), ← div_div]
        linarith
      · rw [zpow_add_one₀ (by norm_num), div_lt_iff₀ (by positivity)]
        norm_num at hhigh ⊢
        linarith
    · refine ⟨guess, by simp only [gridExponent, ← hguess, if_neg ht], ?_, ?_⟩
      · rw [le_div_iff₀ hp]
        norm_num at hlow ⊢
        linarith
      · exact not_le.1 fun h => ht (htest.2 h)
  obtain ⟨e, he, hge, hlt⟩ := hexact
  rw [he]
  rcases le_total e (-1074) with h | h
  · rw [max_eq_right h]
    refine ⟨le_refl _, lt_of_le_of_lt ?_ hlt, Or.inl rfl⟩
    exact div_le_div_of_nonneg_left (by positivity) (by positivity)
      (zpow_le_zpow_right₀ (by norm_num) h)
  · rw [max_eq_left h]
    exact ⟨h, hlt, Or.inr hge⟩

/-- `m` is the magnitude of the number nearest to `x`. -/
def RoundsTo (x : ℚ) (m : ℕ) : Prop :=
  ∃ (e : ℤ) (r : ℕ), OnGrid x e ∧ Nearest (x / 2 ^ e) r ∧
    m = min infinityMagnitude ((e + 1074).toNat * 2 ^ 52 + r)

theorem RoundsTo.mono {x y : ℚ} {m k : ℕ} (hx : RoundsTo x m) (hy : RoundsTo y k)
    (h : x ≤ y) : m ≤ k := by
  obtain ⟨e, r, he, hr, rfl⟩ := hx
  obtain ⟨f, s, hf, hs, rfl⟩ := hy
  refine min_le_min_left _ ?_
  have hpe : (0 : ℚ) < 2 ^ e := by positivity
  rcases (he.mono hf h).eq_or_lt with rfl | hlt
  · have := hr.mono hs (div_le_div_of_nonneg_right h hpe.le)
    omega
  · -- A rounded quotient reaches at most the first number of the next grid.
    have hrtop : r ≤ 2 ^ 53 := by
      have := hr.mono (nearest_natCast (2 ^ 53)) (by exact_mod_cast he.upper.le)
      simpa using this
    have hsbottom : 2 ^ 52 ≤ s := by
      have hlow : (2 : ℚ) ^ 52 ≤ y / 2 ^ f := by
        rcases hf.lower with rfl | hlow
        · exact absurd he.least (not_le.2 hlt)
        · exact hlow
      have := (nearest_natCast (2 ^ 52)).mono hs (by exact_mod_cast hlow)
      simpa using this
    have hleast := he.least
    have hgap : (e + 1074).toNat + 1 ≤ (f + 1074).toNat := by omega
    have := Nat.mul_le_mul_right (2 ^ 52) hgap
    omega

theorem RoundsTo.unique {x : ℚ} {m k : ℕ} (hm : RoundsTo x m) (hk : RoundsTo x k) : m = k :=
  Nat.le_antisymm (hm.mono hk le_rfl) (hk.mono hm le_rfl)

/-- The magnitude of the nearest number is computed. -/
theorem roundsTo_roundMagnitude (n : ℕ) {d : ℕ} (hd : 0 < d) :
    RoundsTo ((n : ℚ) / d) (roundMagnitude n d) := by
  rcases Nat.eq_zero_or_pos n with rfl | hn
  · refine ⟨-1074, 0, ⟨le_refl _, by norm_num, Or.inl rfl⟩, ?_, by simp [roundMagnitude]⟩
    simpa using nearest_natCast 0
  · refine ⟨gridExponent n d, roundedQuotient (scaleDown n d (gridExponent n d)).1
      (scaleDown n d (gridExponent n d)).2, onGrid_gridExponent hn hd, ?_, ?_⟩
    · rw [← ratio_scaleDown n hd]
      exact nearest_roundedQuotient (scaleDown_denominator_pos n hd _)
    · simp only [roundMagnitude, if_neg hn.ne']

/-- Of two ratios the larger one has the larger magnitude. -/
theorem roundMagnitude_mono (n n' : ℕ) {d d' : ℕ} (hd : 0 < d) (hd' : 0 < d')
    (h : (n : ℚ) / d ≤ n' / d') : roundMagnitude n d ≤ roundMagnitude n' d' :=
  (roundsTo_roundMagnitude n hd).mono (roundsTo_roundMagnitude n' hd') h

/-- The value of a finite number without its sign. -/
def absValue (x : Binary64) : ℚ := x.significand * 2 ^ x.exponent

theorem significand_lt (x : Binary64) : x.significand < 2 ^ 53 := by
  unfold significand
  split
  · omega
  · have := Nat.mod_lt x.magnitude (show 0 < 2 ^ 52 by norm_num)
    omega

theorem exponent_ge (x : Binary64) : -1074 ≤ x.exponent := by
  unfold exponent
  split
  · exact le_refl _
  · omega

/-- A number is laid out as the rounded quotient over the exponent field. -/
theorem magnitude_eq (x : Binary64) :
    x.magnitude = (x.exponent + 1074).toNat * 2 ^ 52 + x.significand := by
  unfold exponent significand
  split
  · omega
  · omega

theorem exponent_eq_or_significand_ge (x : Binary64) :
    x.exponent = -1074 ∨ 2 ^ 52 ≤ x.significand := by
  unfold exponent significand
  split
  · exact Or.inl rfl
  · exact Or.inr (by omega)

/-- The value of a finite number rounds to its magnitude. -/
theorem roundsTo_absValue {x : Binary64} (hx : x.isFinite = true) :
    RoundsTo x.absValue x.magnitude := by
  have hp : (2 : ℚ) ^ x.exponent ≠ 0 := by positivity
  have hq : x.absValue / 2 ^ x.exponent = x.significand := mul_div_cancel_right₀ _ hp
  refine ⟨x.exponent, x.significand, ⟨x.exponent_ge, ?_, ?_⟩, ?_, ?_⟩
  · rw [hq]
    exact_mod_cast x.significand_lt
  · rw [hq]
    exact x.exponent_eq_or_significand_ge.imp_right fun h => by exact_mod_cast h
  · rw [hq]
    exact nearest_natCast _
  · simp only [isFinite, decide_eq_true_eq] at hx
    rw [← magnitude_eq, min_eq_right hx.le]

/-- The exact value of a number rounds to the number. -/
theorem ofRatio_absValue {x : Binary64} (hx : x.isFinite = true) (negative : Bool) {n d : ℕ}
    (hd : 0 < d) (h : (n : ℚ) / d = x.absValue) :
    ofRatio negative n d = ofParts negative x.magnitude := by
  rw [ofRatio, (roundsTo_roundMagnitude n hd).unique (h ▸ roundsTo_absValue hx)]

theorem roundMagnitude_le (n d : ℕ) : roundMagnitude n d ≤ infinityMagnitude := by
  unfold roundMagnitude
  split
  · exact Nat.zero_le _
  · exact Nat.min_le_left _ _

theorem magnitude_ofParts (negative : Bool) {m : ℕ} (hm : m ≤ infinityMagnitude) :
    (ofParts negative m).magnitude = m := by
  have hinf : infinityMagnitude < 2 ^ 63 := by decide
  simp only [magnitude, ofParts, UInt64.toNat_ofNat', signWeight]
  cases negative
  · simp only [Bool.false_eq_true, if_false]
    omega
  · simp only [if_true]
    omega

theorem totalRank_ofParts (negative : Bool) {m : ℕ} (hm : m ≤ infinityMagnitude) :
    (ofParts negative m).totalRank = if negative then -(m : ℤ) - 1 else m := by
  have hinf : infinityMagnitude < 2 ^ 63 := by decide
  have hbits : (ofParts negative m).bits.toNat = m + if negative then signWeight else 0 := by
    simp only [ofParts, UInt64.toNat_ofNat', signWeight]
    exact Nat.mod_eq_of_lt (by split <;> omega)
  unfold totalRank isNegative magnitude
  rw [hbits]
  cases negative
  · have hlt : ¬ signWeight ≤ m := by simp only [signWeight]; omega
    have hmod : m % signWeight = m := Nat.mod_eq_of_lt (Nat.lt_of_not_le hlt)
    simp [hlt, hmod]
  · have hmod : m % signWeight = m := Nat.mod_eq_of_lt (by simp only [signWeight]; omega)
    simp [hmod]

/-- Rounding keeps the order of integers. -/
theorem totalRank_ofInt_mono {a b : ℤ} (h : a ≤ b) :
    (ofInt a).totalRank ≤ (ofInt b).totalRank := by
  unfold ofInt ofRatio
  rw [totalRank_ofParts _ (roundMagnitude_le _ _), totalRank_ofParts _ (roundMagnitude_le _ _)]
  by_cases ha : a < 0 <;> by_cases hb : b < 0 <;>
    simp only [ha, hb, decide_true, decide_false, if_true, Bool.false_eq_true, if_false]
  · have hle : b.natAbs ≤ a.natAbs := by omega
    have hle' : (b.natAbs : ℚ) ≤ a.natAbs := by exact_mod_cast hle
    have := roundMagnitude_mono b.natAbs a.natAbs one_pos one_pos
      (by simpa using hle')
    omega
  · omega
  · omega
  · have hle : a.natAbs ≤ b.natAbs := by omega
    have hle' : (a.natAbs : ℚ) ≤ b.natAbs := by exact_mod_cast hle
    have := roundMagnitude_mono a.natAbs b.natAbs one_pos one_pos
      (by simpa using hle')
    omega

end Binary64
end ExtentEngine
