import ExtentEngine.Decimal.Notation
import ExtentEngine.Proofs.Binary64.Nearest
import ExtentEngine.Proofs.Json.Lexemes

/-!
# Numbers are read back from their numerals

The shortest decimal of a number reads back to the number: a hit of the search does so by
construction, and the exact value behind the search because it rounds to the number.  A
numeral of the decimal, whichever notation it has, is read as the decimal.

**Results.**
* `Shortest.toBinary64_decimal`: the shortest decimal of a number is read as the number.
* `FloatNotation.decimal_positionalNumeral` and `decimal_scientificNumeral`: both notations of
  a decimal are read as the decimal.
* `FloatNotation.toBinary64_numeral`: the numeral of a number is read as the number.
* `FloatNotation.wellFormed_numeral`: the numeral of a number follows the grammar.
-/

namespace ExtentEngine

namespace Decimal

/-- The value of a decimal. -/
def value (d : Decimal) : ℚ := d.digits * 10 ^ d.exponent

/-- Whether a decimal has neither trailing zeros nor the value zero. -/
def Stripped (d : Decimal) : Prop := d.digits % 10 ≠ 0

theorem stripZeros_of_stripped {d : Decimal} (h : d.Stripped) :
    stripZeros d.digits d.exponent = d := by
  have hne : d.digits ≠ 0 := fun hz => h (by rw [hz])
  rw [stripZeros, if_neg hne, if_neg h]

theorem stripped_stripZeros {digits : ℕ} (hd : digits ≠ 0) (exponent : ℤ) :
    (stripZeros digits exponent).Stripped := by
  induction digits, exponent using stripZeros.induct with
  | case1 => exact absurd rfl hd
  | case2 digits exponent hne hmod ih =>
      rw [stripZeros, if_neg hne, if_pos hmod]
      exact ih (by omega)
  | case3 digits exponent hne hmod =>
      rw [stripZeros, if_neg hne, if_neg hmod]
      exact hmod

theorem value_stripZeros (digits : ℕ) (exponent : ℤ) :
    (stripZeros digits exponent).value = digits * 10 ^ exponent := by
  induction digits, exponent using stripZeros.induct with
  | case1 => simp [stripZeros, value]
  | case2 digits exponent hne hmod ih =>
      have hdigits : (digits : ℚ) = (digits / 10 : ℕ) * 10 := by
        exact_mod_cast (by omega : digits = digits / 10 * 10)
      rw [stripZeros, if_neg hne, if_pos hmod, ih, zpow_add_one₀ (by norm_num), hdigits]
      ring
  | case3 digits exponent hne hmod =>
      rw [stripZeros, if_neg hne, if_neg hmod, value]

theorem value_normalized (d : Decimal) : d.normalized.value = d.value :=
  value_stripZeros d.digits d.exponent

/-- Zeros may be moved from the digits into the exponent. -/
theorem stripZeros_mul_pow {digits : ℕ} (hd : digits ≠ 0) (zeros : ℕ) (exponent : ℤ) :
    stripZeros (digits * 10 ^ zeros) exponent = stripZeros digits (exponent + zeros) := by
  induction zeros generalizing exponent with
  | zero => simp
  | succ zeros ih =>
      have hne : digits * 10 ^ (zeros + 1) ≠ 0 := by positivity
      have hdiv : digits * 10 ^ (zeros + 1) / 10 = digits * 10 ^ zeros := by
        rw [pow_succ, ← mul_assoc, Nat.mul_div_cancel _ (by norm_num)]
      have hmod : digits * 10 ^ (zeros + 1) % 10 = 0 := by
        rw [pow_succ, ← mul_assoc, Nat.mul_mod_left]
      rw [stripZeros, if_neg hne, if_pos hmod, hdiv, ih]
      congr 1
      push_cast
      ring

end Decimal

namespace Digits

theorem toNat_append_replicate (digits : List Char) (zeros : ℕ) :
    toNat 10 (digits ++ List.replicate zeros '0') = toNat 10 digits * 10 ^ zeros := by
  have hzero : value? '0' = some 0 := by decide
  induction zeros with
  | zero => simp
  | succ zeros ih =>
      rw [List.replicate_succ', ← List.append_assoc, toNat_append_singleton, ih, hzero, pow_succ,
        mul_assoc]
      rfl

end Digits

namespace Binary64

/-- The magnitude of the number nearest to a decimal. -/
def decimalMagnitude (digits : ℕ) (exponent : ℤ) : ℕ := (ofDecimal false digits exponent).magnitude

theorem ofDecimal_eq (negative : Bool) (digits : ℕ) (exponent : ℤ) :
    ofDecimal negative digits exponent = ofParts negative (decimalMagnitude digits exponent) := by
  unfold decimalMagnitude ofDecimal
  simp only
  split
  · rw [zeroOf, zeroOf, magnitude_ofParts _ (Nat.zero_le _)]
  · split
    · rw [infinityOf, infinityOf, magnitude_ofParts _ le_rfl]
    · rw [ofRatio, ofRatio, magnitude_ofParts _ (roundMagnitude_le _ _)]

/-- The number of digits in base ten is enough for the digits. -/
theorem lt_ten_pow_places (digits : ℕ) : digits < 10 ^ (digits.log2 / 3 + 1) := by
  have hlog : digits < 2 ^ (digits.log2 + 1) := Nat.lt_log2_self
  calc digits < 2 ^ (digits.log2 + 1) := hlog
    _ ≤ 2 ^ (3 * (digits.log2 / 3 + 1)) := Nat.pow_le_pow_right (by norm_num) (by omega)
    _ = 8 ^ (digits.log2 / 3 + 1) := by rw [pow_mul]; norm_num
    _ ≤ 10 ^ (digits.log2 / 3 + 1) := Nat.pow_le_pow_left (by norm_num) _

/-- Between the powers of ten that are settled at once a decimal is rounded like any ratio. -/
theorem decimalMagnitude_eq {digits : ℕ} {exponent : ℤ} {q : ℚ}
    (hq : (digits : ℚ) * 10 ^ exponent = q) (hlow : 10 ^ (-400 : ℤ) ≤ q)
    (hhigh : q ≤ 10 ^ (400 : ℤ)) :
    ∃ n d : ℕ, 0 < d ∧ (n : ℚ) / d = q ∧ ofDecimal false digits exponent = ofRatio false n d := by
  have hten : (1 : ℚ) < 10 := by norm_num
  have hpos : 0 < q := lt_of_lt_of_le (by positivity) hlow
  have hdigits : digits ≠ 0 := by
    rintro rfl
    simp at hq
    exact hpos.ne' hq.symm
  have hplaces : ¬((digits.log2 : ℤ) / 3 + 1 + exponent < -400) := by
    intro hlt
    have hdigitsLt : (digits : ℚ) < 10 ^ ((digits.log2 : ℤ) / 3 + 1) := by
      have := lt_ten_pow_places digits
      exact_mod_cast this
    have hle : (10 : ℚ) ^ ((digits.log2 : ℤ) / 3 + 1 + exponent) ≤ 10 ^ (-400 : ℤ) :=
      zpow_le_zpow_right₀ hten.le (by omega)
    rw [zpow_add₀ (by norm_num)] at hle
    have hlt' : (digits : ℚ) * 10 ^ exponent < 10 ^ ((digits.log2 : ℤ) / 3 + 1) * 10 ^ exponent :=
      mul_lt_mul_of_pos_right hdigitsLt (by positivity)
    linarith
  have hexponent : ¬(400 < exponent) := by
    intro hlt
    have hone : (1 : ℚ) ≤ digits := by exact_mod_cast Nat.one_le_iff_ne_zero.2 hdigits
    have hgt : (10 : ℚ) ^ (400 : ℤ) < 10 ^ exponent := zpow_lt_zpow_right₀ hten hlt
    have hle : (10 : ℚ) ^ exponent ≤ digits * 10 ^ exponent :=
      le_mul_of_one_le_left (by positivity) hone
    linarith
  refine ⟨digits * 10 ^ exponent.toNat, 10 ^ (-exponent).toNat, by positivity, ?_, ?_⟩
  · rw [← hq, zpow_eq_div 10 exponent]
    push_cast
    ring
  · have hguard : ¬(digits = 0 ∨ (digits.log2 : ℤ) / 3 + 1 + exponent < -400) := by tauto
    simp only [ofDecimal]
    rw [if_neg hguard, if_neg hexponent]

theorem two_pow_le {n : ℕ} (hn : n ≤ 1200) : (2 : ℚ) ^ n ≤ 10 ^ 400 :=
  calc (2 : ℚ) ^ n ≤ 2 ^ (3 * 400) := pow_le_pow_right₀ (by norm_num) (by omega)
    _ = 8 ^ 400 := by rw [pow_mul]; norm_num
    _ ≤ 10 ^ 400 := pow_le_pow_left₀ (by norm_num) (by norm_num) 400

theorem absValue_le {x : Binary64} (hx : x.isFinite = true) : x.absValue ≤ 10 ^ (400 : ℤ) := by
  have hexponent : x.exponent ≤ 971 := by
    have hmagnitude : x.magnitude < 0x7ff0000000000000 := of_decide_eq_true hx
    unfold exponent
    split <;> omega
  have hsignificand : (x.significand : ℚ) ≤ 2 ^ (53 : ℤ) := by exact_mod_cast x.significand_lt.le
  calc x.absValue ≤ 2 ^ (53 : ℤ) * 2 ^ (971 : ℤ) :=
        mul_le_mul hsignificand (zpow_le_zpow_right₀ (by norm_num) hexponent) (by positivity)
          (by positivity)
    _ = 2 ^ 1024 := by rw [← zpow_add₀ (by norm_num)]; rfl
    _ ≤ 10 ^ (400 : ℤ) := two_pow_le (by norm_num)

theorem le_absValue {x : Binary64} (hx : x.isZero = false) : 10 ^ (-400 : ℤ) ≤ x.absValue := by
  have hsignificand : (1 : ℚ) ≤ x.significand := by
    have hne : x.magnitude ≠ 0 := by simpa [isZero] using hx
    have hone : 1 ≤ x.significand := by
      unfold significand
      split <;> omega
    exact_mod_cast hone
  have hpow : (2 : ℚ) ^ ((1074 : ℕ) : ℤ) ≤ 10 ^ ((400 : ℕ) : ℤ) := by
    rw [zpow_natCast, zpow_natCast]
    exact two_pow_le (by norm_num)
  calc (10 : ℚ) ^ (-400 : ℤ) ≤ 2 ^ (-1074 : ℤ) := by
        rw [zpow_neg, zpow_neg]
        exact inv_anti₀ (by positivity) hpow
    _ = 1 * 2 ^ (-1074 : ℤ) := (one_mul _).symm
    _ ≤ x.absValue :=
        mul_le_mul hsignificand (zpow_le_zpow_right₀ (by norm_num) x.exponent_ge) (by positivity)
          (by positivity)

/-- A decimal with the value of a number is read as the number. -/
theorem ofDecimal_of_value {x : Binary64} (hx : x.isFinite = true) (hz : x.isZero = false)
    {d : Decimal} (hd : d.value = x.absValue) : ofDecimal false d.digits d.exponent = x.abs := by
  obtain ⟨n, m, hm, hratio, hread⟩ :=
    decimalMagnitude_eq hd (le_absValue hz) (absValue_le hx)
  rw [hread, ofRatio_absValue hx false hm hratio, abs]

end Binary64

namespace Shortest

theorem value_exact (x : Binary64) : (exact x.significand x.exponent).value = x.absValue := by
  unfold exact Decimal.value Binary64.absValue
  split
  · next h =>
      obtain ⟨k, hk⟩ := Int.eq_ofNat_of_zero_le h
      rw [hk]
      simp
  · next h =>
      obtain ⟨k, hk⟩ := Int.eq_ofNat_of_zero_le (Int.neg_nonneg.2 (Int.le_of_not_le h))
      obtain hexponent : x.exponent = -(k : ℤ) := by omega
      have hpow : (10 : ℚ) ^ k = 2 ^ k * 5 ^ k := by rw [← mul_pow]; norm_num
      rw [hexponent]
      simp only [neg_neg, Int.toNat_natCast, Nat.cast_mul, Nat.cast_pow, Nat.cast_ofNat,
        zpow_neg, zpow_natCast, hpow]
      field_simp

theorem readsBack_of_onGrid {tie : TieRule} {x : Binary64} {numerator denominator : ℕ}
    {place : ℤ} {d : Decimal} (h : onGrid tie x numerator denominator place = some d) :
    readsBack x d = true := by
  simp only [onGrid] at h
  split at h
  · next hbelow _ => cases h; exact hbelow
  · next _ habove => cases h; exact habove
  · cases h
  · next hbelow habove =>
      repeat' split at h
      all_goals first | (cases h; exact hbelow) | (cases h; exact habove)

/-- The shortest decimal of a number is read as the number. -/
theorem toBinary64_decimal (tie : TieRule) {x : Binary64} (hx : x.isFinite = true)
    (hz : x.isZero = false) : (decimal tie x).toBinary64 x.isNegative = x := by
  have habs : (decimal tie x).toBinary64 false = x.abs := by
    unfold decimal
    simp only
    cases hhit : (List.range 17).findSome? _ with
    | none =>
        refine Binary64.ofDecimal_of_value hx hz ?_
        rw [Option.getD_none, Decimal.value_normalized, value_exact]
    | some d =>
        obtain ⟨count, -, hgrid⟩ := List.exists_of_findSome?_eq_some hhit
        exact eq_of_beq (readsBack_of_onGrid hgrid)
  have hmagnitude : Binary64.decimalMagnitude (decimal tie x).digits (decimal tie x).exponent =
      x.magnitude := by
    simp only [Binary64.isFinite, decide_eq_true_eq] at hx
    rw [Binary64.decimalMagnitude]
    rw [Decimal.toBinary64] at habs
    rw [habs, Binary64.abs, Binary64.magnitude_ofParts false hx.le]
  rw [Decimal.toBinary64, Binary64.ofDecimal_eq, hmagnitude, Binary64.bits_ofParts]

theorem stripped_decimal (tie : TieRule) {x : Binary64} (hx : x.isFinite = true)
    (hz : x.isZero = false) : (decimal tie x).Stripped := by
  refine Decimal.stripped_stripZeros ?_ _
  intro hzero
  have hback := toBinary64_decimal tie hx hz
  have hdecimal : decimal tie x = ⟨0, 0⟩ := by
    unfold decimal
    simp only
    rw [Decimal.normalized, hzero, Decimal.stripZeros, if_pos rfl]
  rw [hdecimal] at hback
  have hmagnitude : x.magnitude = 0 := by
    rw [← hback]
    exact Binary64.magnitude_ofParts _ (Nat.zero_le _)
  simp [Binary64.isZero, hmagnitude] at hz

end Shortest

namespace FloatNotation

open Digits

/-- The decimal that a numeral is read as does not depend on where its point is. -/
theorem decimal_eq_of_stripped {d : Decimal} (hd : d.Stripped) {n : Numeral} (zeros : ℕ)
    (hdigits : toNat 10 (n.whole ++ n.fraction) = d.digits * 10 ^ zeros)
    (hexponent : n.exponentValue - n.fraction.length + zeros = d.exponent) : n.decimal = d := by
  have hne : d.digits ≠ 0 := fun hz => hd (by rw [hz])
  rw [Numeral.decimal, Decimal.normalized, hdigits, Decimal.stripZeros_mul_pow hne]
  simp only [hexponent]
  exact Decimal.stripZeros_of_stripped hd

variable (f : FloatNotation) (negative : Bool)

theorem decimal_positionalNumeral {d : Decimal} (hd : d.Stripped) :
    (f.positionalNumeral negative (ofNat 10 d.digits)
      (d.exponent + (ofNat 10 d.digits).length - 1)).decimal = d := by
  have hread : toNat 10 (ofNat 10 d.digits) = d.digits := toNat_ofNat (by norm_num) (by norm_num) _
  have hlength : 0 < (ofNat 10 d.digits).length := List.length_pos_of_ne_nil (ofNat_ne_nil 10 _)
  unfold positionalNumeral
  split
  · next hneg =>
      refine decimal_eq_of_stripped hd 0 ?_ ?_
      · have hzeros : ['0'] ++ (List.replicate
            (-(d.exponent + (ofNat 10 d.digits).length - 1) - 1).toNat '0' ++ ofNat 10 d.digits) =
            List.replicate ((-(d.exponent + (ofNat 10 d.digits).length - 1) - 1).toNat + 1) '0' ++
              ofNat 10 d.digits := by
          rw [List.replicate_succ]
          rfl
        simp only [hzeros, toNat_replicate_append, hread, pow_zero, mul_one]
      · simp only [Numeral.exponentValue, List.length_append, List.length_replicate]
        omega
  · next hneg =>
      simp only
      split
      · next hshort =>
          cases hpoint : f.keepsPoint with
          | false =>
              refine decimal_eq_of_stripped hd
                ((d.exponent + (ofNat 10 d.digits).length - 1).toNat + 1 -
                  (ofNat 10 d.digits).length) ?_ ?_
              · simp [wholeFraction, hpoint, toNat_append_replicate, hread]
              · simp [wholeFraction, hpoint, Numeral.exponentValue]
                omega
          | true =>
              refine decimal_eq_of_stripped hd
                ((d.exponent + (ofNat 10 d.digits).length - 1).toNat + 1 -
                  (ofNat 10 d.digits).length + 1) ?_ ?_
              · have hzero : ['0'] = List.replicate 1 '0' := rfl
                simp only [wholeFraction, hpoint, if_true, List.append_assoc]
                rw [hzero, List.replicate_append_replicate, toNat_append_replicate, hread]
              · simp [wholeFraction, hpoint, Numeral.exponentValue]
                omega
      · next hlong =>
          refine decimal_eq_of_stripped hd 0 ?_ ?_
          · simp only [List.take_append_drop, hread, pow_zero, mul_one]
          · simp only [Numeral.exponentValue, List.length_drop]
            omega

theorem decimal_scientificNumeral {d : Decimal} (hd : d.Stripped) :
    (f.scientificNumeral negative (ofNat 10 d.digits)
      (d.exponent + (ofNat 10 d.digits).length - 1)).decimal = d := by
  have hread : toNat 10 (ofNat 10 d.digits) = d.digits := toNat_ofNat (by norm_num) (by norm_num) _
  have hlength : 0 < (ofNat 10 d.digits).length := List.length_pos_of_ne_nil (ofNat_ne_nil 10 _)
  refine decimal_eq_of_stripped hd 0 ?_ ?_
  · simp only [scientificNumeral, List.take_append_drop, hread, pow_zero, mul_one]
  · have hback : ∀ n : ℕ, toNat 10 (ofNat 10 n) = n := toNat_ofNat (by norm_num) (by norm_num)
    have hvalue : (f.scientificNumeral negative (ofNat 10 d.digits)
        (d.exponent + (ofNat 10 d.digits).length - 1)).exponentValue =
        d.exponent + (ofNat 10 d.digits).length - 1 := by
      unfold scientificNumeral Numeral.exponentValue
      by_cases hneg : d.exponent + (ofNat 10 d.digits).length - 1 < 0
      · simp only [hneg, if_true, hback]
        omega
      · cases f.marksPlus <;>
          simp only [hneg, if_false, if_true, hback, Bool.false_eq_true] <;> omega
    rw [hvalue]
    simp only [scientificNumeral, List.length_drop]
    omega

@[simp] theorem negative_positionalNumeral (digits : List Char) (leading : ℤ) :
    (f.positionalNumeral negative digits leading).negative = negative := by
  unfold positionalNumeral
  split
  · rfl
  · simp only
    split <;> rfl

/-- The numeral of a number is read as the number. -/
theorem toBinary64_numeral {x : Binary64} (hx : x.isFinite = true) :
    (f.numeral x).toBinary64 = x := by
  unfold numeral
  cases hz : x.isZero with
  | true =>
      have hmagnitude : x.magnitude = 0 := by simpa [Binary64.isZero] using hz
      have hdecimal :
          (⟨x.isNegative, ['0'], f.wholeFraction, none⟩ : Numeral).decimal = ⟨0, 0⟩ := by
        have hzeros : toNat 10 (['0'] ++ f.wholeFraction) = 0 := by
          rw [wholeFraction]
          split
          · rfl
          · rfl
        rw [Numeral.decimal, Decimal.normalized, hzeros, Decimal.stripZeros, if_pos rfl]
      rw [if_pos rfl, Numeral.toBinary64, hdecimal]
      exact (congrArg _ hmagnitude.symm).trans (Binary64.bits_ofParts x)
  | false =>
      have hd := Shortest.stripped_decimal f.tie hx hz
      have hback := Shortest.toBinary64_decimal f.tie hx hz
      simp only [Bool.false_eq_true, if_false]
      split
      · rw [Numeral.toBinary64, decimal_positionalNumeral f _ hd, negative_positionalNumeral, hback]
      · rw [Numeral.toBinary64, decimal_scientificNumeral f _ hd]
        exact hback

end FloatNotation

namespace Digits

/-- No zero leads the digits of a number. -/
theorem head?_ofNat {n : ℕ} (hn : n ≠ 0) : (ofNat 10 n).head? ≠ some '0' := by
  induction n using Nat.strongRecOn with
  | _ n ih =>
      rw [ofNat]
      split
      · next h =>
          have hall : ∀ k : Fin 10, k.val ≠ 0 → digitChar k.val ≠ '0' := by decide
          simpa using hall ⟨n, by omega⟩ hn
      · next h =>
          rw [List.head?_append_of_ne_nil _ (ofNat_ne_nil 10 _)]
          exact ih _ (Nat.div_lt_self (by omega) (by norm_num)) (by omega)

end Digits

namespace FloatNotation

open Digits

variable (f : FloatNotation)

theorem isDigit_of_mem_zero : ∀ c ∈ ['0'], isDigit 10 c = true := forall_mem_of_all (by decide)

theorem isDigit_of_mem_zeros {count : ℕ} : ∀ c ∈ List.replicate count '0', isDigit 10 c = true := by
  intro c hc
  rw [List.eq_of_mem_replicate hc]
  decide

theorem isDigit_wholeFraction : ∀ c ∈ f.wholeFraction, isDigit 10 c = true := by
  rw [wholeFraction]
  split
  · exact isDigit_of_mem_zero
  · exact nofun

theorem wellFormed_positionalNumeral (negative : Bool) {digits : List Char} (hne : digits ≠ [])
    (hdigits : ∀ c ∈ digits, isDigit 10 c = true) (hhead : digits.head? ≠ some '0')
    (leading : ℤ) : (f.positionalNumeral negative digits leading).WellFormed := by
  unfold positionalNumeral
  split
  · refine ⟨List.cons_ne_nil _ _, isDigit_of_mem_zero, fun _ => rfl, ?_, nofun⟩
    intro c hc
    exact (List.mem_append.1 hc).elim (isDigit_of_mem_zeros c) (hdigits c)
  · simp only
    split
    · refine ⟨by simp [hne], ?_, ?_, f.isDigit_wholeFraction, nofun⟩
      · intro c hc
        exact (List.mem_append.1 hc).elim (hdigits c) (isDigit_of_mem_zeros c)
      · intro h
        rw [List.head?_append_of_ne_nil _ hne] at h
        exact absurd h hhead
    · refine ⟨by simp [hne], fun c hc => hdigits c (List.mem_of_mem_take hc), ?_,
        fun c hc => hdigits c (List.mem_of_mem_drop hc), nofun⟩
      intro h
      rw [List.head?_take] at h
      simp only [Nat.add_eq_zero_iff, one_ne_zero, and_false, if_false] at h
      exact absurd h hhead

theorem wellFormed_scientificNumeral (negative : Bool) {digits : List Char} (hne : digits ≠ [])
    (hdigits : ∀ c ∈ digits, isDigit 10 c = true) (hhead : digits.head? ≠ some '0')
    (leading : ℤ) : (f.scientificNumeral negative digits leading).WellFormed := by
  refine ⟨?_, fun c hc => hdigits c (List.mem_of_mem_take hc), ?_,
    fun c hc => hdigits c (List.mem_of_mem_drop hc), ?_⟩
  · simp [scientificNumeral, hne]
  · intro h
    simp only [scientificNumeral, List.head?_take, one_ne_zero, if_false] at h
    exact absurd h hhead
  · intro sign ds h
    cases h
    exact ⟨ofNat_ne_nil 10 _, isDigit_ofNat (by norm_num) (by norm_num) _⟩

/-- The numeral of a number follows the grammar. -/
theorem wellFormed_numeral {x : Binary64} (hx : x.isFinite = true) :
    (f.numeral x).WellFormed := by
  unfold numeral
  cases hz : x.isZero with
  | true =>
      rw [if_pos rfl]
      exact ⟨List.cons_ne_nil _ _, isDigit_of_mem_zero, fun _ => rfl, f.isDigit_wholeFraction,
        nofun⟩
  | false =>
      have hd := Shortest.stripped_decimal f.tie hx hz
      have hne : (Shortest.decimal f.tie x).digits ≠ 0 := fun hzero => hd (by rw [hzero])
      have hdigits := isDigit_ofNat (show 2 ≤ 10 by norm_num) (show 10 ≤ 16 by norm_num)
        (Shortest.decimal f.tie x).digits
      simp only [Bool.false_eq_true, if_false]
      split
      · exact f.wellFormed_positionalNumeral _ (ofNat_ne_nil 10 _) hdigits (head?_ofNat hne) _
      · exact f.wellFormed_scientificNumeral _ (ofNat_ne_nil 10 _) hdigits (head?_ofNat hne) _

end FloatNotation
end ExtentEngine
