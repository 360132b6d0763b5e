import ExtentEngine.Json.Parser
import ExtentEngine.Proofs.Lists
import Mathlib.Data.List.TakeDrop

/-!
# Lexemes are read back

Numerals and strings that were written are read back from the front of a text, as long as
what follows cannot be part of them.

**Results.**
* `takeNumeral_text`: a written numeral is read back.
* `takeString_escape`: an escaped text is read back up to its closing quote.
-/

namespace ExtentEngine

/-- A numeral as the grammar asks for it. -/
structure Numeral.WellFormed (n : Numeral) : Prop where
  whole_ne_nil : n.whole ≠ []
  whole_digits : ∀ c ∈ n.whole, Digits.isDigit 10 c = true
  no_leading_zero : n.whole.head? = some '0' → n.whole = ['0']
  fraction_digits : ∀ c ∈ n.fraction, Digits.isDigit 10 c = true
  exponent_digits : ∀ sign digits, n.exponent = some (sign, digits) →
    digits ≠ [] ∧ ∀ c ∈ digits, Digits.isDigit 10 c = true

namespace Json

/-- What may follow a value inside of other values: nothing, or a mark between values. -/
def Ends : List Char → Prop
  | [] => True
  | c :: _ => c = ',' ∨ c = ']' ∨ c = '\x7d'

/-- A text that does not go on with a digit. -/
def StopsDigits : List Char → Prop
  | [] => True
  | c :: _ => Digits.isDigit 10 c = false

theorem Ends.stopsDigits {rest : List Char} (h : Ends rest) : StopsDigits rest := by
  cases rest with
  | nil => trivial
  | cons c rest =>
      have hmark : ∀ d ∈ [',', ']', '\x7d'], Digits.isDigit 10 d = false :=
        forall_mem_of_all (by decide)
      exact hmark c (by simpa [Ends] using h)

theorem takeDigits_append {digits rest : List Char}
    (hd : ∀ c ∈ digits, Digits.isDigit 10 c = true) (hr : StopsDigits rest) :
    takeDigits (digits ++ rest) = (digits, rest) := by
  have htake : (digits ++ rest).takeWhile (Digits.isDigit 10) = digits := by
    rw [List.takeWhile_append_of_pos hd]
    cases rest with
    | nil => simp
    | cons c rest =>
        have hc : Digits.isDigit 10 c = false := hr
        simp [hc]
  have hdrop : (digits ++ rest).dropWhile (Digits.isDigit 10) = rest := by
    rw [List.dropWhile_append_of_pos hd]
    cases rest with
    | nil => rfl
    | cons c rest =>
        have hc : Digits.isDigit 10 c = false := hr
        simp [hc]
  rw [takeDigits, List.span_eq_takeWhile_dropWhile, htake, hdrop]

/-- The written form of a fraction. -/
def fractionText (fraction : List Char) : List Char :=
  if fraction.isEmpty then [] else '.' :: fraction

/-- The written form of an exponent. -/
def exponentText : Option (ExponentSign × List Char) → List Char
  | none => []
  | some (sign, digits) => 'e' :: (sign.text ++ digits)

theorem stopsDigits_exponentText (exponent : Option (ExponentSign × List Char))
    {rest : List Char} (hr : Ends rest) : StopsDigits (exponentText exponent ++ rest) := by
  cases exponent with
  | none => exact hr.stopsDigits
  | some e => exact (by decide : Digits.isDigit 10 'e' = false)

theorem stopsDigits_fractionText (fraction : List Char) {rest : List Char}
    (hr : StopsDigits rest) : StopsDigits (fractionText fraction ++ rest) := by
  cases fraction with
  | nil => exact hr
  | cons c fraction => exact (by decide : Digits.isDigit 10 '.' = false)

theorem takeExponent_exponentText {n : Numeral} (hn : n.WellFormed) {rest : List Char}
    (hr : Ends rest) :
    takeExponent (exponentText n.exponent ++ rest) = some (n.exponent, rest) := by
  cases he : n.exponent with
  | none =>
      cases rest with
      | nil => rfl
      | cons c rest =>
          rcases hr with rfl | rfl | rfl
          all_goals rfl
  | some e =>
      obtain ⟨sign, digits⟩ := e
      obtain ⟨hne, hd⟩ := hn.exponent_digits sign digits he
      have hspan := takeDigits_append hd hr.stopsDigits
      obtain ⟨d, ds, rfl⟩ := List.exists_cons_of_ne_nil hne
      have hfirst : Digits.isDigit 10 d = true := hd d (by simp)
      have hplus : d ≠ '+' := by
        rintro rfl
        exact absurd hfirst (by decide)
      have hminus : d ≠ '-' := by
        rintro rfl
        exact absurd hfirst (by decide)
      have hsign : takeSign (sign.text ++ (d :: ds) ++ rest) = (sign, (d :: ds) ++ rest) := by
        cases sign with
        | unmarked => simp [ExponentSign.text, takeSign, hplus, hminus]
        | plus => rfl
        | minus => rfl
      simp only [exponentText, List.cons_append, takeExponent, List.append_assoc]
        at hsign hspan ⊢
      simp [hsign, hspan]

theorem takeFraction_fractionText {fraction rest : List Char}
    (hd : ∀ c ∈ fraction, Digits.isDigit 10 c = true) (hr : StopsDigits rest)
    (hpoint : rest.head? ≠ some '.') :
    takeFraction (fractionText fraction ++ rest) = some (fraction, rest) := by
  cases fraction with
  | nil =>
      cases rest with
      | nil => rfl
      | cons c rest =>
          have hc : c ≠ '.' := fun h => hpoint (by rw [h]; rfl)
          simp [fractionText, takeFraction, hc]
  | cons c fraction =>
      have hspan := takeDigits_append hd hr
      rw [List.cons_append] at hspan
      simp [fractionText, takeFraction, hspan]

theorem head?_exponentText {exponent : Option (ExponentSign × List Char)} {rest : List Char}
    (hr : Ends rest) : (exponentText exponent ++ rest).head? ≠ some '.' := by
  cases exponent with
  | none =>
      cases rest with
      | nil => simp [exponentText]
      | cons c rest =>
          rcases hr with rfl | rfl | rfl
          all_goals simp [exponentText]
  | some e => simp [exponentText]

theorem text_eq_parts (n : Numeral) :
    n.text = (if n.negative then ['-'] else []) ++
      (n.whole ++ (fractionText n.fraction ++ exponentText n.exponent)) := by
  have htext : n.text = (if n.negative then ['-'] else []) ++ n.whole ++
      fractionText n.fraction ++ exponentText n.exponent := rfl
  rw [htext, List.append_assoc, List.append_assoc]

theorem takeUnsigned_parts {n : Numeral} (hn : n.WellFormed) {rest : List Char}
    (hr : Ends rest) :
    takeUnsigned n.negative
      (n.whole ++ (fractionText n.fraction ++ (exponentText n.exponent ++ rest))) =
        some (n, rest) := by
  have hstop := stopsDigits_exponentText n.exponent hr
  have hwhole := takeDigits_append hn.whole_digits
    (stopsDigits_fractionText n.fraction hstop)
  have hzero : (n.whole.isEmpty || (n.whole.head? == some '0' && n.whole != ['0'])) = false := by
    have hne := hn.whole_ne_nil
    have hlead := hn.no_leading_zero
    by_cases h : n.whole.head? = some '0'
    · simp [hlead h]
    · simp [hne, h]
  simp only [takeUnsigned, hwhole, hzero, Bool.false_eq_true, if_false]
  rw [takeFraction_fractionText hn.fraction_digits hstop (head?_exponentText hr)]
  simp only [takeExponent_exponentText hn hr]

/-- A written numeral is read back. -/
theorem takeNumeral_text {n : Numeral} (hn : n.WellFormed) {rest : List Char}
    (hr : Ends rest) : takeNumeral (n.text ++ rest) = some (n, rest) := by
  have hparts := takeUnsigned_parts hn hr
  rw [text_eq_parts]
  simp only [List.append_assoc]
  cases hs : n.negative with
  | true =>
      rw [hs] at hparts
      exact hparts
  | false =>
      rw [hs] at hparts
      obtain ⟨d, ds, hd⟩ := List.exists_cons_of_ne_nil hn.whole_ne_nil
      have hfirst : Digits.isDigit 10 d = true := hn.whole_digits d (by simp [hd])
      have hminus : d ≠ '-' := by
        rintro rfl
        exact absurd hfirst (by decide)
      rw [hd] at hparts ⊢
      simp only [Bool.false_eq_true, if_false, List.nil_append, List.cons_append] at hparts ⊢
      rw [takeNumeral]
      · exact hparts
      · rintro s ⟨rfl, -⟩
        exact hminus rfl

/-- A written character is read as it stands, whatever follows it. -/
theorem takeString_escapeChar_append (c : Char) (rest : List Char) :
    takeString (escapeChar c ++ rest) =
      (takeString rest).map fun (raw, rest) => (escapeChar c ++ raw, rest) := by
  unfold escapeChar
  split
  case h_8 =>
    split
    · next h =>
        rw [padded_of_control h]
        simp [takeString, fourDigits?_control h]
    · next h =>
        have hcontrol : (decide (c.toNat < 32) || decide (c = '\\')) = false := by
          simp_all
        rw [List.singleton_append, takeString]
        · simp only [hcontrol, Bool.false_eq_true, if_false, List.singleton_append]
        all_goals simp_all
  all_goals simp [takeString, simpleEscape?]

/-- An escaped text is read back up to its closing quote. -/
theorem takeString_escape (s rest : List Char) :
    takeString (escape s ++ '"' :: rest) = some (escape s, rest) := by
  induction s with
  | nil => simp [escape, takeString]
  | cons c s ih =>
      rw [escape, List.flatMap_cons, List.append_assoc, takeString_escapeChar_append]
      rw [escape] at ih
      rw [ih]
      rfl

/-- No character of an escaped text breaks a line. -/
theorem not_control_of_mem_escape {s : List Char} {c : Char} (h : c ∈ escape s) :
    32 ≤ c.toNat := by
  obtain ⟨d, -, hc⟩ := List.mem_flatMap.1 h
  unfold escapeChar at hc
  split at hc
  case h_8 =>
    split at hc
    · next hd =>
        have hdigit : ∀ k : Fin 16, 32 ≤ (Digits.digitChar k.val).toNat := by decide
        rw [padded_of_control hd] at hc
        simp only [List.cons_append, List.nil_append, List.mem_cons, List.not_mem_nil,
          or_false] at hc
        rcases hc with rfl | rfl | rfl | rfl | rfl | rfl
        · decide
        · decide
        · decide
        · decide
        · exact hdigit ⟨d.toNat / 16, by omega⟩
        · exact hdigit ⟨d.toNat % 16, by omega⟩
    · next hd =>
        rw [List.mem_singleton.1 hc]
        omega
  all_goals
    simp only [List.mem_cons, List.not_mem_nil, or_false] at hc
    rcases hc with rfl | rfl
    all_goals decide

end Json
end ExtentEngine
