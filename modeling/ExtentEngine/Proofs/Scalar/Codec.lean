import ExtentEngine.Proofs.Json.Shape
import ExtentEngine.Scalar.Codec

/-!
# Scalars are read back

**Results.**
* `Binary64.encodes`: numbers are read back bit for bit, infinities and NaNs included.
* `Scalar.encodes`: scalars are read back.
-/

namespace ExtentEngine

open Json (Encodes)

namespace Binary64

theorem wordOfHex?_padded (bits : UInt64) :
    wordOfHex? (Digits.padded 16 16 bits.toNat) = some bits := by
  have hdigits := Digits.isDigit_padded (show 2 ≤ 16 by norm_num) le_rfl 16 bits.toNat
  have hread : Digits.toNat 16 (Digits.padded 16 16 bits.toNat) = bits.toNat :=
    Digits.toNat_padded (by norm_num) le_rfl _ _
  have hne := Digits.padded_ne_nil 16 16 bits.toNat
  have hplus : (Digits.padded 16 16 bits.toNat).head? ≠ some '+' := by
    intro hhead
    exact absurd (hdigits '+' (List.mem_of_head? hhead)) (by decide)
  have hall : (Digits.padded 16 16 bits.toNat).all (Digits.isDigit 16) = true :=
    List.all_eq_true.2 hdigits
  simp [wordOfHex?, hplus, hread, hne, hall]
  exact bits.toNat_lt

theorem magnitude_eq_infinity {x : Binary64} (h : x.isInfinite = true) :
    x.magnitude = infinityMagnitude := eq_of_beq h

/-- Numbers are read back bit for bit. -/
theorem encodes (x : Binary64) : Encodes toJson ofJson? x := by
  by_cases hfinite : x.isFinite = true
  · have hjson : x.toJson = .number (jsonNotation.numeral x) := if_pos hfinite
    refine ⟨?_, ?_⟩
    · rw [hjson]
      exact .number (jsonNotation.wellFormed_numeral hfinite)
    · rw [hjson]
      simp only [ofJson?, Json.binary64?, jsonNotation.toBinary64_numeral hfinite, hfinite, if_true]
  · by_cases hinfinite : x.isInfinite = true
    · have hback : ofParts x.isNegative infinityMagnitude = x := by
        rw [← magnitude_eq_infinity hinfinite, bits_ofParts]
      have hjson : x.toJson =
          .ofText (if x.isNegative then ['-', 'i', 'n', 'f'] else ['i', 'n', 'f']) := by
        rw [toJson, if_neg hfinite, if_pos hinfinite]
      refine ⟨?_, ?_⟩
      · rw [hjson]
        exact Json.written_ofText _
      · rw [hjson]
        simp only [ofJson?, Json.ofText]
        rw [← Json.ofText, Json.text?_ofText]
        cases hneg : x.isNegative with
        | true =>
            rw [hneg] at hback
            exact congrArg some hback
        | false =>
            rw [hneg] at hback
            exact congrArg some hback
    · have hjson : x.toJson = .ofText (nanMark ++ Digits.padded 16 16 x.bits.toNat) := by
        rw [toJson, if_neg hfinite, if_neg hinfinite]
      refine ⟨?_, ?_⟩
      · rw [hjson]
        exact Json.written_ofText _
      · rw [hjson]
        simp only [ofJson?, Json.ofText]
        rw [← Json.ofText, Json.text?_ofText]
        have hmark : ofMark? (nanMark ++ Digits.padded 16 16 x.bits.toNat) =
            (wordOfHex? (Digits.padded 16 16 x.bits.toNat)).map ofBits := rfl
        rw [Option.bind_some, hmark, wordOfHex?_padded]
        rfl

end Binary64

namespace Json

theorem int64?_ofInt (n : Int64) : (ofInt n.toInt).int64? = some n := by
  rw [int64?, int?_ofInt n.le_toInt (by have := n.toInt_lt; omega)]
  exact congrArg some (Int64.ofInt_toInt n)

end Json

namespace Scalar

/-- Scalars are read back. -/
theorem encodes (value : Scalar) : Encodes toJson ofJson? value := by
  cases value with
  | null => exact ⟨Json.written_chooseBare (by decide), rfl⟩
  | bool b =>
      refine ⟨Json.written_choose (by decide) (.bool b), ?_⟩
      rw [ofJson?, toJson, Json.choice?_choose (by decide)]
      rfl
  | int n =>
      refine ⟨Json.written_choose (by decide) (Json.written_ofInt _), ?_⟩
      rw [ofJson?, toJson, Json.choice?_choose (by decide)]
      show (Json.int64? _).map int = _
      rw [Json.int64?_ofInt]
      rfl
  | float x =>
      refine ⟨Json.written_choose (by decide) x.encodes.written, ?_⟩
      rw [ofJson?, toJson, Json.choice?_choose (by decide)]
      show (Binary64.ofJson? _).map float = _
      rw [x.encodes.readBack]
      rfl
  | text s =>
      refine ⟨Json.written_choose (by decide) (Json.written_ofText _), ?_⟩
      rw [ofJson?, toJson, Json.choice?_choose (by decide)]
      show (Json.text? _).map (fun s => text (String.ofList s)) = _
      rw [Json.text?_ofText]
      simp

end Scalar
end ExtentEngine
