import ExtentEngine.Scalar.Codec

/-!
# Terse scalars

The terse JSON form of a scalar does without the name of its type, which the shape gives
away: null, a truth value, an integer and a text stand for themselves, and a float is an
object with its bits in hexadecimal digits.  People write this form into requests, and no
number is rounded on the way.

**Results.**
* `ofWord?_word`: the digits of a float are read back bit for bit.
-/

namespace ExtentEngine
namespace Binary64

/-- The bits in hexadecimal digits. -/
def word (x : Binary64) : List Char := Digits.padded 16 16 x.bits.toNat

/-- The bits in hexadecimal digits, all NaNs being alike. -/
def commonWord (x : Binary64) : List Char := if x.isNaN then ['n', 'a', 'n'] else x.word

/-- The number of given bits; `nan` stands for the NaN with nothing but the quiet bit. -/
def ofWord? (s : List Char) : Option Binary64 :=
  if s = ['n', 'a', 'n'] then some ⟨0x7ff8000000000000⟩ else (wordOfHex? s).map ofBits

/-- The digits of a float are read back bit for bit. -/
theorem ofWord?_word (x : Binary64) : ofWord? x.word = some x := by
  have hd := @Digits.isDigit_padded 16 (by decide) (by decide) 16 x.bits.toNat
  have hv := @Digits.toNat_padded 16 (by decide) (by decide) 16 x.bits.toNat
  have hn := Digits.padded_ne_nil 16 16 x.bits.toNat
  change ofWord? (Digits.padded 16 16 x.bits.toNat) = some x
  generalize Digits.padded 16 16 x.bits.toNat = digits at hd hv hn
  have hh : digits.head? ≠ some '+' := fun h =>
    absurd (hd '+' (List.mem_of_head? h)) (by decide)
  have hm : digits ≠ ['n', 'a', 'n'] := by
    rintro rfl
    exact absurd (hd 'n' (by simp)) (by decide)
  have hall : digits.all (Digits.isDigit 16) = true := List.all_eq_true.2 hd
  have hempty : digits.isEmpty = false := by simp [hn]
  have hlt : decide (2 ^ 64 ≤ x.bits.toNat) = false :=
    decide_eq_false (Nat.not_le.2 x.bits.toNat_lt)
  have read : wordOfHex? digits = some x.bits := by
    simp only [wordOfHex?, hh, if_false, hempty, hall, hv, hlt]
    simp
  rw [ofWord?, if_neg hm, read]
  rfl

end Binary64

namespace Scalar

/-- The terse form; `number` writes the bits of a float. -/
def toTerse (number : Binary64 → List Char) : Scalar → Json
  | null => .null
  | bool b => .bool b
  | int n => .ofInt n.toInt
  | float x => .record [("f64", .ofText (number x))]
  | text s => .ofText s.toList

/-- The scalar of a terse form. -/
def ofTerse? : Json → Option Scalar
  | .null => some null
  | .bool b => some (bool b)
  | .string raw => (Json.unescape raw).map fun s => text (String.ofList s)
  | .object [(name, number)] =>
    if name = "f64".toList then (number.text?.bind Binary64.ofWord?).map float else none
  | j => j.int64?.map int

end Scalar
end ExtentEngine
