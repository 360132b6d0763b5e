import ExtentEngine.Scalar.Basic
import ExtentEngine.Text.Quoted

/-!
# Texts of scalars

`display` is the text for readers, with texts between single quotes as they are.
`describe` is the text for those who look into the engine: it names the type of each value
and quotes texts.
-/

namespace ExtentEngine

/-- The number format of descriptions: an exponent below `10 ^ -4` and from `10 ^ 16` on,
and a point in every other number. -/
def detailedNotation : FloatNotation := ⟨.up, some (-4, 15), true, false⟩

/-- The text of a truth value. -/
def truthText (b : Bool) : List Char := if b then "true".toList else "false".toList

/-- Texts with a separator between them. -/
def separated (separator : List Char) (texts : List (List Char)) : List Char :=
  (texts.intersperse separator).flatten

namespace Scalar

def display : Scalar → List Char
  | null => "NULL".toList
  | bool b => truthText b
  | int n => Digits.ofInt n.toInt
  | float x => plainNotation.text x
  | text s => '\'' :: s.toList ++ ['\'']

def describe : Scalar → List Char
  | null => "Null".toList
  | bool b => "Boolean(".toList ++ truthText b ++ [')']
  | int n => "Int64(".toList ++ Digits.ofInt n.toInt ++ [')']
  | float x => "Float64(".toList ++ detailedNotation.text x ++ [')']
  | text s => "Utf8(".toList ++ Text.quoted s ++ [')']

end Scalar
end ExtentEngine
