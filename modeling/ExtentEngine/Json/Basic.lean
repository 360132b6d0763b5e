import ExtentEngine.Decimal.Numeral

/-!
# JSON values

A JSON value keeps its lexemes: a number is the numeral that was written, and a string is
the characters between its quotes as they were written.  What a number or a string means is
decided where it is used, since a member that nobody asks for need not mean anything.

* `escape` and `unescape` lead from a text to the characters between quotes and back.
* `Json.text` writes a value without blanks.

**Results.**
* `unescape_escape`: an escaped text is read back.
-/

namespace ExtentEngine

/-- A JSON value with its lexemes. -/
inductive Json
  | null
  | bool (value : Bool)
  | number (numeral : Numeral)
  /-- The characters between the quotes, escapes included. -/
  | string (raw : List Char)
  | array (items : List Json)
  /-- Members in the order of the text; names are raw like strings. -/
  | object (members : List (List Char × Json))

namespace Json

/-- The written form of one character between quotes. -/
def escapeChar (c : Char) : List Char :=
  match c with
  | '"' => ['\\', '"']
  | '\\' => ['\\', '\\']
  | '\n' => ['\\', 'n']
  | '\r' => ['\\', 'r']
  | '\t' => ['\\', 't']
  | '\x08' => ['\\', 'b']
  | '\x0c' => ['\\', 'f']
  | c => if c.toNat < 32 then ['\\', 'u'] ++ Digits.padded 16 4 c.toNat else [c]

/-- The written form of a text between quotes. -/
def escape (text : List Char) : List Char := text.flatMap escapeChar

/-- The character that a letter behind a backslash stands for. -/
def simpleEscape? (c : Char) : Option Char :=
  match c with
  | '"' => some '"'
  | '\\' => some '\\'
  | '/' => some '/'
  | 'b' => some '\x08'
  | 'f' => some '\x0c'
  | 'n' => some '\n'
  | 'r' => some '\r'
  | 't' => some '\t'
  | _ => none

/-- The number of four hexadecimal digits. -/
def fourDigits? (a b c d : Char) : Option Nat :=
  if [a, b, c, d].all (Digits.isDigit 16) then some (Digits.toNat 16 [a, b, c, d]) else none

def isHighSurrogate (n : Nat) : Bool := 0xd800 ≤ n && n < 0xdc00

def isLowSurrogate (n : Nat) : Bool := 0xdc00 ≤ n && n < 0xe000

/-- The character of a pair of surrogates. -/
def ofSurrogates (high low : Nat) : Char :=
  Char.ofNat (0x10000 + (high - 0xd800) * 0x400 + (low - 0xdc00))

/-- Reads the characters between quotes; a surrogate without its partner is no character. -/
def unescape : List Char → Option (List Char)
  | [] => some []
  | '\\' :: 'u' :: a :: b :: c :: d :: rest =>
    match fourDigits? a b c d with
    | none => none
    | some n =>
      if isHighSurrogate n then
        match rest with
        | '\\' :: 'u' :: e :: f :: g :: h :: rest =>
          match fourDigits? e f g h with
          | none => none
          | some m =>
            if isLowSurrogate m then (unescape rest).map (ofSurrogates n m :: ·) else none
        | _ => none
      else if isLowSurrogate n then none
      else (unescape rest).map (Char.ofNat n :: ·)
  | '\\' :: c :: rest =>
    match simpleEscape? c with
    | none => none
    | some e => (unescape rest).map (e :: ·)
  | '\\' :: [] => none
  | c :: rest => (unescape rest).map (c :: ·)

theorem padded_of_control {n : Nat} (h : n < 32) :
    Digits.padded 16 4 n =
      ['0', '0', Digits.digitChar (n / 16), Digits.digitChar (n % 16)] := by
  by_cases small : n < 16
  · have hz : n / 16 = 0 := by omega
    have hm : n % 16 = n := by omega
    have hd : Digits.ofNat 16 n = [Digits.digitChar n] := by
      rw [Digits.ofNat]; simp [small]
    rw [Digits.padded, hd, hz, hm]
    rfl
  · have hq : n / 16 < 16 := by omega
    have hd : Digits.ofNat 16 n =
        [Digits.digitChar (n / 16), Digits.digitChar (n % 16)] := by
      rw [Digits.ofNat, Digits.ofNat]; simp [small, hq]
    rw [Digits.padded, hd]
    rfl

theorem fourDigits?_control {n : Nat} (h : n < 32) :
    fourDigits? '0' '0' (Digits.digitChar (n / 16)) (Digits.digitChar (n % 16)) = some n := by
  have all : ∀ k : Fin 32, fourDigits? '0' '0' (Digits.digitChar (k.val / 16))
      (Digits.digitChar (k.val % 16)) = some k.val := by decide
  exact all ⟨n, h⟩

/-- A written character is read back, whatever follows it. -/
theorem unescape_escapeChar_append (c : Char) (rest : List Char) :
    unescape (escapeChar c ++ rest) = (unescape rest).map (c :: ·) := by
  unfold escapeChar
  split
  case h_8 =>
    split
    · next h =>
        have high : isHighSurrogate c.toNat = false := by
          simp [isHighSurrogate]; omega
        have low : isLowSurrogate c.toNat = false := by
          simp [isLowSurrogate]; omega
        have back : Char.ofNat c.toNat = c := Char.ofNat_toNat c
        rw [padded_of_control h]
        simp [unescape, fourDigits?_control h, high, low, back]
    · rw [List.singleton_append, unescape] <;> simp_all
  all_goals simp [unescape, simpleEscape?]

/-- An escaped text is read back. -/
theorem unescape_escape (text : List Char) : unescape (escape text) = some text := by
  induction text with
  | nil => rfl
  | cons c text ih =>
      rw [escape, List.flatMap_cons, unescape_escapeChar_append]
      rw [escape] at ih
      rw [ih]
      rfl

/-- The JSON string of a text. -/
def ofText (text : List Char) : Json := .string (escape text)

/-- The JSON number of an integer. -/
def ofInt (n : Int) : Json := .number (Numeral.ofInt n)

/-- An object whose member names need no escapes. -/
def record (members : List (String × Json)) : Json :=
  .object (members.map fun m => (m.1.toList, m.2))

mutual

/-- The value without blanks. -/
def text : Json → List Char
  | .null => ['n', 'u', 'l', 'l']
  | .bool true => ['t', 'r', 'u', 'e']
  | .bool false => ['f', 'a', 'l', 's', 'e']
  | .number numeral => numeral.text
  | .string raw => '"' :: raw ++ ['"']
  | .array items => '[' :: itemsText items ++ [']']
  | .object members => '\x7b' :: membersText members ++ ['\x7d']

/-- Values between commas. -/
def itemsText : List Json → List Char
  | [] => []
  | [item] => item.text
  | item :: items => item.text ++ ',' :: itemsText items

/-- Named values between commas. -/
def membersText : List (List Char × Json) → List Char
  | [] => []
  | [(name, value)] => '"' :: name ++ '"' :: ':' :: value.text
  | (name, value) :: members =>
    '"' :: name ++ '"' :: ':' :: (value.text ++ ',' :: membersText members)

end

end Json
end ExtentEngine
