import ExtentEngine.Json.Basic

/-!
# Reading JSON

`Json.parse` accepts a text that is one JSON value with blanks around its tokens, and
nothing else: no comma at the end of a list, no leading zero, no control character inside a
string.  A string is checked for the shape of its escapes only.

Nested values are read with a fuel that a text of its length cannot use up.
-/

namespace ExtentEngine
namespace Json

/-- The blanks between tokens. -/
def isBlank (c : Char) : Bool := c = ' ' || c = '\t' || c = '\n' || c = '\r'

def skipBlanks (s : List Char) : List Char := s.dropWhile isBlank

/-- Splits off the leading decimal digits. -/
def takeDigits (s : List Char) : List Char × List Char := s.span (Digits.isDigit 10)

/-- The digits after a point, if there is one. -/
def takeFraction : List Char → Option (List Char × List Char)
  | '.' :: s =>
    let (digits, rest) := takeDigits s
    if digits.isEmpty then none else some (digits, rest)
  | s => some ([], s)

/-- The sign in front of the digits of an exponent. -/
def takeSign : List Char → ExponentSign × List Char
  | '+' :: s => (.plus, s)
  | '-' :: s => (.minus, s)
  | s => (.unmarked, s)

/-- The exponent, if there is one. -/
def takeExponent : List Char → Option (Option (ExponentSign × List Char) × List Char)
  | c :: s =>
    if c = 'e' ∨ c = 'E' then
      let (sign, s) := takeSign s
      let (digits, rest) := takeDigits s
      if digits.isEmpty then none else some (some (sign, digits), rest)
    else some (none, c :: s)
  | [] => some (none, [])

/-- A numeral behind its sign: the whole part has digits, and no zero leads others. -/
def takeUnsigned (negative : Bool) (s : List Char) : Option (Numeral × List Char) :=
  let (whole, s) := takeDigits s
  if whole.isEmpty || (whole.head? == some '0' && whole != ['0']) then none
  else
    match takeFraction s with
    | none => none
    | some (fraction, s) =>
      match takeExponent s with
      | none => none
      | some (exponent, s) => some (⟨negative, whole, fraction, exponent⟩, s)

def takeNumeral : List Char → Option (Numeral × List Char)
  | '-' :: s => takeUnsigned true s
  | s => takeUnsigned false s

/-- The characters up to the closing quote, and what follows it. -/
def takeString : List Char → Option (List Char × List Char)
  | [] => none
  | '"' :: rest => some ([], rest)
  | '\\' :: 'u' :: a :: b :: c :: d :: rest =>
    if (fourDigits? a b c d).isSome then
      (takeString rest).map fun (raw, rest) => ('\\' :: 'u' :: a :: b :: c :: d :: raw, rest)
    else none
  | '\\' :: c :: rest =>
    if (simpleEscape? c).isSome then
      (takeString rest).map fun (raw, rest) => ('\\' :: c :: raw, rest)
    else none
  | c :: rest =>
    if c.toNat < 32 || c = '\\' then none
    else (takeString rest).map fun (raw, rest) => (c :: raw, rest)

/-- A member's name with the colon behind it. -/
def takeName (s : List Char) : Option (List Char × List Char) :=
  match skipBlanks s with
  | '"' :: s =>
    match takeString s with
    | none => none
    | some (name, s) =>
      match skipBlanks s with
      | ':' :: s => some (name, s)
      | _ => none
  | _ => none

mutual

/-- One value, and the text behind it. -/
def takeValue : Nat → List Char → Option (Json × List Char)
  | 0, _ => none
  | fuel + 1, s =>
    match skipBlanks s with
    | 'n' :: 'u' :: 'l' :: 'l' :: rest => some (.null, rest)
    | 't' :: 'r' :: 'u' :: 'e' :: rest => some (.bool true, rest)
    | 'f' :: 'a' :: 'l' :: 's' :: 'e' :: rest => some (.bool false, rest)
    | '"' :: rest => (takeString rest).map fun (raw, rest) => (.string raw, rest)
    | '[' :: rest =>
      match skipBlanks rest with
      | ']' :: rest => some (.array [], rest)
      | rest => (takeItems fuel rest).map fun (items, rest) => (.array items, rest)
    | '\x7b' :: rest =>
      match skipBlanks rest with
      | '\x7d' :: rest => some (.object [], rest)
      | rest => (takeMembers fuel rest).map fun (members, rest) => (.object members, rest)
    | s => (takeNumeral s).map fun (numeral, rest) => (.number numeral, rest)

/-- The values of an array that is not empty, up to its end. -/
def takeItems : Nat → List Char → Option (List Json × List Char)
  | 0, _ => none
  | fuel + 1, s =>
    match takeValue fuel s with
    | none => none
    | some (item, rest) =>
      match skipBlanks rest with
      | ',' :: rest => (takeItems fuel rest).map fun (items, rest) => (item :: items, rest)
      | ']' :: rest => some ([item], rest)
      | _ => none

/-- The members of an object that is not empty, up to its end. -/
def takeMembers : Nat → List Char → Option (List (List Char × Json) × List Char)
  | 0, _ => none
  | fuel + 1, s =>
    match takeName s with
    | none => none
    | some (name, rest) =>
      match takeValue fuel rest with
      | none => none
      | some (value, rest) =>
        match skipBlanks rest with
        | ',' :: rest =>
          (takeMembers fuel rest).map fun (members, rest) => ((name, value) :: members, rest)
        | '\x7d' :: rest => some ([(name, value)], rest)
        | _ => none

end

/-- The value that a whole text stands for. -/
def parse (s : List Char) : Option Json :=
  match takeValue (2 * s.length + 2) s with
  | some (value, rest) => if (skipBlanks rest).isEmpty then some value else none
  | none => none

end Json
end ExtentEngine
