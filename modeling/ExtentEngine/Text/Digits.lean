/-!
# Digits of natural numbers

`Digits.ofNat` writes a number in a base from 2 to 16, most significant digit first and
without leading zeros; `Digits.toNat` reads digits back.

**Results.**
* `toNat_ofNat` and `toNat_padded`: the digits of a number read back to the number.
* `isDigit_ofNat`: only digits of the base are written.
* `ofNat_ne_nil`: at least one digit is written.
-/

namespace ExtentEngine
namespace Digits

/-- The digit of a value below 16; hexadecimal letters are small. -/
def digitChar (n : Nat) : Char :=
  if n < 10 then Char.ofNat (48 + n) else Char.ofNat (87 + n)

/-- The value of a digit; hexadecimal letters may be small or capital. -/
def value? (c : Char) : Option Nat :=
  if '0' ≤ c ∧ c ≤ '9' then some (c.toNat - 48)
  else if 'a' ≤ c ∧ c ≤ 'f' then some (c.toNat - 87)
  else if 'A' ≤ c ∧ c ≤ 'F' then some (c.toNat - 55)
  else none

/-- Whether the character is a digit of the base. -/
def isDigit (base : Nat) (c : Char) : Bool :=
  match value? c with
  | some v => v < base
  | none => false

/-- Digits of a number, most significant first. -/
def ofNat (base : Nat) (n : Nat) : List Char :=
  if base < 2 ∨ n < base then [digitChar n]
  else ofNat base (n / base) ++ [digitChar (n % base)]
termination_by n
decreasing_by exact Nat.div_lt_self (by omega) (by omega)

/-- The number that digits stand for. -/
def toNat (base : Nat) (digits : List Char) : Nat :=
  digits.foldl (fun n c => n * base + (value? c).getD 0) 0

/-- Digits of an integer, behind a minus sign if it is negative. -/
def ofInt (n : Int) : List Char :=
  if n < 0 then '-' :: ofNat 10 n.natAbs else ofNat 10 n.natAbs

/-- Digits padded with zeros on the left to a width. -/
def padded (base width n : Nat) : List Char :=
  let digits := ofNat base n
  List.replicate (width - digits.length) '0' ++ digits

theorem value?_digitChar {n : Nat} (h : n < 16) : value? (digitChar n) = some n := by
  have all : ∀ k : Fin 16, value? (digitChar k.val) = some k.val := by decide
  exact all ⟨n, h⟩

theorem isDigit_digitChar {base n : Nat} (hb : base ≤ 16) (h : n < base) :
    isDigit base (digitChar n) = true := by
  simp [isDigit, value?_digitChar (Nat.lt_of_lt_of_le h hb), h]

theorem toNat_append_singleton (base : Nat) (digits : List Char) (c : Char) :
    toNat base (digits ++ [c]) = toNat base digits * base + (value? c).getD 0 := by
  simp [toNat]

theorem ofNat_ne_nil (base n : Nat) : ofNat base n ≠ [] := by
  rw [ofNat]
  split <;> simp

/-- The digits of a number read back to the number. -/
theorem toNat_ofNat {base : Nat} (h2 : 2 ≤ base) (h16 : base ≤ 16) (n : Nat) :
    toNat base (ofNat base n) = n := by
  induction n using Nat.strongRecOn with
  | _ n ih =>
      rw [ofNat]
      split
      · next h =>
          have hn : n < base := by omega
          simp [toNat, value?_digitChar (Nat.lt_of_lt_of_le hn h16)]
      · next h =>
          have hn : n / base < n := Nat.div_lt_self (by omega) (by omega)
          have hr : n % base < base := Nat.mod_lt _ (by omega)
          rw [toNat_append_singleton, ih _ hn, value?_digitChar (by omega)]
          simp [Nat.mul_comm, Nat.div_add_mod]

/-- Only digits of the base are written. -/
theorem isDigit_ofNat {base : Nat} (h2 : 2 ≤ base) (h16 : base ≤ 16) (n : Nat) :
    ∀ c ∈ ofNat base n, isDigit base c = true := by
  induction n using Nat.strongRecOn with
  | _ n ih =>
      rw [ofNat]
      split
      · next h =>
          have hn : n < base := by omega
          simp [isDigit_digitChar h16 hn]
      · next h =>
          have hn : n / base < n := Nat.div_lt_self (by omega) (by omega)
          have hr : n % base < base := Nat.mod_lt _ (by omega)
          intro c hc
          rcases List.mem_append.1 hc with hc | hc
          · exact ih _ hn c hc
          · rw [List.mem_singleton.1 hc]
            exact isDigit_digitChar h16 hr

theorem toNat_replicate_append (base zeros : Nat) (digits : List Char) :
    toNat base (List.replicate zeros '0' ++ digits) = toNat base digits := by
  have hz : value? '0' = some 0 := by decide
  induction zeros with
  | zero => rfl
  | succ zeros ih => simpa [List.replicate_succ, toNat, hz] using ih

/-- Leading zeros change nothing. -/
theorem toNat_padded {base : Nat} (h2 : 2 ≤ base) (h16 : base ≤ 16) (width n : Nat) :
    toNat base (padded base width n) = n := by
  rw [padded, toNat_replicate_append, toNat_ofNat h2 h16]

theorem isDigit_padded {base : Nat} (h2 : 2 ≤ base) (h16 : base ≤ 16) (width n : Nat) :
    ∀ c ∈ padded base width n, isDigit base c = true := by
  intro c hc
  rcases List.mem_append.1 hc with hc | hc
  · rw [List.eq_of_mem_replicate hc]
    exact isDigit_digitChar h16 (n := 0) (by omega)
  · exact isDigit_ofNat h2 h16 n c hc

theorem padded_ne_nil (base width n : Nat) : padded base width n ≠ [] := by
  simp [padded, ofNat_ne_nil]

end Digits
end ExtentEngine
