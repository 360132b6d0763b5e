import ExtentEngine.Record.Basic

/-!
# Expressions

An expression computes a scalar from the rows of a binding.  `Expr.display` writes it for a
reader; members of a connective and operands of arithmetic stand in parentheses.
-/

namespace ExtentEngine

/-- An expression over the columns of two rows. -/
inductive Expr
  | column (ref : ColumnRef)
  | literal (value : Scalar)
  | compare (op : Comparison) (left right : Expr)
  | connect (op : Connective) (members : List Expr)
  | arithmetic (op : Arithmetic) (left right : Expr)
  | not (operand : Expr)
  | isNull (operand : Expr)
deriving Repr, Inhabited

namespace Expr

/-- A column of the left row. -/
def leftColumn (index : Nat) : Expr := .column ⟨.left, index⟩

/-- A column of the right row. -/
def rightColumn (index : Nat) : Expr := .column ⟨.right, index⟩

/-- The literal that is true. -/
def alwaysTrue : Expr := .literal (.bool true)

mutual

/-- Whether two expressions are the same tree. -/
def same : Expr → Expr → Bool
  | column a, column b => a = b
  | literal a, literal b => a = b
  | compare o a b, compare p c d => o = p && same a c && same b d
  | connect o as, connect p bs => o = p && sameAll as bs
  | arithmetic o a b, arithmetic p c d => o = p && same a c && same b d
  | not a, not b => same a b
  | isNull a, isNull b => same a b
  | _, _ => false

/-- Whether two lists hold the same trees. -/
def sameAll : List Expr → List Expr → Bool
  | [], [] => true
  | a :: as, b :: bs => same a b && sameAll as bs
  | _, _ => false

end

mutual

theorem same_iff : ∀ {a b : Expr}, same a b = true ↔ a = b
  | column _, b => by cases b <;> simp [same]
  | literal _, b => by cases b <;> simp [same]
  | compare _ l r, b => by
      cases b <;> simp [same, and_assoc]
      next l' r' =>
        rw [@same_iff l l', @same_iff r r']
        exact fun _ => Iff.rfl
  | connect _ ms, b => by
      cases b <;> simp [same]
      next ms' => rw [@sameAll_iff ms ms']; simp
  | arithmetic _ l r, b => by
      cases b <;> simp [same, and_assoc]
      next l' r' =>
        rw [@same_iff l l', @same_iff r r']
        exact fun _ => Iff.rfl
  | not e, b => by
      cases b <;> simp [same]
      next e' => exact @same_iff e e'
  | isNull e, b => by
      cases b <;> simp [same]
      next e' => exact @same_iff e e'

theorem sameAll_iff : ∀ {as bs : List Expr}, sameAll as bs = true ↔ as = bs
  | [], bs => by cases bs <;> simp [sameAll]
  | a :: as, bs => by
      cases bs <;> simp [sameAll]
      next b bs' => rw [@same_iff a b, @sameAll_iff as bs']

end

instance : DecidableEq Expr := fun _ _ => decidable_of_iff _ same_iff

mutual

def display : Expr → List Char
  | column ref => ref.text
  | literal value => value.display
  | compare op left right =>
    display left ++ ' ' :: op.symbol.toList ++ ' ' :: display right
  | connect op members => '(' :: displayMembers op members ++ [')']
  | arithmetic op left right =>
    '(' :: display left ++ ' ' :: op.symbol.toList ++ ' ' :: display right ++ [')']
  | not operand => "NOT ".toList ++ display operand
  | isNull operand => display operand ++ " IS NULL".toList

/-- Members with the connective between them. -/
def displayMembers (op : Connective) : List Expr → List Char
  | [] => []
  | [member] => display member
  | member :: members =>
    display member ++ ' ' :: op.symbol.toList ++ ' ' :: displayMembers op members

end

end Expr
end ExtentEngine
