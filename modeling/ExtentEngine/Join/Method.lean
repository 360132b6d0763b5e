/-!
# Join methods

A join method says which rows a join emits: the pairs that match, and the rows of either
side without a partner, which are paired with nulls.
-/

namespace ExtentEngine

/-- What a join emits. -/
inductive JoinMethod
  /-- The pairs that match. -/
  | inner
  /-- Pairs, and left rows without a partner. -/
  | left
  /-- Pairs, and right rows without a partner. -/
  | right
  /-- Pairs, and rows of both sides without a partner. -/
  | full
  /-- Left rows without a partner. -/
  | antiLeft
  /-- Right rows without a partner. -/
  | antiRight
  /-- Rows of both sides without a partner. -/
  | antiInner
  /-- All pairs, whatever the keys and the residual say. -/
  | cross
deriving DecidableEq, Repr

namespace JoinMethod

def emitsMatches : JoinMethod → Bool
  | inner => true
  | left => true
  | right => true
  | full => true
  | cross => true
  | antiLeft => false
  | antiRight => false
  | antiInner => false

def emitsLeftUnmatched : JoinMethod → Bool
  | left => true
  | full => true
  | antiLeft => true
  | antiInner => true
  | inner => false
  | right => false
  | antiRight => false
  | cross => false

def emitsRightUnmatched : JoinMethod → Bool
  | right => true
  | full => true
  | antiRight => true
  | antiInner => true
  | inner => false
  | left => false
  | antiLeft => false
  | cross => false

def text : JoinMethod → String
  | inner => "INNER"
  | left => "LEFT"
  | right => "RIGHT"
  | full => "FULL"
  | antiLeft => "ANTI LEFT"
  | antiRight => "ANTI RIGHT"
  | antiInner => "ANTI INNER"
  | cross => "CROSS"

/-- Every method under its name. -/
def byName : List (String × JoinMethod) :=
  [("Inner", inner), ("Left", left), ("Right", right), ("Full", full),
    ("AntiLeft", antiLeft), ("AntiRight", antiRight), ("AntiInner", antiInner),
    ("Cross", cross)]

end JoinMethod

/-- How the matching pairs are found. -/
inductive JoinAlgorithm
  | nestedLoop
  | sortMerge
  | hashTable
deriving DecidableEq, Repr

namespace JoinAlgorithm

def text : JoinAlgorithm → String
  | nestedLoop => "nested_loop"
  | sortMerge => "sort_merge"
  | hashTable => "hash_table"

/-- The algorithm of a text. -/
def ofText? (text : String) : Option JoinAlgorithm :=
  [nestedLoop, sortMerge, hashTable].find? (·.text = text)

theorem ofText?_text (algorithm : JoinAlgorithm) : ofText? algorithm.text = some algorithm := by
  cases algorithm <;> rfl

end JoinAlgorithm
end ExtentEngine
