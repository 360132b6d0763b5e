import ExtentEngine.Join.Spec

/-!
# Matching by keys

**Results.**
* `eq_false_of_ne`, `eq_false_of_left_null` and `eq_false_of_right_null`: rows whose keys are
  different or null do not match.
* `eq_false_of_keysMatch`: so the matches are among the pairs whose keys match.
-/

namespace ExtentEngine

variable {hold : Record → Record → Bool} {spec : JoinSpec}

namespace JoinSpec

/-- Whether the keys of two rows are equal and not null. -/
def keysMatch (spec : JoinSpec) (left right : Record) : Bool :=
  !left.hasNullKey spec.leftKey && left.keyValues spec.leftKey = right.keyValues spec.rightKey

theorem keysMatch_iff {left right : Record} :
    spec.keysMatch left right = true ↔ left.hasNullKey spec.leftKey = false ∧
      left.keyValues spec.leftKey = right.keyValues spec.rightKey := by
  rw [keysMatch, Bool.and_eq_true, Bool.not_eq_true', decide_eq_true_iff]

/-- The join by the keys alone. -/
def keysOnly (spec : JoinSpec) : JoinSpec := { spec with residual := .always }

end JoinSpec

/-- The pairs that match are among those with equal keys that are not null, and among these
the residual decides. -/
structure JoinSpec.Keyed (spec : JoinSpec) (hold : Record → Record → Bool)
    (lefts rights : List Record) : Prop where
  equal : ∀ left right, hold left right = true →
    left.keyValues spec.leftKey = right.keyValues spec.rightKey
  notNull : ∀ left right, hold left right = true → left.hasNullKey spec.leftKey = false
  residual : ∀ left ∈ lefts, ∀ right ∈ rights,
    left.keyValues spec.leftKey = right.keyValues spec.rightKey →
    left.hasNullKey spec.leftKey = false →
    spec.residual.holds (.ofPair left right) = .ok (hold left right)

theorem JoinSpec.Keyed.mono {lefts rights lefts' rights' : List Record}
    (h : spec.Keyed hold lefts rights) (hlefts : lefts' ⊆ lefts) (hrights : rights' ⊆ rights) :
    spec.Keyed hold lefts' rights' where
  equal := h.equal
  notNull := h.notNull
  residual left hleft right hright := h.residual left (hlefts hleft) right (hrights hright)

/-- By the keys alone a pair matches if its keys do. -/
theorem JoinSpec.keyed_keysOnly (spec : JoinSpec) (lefts rights : List Record) :
    spec.keysOnly.Keyed spec.keysMatch lefts rights where
  equal _ _ h := (keysMatch_iff.1 h).2
  notNull _ _ h := (keysMatch_iff.1 h).1
  residual left _ right _ hkey hnull := by
    have hmatch : spec.keysMatch left right = true := keysMatch_iff.2 ⟨hnull, hkey⟩
    rw [hmatch]
    rfl

namespace JoinSpec.Keyed

variable {lefts rights : List Record} {left right : Record}

theorem eq_false_of_ne (h : spec.Keyed hold lefts rights)
    (hne : left.keyValues spec.leftKey ≠ right.keyValues spec.rightKey) :
    hold left right = false :=
  Bool.eq_false_iff.2 fun hhold => hne (h.equal left right hhold)

theorem eq_false_of_left_null (h : spec.Keyed hold lefts rights)
    (hnull : left.hasNullKey spec.leftKey = true) : hold left right = false := by
  refine Bool.eq_false_iff.2 fun hhold => ?_
  rw [h.notNull left right hhold] at hnull
  exact Bool.false_ne_true hnull

theorem eq_false_of_right_null (h : spec.Keyed hold lefts rights)
    (hnull : right.hasNullKey spec.rightKey = true) : hold left right = false := by
  refine Bool.eq_false_iff.2 fun hhold => ?_
  rw [← Record.hasNullKey_congr (h.equal left right hhold), h.notNull left right hhold] at hnull
  exact Bool.false_ne_true hnull

theorem eq_false_of_keysMatch (h : spec.Keyed hold lefts rights)
    (hmatch : spec.keysMatch left right = false) : hold left right = false := by
  refine Bool.eq_false_iff.2 fun hhold => ?_
  rw [keysMatch_iff.2 ⟨h.notNull left right hhold, h.equal left right hhold⟩] at hmatch
  exact Bool.false_ne_true hmatch.symm

end JoinSpec.Keyed
end ExtentEngine
