import ExtentEngine.Join.Spec
import Mathlib.Data.List.Perm.Basic

/-!
# What a join asks for

A join asks for the pairs of rows that match and for the rows of either side without a
partner, each as the pair of rows that an output record is projected from.

**Results.**
* `declared_append`: inputs that fall into two parts are joined part by part.
* `declared_perm`: the order of the inputs is of no account.
-/

namespace ExtentEngine

variable (hold : Record → Record → Bool)

/-- The pairs that match. -/
def matchedPairs (lefts rights : List Record) : List (Record × Record) :=
  lefts.flatMap fun left => (rights.filter (hold left)).map (left, ·)

/-- The left rows without a partner. -/
def lonelyLefts (lefts rights : List Record) : List Record :=
  lefts.filter fun left => !rights.any (hold left)

/-- The right rows without a partner. -/
def lonelyRights (lefts rights : List Record) : List Record :=
  rights.filter fun right => !lefts.any (hold · right)

namespace JoinOutput

variable (out : JoinOutput)

/-- The pairs that match, if the join emits them. -/
def declaredMatches (lefts rights : List Record) : List (Record × Record) :=
  if out.method.emitsMatches then matchedPairs hold lefts rights else []

/-- The left rows without a partner, if the join emits them, each with nulls beside it. -/
def declaredLefts (lefts rights : List Record) : List (Record × Record) :=
  if out.method.emitsLeftUnmatched then (lonelyLefts hold lefts rights).map (·, out.rightNulls)
  else []

/-- The right rows without a partner, if the join emits them, each with nulls beside it. -/
def declaredRights (lefts rights : List Record) : List (Record × Record) :=
  if out.method.emitsRightUnmatched then (lonelyRights hold lefts rights).map (out.leftNulls, ·)
  else []

/-- The pairs of rows whose projections a join emits. -/
def declared (lefts rights : List Record) : List (Record × Record) :=
  out.declaredMatches hold lefts rights ++ out.declaredLefts hold lefts rights ++
    out.declaredRights hold lefts rights

end JoinOutput

variable {hold} {lefts rights lefts' rights' : List Record}

theorem filter_eq_nil_of_apart {left : Record} (h : ∀ right ∈ rights, hold left right = false) :
    rights.filter (hold left) = [] :=
  List.filter_eq_nil_iff.2 fun right hright => by simp [h right hright]

theorem any_eq_false_of_apart {left : Record} (h : ∀ right ∈ rights, hold left right = false) :
    rights.any (hold left) = false :=
  List.any_eq_false.2 fun right hright => by simp [h right hright]

theorem JoinOutput.declaredMatches_append_left (out : JoinOutput)
    (lefts lefts' rights : List Record) :
    out.declaredMatches hold (lefts ++ lefts') rights =
      out.declaredMatches hold lefts rights ++ out.declaredMatches hold lefts' rights := by
  simp only [declaredMatches, matchedPairs, List.flatMap_append]
  split <;> rfl

theorem JoinOutput.declaredLefts_append_left (out : JoinOutput)
    (lefts lefts' rights : List Record) :
    out.declaredLefts hold (lefts ++ lefts') rights =
      out.declaredLefts hold lefts rights ++ out.declaredLefts hold lefts' rights := by
  simp only [declaredLefts, lonelyLefts, List.filter_append, List.map_append]
  split <;> rfl

section Append

variable (hapart : ∀ left ∈ lefts, ∀ right ∈ rights', hold left right = false)
  (hapart' : ∀ left ∈ lefts', ∀ right ∈ rights, hold left right = false)

include hapart hapart'

theorem matchedPairs_append :
    matchedPairs hold (lefts ++ lefts') (rights ++ rights') =
      matchedPairs hold lefts rights ++ matchedPairs hold lefts' rights' := by
  rw [matchedPairs, List.flatMap_append]
  congr 1
  · refine List.flatMap_congr fun left hleft => ?_
    rw [List.filter_append, filter_eq_nil_of_apart (hapart left hleft), List.append_nil]
  · refine List.flatMap_congr fun left hleft => ?_
    rw [List.filter_append, filter_eq_nil_of_apart (hapart' left hleft), List.nil_append]

theorem lonelyLefts_append :
    lonelyLefts hold (lefts ++ lefts') (rights ++ rights') =
      lonelyLefts hold lefts rights ++ lonelyLefts hold lefts' rights' := by
  rw [lonelyLefts, List.filter_append]
  congr 1
  · refine List.filter_congr fun left hleft => ?_
    rw [List.any_append, any_eq_false_of_apart (hapart left hleft), Bool.or_false]
  · refine List.filter_congr fun left hleft => ?_
    rw [List.any_append, any_eq_false_of_apart (hapart' left hleft), Bool.false_or]

theorem lonelyRights_append :
    lonelyRights hold (lefts ++ lefts') (rights ++ rights') =
      lonelyRights hold lefts rights ++ lonelyRights hold lefts' rights' :=
  @lonelyLefts_append (fun right left => hold left right) rights lefts rights' lefts'
    (fun right hright left hleft => hapart' left hleft right hright)
    (fun right hright left hleft => hapart left hleft right hright)

theorem JoinOutput.declaredMatches_append (out : JoinOutput) :
    out.declaredMatches hold (lefts ++ lefts') (rights ++ rights') =
      out.declaredMatches hold lefts rights ++ out.declaredMatches hold lefts' rights' := by
  rw [declaredMatches, declaredMatches, declaredMatches, matchedPairs_append hapart hapart']
  split <;> rfl

/-- Inputs that fall into two parts are joined part by part. -/
theorem JoinOutput.declared_append (out : JoinOutput) :
    (out.declared hold (lefts ++ lefts') (rights ++ rights')).Perm
      (out.declared hold lefts rights ++ out.declared hold lefts' rights') := by
  have hmatches := declaredMatches_append hapart hapart' out
  have hlefts : out.declaredLefts hold (lefts ++ lefts') (rights ++ rights') =
      out.declaredLefts hold lefts rights ++ out.declaredLefts hold lefts' rights' := by
    rw [declaredLefts, declaredLefts, declaredLefts, lonelyLefts_append hapart hapart',
      List.map_append]
    split <;> rfl
  have hrights : out.declaredRights hold (lefts ++ lefts') (rights ++ rights') =
      out.declaredRights hold lefts rights ++ out.declaredRights hold lefts' rights' := by
    rw [declaredRights, declaredRights, declaredRights, lonelyRights_append hapart hapart',
      List.map_append]
    split <;> rfl
  refine List.perm_iff_count.2 fun pair => ?_
  simp only [declared, hmatches, hlefts, hrights, List.count_append]
  omega

end Append

section Perm

variable (hlefts : lefts.Perm lefts') (hrights : rights.Perm rights')

include hlefts hrights

theorem matchedPairs_perm :
    (matchedPairs hold lefts rights).Perm (matchedPairs hold lefts' rights') := by
  refine (hlefts.flatMap_right _).trans (List.Perm.flatMap_left _ fun left _ => ?_)
  exact (hrights.filter _).map _

theorem lonelyLefts_perm :
    (lonelyLefts hold lefts rights).Perm (lonelyLefts hold lefts' rights') := by
  have hany : (fun left => !rights.any (hold left)) = fun left => !rights'.any (hold left) :=
    funext fun left => congrArg _ hrights.any_eq
  rw [lonelyLefts, lonelyLefts, hany]
  exact hlefts.filter _

/-- The order of the inputs is of no account. -/
theorem JoinOutput.declared_perm (out : JoinOutput) :
    (out.declared hold lefts rights).Perm (out.declared hold lefts' rights') := by
  have hright : (lonelyRights hold lefts rights).Perm (lonelyRights hold lefts' rights') :=
    lonelyLefts_perm hrights hlefts
  refine List.Perm.append (List.Perm.append ?_ ?_) ?_
  · rw [declaredMatches, declaredMatches]
    split
    · exact matchedPairs_perm hlefts hrights
    · exact .nil
  · rw [declaredLefts, declaredLefts]
    split
    · exact (lonelyLefts_perm hlefts hrights).map _
    · exact .nil
  · rw [declaredRights, declaredRights]
    split
    · exact hright.map _
    · exact .nil

end Perm

section Members

variable {out : JoinOutput} {pair : Record × Record}

theorem mem_of_mem_declaredMatches (h : pair ∈ out.declaredMatches hold lefts rights) :
    pair.1 ∈ lefts ∧ pair.2 ∈ rights := by
  rw [JoinOutput.declaredMatches] at h
  split at h
  · obtain ⟨left, hleft, hpair⟩ := List.mem_flatMap.1 h
    obtain ⟨right, hright, rfl⟩ := List.mem_map.1 hpair
    exact ⟨hleft, (List.mem_filter.1 hright).1⟩
  · cases h

theorem mem_declaredMatches {left right : Record} (hemits : out.method.emitsMatches = true)
    (hleft : left ∈ lefts) (hright : right ∈ rights) (hhold : hold left right = true) :
    (left, right) ∈ out.declaredMatches hold lefts rights := by
  rw [JoinOutput.declaredMatches, if_pos hemits]
  exact List.mem_flatMap.2
    ⟨left, hleft, List.mem_map_of_mem (List.mem_filter.2 ⟨hright, hhold⟩)⟩

theorem declaredMatches_subset (hlefts : lefts' ⊆ lefts) (hrights : rights' ⊆ rights) :
    out.declaredMatches hold lefts' rights' ⊆ out.declaredMatches hold lefts rights := by
  intro pair hpair
  rw [JoinOutput.declaredMatches] at hpair
  split at hpair
  · next hemits =>
      obtain ⟨left, hleft, hpair⟩ := List.mem_flatMap.1 hpair
      obtain ⟨right, hright, rfl⟩ := List.mem_map.1 hpair
      obtain ⟨hright, hhold⟩ := List.mem_filter.1 hright
      exact mem_declaredMatches hemits (hlefts hleft) (hrights hright) hhold
  · cases hpair

theorem mem_of_mem_declaredLefts (h : pair ∈ out.declaredLefts hold lefts rights) :
    ∃ left ∈ lefts, (left, out.rightNulls) = pair := by
  rw [JoinOutput.declaredLefts] at h
  split at h
  · obtain ⟨left, hleft, hpair⟩ := List.mem_map.1 h
    exact ⟨left, (List.mem_filter.1 hleft).1, hpair⟩
  · cases h

theorem mem_of_mem_declaredRights (h : pair ∈ out.declaredRights hold lefts rights) :
    ∃ right ∈ rights, (out.leftNulls, right) = pair := by
  rw [JoinOutput.declaredRights] at h
  split at h
  · obtain ⟨right, hright, hpair⟩ := List.mem_map.1 h
    exact ⟨right, (List.mem_filter.1 hright).1, hpair⟩
  · cases h

end Members
end ExtentEngine
