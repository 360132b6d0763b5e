import ExtentEngine.Dataset.Basic
import ExtentEngine.Proofs.Join.Declared

/-!
# The order in which a join emits

What a join asks for, as a sequence: first the pairs that match, in the order of loops over the
left extents, the right extents, the left rows and the right rows, and then the rows without a
partner, in the order of their inputs.  A nested loop emits the left rows of an extent that have no
partner before it goes on to the next one, which makes a difference only if the join emits matches
and left rows without a partner.

**Results.**
* `sequence_perm`: the sequence consists of the pairs that the join asks for.
* `loopSequence_perm`: so does the sequence of a nested loop.
* `loopSequence_eq`: the sequence of a nested loop is that sequence, unless the join emits both
  matches and left rows without a partner.
* `filter_loopSequence`: the matches in the sequence of a nested loop.
-/

namespace ExtentEngine

variable (hold : Record → Record → Bool)

/-- The pairs that match, in the order of loops over the extents and their rows. -/
def loopMatches (lefts rights : List Extent) : List (Record × Record) :=
  lefts.flatMap fun left => rights.flatMap fun right => matchedPairs hold left right

namespace JoinOutput

variable (out : JoinOutput)

/-- The pairs that a join asks for as a sequence. -/
def sequence (lefts rights : List Extent) : List (Record × Record) :=
  (if out.method.emitsMatches then loopMatches hold lefts rights else []) ++
    out.declaredLefts hold lefts.flatten rights.flatten ++
    out.declaredRights hold lefts.flatten rights.flatten

/-- What a nested loop comes by at a left extent. -/
def leftSequence (rights : List Extent) (left : Extent) : List (Record × Record) :=
  (if out.method.emitsMatches then loopMatches hold [left] rights else []) ++
    out.declaredLefts hold left rights.flatten

/-- The pairs that a join asks for, in the order in which a nested loop comes by them. -/
def loopSequence (lefts rights : List Extent) : List (Record × Record) :=
  lefts.flatMap (out.leftSequence hold rights) ++
    out.declaredRights hold lefts.flatten rights.flatten

end JoinOutput

variable {hold} {lefts rights : List Extent}

theorem matchedPairs_flatten_perm (left : List Record) (rights : List Extent) :
    (rights.flatMap fun right => matchedPairs hold left right).Perm
      (matchedPairs hold left rights.flatten) := by
  induction rights with
  | nil => simp [matchedPairs]
  | cons right rights ih =>
      have happend : matchedPairs hold left (right ++ rights.flatten) =
          left.flatMap fun l => ((right.filter (hold l)).map (l, ·)) ++
            (rights.flatten.filter (hold l)).map (l, ·) :=
        List.flatMap_congr fun l _ => by rw [List.filter_append, List.map_append]
      rw [List.flatMap_cons, List.flatten_cons, happend]
      exact (ih.append_left _).trans (List.flatMap_append_perm left _ _)

theorem loopMatches_perm (lefts rights : List Extent) :
    (loopMatches hold lefts rights).Perm (matchedPairs hold lefts.flatten rights.flatten) := by
  have hlefts : matchedPairs hold lefts.flatten rights.flatten =
      lefts.flatMap fun left => matchedPairs hold left rights.flatten := by
    rw [← List.flatMap_id, matchedPairs, List.flatMap_assoc]
    rfl
  rw [hlefts]
  exact List.Perm.flatMap_left _ fun left _ => matchedPairs_flatten_perm left rights

theorem loopMatches_singleton (left : Extent) (rights : List Extent) :
    loopMatches hold [left] rights = rights.flatMap fun right => matchedPairs hold left right :=
  List.flatMap_singleton _ _

namespace JoinOutput

variable (out : JoinOutput)

/-- The sequence consists of the pairs that the join asks for. -/
theorem sequence_perm (lefts rights : List Extent) :
    (out.sequence hold lefts rights).Perm (out.declared hold lefts.flatten rights.flatten) := by
  refine List.Perm.append_right _ (List.Perm.append_right _ ?_)
  rw [declaredMatches]
  split
  · exact loopMatches_perm lefts rights
  · exact .nil

theorem declaredLefts_flatten (lefts : List Extent) (rights : List Record) :
    out.declaredLefts hold lefts.flatten rights =
      lefts.flatMap fun left => out.declaredLefts hold left rights := by
  induction lefts with
  | nil =>
      rw [declaredLefts]
      split <;> rfl
  | cons left lefts ih =>
      rw [List.flatten_cons, declaredLefts_append_left, ih, List.flatMap_cons]

theorem leftSequence_perm (rights : List Extent) (left : Extent) :
    (out.leftSequence hold rights left).Perm
      (out.declaredMatches hold left rights.flatten ++
        out.declaredLefts hold left rights.flatten) := by
  refine List.Perm.append_right _ ?_
  rw [declaredMatches]
  split
  · rw [loopMatches_singleton]
    exact matchedPairs_flatten_perm left rights
  · exact .nil

/-- A nested loop comes by the pairs that the join asks for. -/
theorem loopSequence_perm (lefts rights : List Extent) :
    (out.loopSequence hold lefts rights).Perm
      (out.declared hold lefts.flatten rights.flatten) := by
  refine List.Perm.append_right _ ?_
  have hmatches : out.declaredMatches hold lefts.flatten rights.flatten =
      lefts.flatMap fun left => out.declaredMatches hold left rights.flatten := by
    induction lefts with
    | nil =>
        rw [declaredMatches]
        split <;> rfl
    | cons left lefts ih =>
        rw [List.flatten_cons, declaredMatches_append_left, ih, List.flatMap_cons]
  rw [hmatches, declaredLefts_flatten]
  exact (List.Perm.flatMap_left _ fun left _ => out.leftSequence_perm rights left).trans
    (List.flatMap_append_perm lefts _ _).symm

/-- A nested loop comes by the pairs in the sequence, unless the join emits both matches and left
rows without a partner. -/
theorem loopSequence_eq (h : out.method.emitsMatches = true → out.method.emitsLeftUnmatched = false)
    (lefts rights : List Extent) :
    out.loopSequence hold lefts rights = out.sequence hold lefts rights := by
  rw [loopSequence, sequence]
  congr 1
  cases hmatches : out.method.emitsMatches with
  | true =>
      have hnone : ∀ lefts, out.declaredLefts hold lefts rights.flatten = [] := fun lefts => by
        rw [declaredLefts, h hmatches]
        rfl
      have hextent : ∀ left ∈ lefts, out.leftSequence hold rights left =
          rights.flatMap fun right => matchedPairs hold left right := fun left _ => by
        rw [leftSequence, if_pos hmatches, hnone, List.append_nil, loopMatches_singleton]
      rw [List.flatMap_congr hextent, hnone, List.append_nil, if_pos rfl, loopMatches]
  | false =>
      have hextent : ∀ left ∈ lefts, out.leftSequence hold rights left =
          out.declaredLefts hold left rights.flatten := fun left _ => by
        rw [leftSequence, hmatches]
        rfl
      rw [List.flatMap_congr hextent, declaredLefts_flatten]
      rfl

section Matches

variable {out} (hleft : ∀ left, hold left out.rightNulls = false)
  (hright : ∀ right, hold out.leftNulls right = false)

theorem filter_loopMatches (lefts rights : List Extent) :
    (loopMatches hold lefts rights).filter (fun pair => hold pair.1 pair.2) =
      loopMatches hold lefts rights := by
  refine List.filter_eq_self.2 fun pair hpair => ?_
  obtain ⟨left, -, hpair⟩ := List.mem_flatMap.1 hpair
  obtain ⟨right, -, hpair⟩ := List.mem_flatMap.1 hpair
  obtain ⟨l, -, hpair⟩ := List.mem_flatMap.1 hpair
  obtain ⟨r, hr, rfl⟩ := List.mem_map.1 hpair
  exact (List.mem_filter.1 hr).2

include hleft in
theorem filter_declaredLefts (lefts rights : List Record) :
    (out.declaredLefts hold lefts rights).filter (fun pair => hold pair.1 pair.2) = [] := by
  refine List.filter_eq_nil_iff.2 fun pair hpair => ?_
  obtain ⟨left, -, rfl⟩ := mem_of_mem_declaredLefts hpair
  rw [hleft left]
  exact Bool.false_ne_true

include hright in
theorem filter_declaredRights (lefts rights : List Record) :
    (out.declaredRights hold lefts rights).filter (fun pair => hold pair.1 pair.2) = [] := by
  refine List.filter_eq_nil_iff.2 fun pair hpair => ?_
  obtain ⟨right, -, rfl⟩ := mem_of_mem_declaredRights hpair
  rw [hright right]
  exact Bool.false_ne_true

include hleft hright in
/-- The matches in the sequence of a nested loop, if rows of nulls do not match. -/
theorem filter_loopSequence (lefts rights : List Extent) :
    (out.loopSequence hold lefts rights).filter (fun pair => hold pair.1 pair.2) =
      if out.method.emitsMatches then loopMatches hold lefts rights else [] := by
  have hextent : ∀ left, (out.leftSequence hold rights left).filter
      (fun pair => hold pair.1 pair.2) =
        if out.method.emitsMatches then loopMatches hold [left] rights else [] := by
    intro left
    rw [leftSequence, List.filter_append, filter_declaredLefts hleft, List.append_nil]
    split
    · exact filter_loopMatches [left] rights
    · rfl
  rw [loopSequence, List.filter_append, filter_declaredRights hright, List.append_nil,
    List.filter_flatMap, List.flatMap_congr fun left _ => hextent left]
  split
  · rw [loopMatches]
    exact List.flatMap_congr fun left _ => loopMatches_singleton left rights
  · exact List.flatMap_eq_nil_iff.2 fun _ _ => rfl

end Matches

end JoinOutput
end ExtentEngine
