import ExtentEngine.Proofs.Join.NestedLoop
import ExtentEngine.Proofs.Join.Parts

/-!
# The sort-merge join is right

The parts of sorted inputs are joined one after the other, each as by a nested loop over its left
rows.  No row matches one of another part, so what is asked for of the whole inputs is asked for of
their parts.

**Results.**
* `JoinPart.emit_eq`: what a part comes to.
* `JoinOutput.mergeSequence_perm`: the parts ask for what the whole inputs ask for.
* `JoinOutput.filter_mergeSequence`: the matches come in the order of the inputs.
* `run_eq`: what the sort-merge join of sorted inputs emits, and in which order.
* `emitsJoin_run`: the sort-merge join of sorted inputs emits the join.
-/

namespace ExtentEngine

variable {hold : Record → Record → Bool} {row : Record × Record → Record} {out : JoinOutput}
  {spec : JoinSpec}

theorem loopMatches_singletons (lefts rights : List Record) :
    loopMatches hold (lefts.map fun left => [left]) [rights] = matchedPairs hold lefts rights := by
  rw [loopMatches, List.flatMap_map]
  refine List.flatMap_congr fun left _ => ?_
  rw [List.flatMap_singleton, matchedPairs, List.flatMap_singleton]

namespace JoinOutput

/-- The pairs that a part of two inputs asks for, left row by left row. -/
def partSequence (out : JoinOutput) (hold : Record → Record → Bool) (part : JoinPart) :
    List (Record × Record) :=
  out.loopSequence hold (part.lefts.map fun left => [left]) [part.rights]

/-- The pairs that a join asks for, in the order in which a sort-merge join comes by them. -/
def mergeSequence (out : JoinOutput) (hold : Record → Record → Bool) (spec : JoinSpec)
    (lefts rights : List Record) : List (Record × Record) :=
  (SortMerge.parts spec lefts rights).flatMap (out.partSequence hold)

theorem partSequence_perm (out : JoinOutput) (part : JoinPart) :
    (out.partSequence hold part).Perm (out.declared hold part.lefts part.rights) := by
  have hperm := @out.loopSequence_perm hold (part.lefts.map fun left => [left]) [part.rights]
  rwa [flatten_singletons, List.flatten_singleton] at hperm

theorem filter_partSequence (hleft : ∀ left, hold left out.rightNulls = false)
    (hright : ∀ right, hold out.leftNulls right = false) (part : JoinPart) :
    (out.partSequence hold part).filter (fun pair => hold pair.1 pair.2) =
      out.declaredMatches hold part.lefts part.rights := by
  rw [partSequence, filter_loopSequence hleft hright, loopMatches_singletons, declaredMatches]

section Apart

variable {parts : List JoinPart} (hkeyed : spec.Keyed hold [] [])
  (hapart : parts.Pairwise (JoinPart.Apart spec))

include hkeyed hapart

/-- Parts that are apart ask for what they ask for together. -/
theorem declared_parts (out : JoinOutput) :
    (out.declared hold (parts.flatMap JoinPart.lefts)
        (parts.flatMap JoinPart.rights)).Perm
        (parts.flatMap fun part => out.declared hold part.lefts part.rights) ∧
      out.declaredMatches hold (parts.flatMap JoinPart.lefts)
          (parts.flatMap JoinPart.rights) =
        parts.flatMap fun part => out.declaredMatches hold part.lefts part.rights := by
  induction parts with
  | nil =>
      simp only [List.flatMap_nil, declared, declaredMatches, declaredLefts, declaredRights]
      constructor
      · split <;> split <;> split <;> exact .nil
      · split <;> rfl
  | cons part parts ih =>
      obtain ⟨hfirst, hrest⟩ := List.pairwise_cons.1 hapart
      obtain ⟨hdeclared, hmatches⟩ := ih hrest
      obtain ⟨hleft, hright⟩ := JoinPart.Apart.flatMap hfirst
      have hleft : ∀ l ∈ part.lefts, ∀ r ∈ parts.flatMap JoinPart.rights, hold l r = false :=
        fun l hl r hr => hkeyed.eq_false_of_keysMatch (hleft l hl r hr)
      have hright : ∀ l ∈ parts.flatMap JoinPart.lefts, ∀ r ∈ part.rights, hold l r = false :=
        fun l hl r hr => hkeyed.eq_false_of_keysMatch (hright l hl r hr)
      simp only [List.flatMap_cons]
      constructor
      · exact (declared_append hleft hright out).trans (hdeclared.append_left _)
      · rw [declaredMatches_append hleft hright out, hmatches]

end Apart

section Sorted

variable {lefts rights : List Record} (hkeyed : spec.Keyed hold lefts rights)
  (hlefts : lefts.Pairwise fun a b => Record.leOn spec.leftKey a b = true)
  (hrights : rights.Pairwise fun a b => Record.leOn spec.rightKey a b = true)

include hkeyed hlefts hrights

/-- The parts of sorted inputs ask for what the inputs ask for. -/
theorem mergeSequence_perm (out : JoinOutput) :
    (out.mergeSequence hold spec lefts rights).Perm (out.declared hold lefts rights) := by
  have hapart := SortMerge.apart_parts hlefts hrights
  obtain ⟨hdeclared, -⟩ := declared_parts (hkeyed.mono (List.nil_subset _) (List.nil_subset _))
    hapart out
  rw [SortMerge.flatMap_lefts_parts, SortMerge.flatMap_rights_parts] at hdeclared
  exact (List.Perm.flatMap_left _ fun part _ => out.partSequence_perm part).trans hdeclared.symm

/-- The matches come in the order of the inputs, left row by left row. -/
theorem filter_mergeSequence (hleft : ∀ left, hold left out.rightNulls = false)
    (hright : ∀ right, hold out.leftNulls right = false) :
    (out.mergeSequence hold spec lefts rights).filter (fun pair => hold pair.1 pair.2) =
      out.declaredMatches hold lefts rights := by
  have hapart := SortMerge.apart_parts hlefts hrights
  obtain ⟨-, hmatches⟩ := declared_parts (hkeyed.mono (List.nil_subset _) (List.nil_subset _))
    hapart out
  rw [SortMerge.flatMap_lefts_parts, SortMerge.flatMap_rights_parts] at hmatches
  rw [hmatches, mergeSequence, List.filter_flatMap]
  exact List.flatMap_congr fun part _ => filter_partSequence hleft hright part

end Sorted
end JoinOutput

/-- What a part comes to. -/
theorem JoinPart.emit_eq {condition : Predicate} {part : JoinPart}
    (hcondition : ∀ l ∈ part.lefts, ∀ r ∈ part.rights,
      condition.holds (.ofPair l r) = .ok (hold l r))
    (hrenders : out.Renders row (out.declared hold part.lefts part.rights)) :
    part.emit out condition = ⟨(out.partSequence hold part).map row, .ok ()⟩ := by
  refine NestedLoop.run_eq ?_ ?_
  · rwa [flatten_singletons, List.flatten_singleton]
  · rwa [flatten_singletons, List.flatten_singleton]

namespace SortMerge

section Sorted

variable {lefts rights : List Record}
  (hlefts : lefts.Pairwise fun a b => Record.leOn spec.leftKey a b = true)
  (hrights : rights.Pairwise fun a b => Record.leOn spec.rightKey a b = true)

include hlefts hrights

/-- What the sort-merge join of sorted inputs emits, and in which order. -/
theorem run_eq (hkeyed : spec.Keyed hold lefts rights)
    (hrenders : out.Renders row (out.declared hold lefts rights)) :
    run out spec lefts rights = ⟨(out.mergeSequence hold spec lefts rights).map row, .ok ()⟩ := by
  have hpart : ∀ part ∈ parts spec lefts rights, part.emit out spec.residual =
      ⟨(out.partSequence hold part).map row, .ok ()⟩ := by
    intro part hmem
    refine JoinPart.emit_eq (fun l hl r hr => ?_) (hrenders.mono fun pair hpair => ?_)
    · obtain ⟨hnull, hkey⟩ := JoinSpec.keysMatch_iff.1 (keysMatch_of_mem_parts hmem l hl r hr)
      exact hkeyed.residual l (lefts_subset_of_mem_parts hmem hl) r
        (rights_subset_of_mem_parts hmem hr) hkey hnull
    · refine (out.mergeSequence_perm hkeyed hlefts hrights).mem_iff.1 ?_
      exact List.mem_flatMap.2 ⟨part, hmem, (out.partSequence_perm part).mem_iff.2 hpair⟩
  rw [run_eq_parts, Emission.forEach_emitted hpart, JoinOutput.mergeSequence, List.map_flatMap]

/-- The sort-merge join of sorted inputs emits the join. -/
theorem emitsJoin_run (hkeyed : spec.Keyed hold lefts rights)
    (hcomputes : out.Computes row lefts rights) :
    out.EmitsJoin hold row lefts rights (run out spec lefts rights) :=
  ⟨_, run_eq hlefts hrights hkeyed hcomputes.renders,
    (out.mergeSequence_perm hkeyed hlefts hrights).map row⟩

end Sorted
end SortMerge
end ExtentEngine
