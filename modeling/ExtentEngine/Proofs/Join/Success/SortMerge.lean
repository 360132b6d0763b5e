import ExtentEngine.Proofs.Join.SortMerge
import ExtentEngine.Proofs.Join.Success.NestedLoop

/-!
# When the sort-merge join succeeds

The sort-merge join tries the pairs of rows within the parts of its inputs, and if the inputs are
sorted these are the pairs of rows whose keys match.

**Results.**
* `works_parts`: the join of sorted inputs works if those of their parts do.
* `succeedsIff_run`: the sort-merge join of sorted inputs succeeds if the join of the pairs
  whose keys match works.
-/

namespace ExtentEngine

open Emission

variable {condition : Predicate} {out : JoinOutput} {spec : JoinSpec}

namespace SortMerge

/-- The join of parts that are apart works if the join of each part does. -/
theorem works_parts {parts : List JoinPart} (hapart : parts.Pairwise (JoinPart.Apart spec)) :
    out.Works condition spec.keysMatch (parts.flatMap JoinPart.lefts)
        (parts.flatMap JoinPart.rights) ↔
      ∀ part ∈ parts, out.Works condition spec.keysMatch part.lefts part.rights := by
  induction parts with
  | nil =>
      refine iff_of_true ?_ (List.forall_mem_nil _)
      rw [JoinOutput.works_iff_worksLeft, List.flatMap_nil, JoinOutput.forall_declaredRights]
      exact ⟨JoinOutput.worksLeft_nil, fun _ => List.forall_mem_nil _⟩
  | cons part parts ih =>
      obtain ⟨hfirst, hrest⟩ := List.pairwise_cons.1 hapart
      obtain ⟨hleft, hright⟩ := JoinPart.Apart.flatMap hfirst
      rw [List.flatMap_cons, List.flatMap_cons, JoinOutput.works_append hleft hright, ih hrest,
        List.forall_mem_cons]

/-- When a part can be joined whose keys match. -/
theorem succeedsIff_emit {part : JoinPart}
    (hmatch : ∀ l ∈ part.lefts, ∀ r ∈ part.rights, spec.keysMatch l r = true) :
    (part.emit out condition).SucceedsIff
      (out.Works condition spec.keysMatch part.lefts part.rights) () := by
  have hrun := NestedLoop.succeedsIff_run out condition (part.lefts.map fun left => [left])
    [part.rights]
  rw [flatten_singletons, List.flatten_singleton] at hrun
  exact hrun.congr (JoinOutput.works_congr fun l hl r hr => (hmatch l hl r hr).symm)

/-- The sort-merge join of sorted inputs succeeds if the join of the pairs whose keys match
works. -/
theorem succeedsIff_run (out : JoinOutput) {lefts rights : List Record}
    (hlefts : lefts.Pairwise fun a b => Record.leOn spec.leftKey a b = true)
    (hrights : rights.Pairwise fun a b => Record.leOn spec.rightKey a b = true) :
    (run out spec lefts rights).SucceedsIff
      (out.Works spec.residual spec.keysMatch lefts rights) () := by
  have hparts := @works_parts spec.residual out spec _ (apart_parts hlefts hrights)
  rw [flatMap_lefts_parts, flatMap_rights_parts] at hparts
  rw [run_eq_parts]
  exact (SucceedsIff.forEach fun part hpart =>
    succeedsIff_emit (keysMatch_of_mem_parts hpart)).congr hparts.symm

end SortMerge
end ExtentEngine
