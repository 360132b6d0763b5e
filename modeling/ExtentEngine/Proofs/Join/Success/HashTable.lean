import ExtentEngine.Proofs.Join.HashTable
import ExtentEngine.Proofs.Join.Success.Works

/-!
# When the hash table join succeeds

The hash table join tries the pairs of rows whose keys match.

**Results.**
* `tries_tuples`: the pairs that are tested.
* `succeedsIff_run`: the hash table join succeeds if the join of these pairs works.
-/

namespace ExtentEngine

open Emission

variable {out : JoinOutput} {spec : JoinSpec} {lefts rights : List Extent}

namespace HashTable

/-- The pairs of rows whose keys match are tested, each of them once. -/
theorem tries_tuples (spec : JoinSpec) (lefts rights : List Extent) :
    Tries spec.keysMatch lefts.flatten rights.flatten
      ((tuples spec lefts rights).map (tupleTest lefts rights)) where
  perm := by
    have hcovers := tests_cover (spec.keyed_keysOnly lefts.flatten rights.flatten)
    rw [Covers, List.filter_eq_self.2] at hcovers
    · exact hcovers
    · intro test htest
      obtain ⟨tuple, htuple, rfl⟩ := List.mem_map.1 htest
      obtain ⟨l, hl, r, hr, rfl, hnull, hkey⟩ := exists_of_mem_tuples htuple
      rw [tupleTest_of_mem hl hr]
      exact JoinSpec.keysMatch_iff.2 ⟨hnull, hkey⟩

theorem succeedsIff_testTuple {tuple : RowId × RowId} (h : tuple ∈ tuples spec lefts rights)
    {flags : PairFlags} (hflags : flags.Fits lefts.flatten.length rights.flatten.length) :
    (testTuple out spec.residual ⟨lefts, offsetsOf lefts⟩ ⟨rights, offsetsOf rights⟩ flags
      tuple).SucceedsIff
      (∀ test ∈ [tupleTest lefts rights tuple], out.Passes spec.residual test)
      (flags.after spec.residual.decides [tupleTest lefts rights tuple]) := by
  obtain ⟨l, hl, r, hr, rfl, -, -⟩ := exists_of_mem_tuples h
  have htest := @JoinOutput.succeedsIff_test spec.residual out (pairTest lefts rights l r) _ _ flags
    hflags (position_lt_of_mem hl) (position_lt_of_mem hr)
  rw [testTuple_of_mem hl hr, tupleTest_of_mem hl hr]
  exact htest.congr List.forall_mem_singleton.symm

/-- The hash table join succeeds if the join of the pairs whose keys match works. -/
theorem succeedsIff_run (out : JoinOutput) (spec : JoinSpec) (lefts rights : List Extent) :
    (run out spec (.ofExtents lefts) (.ofExtents rights)).SucceedsIff
      (out.Works spec.residual spec.keysMatch lefts.flatten rights.flatten) () := by
  have htries := tries_tuples spec lefts rights
  have hflags : PairFlags.Fits lefts.flatten.length rights.flatten.length
      ⟨lefts.flatten.map fun _ => false, rights.flatten.map fun _ => false⟩ :=
    .of_maps _ _ _ _
  have htests := @JoinOutput.succeedsIff_foldlM spec.residual out _ _ _ _ _ _
    (fun tuple htuple flags hfits => succeedsIff_testTuple htuple hfits) _ hflags
  have hlefts := out.succeedsIff_lefts (spec.residual.among spec.keysMatch) lefts rights.flatten
  have hrights := out.succeedsIff_rights (spec.residual.among spec.keysMatch) lefts.flatten rights
  rw [← List.map_eq_flatMap, htries.after_eq] at htests
  rw [run_ofExtents]
  refine SucceedsIff.congr (SucceedsIff.bind (q :=
    (∀ pair ∈ out.declaredLefts (spec.residual.among spec.keysMatch) lefts.flatten rights.flatten,
      out.Projects pair) ∧
    ∀ pair ∈ out.declaredRights (spec.residual.among spec.keysMatch) lefts.flatten rights.flatten,
      out.Projects pair) htests fun _ => ?_) ?_
  · simp only [Emission.ite_bind]
    exact SucceedsIff.bind hlefts fun _ => hrights
  · rw [JoinOutput.works_iff_worksLeft, JoinOutput.worksLeft_iff_of_tries htries, and_assoc]

end HashTable
end ExtentEngine
