import ExtentEngine.Proofs.Join.SameOrder
import ExtentEngine.Proofs.Record.StableSort

/-!
# Matches in the order of the keys

A sort-merge join comes by the matches in the order of its sorted inputs: by left row and, for each
left row, by right row.  Rows without a partner are emitted in between, but rows of nulls match
nothing by a key, so the matches can be told from them.

It is enough that the residual can be evaluated on the pairs of rows whose keys match.

**Results.**
* `Computable.keyed`: the matches are among the pairs whose keys match.
* `filter_mergeSequence`: the matches in what a sort-merge join comes by.
* `pairwise_matchedPairs`: pairs of rows are in the order of their left rows.
* `execute_emits_in_key_order`: what a sort-merge join of two datasets emits, and in which order.
-/

namespace ExtentEngine

theorem Record.hasNullKey_nulls {key : Key} (hkey : key ≠ []) (arity : Nat) :
    (nulls arity).hasNullKey key = true := by
  obtain ⟨column, columns, rfl⟩ := List.exists_cons_of_ne_nil hkey
  have hnull : (nulls arity).cellOrNull column = .null := by
    rw [cellOrNull, nulls, List.getElem?_replicate]
    split <;> rfl
  rw [hasNullKey, List.any_cons, hnull]
  rfl

/-- Pairs that match are in the order of their left rows. -/
theorem pairwise_matchedPairs {hold : Record → Record → Bool} {le : Record → Record → Prop}
    {lefts : List Record} (hrefl : ∀ left, le left left) (hlefts : lefts.Pairwise le)
    (rights : List Record) :
    (matchedPairs hold lefts rights).Pairwise fun a b => le a.1 b.1 := by
  have hfst : ∀ left, ∀ pair ∈ (rights.filter (hold left)).map (left, ·), pair.1 = left := by
    intro left
    exact List.forall_mem_map.2 fun _ _ => rfl
  refine List.pairwise_flatMap.2 ⟨fun left _ => ?_, hlefts.imp fun {left left'} hle => ?_⟩
  · refine List.pairwise_of_forall_mem_list fun a ha b hb => ?_
    rw [hfst left a ha, hfst left b hb]
    exact hrefl left
  · intro a ha b hb
    rw [hfst left a ha, hfst left' b hb]
    exact hle

namespace JoinSpec

/-- The pairs of rows that a join of rows of the given schemas asks for, in the order in which a
sort-merge join comes by them if the rows are sorted by the keys. -/
def mergeSequence (spec : JoinSpec) (schemas : SchemaPair) (lefts rights : List Record) :
    List (Record × Record) :=
  (JoinOutput.ofSpec spec schemas).mergeSequence spec.pairMatches spec lefts rights

variable {spec : JoinSpec} {schemas : SchemaPair}

section Sorted

variable {lefts rights : List Record} (hcross : spec.method ≠ .cross)
  (hcomputable : spec.Computable schemas lefts rights)

include hcross hcomputable

/-- The matches are among the pairs whose keys match. -/
theorem Computable.keyed : spec.Keyed spec.pairMatches lefts rights :=
  keyed_of_hasTruth hcross fun left hl right hr hkeys =>
    Predicate.evaluates_iff.1 (hcomputable.residual left hl right hr hkeys)

variable (hlefts : lefts.Pairwise fun a b => Record.leOn spec.leftKey a b = true)
  (hrights : rights.Pairwise fun a b => Record.leOn spec.rightKey a b = true)

include hlefts hrights

/-- A sort-merge join comes by what is asked for. -/
theorem mergeSequence_perm :
    (spec.mergeSequence schemas lefts rights).Perm (spec.declared schemas lefts rights) :=
  (JoinOutput.ofSpec spec schemas).mergeSequence_perm (hcomputable.keyed hcross) hlefts hrights

/-- A sort-merge join comes by the matches in the order of its inputs. -/
theorem filter_mergeSequence (hkeys : spec.leftKey ≠ [])
    (hmethod : spec.method.emitsMatches = true) :
    (spec.mergeSequence schemas lefts rights).filter
        (fun pair => spec.pairMatches pair.1 pair.2) =
      matchedPairs spec.pairMatches lefts rights := by
  have hkeyed := hcomputable.keyed hcross
  have hrightKeys : spec.rightKey ≠ [] := by
    rw [← List.length_pos_iff, ← spec.keys_length]
    exact List.length_pos_iff.2 hkeys
  have hleft : ∀ left, spec.pairMatches left schemas.right.nullRecord = false := fun left =>
    hkeyed.eq_false_of_right_null (Record.hasNullKey_nulls hrightKeys _)
  have hright : ∀ right, spec.pairMatches schemas.left.nullRecord right = false := fun right =>
    hkeyed.eq_false_of_left_null (Record.hasNullKey_nulls hkeys _)
  have hfilter := @JoinOutput.filter_mergeSequence _ (.ofSpec spec schemas) _ _ _ hkeyed hlefts
    hrights hleft hright
  rw [mergeSequence, hfilter, JoinOutput.declaredMatches]
  exact if_pos hmethod

end Sorted

section Inputs

variable {inputs : JoinInputs} {lefts rights : List Extent} (ratio : Binary64)
  (hinputs : inputs.Valid lefts rights)
  (hleftKey : ∀ column ∈ spec.leftKey, column < inputs.schemas.left.length)
  (hrightKey : ∀ column ∈ spec.rightKey, column < inputs.schemas.right.length)
  (hkeys : spec.leftKey ≠ []) (hcross : spec.method ≠ .cross)
  (hcomputable : spec.Computable inputs.schemas lefts.flatten rights.flatten)

include hinputs hleftKey hrightKey hkeys hcross hcomputable

/-- The inputs are sorted, and then their records are joined in that order. -/
theorem execute_mergeSequence :
    (spec.execute ⟨some .sortMerge, ratio⟩ inputs).1 =
      ⟨(spec.mergeSequence inputs.schemas (Record.sortOn spec.leftKey lefts.flatten)
          (Record.sortOn spec.rightKey rights.flatten)).map (spec.projected inputs.schemas),
        .ok ⟨.sortMerge, lefts.flatten.length, rights.flatten.length,
          (spec.mergeSequence inputs.schemas (Record.sortOn spec.leftKey lefts.flatten)
            (Record.sortOn spec.rightKey rights.flatten)).length⟩⟩ := by
  have hperm := Record.sortOn_perm spec.leftKey lefts.flatten
  have hperm' := Record.sortOn_perm spec.rightKey rights.flatten
  have hordered := Record.pairwise_sortOn spec.leftKey lefts.flatten
  have hordered' := Record.pairwise_sortOn spec.rightKey rights.flatten
  have hsorted := (computable_perm hperm hperm' hcross).2 hcomputable
  obtain ⟨inputs', lefts', rights', hprepare, hvalid, hschemas, hlefts, hrights⟩ :=
    exists_prepare_sortMerge ⟨some .sortMerge, ratio⟩ hinputs hleftKey hrightKey
      (algorithmFor_some hkeys hcross .sortMerge ratio)
  have hleftRows : inputs'.left.recordCount = lefts.flatten.length := by
    rw [Dataset.recordCount_eq hvalid.left.loads, hlefts, hperm.length_eq]
  have hrightRows : inputs'.right.recordCount = rights.flatten.length := by
    rw [Dataset.recordCount_eq hvalid.right.loads, hrights, hperm'.length_eq]
  have hrun : spec.emitWith inputs'.schemas (.ofExtents lefts') (.ofExtents rights') .sortMerge =
      ⟨(spec.mergeSequence inputs.schemas (Record.sortOn spec.leftKey lefts.flatten)
        (Record.sortOn spec.rightKey rights.flatten)).map (spec.projected inputs.schemas),
        .ok ()⟩ := by
    rw [hschemas, emitWith, JoinSide.ofExtents, JoinSide.ofExtents, hlefts, hrights]
    exact SortMerge.run_eq hordered hordered' (hsorted.keyed hcross) fun pair hpair =>
      pair_eq (hsorted.output pair hpair)
  rw [execute, hprepare]
  simp only
  rw [emitJoin_eq hvalid.left.loads hvalid.right.loads hrun, hleftRows, hrightRows,
    List.length_map]

/-- Of two datasets with records of their arities, by keys that are there and a method that emits
matches, a sort-merge join whose residual can be evaluated on the pairs with matching keys and
whose output can be computed emits the projections of all pairs that are asked for.  Among these
pairs, the matches come by left row and then by right row, both in the order of the stably sorted
inputs; so they come in the order of their keys. -/
theorem execute_emits_in_key_order (hmethod : spec.method.emitsMatches = true)
    {sortedLefts sortedRights : List Record}
    (hlefts : Record.IsStableSort spec.leftKey lefts.flatten sortedLefts)
    (hrights : Record.IsStableSort spec.rightKey rights.flatten sortedRights) :
    (∃ expected, (spec.mergeSequence inputs.schemas sortedLefts sortedRights).mapM
        (spec.project inputs.schemas) = .ok expected ∧
      (spec.execute ⟨some .sortMerge, ratio⟩ inputs).1 =
        ⟨expected, .ok ⟨.sortMerge, lefts.flatten.length, rights.flatten.length,
          expected.length⟩⟩) ∧
    (spec.mergeSequence inputs.schemas sortedLefts sortedRights).Perm
      (spec.declared inputs.schemas lefts.flatten rights.flatten) ∧
    (spec.mergeSequence inputs.schemas sortedLefts sortedRights).filter
        (fun pair => spec.pairMatches pair.1 pair.2) =
      matchedPairs spec.pairMatches sortedLefts sortedRights ∧
    (matchedPairs spec.pairMatches sortedLefts sortedRights).Pairwise fun a b =>
      Record.compareOn a.1 spec.leftKey b.1 spec.leftKey ≠ .gt := by
  have hexecute := execute_mergeSequence ratio hinputs hleftKey hrightKey hkeys hcross hcomputable
  rw [← Record.isStableSort_iff.1 hlefts, ← Record.isStableSort_iff.1 hrights] at hexecute
  have hordered := hlefts.ordered.imp Record.leOn_eq_true_iff.2
  have hordered' := hrights.ordered.imp Record.leOn_eq_true_iff.2
  have hsorted := (computable_perm hlefts.perm hrights.perm hcross).2 hcomputable
  have hdeclared := mergeSequence_perm hcross hsorted hordered hordered'
  refine ⟨⟨_, mapM_project fun pair hpair => hsorted.output pair (hdeclared.mem_iff.1 hpair), ?_⟩,
    hdeclared.trans (JoinOutput.declared_perm hlefts.perm hrights.perm _),
    filter_mergeSequence hcross hsorted hordered hordered' hkeys hmethod,
    pairwise_matchedPairs (fun left => ?_) hlefts.ordered _⟩
  · rw [hexecute, List.length_map]
  · rw [← Record.leOn_eq_true_iff]
    exact Record.leOn_of_ties (Record.ties_self _ left)

end Inputs

/-- A join by the first columns alone. -/
def smallInner : JoinSpec := { smallRight with method := .inner }

theorem execute_emits_in_key_order_small :
    (smallInner.execute ⟨some .sortMerge, .zero⟩ smallExtents).1.rows =
      [[.int 1, .int 10, .int 1], [.int 1, .int 13, .int 1], [.int 2, .int 12, .int 2]] := by
  have hinputs : smallExtents.Valid
      [[[.int 1, .int 10], [.null, .int 11]], [], [[.int 2, .int 12], [.int 1, .int 13]]]
      [[[.int 1]], [[.int 2], [.int 3]]] :=
    { left := ⟨⟨rfl, nofun⟩, by decide, nofun, rfl, nofun⟩
      right := ⟨⟨rfl, nofun⟩, by decide, nofun, rfl, nofun⟩
      apart := nofun }
  have hdeclared : smallInner.declared smallExtents.schemas
      [[.int 1, .int 10], [.null, .int 11], [.int 2, .int 12], [.int 1, .int 13]]
      [[.int 1], [.int 2], [.int 3]] =
      [([.int 1, .int 10], [.int 1]), ([.int 2, .int 12], [.int 2]),
        ([.int 1, .int 13], [.int 1])] := rfl
  have hcomputable : smallInner.Computable smallExtents.schemas
      [[.int 1, .int 10], [.null, .int 11], [.int 2, .int 12], [.int 1, .int 13]]
      [[.int 1], [.int 2], [.int 3]] := by
    refine ⟨fun _ _ _ _ _ => ⟨true, rfl⟩, ?_⟩
    rw [hdeclared]
    exact List.forall_mem_cons.2 ⟨⟨_, rfl⟩, List.forall_mem_cons.2 ⟨⟨_, rfl⟩,
      List.forall_mem_singleton.2 ⟨_, rfl⟩⟩⟩
  have hlefts : Record.sortOn [0]
      [[.int 1, .int 10], [.null, .int 11], [.int 2, .int 12], [.int 1, .int 13]] =
      [[.null, .int 11], [.int 1, .int 10], [.int 1, .int 13], [.int 2, .int 12]] := by
    simp +decide [Record.sortOn, List.mergeSort]
  have hrights : Record.sortOn [0] [[.int 1], [.int 2], [.int 3]] =
      [[.int 1], [.int 2], [.int 3]] :=
    List.mergeSort_of_pairwise (by decide)
  obtain ⟨⟨expected, hexpected, hexecute⟩, hperm, hmatches, -⟩ :=
    execute_emits_in_key_order .zero hinputs (by decide) (by decide) (by decide) (by decide)
      hcomputable rfl (Record.isStableSort_iff.2 hlefts.symm)
      (Record.isStableSort_iff.2 hrights.symm)
  -- An inner join asks for matches only.
  have hall : ∀ pair ∈ smallInner.declared smallExtents.schemas
      [[.int 1, .int 10], [.null, .int 11], [.int 2, .int 12], [.int 1, .int 13]]
      [[.int 1], [.int 2], [.int 3]], smallInner.pairMatches pair.1 pair.2 = true := by
    rw [hdeclared]
    decide
  rw [List.filter_eq_self.2 fun pair hpair => hall pair (hperm.mem_iff.1 hpair)] at hmatches
  rw [hmatches] at hexpected
  rw [hexecute]
  cases hexpected
  rfl

end JoinSpec
end ExtentEngine
