import ExtentEngine.Proofs.Join.Success.Execute

/-!
# Joins in the same order

A nested loop comes by the pairs of rows in the order of its loops, and the hash table join sorts
its pairs into that order.  So unless left rows without a partner are emitted among matches, the
two emit the same records in the same order, and a caller cannot tell them apart.

**Results.**
* `emitWith_sequence`: both emit the projections of one sequence of pairs.
* `execute_emits_sequence`: joins of two datasets by either of them come to the same.
-/

namespace ExtentEngine
namespace JoinSpec

/-- The pairs of rows that a join of inputs of the given schemas asks for: the matches by left
extent, right extent, left row and right row, then the rows without a partner in their order. -/
def sequence (spec : JoinSpec) (schemas : SchemaPair) (lefts rights : List Extent) :
    List (Record × Record) :=
  (JoinOutput.ofSpec spec schemas).sequence spec.pairMatches lefts rights

variable {spec : JoinSpec} {schemas : SchemaPair} {lefts rights : List Extent}

/-- The nested loop and the hash table join emit the projections of the sequence. -/
theorem emitWith_sequence {algorithm : JoinAlgorithm} (halgorithm : algorithm ≠ .sortMerge)
    (hcross : spec.method ≠ .cross)
    (hmethod : spec.method.emitsMatches = true → spec.method.emitsLeftUnmatched = false)
    (hdecides : spec.Decides schemas lefts.flatten rights.flatten)
    (hleft : ∀ record ∈ lefts.flatten, record.length = schemas.left.length)
    (hright : ∀ record ∈ rights.flatten, record.length = schemas.right.length)
    (houtput : ∀ pair ∈ spec.declared schemas lefts.flatten rights.flatten,
      ∃ record, spec.project schemas pair = .ok record) :
    spec.emitWith schemas (.ofExtents lefts) (.ofExtents rights) algorithm =
      ⟨(spec.sequence schemas lefts rights).map (spec.projected schemas), .ok ()⟩ := by
  have hrenders : (JoinOutput.ofSpec spec schemas).Renders (spec.projected schemas)
      ((JoinOutput.ofSpec spec schemas).declared spec.pairMatches lefts.flatten rights.flatten) :=
    fun pair hpair => pair_eq (houtput pair hpair)
  cases algorithm with
  | nestedLoop =>
      obtain ⟨condition, hcondition, hholds⟩ := exists_pairCondition hdecides hleft hright
      rw [emitWith, hcondition, Emission.bind_ofAttempt_ok, NestedLoop.run_eq hholds hrenders,
        JoinOutput.loopSequence_eq _ hmethod, sequence]
  | sortMerge => exact absurd rfl halgorithm
  | hashTable => exact HashTable.run_eq (keyed_of_decides hdecides hcross) hrenders

/-- Nothing is done to the inputs of a join that is not a sort-merge join. -/
theorem execute_eq_emitJoin {options : JoinOptions} {inputs : JoinInputs}
    (hvalidate : spec.validate inputs.schemas = .ok ())
    (halgorithm : spec.algorithmFor options inputs ≠ .sortMerge) :
    spec.execute options inputs =
      (spec.emitJoin (spec.algorithmFor options inputs) inputs, inputs) := by
  rw [execute, run_prepare hvalidate, if_neg halgorithm]

/-- Of two datasets that can be read, with records of their arities, by keys that are there, with a
residual that can be evaluated on every pair of rows and a projection that can be evaluated on
every pair that is asked for, the nested loop and the hash table join emit the same records in the
same order: the projections of the matches, by left extent, right extent, left row and right row,
and then those of the rows without a partner. -/
theorem execute_emits_sequence {inputs : JoinInputs}
    (hmethod : spec.method ∈ [JoinMethod.inner, .right, .antiLeft, .antiRight, .antiInner])
    (hkeys : spec.leftKey ≠ [])
    (hleftKey : ∀ column ∈ spec.leftKey, column < inputs.left.schema.length)
    (hrightKey : ∀ column ∈ spec.rightKey, column < inputs.right.schema.length)
    (hlefts : inputs.left.extents inputs.disk = .ok lefts)
    (hrights : inputs.right.extents inputs.disk = .ok rights)
    (hleft : ∀ record ∈ lefts.flatten, record.length = inputs.left.schema.length)
    (hright : ∀ record ∈ rights.flatten, record.length = inputs.right.schema.length)
    (hresidual : ∀ left ∈ lefts.flatten, ∀ right ∈ rights.flatten,
      spec.residual.Evaluates left right)
    (houtput : ∀ pair ∈ spec.declared inputs.schemas lefts.flatten rights.flatten,
      ∃ record, spec.project inputs.schemas pair = .ok record) :
    ∃ expected, (spec.sequence inputs.schemas lefts rights).mapM (spec.project inputs.schemas) =
        .ok expected ∧
      ∀ algorithm ∈ [JoinAlgorithm.nestedLoop, .hashTable], ∀ ratio,
        spec.execute ⟨some algorithm, ratio⟩ inputs =
          (⟨expected, .ok ⟨algorithm, inputs.left.recordCount, inputs.right.recordCount,
            expected.length⟩⟩, inputs) := by
  have hcross : spec.method ≠ .cross := by
    intro h
    rw [h] at hmethod
    exact absurd hmethod (by decide)
  have hlone : spec.method.emitsMatches = true → spec.method.emitsLeftUnmatched = false :=
    (by decide : ∀ method ∈ [JoinMethod.inner, .right, .antiLeft, .antiRight, .antiInner],
      method.emitsMatches = true → method.emitsLeftUnmatched = false) spec.method hmethod
  have hdecides : spec.Decides inputs.schemas lefts.flatten rights.flatten :=
    ⟨hleftKey, hrightKey, fun left hl right hr =>
      Predicate.evaluates_iff.1 (hresidual left hl right hr)⟩
  have hsequence := @JoinOutput.sequence_perm spec.pairMatches (.ofSpec spec inputs.schemas) lefts
    rights
  refine ⟨(spec.sequence inputs.schemas lefts rights).map (spec.projected inputs.schemas),
    mapM_project fun pair hpair => houtput pair (hsequence.mem_iff.1 hpair),
    fun algorithm halgorithm ratio => ?_⟩
  have hne : algorithm ≠ .sortMerge := by
    rintro rfl
    exact absurd halgorithm (by decide)
  have hsome := @algorithmFor_some spec inputs hkeys hcross algorithm ratio
  rw [execute_eq_emitJoin (validate_eq_ok hleftKey hrightKey) (hsome.symm ▸ hne), hsome,
    emitJoin_eq hlefts hrights
      (emitWith_sequence hne hcross hlone hdecides hleft hright houtput)]

/-- Two inputs of several extents, the left one with a null and an empty extent. -/
def smallExtents : JoinInputs where
  left := ⟨[⟨"key", .int64, true⟩, ⟨"place", .int64, true⟩], 2, Nat.two_pos,
    [.memory [[.int 1, .int 10], [.null, .int 11]], .memory [],
      .memory [[.int 2, .int 12], [.int 1, .int 13]]], none, none⟩
  right := ⟨[⟨"key", .int64, true⟩], 2, Nat.two_pos,
    [.memory [[.int 1]], .memory [[.int 2], [.int 3]]], none, none⟩
  disk := .empty

/-- A join by the first columns alone, with the right rows without a partner. -/
def smallRight : JoinSpec := { overflowing with method := .right, residual := .always }

theorem execute_emits_sequence_small :
    (smallRight.execute ⟨some .hashTable, .zero⟩ smallExtents).1.rows =
      [[.int 1, .int 10, .int 1], [.int 1, .int 13, .int 1], [.int 2, .int 12, .int 2],
        [.null, .null, .int 3]] ∧
    (smallRight.execute ⟨some .nestedLoop, .zero⟩ smallExtents).1.rows =
      (smallRight.execute ⟨some .hashTable, .zero⟩ smallExtents).1.rows := by
  have hlefts : smallExtents.left.extents .empty =
      .ok [[[.int 1, .int 10], [.null, .int 11]], [], [[.int 2, .int 12], [.int 1, .int 13]]] := rfl
  have hrights : smallExtents.right.extents .empty = .ok [[[.int 1]], [[.int 2], [.int 3]]] := rfl
  have hdeclared : (smallRight.declared smallExtents.schemas
      [[.int 1, .int 10], [.null, .int 11], [.int 2, .int 12], [.int 1, .int 13]]
      [[.int 1], [.int 2], [.int 3]]).mapM (smallRight.project smallExtents.schemas) =
      .ok [[.int 1, .int 10, .int 1], [.int 2, .int 12, .int 2], [.int 1, .int 13, .int 1],
        [.null, .null, .int 3]] := rfl
  obtain ⟨expected, hexpected, hexecute⟩ := @execute_emits_sequence smallRight _ _ smallExtents
    (by decide) nofun (by decide) (by decide) hlefts hrights (by decide) (by decide)
    (fun _ _ _ _ => ⟨true, rfl⟩) fun pair hpair => by
      obtain ⟨record, -, hrecord⟩ := exists_of_mem_left (Attempt.mapM_eq_ok.1 hdeclared) hpair
      exact ⟨record, hrecord⟩
  rw [hexecute .nestedLoop (by decide) .zero, hexecute .hashTable (by decide) .zero]
  cases hexpected
  exact ⟨rfl, rfl⟩

end JoinSpec
end ExtentEngine
