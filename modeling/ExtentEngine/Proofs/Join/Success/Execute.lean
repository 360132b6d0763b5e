import ExtentEngine.Proofs.Join.Execute
import ExtentEngine.Proofs.Join.Success.HashTable
import ExtentEngine.Proofs.Join.Success.NestedLoop
import ExtentEngine.Proofs.Join.Success.SortMerge

/-!
# When joins succeed

The hash table join and the sort-merge join evaluate the residual on the pairs of rows whose
keys match, and succeed on the same inputs.  The nested loop evaluates the residual before it
compares the keys, so it needs a value of the residual on every pair of rows.

**Results.**
* `Predicate.evaluates_and_iff` and `Predicate.decides_and`: when a conjunction can be
  evaluated.
* `JoinSpec.succeeds_iff`: when an algorithm succeeds.
* `JoinSpec.execute_succeeds_iff`: the algorithms side by side.
* `JoinSpec.nestedLoop_fails_on_unmatched_pair`: a residual that fails on a pair whose keys do
  not match makes the nested loop fail, and no other algorithm.
-/

namespace ExtentEngine

open Emission

theorem Scalar.truth?_eq_ok_iff {value : Scalar} {truth : Option Bool} :
    value.truth? = .ok truth ↔ value = .ofTruth truth := by
  constructor
  · intro h
    cases value with
    | null => cases h; rfl
    | bool b => cases h; rfl
    | _ => cases h
  · rintro rfl
    exact truth?_ofTruth truth

namespace Predicate

variable {p q : Predicate} {left right : Record}

theorem evaluates_iff : p.Evaluates left right ↔
    ∃ truth, p.expr.HasTruth (.ofPair left right) truth := by
  constructor
  · rintro ⟨b, hholds⟩
    rw [holds] at hholds
    split at hholds
    · next halways =>
        rw [isAlways_iff.1 halways]
        exact ⟨some true, rfl⟩
    · obtain ⟨value, hvalue, hrest⟩ := Attempt.bind_eq_ok.1 hholds
      obtain ⟨truth, htruth, -⟩ := Attempt.bind_eq_ok.1 hrest
      exact ⟨truth, hvalue.trans (congrArg _ (Scalar.truth?_eq_ok_iff.1 htruth))⟩
  · rintro ⟨truth, htruth⟩
    exact ⟨_, holds_of_hasTruth htruth⟩

theorem decides_of_hasTruth {truth : Option Bool}
    (h : p.expr.HasTruth (.ofPair left right) truth) : p.decides left right = truth.getD false := by
  rw [decides, holds_of_hasTruth h]
  rfl

/-- A conjunction is evaluated from left to right, so its first member must have a value. -/
theorem evaluates_and_iff {truth : Option Bool}
    (hq : q.expr.HasTruth (.ofPair left right) truth) :
    (p.and q).Evaluates left right ↔ p.Evaluates left right := by
  constructor
  · intro h
    rw [and] at h
    split at h
    · next halways =>
        rw [evaluates_iff, isAlways_iff.1 halways]
        exact ⟨some true, rfl⟩
    · split at h
      · exact h
      · obtain ⟨truth', htruth'⟩ := evaluates_iff.1 h
        rw [Expr.HasTruth, Expr.evaluate, Expr.evaluateMembers] at htruth'
        obtain ⟨value, hvalue, hrest⟩ := Attempt.bind_eq_ok.1 htruth'
        obtain ⟨first, hfirst, -⟩ := Attempt.bind_eq_ok.1 hrest
        exact evaluates_iff.2 ⟨first, hvalue.trans (congrArg _ (Scalar.truth?_eq_ok_iff.1 hfirst))⟩
  · intro h
    obtain ⟨first, hp⟩ := evaluates_iff.1 h
    exact ⟨_, holds_and hp hq⟩

theorem decides_and {truth : Option Bool} (hp : p.Evaluates left right)
    (hq : q.expr.HasTruth (.ofPair left right) truth) :
    (p.and q).decides left right = (p.decides left right && truth.getD false) := by
  obtain ⟨first, hfirst⟩ := evaluates_iff.1 hp
  rw [decides_of_hasTruth hfirst, decides, holds_and hfirst hq]
  rfl

theorem decides_iff : p.decides left right = true ↔
    p.expr.HasTruth (.ofPair left right) (some true) := by
  constructor
  · intro h
    have hholds : p.Evaluates left right := by
      rw [decides] at h
      cases hholds : p.holds (.ofPair left right) with
      | error fault =>
          rw [hholds] at h
          cases h
      | ok b => exact ⟨b, hholds⟩
    obtain ⟨truth, htruth⟩ := evaluates_iff.1 hholds
    rw [decides_of_hasTruth htruth] at h
    cases truth with
    | none => cases h
    | some b =>
        obtain rfl : b = true := h
        exact htruth
  · exact decides_of_hasTruth

end Predicate

namespace JoinSpec

variable {spec : JoinSpec} {schemas : SchemaPair} {lefts rights : List Record}

/-- Whether a join by keys can be computed: the residual can be evaluated on the pairs whose keys
match, and the output record of every pair that is asked for. -/
structure Computable (spec : JoinSpec) (schemas : SchemaPair) (lefts rights : List Record) :
    Prop where
  residual : ∀ left ∈ lefts, ∀ right ∈ rights, spec.keysMatch left right = true →
    spec.residual.Evaluates left right
  output : ∀ pair ∈ spec.declared schemas lefts rights,
    ∃ record, spec.project schemas pair = .ok record

theorem among_keysMatch (hcross : spec.method ≠ .cross) :
    spec.residual.among spec.keysMatch = spec.pairMatches := by
  funext left right
  rw [Predicate.among, keysMatch, pairMatches, decide_eq_false hcross, Bool.false_or]
  congr 1
  rw [Bool.eq_iff_iff, Predicate.decides_iff, Expr.HasTruth]
  split
  · next heval => simp [heval, Scalar.ofTruth]
  · next hother => exact iff_of_false (hother true) Bool.false_ne_true

theorem works_iff_computable (hcross : spec.method ≠ .cross) :
    (JoinOutput.ofSpec spec schemas).Works spec.residual spec.keysMatch lefts rights ↔
      spec.Computable schemas lefts rights := by
  have hsame := among_keysMatch hcross
  constructor
  · intro h
    refine ⟨h.evaluates, ?_⟩
    rw [declared, ← hsame]
    exact h.projects
  · intro h
    refine ⟨h.residual, ?_⟩
    rw [hsame]
    exact h.output

section NestedLoop

variable {p : Predicate} (hp : Predicate.keyEquality spec.leftKey spec.rightKey = .ok p)
  (hleftKey : ∀ column ∈ spec.leftKey, column < schemas.left.length)
  (hrightKey : ∀ column ∈ spec.rightKey, column < schemas.right.length)
  (hleft : ∀ record ∈ lefts, record.length = schemas.left.length)
  (hright : ∀ record ∈ rights, record.length = schemas.right.length)

include hp hleftKey hrightKey hleft hright

theorem hasTruth_keys {left right : Record} (hl : left ∈ lefts) (hr : right ∈ rights) :
    ∃ truth, p.expr.HasTruth (.ofPair left right) truth ∧
      truth.getD false = spec.keysMatch left right :=
  Predicate.hasTruth_keyEquality hp spec.keys_length
    (fun column hcolumn => (hleft left hl).symm ▸ hleftKey column hcolumn)
    (fun column hcolumn => (hright right hr).symm ▸ hrightKey column hcolumn)

/-- The condition of the nested loop can be tested on all pairs if the residual can. -/
theorem works_and_iff (out : JoinOutput) :
    out.Works (spec.residual.and p) NestedLoop.everyPair lefts rights ↔
      (∀ left ∈ lefts, ∀ right ∈ rights, spec.residual.Evaluates left right) ∧
        out.Works spec.residual spec.keysMatch lefts rights := by
  have hkeys : ∀ left ∈ lefts, ∀ right ∈ rights, ∃ truth,
      p.expr.HasTruth (.ofPair left right) truth ∧
        truth.getD false = spec.keysMatch left right :=
    fun left hl right hr => hasTruth_keys hp hleftKey hrightKey hleft hright hl hr
  have hdeclared : (∀ left ∈ lefts, ∀ right ∈ rights, spec.residual.Evaluates left right) →
      out.declared ((spec.residual.and p).among NestedLoop.everyPair) lefts rights =
        out.declared (spec.residual.among spec.keysMatch) lefts rights := by
    intro hevaluates
    refine out.declared_congr fun left hl right hr => ?_
    obtain ⟨truth, htruth, hkey⟩ := hkeys left hl right hr
    rw [Predicate.among, Predicate.among, Predicate.decides_and (hevaluates left hl right hr)
      htruth, hkey, NestedLoop.everyPair, Bool.true_and, Bool.and_comm]
  have hevaluates : (∀ left ∈ lefts, ∀ right ∈ rights, NestedLoop.everyPair left right = true →
      (spec.residual.and p).Evaluates left right) ↔
      ∀ left ∈ lefts, ∀ right ∈ rights, spec.residual.Evaluates left right := by
    refine forall₂_congr fun left hl => forall₂_congr fun right hr => ?_
    obtain ⟨truth, htruth, -⟩ := hkeys left hl right hr
    rw [Predicate.evaluates_and_iff htruth, NestedLoop.everyPair, forall_prop_of_true rfl]
  constructor
  · intro h
    have hall := hevaluates.1 h.evaluates
    exact ⟨hall, fun left hl right hr _ => hall left hl right hr, hdeclared hall ▸ h.projects⟩
  · rintro ⟨hall, h⟩
    exact ⟨hevaluates.2 hall, (hdeclared hall).symm ▸ h.projects⟩

end NestedLoop

/-- What an algorithm needs beyond the join: the nested loop tests the residual on all pairs. -/
def NeedsAll (spec : JoinSpec) (algorithm : JoinAlgorithm) (lefts rights : List Record) : Prop :=
  algorithm = .nestedLoop → ∀ left ∈ lefts, ∀ right ∈ rights, spec.residual.Evaluates left right

theorem needsAll_of_ne {algorithm : JoinAlgorithm} (h : algorithm ≠ .nestedLoop) :
    spec.NeedsAll algorithm lefts rights :=
  fun hloop => absurd hloop h

theorem succeedsIff_emitWith {lefts rights : List Extent} (hcross : spec.method ≠ .cross)
    (hleftKey : ∀ column ∈ spec.leftKey, column < schemas.left.length)
    (hrightKey : ∀ column ∈ spec.rightKey, column < schemas.right.length)
    (hleft : ∀ record ∈ lefts.flatten, record.length = schemas.left.length)
    (hright : ∀ record ∈ rights.flatten, record.length = schemas.right.length)
    (algorithm : JoinAlgorithm)
    (hsorted : algorithm = .sortMerge →
      (lefts.flatten.Pairwise fun a b => Record.leOn spec.leftKey a b = true) ∧
        rights.flatten.Pairwise fun a b => Record.leOn spec.rightKey a b = true) :
    (spec.emitWith schemas (.ofExtents lefts) (.ofExtents rights) algorithm).SucceedsIff
      (spec.NeedsAll algorithm lefts.flatten rights.flatten ∧
        spec.Computable schemas lefts.flatten rights.flatten) () := by
  have hworks := @works_iff_computable spec schemas lefts.flatten rights.flatten hcross
  cases algorithm with
  | nestedLoop =>
      obtain ⟨p, hp⟩ : ∃ p, Predicate.keyEquality spec.leftKey spec.rightKey = .ok p :=
        ⟨_, if_pos spec.keys_length⟩
      have hcondition : spec.pairCondition = .ok (spec.residual.and p) := by
        rw [pairCondition, if_neg hcross, hp]
        rfl
      have hall := works_and_iff hp hleftKey hrightKey hleft hright (.ofSpec spec schemas)
      rw [emitWith, hcondition, Emission.bind_ofAttempt_ok]
      refine (NestedLoop.succeedsIff_run _ _ lefts rights).congr (hall.trans ?_)
      rw [hworks, NeedsAll, forall_prop_of_true rfl]
  | sortMerge =>
      obtain ⟨hlefts, hrights⟩ := hsorted rfl
      refine (SortMerge.succeedsIff_run _ hlefts hrights).congr (hworks.trans ?_)
      exact (and_iff_right (needsAll_of_ne (by decide))).symm
  | hashTable =>
      refine (HashTable.succeedsIff_run _ spec lefts rights).congr (hworks.trans ?_)
      exact (and_iff_right (needsAll_of_ne (by decide))).symm

section Perm

variable {lefts' rights' : List Record} (hlefts : lefts.Perm lefts') (hrights : rights.Perm rights')

include hlefts hrights

theorem needsAll_perm (algorithm : JoinAlgorithm) :
    spec.NeedsAll algorithm lefts rights ↔ spec.NeedsAll algorithm lefts' rights' := by
  refine imp_congr_right fun _ => ?_
  simp only [hlefts.mem_iff, hrights.mem_iff]

theorem computable_perm (hcross : spec.method ≠ .cross) :
    spec.Computable schemas lefts rights ↔ spec.Computable schemas lefts' rights' := by
  rw [← works_iff_computable hcross, ← works_iff_computable hcross]
  exact JoinOutput.works_perm hlefts hrights

end Perm

/-- Whether a join into a list of records succeeds. -/
def Succeeds (spec : JoinSpec) (options : JoinOptions) (inputs : JoinInputs) : Prop :=
  ∃ stats, (spec.execute options inputs).1.result = .ok stats

section Inputs

variable {inputs : JoinInputs} {lefts rights : List Extent} (hinputs : inputs.Valid lefts rights)
  (hleftKey : ∀ column ∈ spec.leftKey, column < inputs.schemas.left.length)
  (hrightKey : ∀ column ∈ spec.rightKey, column < inputs.schemas.right.length)
  (hkeys : spec.leftKey ≠ []) (hcross : spec.method ≠ .cross)

include hkeys hcross in
theorem algorithmFor_some (algorithm : JoinAlgorithm) (ratio : Binary64) :
    spec.algorithmFor ⟨some algorithm, ratio⟩ inputs = algorithm := by
  have hneeds : spec.needsNestedLoop = false := by
    rw [needsNestedLoop, decide_eq_false hcross, Bool.false_or]
    exact List.isEmpty_eq_false_iff.2 hkeys
  rw [algorithmFor, hneeds]
  rfl

/-- Whether the output of a join can be emitted decides about the join. -/
theorem exists_emitJoin_iff {algorithm : JoinAlgorithm} (hinputs : inputs.Valid lefts rights) :
    (∃ stats, (spec.emitJoin algorithm inputs).result = .ok stats) ↔
      ∃ b, (spec.emitWith inputs.schemas (.ofExtents lefts) (.ofExtents rights)
        algorithm).result = .ok b := by
  rw [emitJoin_eq_emitWith algorithm hinputs.left.loads hinputs.right.loads]
  simp only [Emission.result_bind, Emission.result_pure]
  cases (spec.emitWith inputs.schemas (.ofExtents lefts) (.ofExtents rights)
    algorithm).result <;> simp

include hinputs hleftKey hrightKey hkeys hcross

/-- When an algorithm succeeds. -/
theorem succeeds_iff (algorithm : JoinAlgorithm) (ratio : Binary64) :
    spec.Succeeds ⟨some algorithm, ratio⟩ inputs ↔
      spec.NeedsAll algorithm lefts.flatten rights.flatten ∧
        spec.Computable inputs.schemas lefts.flatten rights.flatten := by
  obtain ⟨inputs', lefts', rights', hprepare, hvalid, hschemas, hlefts, hrights, hsorted⟩ :=
    exists_prepare ⟨some algorithm, ratio⟩ hinputs hleftKey hrightKey
  rw [algorithmFor_some hkeys hcross] at hprepare hsorted
  have hexecute : (spec.execute ⟨some algorithm, ratio⟩ inputs).1 =
      spec.emitJoin algorithm inputs' := by
    rw [execute, hprepare]
  rw [← hschemas] at hleftKey hrightKey
  rw [Succeeds, hexecute, exists_emitJoin_iff hvalid,
    (succeedsIff_emitWith hcross hleftKey hrightKey hvalid.left.arity hvalid.right.arity algorithm
      hsorted).exists_ok, needsAll_perm hlefts hrights, computable_perm hlefts hrights hcross,
    hschemas]

/-- The hash table join and the sort-merge join succeed on the same inputs, whatever the residual
does on pairs whose keys do not match.  The nested loop succeeds if, in addition, the residual
can be evaluated on every pair of rows. -/
theorem execute_succeeds_iff (ratio : Binary64) :
    (spec.Succeeds ⟨some .hashTable, ratio⟩ inputs ↔
      spec.Computable inputs.schemas lefts.flatten rights.flatten) ∧
    (spec.Succeeds ⟨some .sortMerge, ratio⟩ inputs ↔
      spec.Computable inputs.schemas lefts.flatten rights.flatten) ∧
    (spec.Succeeds ⟨some .nestedLoop, ratio⟩ inputs ↔
      (∀ left ∈ lefts.flatten, ∀ right ∈ rights.flatten, spec.residual.Evaluates left right) ∧
        spec.Computable inputs.schemas lefts.flatten rights.flatten) := by
  have hiff := fun algorithm => succeeds_iff hinputs hleftKey hrightKey hkeys hcross algorithm ratio
  refine ⟨(hiff .hashTable).trans (and_iff_right (needsAll_of_ne (by decide))),
    (hiff .sortMerge).trans (and_iff_right (needsAll_of_ne (by decide))),
    (hiff .nestedLoop).trans ?_⟩
  rw [NeedsAll, forall_prop_of_true rfl]

end Inputs

theorem execute_succeeds_small :
    Succeeds ⟨.full, [0], [0], rfl, .always, none⟩ ⟨some .hashTable, .zero⟩ smallInputs ∧
    Succeeds ⟨.full, [0], [0], rfl, .always, none⟩ ⟨some .sortMerge, .zero⟩ smallInputs ∧
    Succeeds ⟨.full, [0], [0], rfl, .always, none⟩ ⟨some .nestedLoop, .zero⟩ smallInputs := by
  have hinputs : smallInputs.Valid [[[.int 1], [.null]], []] [[[.int 1], [.int 2]]] :=
    { left := ⟨⟨rfl, nofun⟩, by decide, nofun, rfl, nofun⟩
      right := ⟨⟨rfl, nofun⟩, by decide, nofun, rfl, nofun⟩
      apart := nofun }
  have hcomputable : Computable ⟨.full, [0], [0], rfl, .always, none⟩ smallInputs.schemas
      [[.int 1], [.null]] [[.int 1], [.int 2]] :=
    { residual := fun _ _ _ _ _ => ⟨true, rfl⟩
      output := List.forall_mem_cons.2 ⟨⟨_, rfl⟩, List.forall_mem_cons.2 ⟨⟨_, rfl⟩,
        List.forall_mem_singleton.2 ⟨_, rfl⟩⟩⟩ }
  obtain ⟨hhash, hsort, hloop⟩ := @execute_succeeds_iff ⟨.full, [0], [0], rfl, .always, none⟩
    smallInputs _ _ hinputs (by decide) (by decide) (by decide) (by decide) .zero
  exact ⟨hhash.2 hcomputable, hsort.2 hcomputable,
    hloop.2 ⟨fun _ _ _ _ => ⟨true, rfl⟩, hcomputable⟩⟩

/-- Two inputs with one column each; the greater number on the left has no partner. -/
def extremeInputs : JoinInputs where
  left := ⟨[⟨"l", .int64, true⟩], 2, Nat.two_pos, [.memory [[.int 1], [.int 9223372036854775807]]],
    none, none⟩
  right := ⟨[⟨"r", .int64, true⟩], 2, Nat.two_pos, [.memory [[.int 1]]], none, none⟩
  disk := .empty

/-- A join with a residual that overflows on the greatest number. -/
def overflowing : JoinSpec :=
  ⟨.inner, [0], [0], rfl,
    ⟨.compare .lt (.arithmetic .add (.leftColumn 0) (.literal (.int 1))) (.literal (.int 100))⟩,
    none⟩

theorem valid_extremeInputs :
    extremeInputs.Valid [[[.int 1], [.int 9223372036854775807]]] [[[.int 1]]] where
  left := ⟨⟨rfl, nofun⟩, by decide, nofun, rfl, nofun⟩
  right := ⟨⟨rfl, nofun⟩, by decide, nofun, rfl, nofun⟩
  apart := nofun

theorem computable_overflowing : overflowing.Computable extremeInputs.schemas
    [[.int 1], [.int 9223372036854775807]] [[.int 1]] where
  residual := by
    refine List.forall_mem_cons.2 ⟨List.forall_mem_singleton.2 fun _ => ⟨true, rfl⟩, ?_⟩
    refine List.forall_mem_singleton.2 (List.forall_mem_singleton.2 fun hmatch => ?_)
    cases hmatch
  output := List.forall_mem_singleton.2 ⟨_, rfl⟩

/-- A residual that fails on a pair whose keys do not match makes the nested loop fail, and no
other algorithm. -/
theorem nestedLoop_fails_on_unmatched_pair :
    overflowing.Computable extremeInputs.schemas [[.int 1], [.int 9223372036854775807]]
      [[.int 1]] ∧
    overflowing.Succeeds ⟨some .hashTable, .zero⟩ extremeInputs ∧
    overflowing.Succeeds ⟨some .sortMerge, .zero⟩ extremeInputs ∧
    (overflowing.execute ⟨some .nestedLoop, .zero⟩ extremeInputs).1.result =
      .error (.integerOverflow 9223372036854775807 .add 1) := by
  have hiff := fun algorithm => @succeeds_iff overflowing extremeInputs _ _ valid_extremeInputs
    (by decide) (by decide) (by decide) (by decide) algorithm .zero
  refine ⟨computable_overflowing, ?_, ?_, rfl⟩
  · exact (hiff .hashTable).2 ⟨needsAll_of_ne (by decide), computable_overflowing⟩
  · exact (hiff .sortMerge).2 ⟨needsAll_of_ne (by decide), computable_overflowing⟩

end JoinSpec
end ExtentEngine
