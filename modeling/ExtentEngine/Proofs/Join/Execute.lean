import ExtentEngine.Join.Basic
import ExtentEngine.Proofs.Dataset.Replacing
import ExtentEngine.Proofs.Expr.Predicate
import ExtentEngine.Proofs.Join.HashTable
import ExtentEngine.Proofs.Join.NestedLoop
import ExtentEngine.Proofs.Join.SortMerge

/-!
# Joins are right

Whatever the algorithm, a join emits the projections of the pairs of rows that its
specification asks for.

**Results.**
* `emitsJoin_emitWith`: every algorithm emits the join.
* `exists_prepare`: preparing the inputs rearranges their records at most.
* `execute_emits_declared`: a join succeeds and emits what is asked for.
-/

namespace ExtentEngine

namespace JoinSpec

/-- Whether a pair of rows matches: in a cross join always, and else if the keys are equal and
not null and the residual is true. -/
def pairMatches (spec : JoinSpec) (left right : Record) : Bool :=
  spec.method = .cross ||
    (!left.hasNullKey spec.leftKey &&
      left.keyValues spec.leftKey = right.keyValues spec.rightKey &&
      match spec.residual.expr.evaluate (.ofPair left right) with
      | .ok (.bool b) => b
      | _ => false)

/-- The pairs of rows that a join of inputs of the given schemas asks for. -/
def declared (spec : JoinSpec) (schemas : SchemaPair) (lefts rights : List Record) :
    List (Record × Record) :=
  (JoinOutput.ofSpec spec schemas).declared spec.pairMatches lefts rights

/-- The projection of a pair of rows. -/
def project (spec : JoinSpec) (schemas : SchemaPair) (pair : Record × Record) : Attempt Record :=
  (spec.outputProjection schemas).evaluate (.ofPair pair.1 pair.2)

/-- A specification fits rows if its keys are there, the residual has a truth value on every
pair, and a projection has a value on every pair and on every row beside nulls. -/
structure Fits (spec : JoinSpec) (schemas : SchemaPair) (lefts rights : List Record) : Prop where
  leftKey : ∀ column ∈ spec.leftKey, column < schemas.left.length
  rightKey : ∀ column ∈ spec.rightKey, column < schemas.right.length
  residual : ∀ left ∈ lefts, ∀ right ∈ rights,
    ∃ truth, spec.residual.expr.HasTruth (.ofPair left right) truth
  pair : ∀ projection, spec.projection = some projection → ∀ left ∈ lefts, ∀ right ∈ rights,
    ∃ record, projection.evaluate (.ofPair left right) = .ok record
  left : ∀ projection, spec.projection = some projection → ∀ left ∈ lefts,
    ∃ record, projection.evaluate (.ofPair left schemas.right.nullRecord) = .ok record
  right : ∀ projection, spec.projection = some projection → ∀ right ∈ rights,
    ∃ record, projection.evaluate (.ofPair schemas.left.nullRecord right) = .ok record

/-- A specification tells which pairs match if its keys are there and the residual has a truth
value on every pair. -/
structure Decides (spec : JoinSpec) (schemas : SchemaPair) (lefts rights : List Record) : Prop where
  leftKey : ∀ column ∈ spec.leftKey, column < schemas.left.length
  rightKey : ∀ column ∈ spec.rightKey, column < schemas.right.length
  residual : ∀ left ∈ lefts, ∀ right ∈ rights,
    ∃ truth, spec.residual.expr.HasTruth (.ofPair left right) truth

variable {spec : JoinSpec} {schemas : SchemaPair}

/-- The nested loop has a condition to test: the keys of a join have one arity. -/
theorem exists_condition (spec : JoinSpec) : ∃ condition, spec.pairCondition = .ok condition := by
  rw [pairCondition, Predicate.keyEquality, if_pos spec.keys_length]
  split
  · exact ⟨_, rfl⟩
  · exact ⟨_, rfl⟩

theorem Fits.decides {lefts rights : List Record} (h : spec.Fits schemas lefts rights) :
    spec.Decides schemas lefts rights :=
  ⟨h.leftKey, h.rightKey, h.residual⟩

theorem Fits.mono {lefts rights lefts' rights' : List Record} (h : spec.Fits schemas lefts rights)
    (hlefts : lefts' ⊆ lefts) (hrights : rights' ⊆ rights) : spec.Fits schemas lefts' rights' where
  leftKey := h.leftKey
  rightKey := h.rightKey
  residual left hleft right hright := h.residual left (hlefts hleft) right (hrights hright)
  pair projection hp left hleft right hright :=
    h.pair projection hp left (hlefts hleft) right (hrights hright)
  left projection hp left hleft := h.left projection hp left (hlefts hleft)
  right projection hp right hright := h.right projection hp right (hrights hright)

/-- A pair of rows has a projection if every projection that is given has a value on it. -/
theorem exists_project {left right : Record} (hleft : left.length = schemas.left.length)
    (hright : right.length = schemas.right.length)
    (h : ∀ projection, spec.projection = some projection →
      ∃ record, projection.evaluate (.ofPair left right) = .ok record) :
    ∃ record, spec.project schemas (left, right) = .ok record := by
  rw [project, outputProjection]
  cases hprojection : spec.projection with
  | some projection => exact h projection hprojection
  | none =>
      rw [Option.getD_none, ← hleft, ← hright]
      exact Projection.exists_evaluate_both left right

theorem length_nullRecord (schema : Schema) : schema.nullRecord.length = schema.length :=
  List.length_replicate

/-- The projection of a pair of rows that has one. -/
def projected (spec : JoinSpec) (schemas : SchemaPair) (pair : Record × Record) : Record :=
  (spec.project schemas pair).toOption.getD []

theorem pair_eq {pair : Record × Record} (h : ∃ record, spec.project schemas pair = .ok record) :
    (JoinOutput.ofSpec spec schemas).pair pair.1 pair.2 =
      ⟨[spec.projected schemas pair], .ok ()⟩ := by
  obtain ⟨record, hrecord⟩ := h
  have hproject : (spec.outputProjection schemas).evaluate (.ofPair pair.1 pair.2) = .ok record :=
    hrecord
  rw [JoinOutput.pair, JoinOutput.ofSpec, Emission.project, hproject, projected, hrecord]
  rfl

/-- The projections of pairs that have one. -/
theorem mapM_project {pairs : List (Record × Record)}
    (h : ∀ pair ∈ pairs, ∃ record, spec.project schemas pair = .ok record) :
    pairs.mapM (spec.project schemas) = .ok (pairs.map (spec.projected schemas)) := by
  rw [Attempt.mapM_eq_ok, List.forall₂_map_right_iff, List.forall₂_same]
  intro pair hpair
  obtain ⟨record, hrecord⟩ := h pair hpair
  rw [projected, hrecord]
  rfl

section Matches

variable (hcross : spec.method ≠ .cross)

include hcross

theorem keysMatch_of_pairMatches {left right : Record}
    (hmatch : spec.pairMatches left right = true) : spec.keysMatch left right = true := by
  rw [pairMatches, decide_eq_false hcross, Bool.false_or, Bool.and_eq_true] at hmatch
  exact hmatch.1

/-- A pair matches if its keys do and the residual is true. -/
theorem pairMatches_eq {left right : Record} {truth : Option Bool}
    (htruth : spec.residual.expr.HasTruth (.ofPair left right) truth) :
    spec.pairMatches left right = (spec.keysMatch left right && truth.getD false) := by
  rw [pairMatches, decide_eq_false hcross, Bool.false_or, keysMatch, htruth]
  cases truth <;> rfl

/-- It is enough that the residual has a truth value on the pairs whose keys match. -/
theorem keyed_of_hasTruth {lefts rights : List Record}
    (h : ∀ left ∈ lefts, ∀ right ∈ rights, spec.keysMatch left right = true →
      ∃ truth, spec.residual.expr.HasTruth (.ofPair left right) truth) :
    spec.Keyed spec.pairMatches lefts rights where
  equal _ _ hmatch := (keysMatch_iff.1 (keysMatch_of_pairMatches hcross hmatch)).2
  notNull _ _ hmatch := (keysMatch_iff.1 (keysMatch_of_pairMatches hcross hmatch)).1
  residual left hl right hr hkey hnull := by
    have hkeys : spec.keysMatch left right = true := keysMatch_iff.2 ⟨hnull, hkey⟩
    obtain ⟨truth, htruth⟩ := h left hl right hr hkeys
    rw [Predicate.holds_of_hasTruth htruth, pairMatches_eq hcross htruth, hkeys, Bool.true_and]

end Matches

section Decides

variable {lefts rights : List Record} (hdecides : spec.Decides schemas lefts rights)

include hdecides

theorem keyed_of_decides (hcross : spec.method ≠ .cross) :
    spec.Keyed spec.pairMatches lefts rights :=
  keyed_of_hasTruth hcross fun left hl right hr _ => hdecides.residual left hl right hr

/-- The condition of the nested loop tells whether a pair matches. -/
theorem exists_pairCondition (hleft : ∀ record ∈ lefts, record.length = schemas.left.length)
    (hright : ∀ record ∈ rights, record.length = schemas.right.length) :
    ∃ condition, spec.pairCondition = .ok condition ∧
      ∀ left ∈ lefts, ∀ right ∈ rights,
        condition.holds (.ofPair left right) = .ok (spec.pairMatches left right) := by
  by_cases hcross : spec.method = .cross
  · refine ⟨.always, if_pos hcross, fun left _ right _ => ?_⟩
    rw [pairMatches, hcross]
    rfl
  · obtain ⟨p, hp⟩ : ∃ p, Predicate.keyEquality spec.leftKey spec.rightKey = .ok p :=
      ⟨_, if_pos spec.keys_length⟩
    refine ⟨spec.residual.and p, ?_, fun left hl right hr => ?_⟩
    · rw [pairCondition, if_neg hcross, hp]
      rfl
    · obtain ⟨truth, htruth⟩ := hdecides.residual left hl right hr
      obtain ⟨truth', htruth', hvalue'⟩ := Predicate.hasTruth_keyEquality hp spec.keys_length
        (fun column hcolumn => (hleft left hl).symm ▸ hdecides.leftKey column hcolumn)
        (fun column hcolumn => (hright right hr).symm ▸ hdecides.rightKey column hcolumn)
      rw [Predicate.holds_and htruth htruth', pairMatches_eq hcross htruth, hvalue', keysMatch,
        Bool.and_comm]

end Decides

section Algorithms

variable {lefts rights : List Extent}
  (hfits : spec.Fits schemas lefts.flatten rights.flatten)
  (hleft : ∀ record ∈ lefts.flatten, record.length = schemas.left.length)
  (hright : ∀ record ∈ rights.flatten, record.length = schemas.right.length)

include hfits hleft hright

theorem computes_of_fits : (JoinOutput.ofSpec spec schemas).Computes (spec.projected schemas)
    lefts.flatten rights.flatten where
  pair left hl right hr := pair_eq (exists_project (hleft left hl) (hright right hr)
    fun projection hp => hfits.pair projection hp left hl right hr)
  left left hl := pair_eq (exists_project (hleft left hl) (length_nullRecord _)
    fun projection hp => hfits.left projection hp left hl)
  right right hr := pair_eq (exists_project (length_nullRecord _) (hright right hr)
    fun projection hp => hfits.right projection hp right hr)

/-- Every pair that is asked for has a projection. -/
theorem exists_project_of_mem_declared {pair : Record × Record}
    (hpair : pair ∈ spec.declared schemas lefts.flatten rights.flatten) :
    ∃ record, spec.project schemas pair = .ok record := by
  rw [declared, JoinOutput.declared, List.mem_append, List.mem_append] at hpair
  rcases hpair with (hpair | hpair) | hpair
  · obtain ⟨hl, hr⟩ := mem_of_mem_declaredMatches hpair
    exact exists_project (hleft _ hl) (hright _ hr)
      fun projection hp => hfits.pair projection hp _ hl _ hr
  · obtain ⟨left, hl, rfl⟩ := mem_of_mem_declaredLefts hpair
    exact exists_project (hleft _ hl) (length_nullRecord _)
      fun projection hp => hfits.left projection hp _ hl
  · obtain ⟨right, hr, rfl⟩ := mem_of_mem_declaredRights hpair
    exact exists_project (length_nullRecord _) (hright _ hr)
      fun projection hp => hfits.right projection hp _ hr

/-- Every algorithm emits the join, the sort-merge join of sorted inputs. -/
theorem emitsJoin_emitWith (algorithm : JoinAlgorithm)
    (hkeys : algorithm ≠ .nestedLoop → spec.method ≠ .cross)
    (hsorted : algorithm = .sortMerge →
      (lefts.flatten.Pairwise fun a b => Record.leOn spec.leftKey a b = true) ∧
        rights.flatten.Pairwise fun a b => Record.leOn spec.rightKey a b = true) :
    (JoinOutput.ofSpec spec schemas).EmitsJoin spec.pairMatches (spec.projected schemas)
      lefts.flatten rights.flatten
      (spec.emitWith schemas (.ofExtents lefts) (.ofExtents rights) algorithm) := by
  have hcomputes := computes_of_fits hfits hleft hright
  cases algorithm with
  | nestedLoop =>
      obtain ⟨condition, hcondition, hholds⟩ := exists_pairCondition hfits.decides hleft hright
      rw [emitWith, hcondition, Emission.bind_ofAttempt_ok]
      exact NestedLoop.emitsJoin_run hholds hcomputes
  | sortMerge =>
      obtain ⟨hlefts, hrights⟩ := hsorted rfl
      exact SortMerge.emitsJoin_run hlefts hrights (keyed_of_decides hfits.decides (hkeys nofun))
        hcomputes
  | hashTable =>
      exact HashTable.emitsJoin_run (keyed_of_decides hfits.decides (hkeys nofun)) hcomputes

end Algorithms

theorem ne_cross_of_algorithmFor {options : JoinOptions} {inputs : JoinInputs}
    (h : spec.algorithmFor options inputs ≠ .nestedLoop) : spec.method ≠ .cross := by
  intro hcross
  have hneeds : spec.needsNestedLoop = true := by
    rw [needsNestedLoop, decide_eq_true hcross, Bool.true_or]
  exact h (if_pos hneeds)

end JoinSpec

namespace JoinInputs

/-- Two datasets with the given extents, which have no file in common. -/
structure Valid (inputs : JoinInputs) (lefts rights : List Extent) : Prop where
  left : inputs.left.Valid inputs.disk lefts
  right : inputs.right.Valid inputs.disk rights
  apart : ∀ file ∈ inputs.left.files, file ∉ inputs.right.files

variable {inputs : JoinInputs} {lefts rights : List Extent} {key : Key}

/-- Sorting the left dataset puts its records in order and leaves the right one as it is. -/
theorem exists_sortLeft (h : inputs.Valid lefts rights)
    (hkey : key.validate inputs.left.schema.length = .ok ()) :
    ∃ inputs' lefts', (sortLeft key).run inputs = (.ok (), inputs') ∧
      inputs'.Valid lefts' rights ∧ inputs'.schemas = inputs.schemas ∧
      lefts'.flatten = Record.sortOn key lefts.flatten := by
  obtain ⟨left, disk, lefts', hsort, hschema, hvalid, hsorted, hframe, hfiles⟩ :=
    Dataset.exists_sort h.left hkey
  refine ⟨{ inputs with left, disk }, lefts', ?_, ⟨hvalid, ?_, ?_⟩, ?_, hsorted⟩
  · simp only [Step.run, sortLeft] at hsort ⊢
    rw [hsort]
  · exact h.right.frame hframe fun file hfile hleft => h.apart file hleft hfile
  · intro file hfile hright
    rcases hfiles file hfile with hold | hnew
    · exact h.apart file hold hright
    · exact hnew (h.right.allocated file hright)
  · simp only [schemas, hschema]

/-- Sorting the right dataset puts its records in order and leaves the left one as it is. -/
theorem exists_sortRight (h : inputs.Valid lefts rights)
    (hkey : key.validate inputs.right.schema.length = .ok ()) :
    ∃ inputs' rights', (sortRight key).run inputs = (.ok (), inputs') ∧
      inputs'.Valid lefts rights' ∧ inputs'.schemas = inputs.schemas ∧
      rights'.flatten = Record.sortOn key rights.flatten := by
  obtain ⟨right, disk, rights', hsort, hschema, hvalid, hsorted, hframe, hfiles⟩ :=
    Dataset.exists_sort h.right hkey
  refine ⟨{ inputs with right, disk }, rights', ?_, ⟨?_, hvalid, ?_⟩, ?_, hsorted⟩
  · simp only [Step.run, sortRight] at hsort ⊢
    rw [hsort]
  · exact h.left.frame hframe fun file hfile hright => h.apart file hfile hright
  · intro file hleft hfile
    rcases hfiles file hfile with hold | hnew
    · exact h.apart file hleft hold
    · exact hnew (h.left.allocated file hleft)
  · simp only [schemas, hschema]

end JoinInputs

namespace JoinSpec

variable {spec : JoinSpec} {inputs : JoinInputs} {lefts rights : List Extent}

theorem run_prepare {options : JoinOptions} (hvalidate : spec.validate inputs.schemas = .ok ()) :
    (spec.prepare options).run inputs =
      if spec.algorithmFor options inputs = .sortMerge then
        (do
          JoinInputs.sortLeft spec.leftKey
          JoinInputs.sortRight spec.rightKey
          pure (spec.algorithmFor options inputs) : Step JoinInputs JoinAlgorithm).run inputs
      else (.ok (spec.algorithmFor options inputs), inputs) := by
  rw [prepare, Step.run_bind, Step.run_get]
  simp only
  rw [Step.run_bind, Step.run_ofAttempt, hvalidate]
  simp only
  split <;> rfl

theorem validate_eq_ok {schemas : SchemaPair}
    (hleftKey : ∀ column ∈ spec.leftKey, column < schemas.left.length)
    (hrightKey : ∀ column ∈ spec.rightKey, column < schemas.right.length) :
    spec.validate schemas = .ok () := by
  rw [validate, Key.validate_eq_ok_iff.2 hleftKey, Key.validate_eq_ok_iff.2 hrightKey]
  rfl

section Prepare

variable (options : JoinOptions) (hinputs : inputs.Valid lefts rights)
  (hleftKey : ∀ column ∈ spec.leftKey, column < inputs.schemas.left.length)
  (hrightKey : ∀ column ∈ spec.rightKey, column < inputs.schemas.right.length)

include hinputs hleftKey hrightKey

/-- Before a sort-merge join the inputs are sorted by their keys. -/
theorem exists_prepare_sortMerge (hmerge : spec.algorithmFor options inputs = .sortMerge) :
    ∃ inputs' lefts' rights', (spec.prepare options).run inputs = (.ok .sortMerge, inputs') ∧
      inputs'.Valid lefts' rights' ∧ inputs'.schemas = inputs.schemas ∧
      lefts'.flatten = Record.sortOn spec.leftKey lefts.flatten ∧
      rights'.flatten = Record.sortOn spec.rightKey rights.flatten := by
  obtain ⟨middle, lefts', hrun, hvalid, hschemas, hlefts⟩ :=
    JoinInputs.exists_sortLeft hinputs (Key.validate_eq_ok_iff.2 hleftKey)
  have hright : spec.rightKey.validate middle.schemas.right.length = .ok () := by
    rw [hschemas]
    exact Key.validate_eq_ok_iff.2 hrightKey
  obtain ⟨inputs', rights', hrun', hvalid', hschemas', hrights⟩ :=
    JoinInputs.exists_sortRight hvalid hright
  refine ⟨inputs', lefts', rights', ?_, hvalid', hschemas'.trans hschemas, hlefts, hrights⟩
  rw [run_prepare (validate_eq_ok hleftKey hrightKey), if_pos hmerge]
  simp only [Step.run_bind, hrun, hrun', Step.run_pure, hmerge]

/-- Preparing the inputs rearranges their records at most, and sorts them for a sort-merge
join. -/
theorem exists_prepare :
    ∃ inputs' lefts' rights',
      (spec.prepare options).run inputs = (.ok (spec.algorithmFor options inputs), inputs') ∧
      inputs'.Valid lefts' rights' ∧ inputs'.schemas = inputs.schemas ∧
      lefts'.flatten.Perm lefts.flatten ∧ rights'.flatten.Perm rights.flatten ∧
      (spec.algorithmFor options inputs = .sortMerge →
        (lefts'.flatten.Pairwise fun a b => Record.leOn spec.leftKey a b = true) ∧
          rights'.flatten.Pairwise fun a b => Record.leOn spec.rightKey a b = true) := by
  by_cases hmerge : spec.algorithmFor options inputs = .sortMerge
  · obtain ⟨inputs', lefts', rights', hrun, hvalid, hschemas, hlefts, hrights⟩ :=
      exists_prepare_sortMerge options hinputs hleftKey hrightKey hmerge
    rw [hmerge]
    refine ⟨inputs', lefts', rights', hrun, hvalid, hschemas, ?_, ?_, fun _ => ⟨?_, ?_⟩⟩
    · exact hlefts ▸ Record.sortOn_perm _ _
    · exact hrights ▸ Record.sortOn_perm _ _
    · exact hlefts ▸ Record.pairwise_sortOn _ _
    · exact hrights ▸ Record.pairwise_sortOn _ _
  · refine ⟨inputs, lefts, rights, ?_, hinputs, rfl, .refl _, .refl _, fun h => absurd h hmerge⟩
    rw [run_prepare (validate_eq_ok hleftKey hrightKey), if_neg hmerge]

end Prepare

/-- A join of prepared inputs goes by the extents that are there: the lengths that the datasets
have noted are those of the extents. -/
theorem emitJoin_eq_emitWith (algorithm : JoinAlgorithm)
    (hleft : inputs.left.extents inputs.disk = .ok lefts)
    (hright : inputs.right.extents inputs.disk = .ok rights) :
    spec.emitJoin algorithm inputs = (do
      spec.emitWith inputs.schemas (.ofExtents lefts) (.ofExtents rights) algorithm
      pure ⟨algorithm, inputs.left.recordCount, inputs.right.recordCount,
        (spec.emitWith inputs.schemas (.ofExtents lefts) (.ofExtents rights)
          algorithm).rows.length⟩) := by
  rw [emitJoin, hleft, hright, Dataset.extentLengths_eq hleft, Dataset.extentLengths_eq hright]
  rfl

/-- What a join of prepared inputs comes to if its output can be emitted. -/
theorem emitJoin_eq {algorithm : JoinAlgorithm} {rows : List Record}
    (hleft : inputs.left.extents inputs.disk = .ok lefts)
    (hright : inputs.right.extents inputs.disk = .ok rights)
    (hrun : spec.emitWith inputs.schemas (.ofExtents lefts) (.ofExtents rights) algorithm =
      ⟨rows, .ok ()⟩) :
    spec.emitJoin algorithm inputs =
      ⟨rows, .ok ⟨algorithm, inputs.left.recordCount, inputs.right.recordCount, rows.length⟩⟩ := by
  rw [emitJoin_eq_emitWith algorithm hleft hright, hrun, Emission.bind_emitted, Emission.rows_pure,
    List.append_nil]
  rfl

/-- A join of datasets that it fits succeeds, whatever the algorithm, and emits the projections
of the pairs of rows that its specification asks for, each as often as it is asked for. -/
theorem execute_emits_declared (options : JoinOptions) (hinputs : inputs.Valid lefts rights)
    (hfits : spec.Fits inputs.schemas lefts.flatten rights.flatten) :
    ∃ stats expected, (spec.execute options inputs).1.result = .ok stats ∧
      (spec.declared inputs.schemas lefts.flatten rights.flatten).mapM
        (spec.project inputs.schemas) = .ok expected ∧
      (spec.execute options inputs).1.rows.Perm expected := by
  obtain ⟨inputs', lefts', rights', hprepare, hvalid, hschemas, hlefts, hrights, hsorted⟩ :=
    exists_prepare options hinputs hfits.leftKey hfits.rightKey
  have harity : ∀ record ∈ lefts'.flatten, record.length = inputs.schemas.left.length := by
    rw [← hschemas]
    exact hvalid.left.arity
  have harity' : ∀ record ∈ rights'.flatten, record.length = inputs.schemas.right.length := by
    rw [← hschemas]
    exact hvalid.right.arity
  obtain ⟨rows, hrun, hrows⟩ := emitsJoin_emitWith
    (hfits.mono hlefts.subset hrights.subset) harity harity' (spec.algorithmFor options inputs)
    ne_cross_of_algorithmFor hsorted
  rw [← hschemas] at hrun
  have hjoin := emitJoin_eq hvalid.left.loads hvalid.right.loads hrun
  have hexecute : (spec.execute options inputs).1 =
      spec.emitJoin (spec.algorithmFor options inputs) inputs' := by
    rw [execute, hprepare]
  rw [hexecute, hjoin]
  refine ⟨_, (spec.declared inputs.schemas lefts.flatten rights.flatten).map
    (spec.projected inputs.schemas), rfl, ?_, ?_⟩
  · exact mapM_project fun pair hpair => exists_project_of_mem_declared hfits hinputs.left.arity
      hinputs.right.arity hpair
  · exact hrows.trans ((JoinOutput.declared_perm hlefts hrights _).map _)

/-- Two inputs with one column each, the left one with a null and an empty extent. -/
def smallInputs : JoinInputs where
  left := ⟨[⟨"l", .int64, true⟩], 2, Nat.two_pos, [.memory [[.int 1], [.null]], .memory []], none,
    none⟩
  right := ⟨[⟨"r", .int64, true⟩], 2, Nat.two_pos, [.memory [[.int 1], [.int 2]]], none, none⟩
  disk := .empty

theorem execute_full_small :
    (execute ⟨.full, [0], [0], rfl, .always, none⟩ ⟨some .sortMerge, .zero⟩ smallInputs).1.rows.Perm
      [[.int 1, .int 1], [.null, .null], [.null, .int 2]] := by
  have hinputs : smallInputs.Valid [[[.int 1], [.null]], []] [[[.int 1], [.int 2]]] :=
    { left := ⟨⟨rfl, nofun⟩, by decide, nofun, rfl, nofun⟩
      right := ⟨⟨rfl, nofun⟩, by decide, nofun, rfl, nofun⟩
      apart := nofun }
  obtain ⟨stats, expected, -, hexpected, hrows⟩ := @execute_emits_declared
    ⟨.full, [0], [0], rfl, .always, none⟩ smallInputs _ _ ⟨some .sortMerge, .zero⟩ hinputs
    ⟨by decide, by decide, fun _ _ _ _ => ⟨some true, rfl⟩, nofun, nofun, nofun⟩
  cases hexpected
  exact hrows

end JoinSpec
end ExtentEngine
