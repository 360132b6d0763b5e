import ExtentEngine.Proofs.Aggregate.Family
import ExtentEngine.Proofs.Aggregate.Kinds

/-!
# Rows and groups that are refused

A row that cannot be added and a group that cannot be merged are not taken back.  A failure ends the
pass over the aggregates of the group that they belong to, so the aggregates before the one that
fails have taken the row and the others have not.  What belongs to other keys stays as it is.

**Results.**
* `Accumulator.update_error`, `Accumulator.merge_error`: an accumulator that refuses stays as it is,
  unless it is a sum that gets out of range.
* `GroupTable.refused_of_insert`, `GroupTable.refusedGroup_of_merge`: what a table looks like then.
* `SpillingTable.refusals_are_local`: the same of tables with files.
* `SpillingTable.refused_row_leaves_traces`: so rows that are refused can be told from rows that
  were never offered.
-/

namespace ExtentEngine

/-- Goes through accumulators until one of them fails; those before it are changed, and those after
it are not reached. -/
inductive Interrupted {β : Type} (step : β → Step Accumulator Unit) (fault : Fault) :
    List β → List Accumulator → List Accumulator → Prop
  /-- An accumulator fails and stays as it is, unless it is a sum that gets out of range. -/
  | here {item : β} {items : List β} {state state' : Accumulator} {states : List Accumulator}
      (hstep : (step item).run state = (.error fault, state'))
      (hkept : fault ≠ .needed .sumInRange → state' = state) :
      Interrupted step fault (item :: items) (state :: states) (state' :: states)
  | later {item : β} {items : List β} {state state' : Accumulator}
      {states states' : List Accumulator} (hstep : (step item).run state = (.ok (), state'))
      (hrest : Interrupted step fault items states states') :
      Interrupted step fault (item :: items) (state :: states) (state' :: states')

namespace Accumulator

variable {state state' other : Accumulator} {states states' others : List Accumulator}
  {inputs : List Scalar} {fault : Fault}

theorem addTotal_error {total : Option Total} {input : Total}
    (h : addTotal total input = (.error fault, state)) : fault = .needed .sumInRange :=
  ((addTotal_spec total input).2 fault (congrArg Prod.fst h)).1

theorem replaceBy_error {next : Attempt Accumulator}
    (h : state.replaceBy next = (.error fault, state')) : state' = state := by
  cases next with
  | ok next => cases h
  | error other =>
      cases h
      rfl

theorem updatePresent_error (h : (updatePresent inputs).run state = (.error fault, state'))
    (hfault : fault ≠ .needed .sumInRange) : state' = state := by
  cases state with
  | count n skips => cases h
  | sum total =>
      rw [Step.run, updatePresent] at h
      split at h
      · cases h
        rfl
      · exact absurd (addTotal_error h) hfault
  | _ => exact replaceBy_error h

/-- An accumulator that refuses a row stays as it is, unless it is a sum that gets out of range. -/
theorem update_error (h : (update inputs).run state = (.error fault, state'))
    (hfault : fault ≠ .needed .sumInRange) : state' = state := by
  rw [Step.run] at h
  unfold update at h
  split at h
  · cases h
  · split at h
    · cases h
    · exact updatePresent_error h hfault

/-- An accumulator that refuses another one stays as it is, unless it is a sum that gets out of
range. -/
theorem merge_error (h : (merge other).run state = (.error fault, state'))
    (hfault : fault ≠ .needed .sumInRange) : state' = state := by
  rw [Step.run] at h
  cases state <;> cases other
  case sum.sum total more =>
    cases more with
    | none => cases h
    | some more => exact absurd (addTotal_error h) hfault
  case variance.variance kind moments otherKind more =>
    rw [merge] at h
    split at h <;> cases h
    rfl
  case covariance.covariance kind moments otherKind more =>
    rw [merge] at h
    split at h <;> cases h
    rfl
  all_goals
    cases h
    try rfl

/-- Merging accumulators pairwise ends with the first pair that cannot be merged. -/
theorem interrupted_of_mergeEach (h : mergeEach states others = (.error fault, states')) :
    Interrupted merge fault others states states' := by
  induction states generalizing others states' with
  | nil => cases h
  | cons state states ih =>
      cases others with
      | nil => cases h
      | cons other others =>
          rw [mergeEach] at h
          rcases hstep : (merge other).run state with ⟨_ | _, merged⟩ <;> rw [hstep] at h
          · cases h
            exact .here hstep (merge_error hstep)
          · rcases hrest : mergeEach states others with ⟨result, rest⟩
            simp only [hrest] at h
            cases h
            exact .later hstep (ih hrest)

end Accumulator

/-- Adds a row to an accumulator of the aggregate. -/
def Aggregate.takeRow (binding : Binding) (aggregate : Aggregate) : Step Accumulator Unit := do
  let inputs ← .ofAttempt (aggregate.evaluateInputs binding)
  Accumulator.update inputs

theorem Aggregate.takeRow_run (binding : Binding) (aggregate : Aggregate) (state : Accumulator) :
    (aggregate.takeRow binding).run state = match aggregate.evaluateInputs binding with
      | .error fault => (.error fault, state)
      | .ok inputs => (Accumulator.update inputs).run state := by
  rw [takeRow, Step.run_bind, Step.run_ofAttempt]
  cases aggregate.evaluateInputs binding <;> rfl

namespace GroupTable

variable {table table' : GroupTable} {record : Record} {group : Group} {fault : Fault}
  {states states' : List Accumulator} {aggregates : List Aggregate} {binding : Binding}

/-- Adding a row to accumulators ends with the first aggregate that fails. -/
theorem interrupted_of_updateEach
    (h : updateEach binding states aggregates = (.error fault, states')) :
    Interrupted (Aggregate.takeRow binding) fault aggregates states states' := by
  induction states generalizing aggregates states' with
  | nil => cases h
  | cons state states ih =>
      cases aggregates with
      | nil => cases h
      | cons aggregate aggregates =>
          have htake := aggregate.takeRow_run binding state
          rw [updateEach] at h
          cases hinputs : aggregate.evaluateInputs binding with
          | error fault =>
              rw [hinputs] at h htake
              cases h
              exact .here htake fun _ => rfl
          | ok inputs =>
              rw [hinputs] at h htake
              rcases hstep : (Accumulator.update inputs).run state with ⟨_ | _, updated⟩
              · simp only [hstep] at h htake
                cases h
                exact .here htake (Accumulator.update_error hstep)
              · rcases hrest : updateEach binding states aggregates with ⟨result, rest⟩
                simp only [hstep, hrest] at h htake
                cases h
                exact .later htake (ih hrest)

/-- What a row that is refused changes in a table: only what belongs to its key, which has a group
then. -/
structure Refused (record : Record) (fault : Fault) (table table' : GroupTable) : Prop where
  grouping : table'.grouping = table.grouping
  capacity : table'.capacity = table.capacity
  elsewhere : ∀ key, key ≠ record.keyValues table.grouping.keys →
    table'.groups.get? key = table.groups.get? key
  there : ∃ states, table'.groups.get? (record.keyValues table.grouping.keys) = some states ∧
    Interrupted (Aggregate.takeRow (.ofLeft record)) fault table.grouping.aggregates
      ((table.groups.get? (record.keyValues table.grouping.keys)).getD table.grouping.start) states

/-- What a group that is refused changes in a table: only the group of its key, and this one only if
both have equally many accumulators. -/
structure RefusedGroup (group : Group) (fault : Fault) (table table' : GroupTable) : Prop where
  grouping : table'.grouping = table.grouping
  capacity : table'.capacity = table.capacity
  elsewhere : ∀ key, key ≠ group.key → table'.groups.get? key = table.groups.get? key
  there : ∃ states states', table.groups.get? group.key = some states ∧
    table'.groups.get? group.key = some states' ∧
    if states.length = group.states.length
    then Interrupted Accumulator.merge fault group.states states states'
    else states' = states

theorem refused_of_insert (h : (insert record).run table = (.error fault, table')) :
    Refused record fault table table' := by
  rw [Step.run, insert] at h
  rcases hupdate : updateEach (.ofLeft record)
    ((table.groups.get? (record.keyValues table.grouping.keys)).getD table.grouping.start)
    table.grouping.aggregates with ⟨result, states⟩
  simp only [hupdate] at h
  cases h
  refine ⟨rfl, rfl, fun key hkey => ?_, states, ?_, interrupted_of_updateEach hupdate⟩
  · rw [Groups.get?_put, if_neg (Ne.symm hkey)]
  · rw [Groups.get?_put, if_pos rfl]

theorem refusedGroup_of_merge (h : (merge group).run table = (.error fault, table')) :
    RefusedGroup group fault table table' := by
  rw [Step.run, merge, Step.run, Groups.merge] at h
  cases hget : table.groups.get? group.key with
  | none =>
      rw [hget] at h
      cases h
  | some states =>
      rcases hmerge : (Accumulator.mergeAll group.states).run states with ⟨result, states'⟩
      simp only [hget, hmerge] at h
      cases h
      refine ⟨rfl, rfl, fun key hkey => ?_, states, states', hget, ?_, ?_⟩
      · rw [Groups.get?_put, if_neg (Ne.symm hkey)]
      · rw [Groups.get?_put, if_pos rfl]
      · rw [Step.run, Accumulator.mergeAll] at hmerge
        split
        · next hlength =>
            rw [if_pos hlength] at hmerge
            exact Accumulator.interrupted_of_mergeEach hmerge
        · next hlength =>
            rw [if_neg hlength] at hmerge
            cases hmerge
            rfl

end GroupTable

namespace SpillingTable

variable {s s' s₁ : SpillingTable} {disk after middle : Disk} {record : Record} {fault : Fault}

/-- A row that is refused after there is room for it changes nothing but the groups in memory. -/
theorem refused_of_insert (hroom : makeRoom.run (s, disk) = (.ok (), s₁, middle))
    (h : (insert record).run (s, disk) = (.error fault, s', after)) :
    s' = { s₁ with table := s'.table } ∧ after = middle ∧
      GroupTable.Refused record fault s₁.table s'.table := by
  rcases hinsert : (GroupTable.insert record).run s₁.table with ⟨_ | _, table⟩
  · cases (insert_of_error hroom hinsert).symm.trans h
    exact ⟨rfl, rfl, GroupTable.refused_of_insert hinsert⟩
  · cases (insert_of_ok hroom hinsert).symm.trans h

/-- A row or a group that is refused changes only the group of its key.  There the accumulators
before the one that fails have been changed, and the others have not. -/
theorem refusals_are_local :
    (∀ {record : Record} {fault : Fault} {table table' : GroupTable},
      (GroupTable.insert record).run table = (.error fault, table') →
        GroupTable.Refused record fault table table') ∧
    (∀ {record : Record} {fault : Fault} {s s₁ s' : SpillingTable} {disk middle after : Disk},
      makeRoom.run (s, disk) = (.ok (), s₁, middle) →
      (insert record).run (s, disk) = (.error fault, s', after) →
        s' = { s₁ with table := s'.table } ∧ after = middle ∧
          GroupTable.Refused record fault s₁.table s'.table) ∧
    (∀ {group : Group} {fault : Fault} {table table' : GroupTable},
      (GroupTable.merge group).run table = (.error fault, table') →
        GroupTable.RefusedGroup group fault table table') :=
  ⟨GroupTable.refused_of_insert, refused_of_insert, GroupTable.refusedGroup_of_merge⟩

/-- A count and a sum of one row. -/
def heldTable : GroupTable :=
  ((GroupTable.insert [.int 1, .int 10]).run (.new Family.Reaches.smallGrouping 10)).2

/-- A count that can be merged, and a minimum in place of a sum. -/
def strangeGroup : Group := ⟨[.int 1], [.count 1 false, .least none]⟩

theorem exists_merge_strangeGroup :
    ∃ fault, ((GroupTable.merge strangeGroup).run heldTable).1 = .error fault := by
  have hfails : ((GroupTable.merge strangeGroup).run heldTable).1 ≠ .ok () := by decide +kernel
  cases hresult : ((GroupTable.merge strangeGroup).run heldTable).1 with
  | error fault => exact ⟨fault, rfl⟩
  | ok _ => exact absurd hresult hfails

/-- A text is counted although it cannot be added up, also where there was no group before. -/
theorem refusals_are_local_text :
    GroupTable.Refused [.int 1, .text "x"] (.notSummable .utf8) heldTable
        ((GroupTable.insert [.int 1, .text "x"]).run heldTable).2 ∧
      GroupTable.Refused [.int 2, .text "x"] (.notSummable .utf8) heldTable
        ((insert [.int 2, .text "x"]).run
          (⟨heldTable, .inDirectory "/tmp", [], 1, 0, false⟩, .empty)).2.1.table ∧
      ∃ fault, GroupTable.RefusedGroup strangeGroup fault heldTable
        ((GroupTable.merge strangeGroup).run heldTable).2 := by
  obtain ⟨hinsert, hspilling, hmerge⟩ := refusals_are_local
  obtain ⟨fault, hfault⟩ := exists_merge_strangeGroup
  have hroom : makeRoom.run (⟨heldTable, .inDirectory "/tmp", [], 1, 0, false⟩, .empty) =
      (.ok (), ⟨heldTable, .inDirectory "/tmp", [], 1, 0, false⟩, .empty) := rfl
  refine ⟨hinsert (Prod.ext ?_ rfl), (hspilling hroom (Prod.ext ?_ rfl)).2.2, fault,
    hmerge (Prod.ext hfault rfl)⟩
  · decide +kernel
  · decide +kernel

/-- So what was there before is not what is there after a row or a group is refused. -/
theorem refused_row_leaves_traces :
    (¬∀ record fault table, (GroupTable.insert record).run heldTable = (.error fault, table) →
      ∀ key, table.groups.get? key = heldTable.groups.get? key) ∧
    ¬∀ group fault table, (GroupTable.merge group).run heldTable = (.error fault, table) →
      ∀ key, table.groups.get? key = heldTable.groups.get? key := by
  constructor
  · intro hsame
    have hrefused : ((GroupTable.insert [.int 1, .text "x"]).run heldTable).1 =
        .error (.notSummable .utf8) := by
      decide +kernel
    have hcounted : (((GroupTable.insert [.int 1, .text "x"]).run heldTable).2.groups.get?
        [.int 1]) ≠ heldTable.groups.get? [.int 1] := by
      decide +kernel
    exact hcounted (hsame _ _ _ (Prod.ext hrefused rfl) _)
  · intro hsame
    obtain ⟨fault, hfault⟩ := exists_merge_strangeGroup
    have hmerged : ((GroupTable.merge strangeGroup).run heldTable).2.groups.get? [.int 1] ≠
        heldTable.groups.get? [.int 1] := by
      decide +kernel
    exact hmerged (hsame _ _ _ (Prod.ext hfault rfl) _)

end SpillingTable
end ExtentEngine
