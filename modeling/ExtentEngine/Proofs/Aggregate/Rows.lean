import ExtentEngine.Proofs.Aggregate.Exact
import ExtentEngine.Proofs.Aggregate.Table
import Mathlib.Data.List.Dedup

/-!
# The rows of groups

A group is made from rows of its key, and each of its accumulators summarizes all of them.
Parts of groups represent some rows if every key has the rows of that key, in any order.

**Results.**
* `Grouping.mergeable`: groups of one key are merged into the group of all their rows.
* `GroupTable.exists_insert` and `GroupTable.admits_of_insert`: a row is added to its group
  if and only if its inputs are admitted.
* `Grouping.Represents.finish`: finished groups are the records of the rows.
-/

namespace ExtentEngine

namespace Grouping

/-- The rows of a key. -/
def rowsOf (grouping : Grouping) (key : List Scalar) (rows : List Record) : List Record :=
  rows.filter (·.keyValues grouping.keys = key)

/-- A group that was made from some rows of its key. -/
structure Makes (grouping : Grouping) (group : Group) (rows : List Record) : Prop where
  nonempty : rows ≠ []
  key : ∀ record ∈ rows, record.keyValues grouping.keys = group.key
  states : List.Forall₂ (fun aggregate state => aggregate.Summarizes rows state)
    grouping.aggregates group.states

/-- Groups that were made from some rows. -/
structure Represents (grouping : Grouping) (parts : List (Part Record)) (rows : List Record) :
    Prop where
  made : ∀ part ∈ parts, grouping.Makes part.1 part.2
  rows : ∀ key, (partAt key parts).Perm (grouping.rowsOf key rows)

/-- The records of some rows: for each key that one of the rows has, the key values and the
values of the aggregates over all rows of the key. -/
def recordsOver (grouping : Grouping) (rows : List Record) : List Record :=
  (rows.map (·.keyValues grouping.keys)).dedup.map fun key =>
    key ++ grouping.aggregates.map (·.valueOver (grouping.rowsOf key rows))

/-- A row brings no floats to the sums of a grouping. -/
def FloatFree (grouping : Grouping) (record : Record) : Prop :=
  ∀ aggregate ∈ grouping.aggregates, aggregate.FloatFree record

/-- The inputs of a row can be taken by all aggregates of a grouping. -/
def Admits (grouping : Grouping) (record : Record) : Prop :=
  ∀ aggregate ∈ grouping.aggregates, aggregate.Admits record

/-- The most rows of a group that can be told apart by counting. -/
def mostRows : Nat := 2 ^ 63 - 1

variable {grouping : Grouping} {aggregates : List Aggregate} {states others : List Accumulator}
  {rows rows' : List Record} {record : Record} {parts : List (Part Record)}

section MergeEach

theorem exists_mergeEach
    (h : List.Forall₂ (fun aggregate state => aggregate.Summarizes rows state) aggregates states)
    (h' : List.Forall₂ (fun aggregate state => aggregate.Summarizes rows' state) aggregates others)
    (hlength : rows.length + rows'.length ≤ mostRows) :
    ∃ merged, Accumulator.mergeEach states others = (.ok (), merged) ∧
      List.Forall₂ (fun aggregate state => aggregate.Summarizes (rows ++ rows') state) aggregates
        merged := by
  induction h generalizing others with
  | nil =>
      cases h'
      exact ⟨[], rfl, .nil⟩
  | cons hstate _ ih =>
      cases h' with
      | cons hother hothers =>
          obtain ⟨merged, hmerged, hsummarizes⟩ :=
            hstate.merge hother (Nat.lt_of_le_of_lt hlength (by decide))
          obtain ⟨rest, hrest, hall⟩ := ih hothers
          refine ⟨merged :: rest, ?_, .cons hsummarizes hall⟩
          rw [Accumulator.mergeEach, hmerged]
          simp only [hrest]

/-- Groups of one key are merged into the group of all their rows. -/
theorem mergeable (grouping : Grouping) : Mergeable grouping.Makes mostRows := by
  intro group other first last hgroup hother hkey hlength
  rw [Nat.add_comm] at hlength
  obtain ⟨merged, hmerged, hstates⟩ := exists_mergeEach hother.states hgroup.states hlength
  have hcount : other.states.length = group.states.length :=
    hother.states.length_eq.symm.trans hgroup.states.length_eq
  refine ⟨merged, ?_, ?_, ?_, ?_⟩
  · rw [Step.run, Accumulator.mergeAll, if_pos hcount, hmerged]
  · exact fun hnil => hgroup.nonempty (List.append_eq_nil_iff.1 hnil).1
  · exact List.forall_mem_append.2
      ⟨hgroup.key, fun row hrow => (hother.key row hrow).trans hkey.symm⟩
  · exact hstates.imp fun _ _ h => h.perm List.perm_append_comm

end MergeEach

section UpdateEach

theorem exists_updateEach
    (h : List.Forall₂ (fun aggregate state => aggregate.Summarizes rows state) aggregates states)
    (hadmits : ∀ aggregate ∈ aggregates, aggregate.Admits record)
    (hlength : rows.length + 1 ≤ mostRows) :
    ∃ updated, GroupTable.updateEach (.ofLeft record) states aggregates = (.ok (), updated) ∧
      List.Forall₂ (fun aggregate state => aggregate.Summarizes (rows ++ [record]) state) aggregates
        updated := by
  induction h with
  | nil => exact ⟨[], rfl, .nil⟩
  | cons hstate _ ih =>
      obtain ⟨⟨inputs, hinputs, hsummable⟩, hadmits⟩ := List.forall_mem_cons.1 hadmits
      obtain ⟨updated, hupdated, hsummarizes⟩ :=
        hstate.update hinputs hsummable (Nat.lt_of_le_of_lt hlength (by decide))
      obtain ⟨rest, hrest, hall⟩ := ih hadmits
      refine ⟨updated :: rest, ?_, .cons hsummarizes hall⟩
      rw [GroupTable.updateEach, hinputs]
      simp only [hupdated, hrest]

/-- A row that accumulators take is admitted, if it brings no floats. -/
theorem admits_of_updateEach
    (h : List.Forall₂ (fun aggregate state => aggregate.Summarizes rows state) aggregates states)
    (hfloat : ∀ aggregate ∈ aggregates, aggregate.FloatFree record)
    (hok : (GroupTable.updateEach (.ofLeft record) states aggregates).1 = .ok ()) :
    ∀ aggregate ∈ aggregates, aggregate.Admits record := by
  induction h with
  | nil => exact nofun
  | @cons aggregate state aggregates states hstate _ ih =>
      obtain ⟨hfirst, hrest⟩ := List.forall_mem_cons.1 hfloat
      rw [GroupTable.updateEach] at hok
      cases hinputs : aggregate.evaluateInputs (.ofLeft record) with
      | error fault =>
          rw [hinputs] at hok
          cases hok
      | ok inputs =>
          rw [hinputs] at hok
          simp only at hok
          split at hok
          · cases hok
          · next hupdated =>
              refine List.forall_mem_cons.2 ⟨⟨inputs, hinputs, fun hsum => ?_⟩, ih hrest hok⟩
              exact hstate.summable_of_update hinputs hfirst hsum (congrArg Prod.fst hupdated)

end UpdateEach

theorem summarizes_start (hexact : ∀ aggregate ∈ grouping.aggregates, aggregate.isExact = true) :
    List.Forall₂ (fun aggregate state => aggregate.Summarizes [] state) grouping.aggregates
      grouping.start := by
  refine List.forall₂_map_right_iff.2 (List.forall₂_same.2 fun aggregate haggregate => ?_)
  exact Aggregate.summarizes_start (hexact aggregate haggregate)

/-- The accumulators of a key, or those of a new group. -/
theorem summarizes_get (hexact : ∀ aggregate ∈ grouping.aggregates, aggregate.isExact = true)
    (hnodup : (keysOf parts).Nodup) (hmade : ∀ part ∈ parts, grouping.Makes part.1 part.2)
    (key : List Scalar) :
    List.Forall₂ (fun aggregate state => aggregate.Summarizes (partAt key parts) state)
      grouping.aggregates ((Groups.get? (groupsOf parts) key).getD grouping.start) := by
  cases hget : Groups.get? (groupsOf parts) key with
  | none =>
      rw [← map_key_groupsOf] at hnodup
      have hkey : key ∉ keysOf parts := by
        rw [← map_key_groupsOf]
        exact Groups.get?_eq_none_iff.1 hget
      rw [partAt_of_notMem hkey]
      exact summarizes_start hexact
  | some states =>
      obtain ⟨there, hmem, hthere⟩ := exists_part hnodup hget
      rw [hthere]
      exact (hmade _ hmem).states

namespace Represents

/-- No group has more rows than there are. -/
theorem length_le (h : grouping.Represents parts rows) (key : List Scalar) :
    (partAt key parts).length ≤ rows.length := by
  rw [(h.rows key).length_eq]
  exact List.length_filter_le _ _

theorem nil (grouping : Grouping) : grouping.Represents [] [] :=
  ⟨nofun, fun _ => .refl _⟩

theorem perm (h : grouping.Represents parts rows) (hperm : rows.Perm rows') :
    grouping.Represents parts rows' :=
  ⟨h.made, fun key => (h.rows key).trans (hperm.filter _)⟩

/-- What is kept for every key represents the same rows. -/
theorem of_kept {parts' : List (Part Record)} (h : grouping.Represents parts rows)
    (hmade : ∀ part ∈ parts', grouping.Makes part.1 part.2)
    (hkept : ∀ key, (partAt key parts').Perm (partAt key parts)) :
    grouping.Represents parts' rows :=
  ⟨hmade, fun key => (hkept key).trans (h.rows key)⟩

theorem append {parts' : List (Part Record)} (h : grouping.Represents parts rows)
    (h' : grouping.Represents parts' rows') :
    grouping.Represents (parts ++ parts') (rows ++ rows') := by
  refine ⟨List.forall_mem_append.2 ⟨h.made, h'.made⟩, fun key => ?_⟩
  rw [partAt_append, rowsOf, List.filter_append]
  exact (h.rows key).append (h'.rows key)

/-- The keys of the groups are those of the rows. -/
theorem mem_keys (h : grouping.Represents parts rows) {key : List Scalar} :
    key ∈ keysOf parts ↔ key ∈ rows.map (·.keyValues grouping.keys) := by
  constructor
  · intro hkey
    obtain ⟨part, hpart, rfl⟩ := List.mem_map.1 hkey
    have hmade := h.made part hpart
    obtain ⟨record, hrecord⟩ := List.exists_mem_of_ne_nil _ hmade.nonempty
    have hmem : record ∈ partAt part.key parts :=
      List.mem_flatMap.2 ⟨part, List.mem_filter.2 ⟨hpart, decide_eq_true rfl⟩, hrecord⟩
    have hrow := (h.rows part.key).mem_iff.1 hmem
    exact List.mem_map.2 ⟨record, (List.mem_filter.1 hrow).1, hmade.key record hrecord⟩
  · intro hkey
    obtain ⟨record, hrecord, rfl⟩ := List.mem_map.1 hkey
    have hrow : record ∈ grouping.rowsOf (record.keyValues grouping.keys) rows :=
      List.mem_filter.2 ⟨hrecord, decide_eq_true rfl⟩
    by_contra hnot
    have hmem := (h.rows _).mem_iff.2 hrow
    rw [partAt_of_notMem hnot] at hmem
    cases hmem

/-- A finished group has the values of the aggregates over its rows. -/
theorem finish_part (h : grouping.Represents parts rows) (hnodup : (keysOf parts).Nodup)
    {part : Part Record} (hpart : part ∈ parts) :
    part.1.finish =
      part.key ++ grouping.aggregates.map (·.valueOver (grouping.rowsOf part.key rows)) := by
  have hstates := (h.made part hpart).states
  have hrows : part.2.Perm (grouping.rowsOf part.key rows) := by
    obtain ⟨before, after, rfl⟩ := List.append_of_mem hpart
    have hparts := h.rows part.key
    rw [keysOf_append, keysOf_cons] at hnodup
    obtain ⟨hbefore, -⟩ := List.nodup_cons.1 (List.nodup_middle.1 hnodup)
    rw [List.mem_append, not_or] at hbefore
    rw [partAt_append, partAt_cons, if_pos rfl, partAt_of_notMem hbefore.1,
      partAt_of_notMem hbefore.2, List.append_nil] at hparts
    exact hparts
  rw [Group.finish]
  refine congrArg (part.1.key ++ ·) (List.forall₂_eq_eq_eq ▸ ?_)
  rw [List.forall₂_map_left_iff, List.forall₂_map_right_iff]
  exact hstates.flip.imp fun _ _ hstate =>
    Aggregate.Summarizes.finish (Aggregate.Summarizes.perm hstate hrows)

/-- Finished groups are the records of the rows, if each key has one group. -/
theorem finish (h : grouping.Represents parts rows) (hnodup : (keysOf parts).Nodup) :
    (Groups.finish (groupsOf parts)).Perm (grouping.recordsOver rows) := by
  have hkeys : (keysOf parts).Perm (rows.map (·.keyValues grouping.keys)).dedup :=
    (List.perm_ext_iff_of_nodup hnodup (List.nodup_dedup _)).2 fun key => by
      rw [List.mem_dedup, h.mem_keys]
  have hfinish : Groups.finish (groupsOf parts) = (keysOf parts).map fun key =>
      key ++ grouping.aggregates.map (·.valueOver (grouping.rowsOf key rows)) := by
    rw [Groups.finish, groupsOf, keysOf, List.map_map, List.map_map]
    exact List.map_congr_left fun part hpart => h.finish_part hnodup hpart
  rw [hfinish]
  exact hkeys.map _

end Represents
end Grouping

namespace GroupTable

variable {table : GroupTable} {record : Record} {parts : List (Part Record)}

/-- A row whose inputs are admitted is added to its group. -/
theorem exists_insert (hexact : ∀ aggregate ∈ table.grouping.aggregates, aggregate.isExact = true)
    (htable : table.groups = groupsOf parts) (hsorted : Groups.Sorted (groupsOf parts))
    (hmade : ∀ part ∈ parts, table.grouping.Makes part.1 part.2)
    (hadmits : table.grouping.Admits record)
    (hlength : (partAt (record.keyValues table.grouping.keys) parts).length + 1 ≤
      Grouping.mostRows) :
    ∃ parts', (insert record).run table = (.ok (), { table with groups := groupsOf parts' }) ∧
      Groups.Sorted (groupsOf parts') ∧
      (∀ part ∈ parts', table.grouping.Makes part.1 part.2) ∧
      ∀ key, (partAt key parts').Perm
        (partAt key parts ++ table.grouping.rowsOf key [record]) := by
  have hstates := Grouping.summarizes_get hexact (nodup_of_sorted hsorted) hmade
    (record.keyValues table.grouping.keys)
  obtain ⟨updated, hupdated, hall⟩ := Grouping.exists_updateEach hstates hadmits hlength
  obtain ⟨parts', hput, hsorted', hperm⟩ := exists_put hsorted
    (⟨record.keyValues table.grouping.keys, updated⟩,
      partAt (record.keyValues table.grouping.keys) parts ++ [record])
  refine ⟨parts', ?_, hsorted', forall_put hperm ⟨?_, ?_, hall⟩ hmade, fun key => ?_⟩
  · rw [Step.run, insert, htable, hupdated, ← hput]
  · exact List.append_ne_nil_of_right_ne_nil _ (List.cons_ne_nil _ _)
  · refine List.forall_mem_append.2 ⟨fun row hrow => ?_, List.forall_mem_singleton.2 rfl⟩
    obtain ⟨part, hpart, hrow⟩ := List.mem_flatMap.1 hrow
    obtain ⟨hpart, hkey⟩ := List.mem_filter.1 hpart
    exact ((hmade part hpart).key row hrow).trans (of_decide_eq_true hkey)
  · have hrow : table.grouping.rowsOf key [record] =
        if record.keyValues table.grouping.keys = key then [record] else [] := by
      rw [Grouping.rowsOf, List.filter_cons, List.filter_nil]
      simp only [decide_eq_true_eq]
    rw [hrow]
    exact perm_partAt_put hperm (.refl _) key

/-- A row that is added without floats is admitted. -/
theorem admits_of_insert
    (hexact : ∀ aggregate ∈ table.grouping.aggregates, aggregate.isExact = true)
    (htable : table.groups = groupsOf parts) (hsorted : Groups.Sorted (groupsOf parts))
    (hmade : ∀ part ∈ parts, table.grouping.Makes part.1 part.2)
    (hfloat : table.grouping.FloatFree record) (hok : ((insert record).run table).1 = .ok ()) :
    table.grouping.Admits record := by
  have hstates := Grouping.summarizes_get hexact (nodup_of_sorted hsorted) hmade
    (record.keyValues table.grouping.keys)
  rw [← htable] at hstates
  exact Grouping.admits_of_updateEach hstates hfloat hok

end GroupTable
end ExtentEngine
