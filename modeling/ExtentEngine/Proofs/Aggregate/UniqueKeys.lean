import ExtentEngine.Proofs.Aggregate.Arising

/-!
# The keys that tables emit

A table that is marked as consolidated is rendered as it is, so the mark has to be valid: there must
be nothing in memory beside the files, and no key in two of them.  A row that cannot be added leaves
the mark although it may have left a group, and so the mark is valid as long as such rows are
offered only to tables that are not marked, or that have no files and room for another group.

**Results.**
* `settled_insert_iff`: which tables keep a valid mark when a row cannot be added to them.
* `Arises.renders_held`: a table emits each key that it holds once, if no other tables were
  offered rows that could not be added.
* `refused_row_is_lost`: otherwise a table may hold a key that it does not emit.
-/

namespace ExtentEngine

open SpillingTable Groups

namespace SpillingTable

/-- The keys of the groups in memory and in the files. -/
def heldKeys (disk : Disk) (s : SpillingTable) : List (List Scalar) :=
  keys s.table.groups ++ s.spills.flatMap fun file =>
    match file.read disk with
    | .ok groups => keys groups
    | .error _ => []

variable {disk after : Disk} {s s' : SpillingTable} {contents : List (List Group)}

theorem flatMap_keys {files : List SpillFile} (h : FilesStore disk files contents) :
    (files.flatMap fun file =>
      match file.read disk with
      | .ok groups => keys groups
      | .error _ => []) = keys contents.flatten := by
  induction h with
  | nil => rfl
  | cons hfile _ ih =>
      rw [List.flatMap_cons, ih, hfile.read, List.flatten_cons]
      exact List.map_append.symm

theorem Stores.heldKeys_perm (h : s.Stores disk contents) :
    (heldKeys disk s).Perm (keys (groupsWith s contents)) := by
  rw [heldKeys, flatMap_keys h.files, groupsWith, keys, keys, keys, List.map_append]
  exact List.perm_append_comm

/-- What a table is after a row could not be added for which there was room. -/
theorem eq_of_refused {record : Record} {fault : Fault} {middle : Disk} {s₁ : SpillingTable}
    (hroom : makeRoom.run (s, disk) = (.ok (), s₁, middle))
    (hrun : (insert record).run (s, disk) = (.error fault, s', after)) :
    s' = { s₁ with table := ((GroupTable.insert record).run s₁.table).2 } := by
  cases hresult : ((GroupTable.insert record).run s₁.table).1 with
  | ok _ => cases (insert_of_ok hroom (Prod.ext hresult rfl)).symm.trans hrun
  | error other =>
      cases (insert_of_error hroom (Prod.ext hresult rfl)).symm.trans hrun
      rfl

/-- A row that cannot be added leaves the mark of its table and a group in memory.  There are files
then, unless there were none before and there was room for the group. -/
theorem refused_row (h : s.Stores disk contents) {record : Record} {fault : Fault}
    (hrun : (insert record).run (s, disk) = (.error fault, s', after))
    (hfault : fault.isFileFailure = false) :
    s'.consolidated = s.consolidated ∧ s'.table.groups ≠ [] ∧
      (s'.spills = [] ↔ s.spills = [] ∧ s.table.isFull = false) := by
  have hgroup : ∀ {table : GroupTable}, Groups.Sorted table.groups →
      ((GroupTable.insert record).run table).2.groups ≠ [] := by
    intro table hsorted hnil
    have hmem := GroupTable.mem_keys_insert hsorted record
    rw [hnil] at hmem
    cases hmem
  cases hfull : s.table.isFull with
  | false =>
      obtain rfl := eq_of_refused (makeRoom_of_not_isFull hfull disk) hrun
      exact ⟨rfl, hgroup h.sorted, (and_iff_left rfl).symm⟩
  | true =>
      have hfiles : FilesWork (SpillingTable.spill.run (s, disk)).1 := by
        intro other hother
        rw [← makeRoom_of_isFull hfull] at hother
        cases (makeRoom_error hother).symm.trans (congrArg Prod.fst hrun)
        exact hfault
      rcases spill_cases h.sorted hfiles with ⟨hempty, -⟩ | ⟨-, file, middle, hspill, -⟩
      · have hcapacity : s.table.capacity ≤ s.table.groups.length := of_decide_eq_true hfull
        rw [hempty] at hcapacity
        exact absurd hcapacity (Nat.not_le.2 h.positive)
      · obtain rfl := eq_of_refused ((makeRoom_of_isFull hfull disk).trans hspill) hrun
        refine ⟨rfl, hgroup .nil, iff_of_false ?_ (fun hand => nomatch hand.2)⟩
        exact List.append_ne_nil_of_right_ne_nil _ (List.cons_ne_nil _ _)

end SpillingTable

namespace Grouping

/-- The key values of the records of finished groups. -/
def keysIn (grouping : Grouping) (records : List Record) : List (List Scalar) :=
  records.map (·.take grouping.keys.length)

theorem keysIn_finish {grouping : Grouping} {groups : List Group}
    (h : ∀ group ∈ groups, group.Conforms grouping) :
    grouping.keysIn (Groups.finish groups) = Groups.keys groups := by
  rw [keysIn, Groups.finish, List.map_map]
  refine List.map_congr_left fun group hgroup => ?_
  rw [Function.comp_apply, Group.finish, ← (h group hgroup).key, List.take_left']
  rfl

end Grouping

theorem Group.Conforms.length_finish {grouping : Grouping} {group : Group}
    (h : group.Conforms grouping) : group.finish.length = grouping.outputArity := by
  have hstates := congrArg List.length h.states
  rw [List.length_map, List.length_map, Grouping.start, List.length_map] at hstates
  rw [Group.finish, List.length_append, List.length_map, h.key, hstates, Grouping.outputArity]

namespace Family

variable {grouping : Grouping} {accounts : List Account} {disk after : Disk} {account : Account}
  {s s' : SpillingTable} {contents contents' : List (List Group)}

/-- A row that cannot be added leaves a valid mark if and only if the table tolerates such rows. -/
theorem settled_insert_iff (h : s.Stores disk contents) {record : Record} {fault : Fault}
    (hrun : (insert record).run (s, disk) = (.error fault, s', after))
    (hfault : fault.isFileFailure = false) : Settled s' contents' ↔ Tolerates s := by
  obtain ⟨hsame, hgroups, hspills⟩ := refused_row h hrun hfault
  rw [Settled, Tolerates, hsame, isSpilled_eq_false]
  constructor
  · intro hsettled hmarked
    by_contra hnot
    exact hgroups (hsettled hmarked fun hnone => hnot (hspills.1 hnone)).1
  · exact fun htolerates hmarked hne => absurd (hspills.2 (htolerates hmarked)) hne

/-- Groups of a grouping are emitted as they are. -/
theorem emitGroups_identity {groups : List Group} (h : ∀ group ∈ groups, group.Conforms grouping) :
    emitGroups (.identity grouping.outputArity) groups =
      ⟨Groups.finish groups, .ok groups.length⟩ := by
  refine emitGroups_emitted (List.forall₂_map_right_iff.2 (List.forall₂_same.2 ?_))
  intro group hgroup
  rw [← (h group hgroup).length_finish]
  exact Projection.evaluate_identity _

/-- If rows that cannot be added were offered only to tables that tolerate them, a table that is
marked as consolidated and has files has nothing in memory and no key in two files, and any table
emits each key that it holds, and each only once. -/
theorem Arises.renders_held (h : Arises grouping Tolerates accounts disk)
    (haccount : account ∈ accounts) :
    (account.table.consolidated = true → account.table.isSpilled = true →
      account.table.table.groups = [] ∧ (heldKeys disk account.table).Nodup) ∧
    ∀ count, (SpillingTable.render (.identity grouping.outputArity)
        (account.table, disk)).1.result = .ok count →
      (grouping.keysIn (SpillingTable.render (.identity grouping.outputArity)
        (account.table, disk)).1.rows).Nodup ∧
      ∀ key, key ∈ grouping.keysIn (SpillingTable.render (.identity grouping.outputArity)
          (account.table, disk)).1.rows ↔ key ∈ heldKeys disk account.table := by
  obtain ⟨contents, hkeeps⟩ := h.all.holds account haccount
  have hsettled := hkeeps.settled fun _ => id
  have hheld := hkeeps.stores.heldKeys_perm
  refine ⟨fun hmarked hspilled => ?_, fun count hok => ?_⟩
  · have hspills : account.table.spills ≠ [] := fun hnone => by
      rw [isSpilled_eq_false.2 hnone] at hspilled
      cases hspilled
    obtain ⟨hempty, hnodup⟩ := hsettled hmarked hspills
    rw [groupsWith, hempty, List.append_nil] at hheld
    exact ⟨hempty, hheld.nodup_iff.2 hnodup⟩
  · obtain ⟨result, table', after', contents', -, hmoves, hconsolidates, hfails, hemits⟩ :=
      hkeeps.stores.render (.identity grouping.outputArity) (by
        rw [hok]
        exact filesWork_ok count)
    cases result with
    | error fault => cases hok.symm.trans (hfails fault rfl)
    | ok _ =>
        have hgathers := hconsolidates.gathers hsettled rfl
        have hconforms : ∀ group ∈ groupsWith table' contents', group.Conforms grouping := by
          rw [← hkeeps.grouping, ← hmoves.settings.grouping]
          exact List.forall_mem_append.2 ⟨hmoves.stores.stored, hmoves.stores.conforms⟩
        rw [hemits hsettled rfl, emitGroups_identity hconforms, Grouping.keysIn_finish hconforms]
        exact ⟨hgathers.nodup, fun key => (hgathers.keys key).trans hheld.mem_iff.symm⟩

/-- A row that cannot be added is offered to a table that is not marked as consolidated, and the key
of its group is emitted. -/
theorem renders_held_small :
    [.int 3] ∈ Reaches.smallGrouping.keysIn (SpillingTable.render
      (.identity Reaches.smallGrouping.outputArity) (smallRefused.1, smallRefused.2)).1.rows := by
  have hunmarked : Reaches.smallFirst.1.consolidated = false := by decide +kernel
  have hrefused : Arises Reaches.smallGrouping Tolerates [⟨smallRefused.1, 1, 3⟩]
      smallRefused.2 := by
    refine arises_refused fun hmarked => ?_
    rw [hunmarked] at hmarked
    cases hmarked
  obtain ⟨hresult, hheld⟩ : (SpillingTable.render (.identity Reaches.smallGrouping.outputArity)
      (smallRefused.1, smallRefused.2)).1.result = .ok 3 ∧
        [.int 3] ∈ heldKeys smallRefused.2 smallRefused.1 := by
    decide +kernel
  -- What the table is made of is of no account to the rest.
  generalize smallRefused = state at hrefused hresult hheld ⊢
  exact (((hrefused.renders_held List.mem_cons_self).2 3 hresult).2 _).2 hheld

/-- Tables of two keys, consolidated. -/
def smallMarked : SpillingTable × Disk := (SpillingTable.consolidate.run Reaches.smallFirst).2

/-- A row that cannot be added is offered to them. -/
def smallLost : SpillingTable × Disk :=
  ((SpillingTable.insert [.int 3, .text "x"]).run smallMarked).2

theorem arises_marked :
    Arises Reaches.smallGrouping (fun _ => True) [⟨smallMarked.1, 1, 2⟩] smallMarked.2 := by
  have hmark : (SpillingTable.consolidate.run Reaches.smallFirst).1 = .ok () := by decide +kernel
  have hfirst := arises_small fun _ => True
  rw [smallMarked]
  generalize Reaches.smallFirst = state at hfirst hmark ⊢
  exact hfirst.consolidate (Prod.ext hmark rfl) (filesWork_ok ())

theorem arises_lost :
    Arises Reaches.smallGrouping (fun _ => True) [⟨smallLost.1, 1, 3⟩] smallLost.2 := by
  have hrefuse : ((SpillingTable.insert [.int 3, .text "x"]).run smallMarked).1 =
      .error (.notSummable .utf8) := by
    decide +kernel
  rw [smallLost]
  exact Arises.offer smallMarked arises_marked [.int 3, .text "x"] hrefuse
    (filesWork_notSummable _) fun _ => trivial

/-- A table that was offered a row that cannot be added after it was consolidated holds the key of
the row and does not emit it. -/
theorem refused_row_is_lost :
    Arises Reaches.smallGrouping (fun _ => True) [⟨smallLost.1, 1, 3⟩] smallLost.2 ∧
      (SpillingTable.render (.identity 3) smallLost).1.result = .ok 2 ∧
      [.int 3] ∈ heldKeys smallLost.2 smallLost.1 ∧
      [.int 3] ∉ Reaches.smallGrouping.keysIn
        (SpillingTable.render (.identity 3) smallLost).1.rows :=
  ⟨arises_lost, by decide +kernel⟩

end Family
end ExtentEngine
