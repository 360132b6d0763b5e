import ExtentEngine.Proofs.Aggregate.Kinds
import Mathlib.Data.List.Perm.Subperm

/-!
# Groups of a grouping

A group conforms to a grouping if it has as many key values and one accumulator per aggregate, of
the kind that the aggregate starts with.  The groups of a table conform to its grouping, whether
or not rows could be added to it and other groups be merged into it.

**Results.**
* `GroupTable.grown_insert`: what becomes of a table when a row is added to it, even if that fails.
* `GroupTable.absorb_spec`: what becomes of it when groups are merged into it.
-/

namespace ExtentEngine

/-- A group with the key values and the accumulators of a grouping. -/
structure Group.Conforms (grouping : Grouping) (group : Group) : Prop where
  key : group.key.length = grouping.keys.length
  states : group.states.map Accumulator.kind = grouping.start.map Accumulator.kind

namespace Groups

/-- The keys of some groups. -/
abbrev keys (groups : List Group) : List (List Scalar) := groups.map Group.key

/-- The largest total of each group, added up. -/
def weight (groups : List Group) : Nat :=
  (groups.map fun group => Accumulator.largest group.states).sum

variable {grouping : Grouping} {groups middle after others : List Group} {group : Group}
  {key : List Scalar} {states : List Accumulator} {limit limit' : Nat}
  {added added' : List (List Scalar)}

@[simp]
theorem weight_cons (group : Group) (groups : List Group) :
    weight (group :: groups) = Accumulator.largest group.states + weight groups := rfl

theorem weight_append (groups others : List Group) :
    weight (groups ++ others) = weight groups + weight others := by
  rw [weight, List.map_append, List.sum_append]
  rfl

theorem weight_perm (h : groups.Perm others) : weight groups = weight others :=
  (h.map _).sum_eq

/-- The group of a key and the others have the weight of all. -/
theorem weight_of_get? (hnodup : (keys groups).Nodup) (h : get? groups key = some states) :
    weight groups = Accumulator.largest states + weight (erase groups key) :=
  weight_perm (perm_of_get? hnodup h)

theorem weight_put (h : Sorted groups) (key : List Scalar) (states : List Accumulator) :
    weight (put ⟨key, states⟩ groups) =
      Accumulator.largest states + weight (erase groups key) :=
  weight_perm (put_perm h ⟨key, states⟩)

/-- What becomes of groups to which others were added: they stay in order, there are only the
keys of either, and they have gained no more weight than a limit. -/
structure Grown (grouping : Grouping) (limit : Nat) (added : List (List Scalar))
    (groups after : List Group) : Prop where
  sorted : Sorted after
  conforms : ∀ group ∈ after, group.Conforms grouping
  keys : keys after ⊆ added ++ keys groups
  weight : weight after ≤ weight groups + limit

theorem Grown.refl (hsorted : Sorted groups) (hconforms : ∀ group ∈ groups, group.Conforms grouping)
    (limit : Nat) (added : List (List Scalar)) : Grown grouping limit added groups groups :=
  ⟨hsorted, hconforms, List.subset_append_right _ _, Nat.le_add_right _ _⟩

theorem Grown.mono (h : Grown grouping limit added groups after) (hlimit : limit ≤ limit')
    (hadded : added ⊆ added') : Grown grouping limit' added' groups after where
  sorted := h.sorted
  conforms := h.conforms
  keys := List.Subset.trans h.keys (List.append_subset.2
    ⟨List.subset_append_of_subset_left _ hadded, List.subset_append_right _ _⟩)
  weight := Nat.le_trans h.weight (Nat.add_le_add_left hlimit _)

theorem Grown.trans (h : Grown grouping limit added groups middle)
    (h' : Grown grouping limit' added' middle after) :
    Grown grouping (limit + limit') (added ++ added') groups after where
  sorted := h'.sorted
  conforms := h'.conforms
  keys := by
    intro key hkey
    rcases List.mem_append.1 (h'.keys hkey) with hadded | hmiddle
    · exact List.mem_append_left _ (List.mem_append_right _ hadded)
    · rw [List.append_assoc]
      rcases List.mem_append.1 (h.keys hmiddle) with hadded | hgroups
      · exact List.mem_append_left _ hadded
      · exact List.mem_append_right _ (List.mem_append_right _ hgroups)
  weight := by
    have hweight := h.weight
    have hweight' := h'.weight
    omega

/-- There are no more groups than keys. -/
theorem Grown.length_le (h : Grown grouping limit added groups after)
    {others : List (List Scalar)}
    (hothers : ∀ key ∈ added, key ∉ Groups.keys groups → key ∈ others) :
    after.length ≤ groups.length + others.length := by
  have hsub : Groups.keys after ⊆ Groups.keys groups ++ others := by
    intro key hkey
    by_cases hmem : key ∈ Groups.keys groups
    · exact List.mem_append_left _ hmem
    · rcases List.mem_append.1 (h.keys hkey) with hadded | hgroups
      · exact List.mem_append_right _ (hothers key hadded hmem)
      · exact absurd hgroups hmem
  have hle := (h.sorted.nodup.subperm hsub).length_le
  simpa only [Groups.keys, List.length_append, List.length_map] using hle

/-- A group is put in place of the one with its key. -/
theorem grown_put (hsorted : Sorted groups) (hconforms : ∀ group ∈ groups, group.Conforms grouping)
    (hkey : key.length = grouping.keys.length)
    (hkinds : states.map Accumulator.kind = grouping.start.map Accumulator.kind)
    (hlargest : Accumulator.largest states ≤
      (get? groups key).elim 0 Accumulator.largest + limit) :
    Grown grouping limit [key] groups (put ⟨key, states⟩ groups) where
  sorted := sorted_put hsorted _
  conforms other hother := by
    rcases List.mem_cons.1 ((put_perm hsorted _).mem_iff.1 hother) with rfl | hmem
    · exact ⟨hkey, hkinds⟩
    · exact hconforms other (List.mem_filter.1 hmem).1
  keys other hother := by
    obtain ⟨group, hgroup, rfl⟩ := List.mem_map.1 hother
    rcases List.mem_cons.1 ((put_perm hsorted _).mem_iff.1 hgroup) with rfl | hmem
    · exact List.mem_cons_self
    · exact List.mem_cons_of_mem _ (List.mem_map_of_mem (List.mem_filter.1 hmem).1)
  weight := by
    rw [weight_put hsorted]
    cases hget : get? groups key with
    | none =>
        rw [hget, Option.elim_none] at hlargest
        rw [erase_of_notMem (get?_eq_none_iff.1 hget)]
        omega
    | some there =>
        rw [hget, Option.elim_some] at hlargest
        rw [weight_of_get? hsorted.nodup hget]
        omega

theorem conforms_of_get? (hnodup : (keys groups).Nodup)
    (hconforms : ∀ group ∈ groups, group.Conforms grouping) (h : get? groups key = some states) :
    Group.Conforms grouping ⟨key, states⟩ :=
  hconforms _ ((perm_of_get? hnodup h).mem_iff.2 List.mem_cons_self)

/-- A group is merged into the one with its key, unless a total overflows. -/
theorem merge_spec (hsorted : Sorted groups)
    (hconforms : ∀ group ∈ groups, group.Conforms grouping) (hgroup : group.Conforms grouping) :
    Grown grouping (Accumulator.largest group.states) [group.key] groups
        ((merge group).run groups).2 ∧
      FailsByOverflow (weight groups + Accumulator.largest group.states)
        ((merge group).run groups).1 := by
  cases hget : get? groups group.key with
  | none =>
      have hrun : (merge group).run groups = (.ok (), put group groups) := by
        rw [Step.run, merge, hget]
      rw [hrun]
      exact ⟨grown_put hsorted hconforms hgroup.key hgroup.states (Nat.le_add_left _ _),
        failsByOverflow_ok _ _⟩
  | some states =>
      have hrun : (merge group).run groups = (((Accumulator.mergeAll group.states).run states).1,
          put ⟨group.key, ((Accumulator.mergeAll group.states).run states).2⟩ groups) := by
        rw [Step.run, merge, hget]
      have hkinds : states.map Accumulator.kind = grouping.start.map Accumulator.kind :=
        (conforms_of_get? hsorted.nodup hconforms hget).states
      have hgrows := Accumulator.grows_mergeAll states group.states
      rw [hrun]
      refine ⟨grown_put hsorted hconforms hgroup.key
        ((Accumulator.kinds_of_grows hgrows).trans hkinds) ?_, ?_⟩
      · rw [hget]
        exact Accumulator.largest_of_grows hgrows
      · refine (Accumulator.mergeAll_fails (hkinds.trans hgroup.states.symm)).mono ?_
        rw [weight_of_get? hsorted.nodup hget]
        omega

/-- Groups are merged into others one after the other, up to the overflow of a total. -/
theorem mergeEach_spec (hsorted : Sorted groups)
    (hconforms : ∀ group ∈ groups, group.Conforms grouping)
    (hothers : ∀ group ∈ others, group.Conforms grouping) :
    Grown grouping (weight others) (keys others) groups
        ((Step.forEach merge others).run groups).2 ∧
      FailsByOverflow (weight groups + weight others)
        ((Step.forEach merge others).run groups).1 := by
  induction others generalizing groups with
  | nil => exact ⟨.refl hsorted hconforms _ _, failsByOverflow_ok _ _⟩
  | cons group others ih =>
      obtain ⟨hgroup, hothers⟩ := List.forall_mem_cons.1 hothers
      obtain ⟨hgrown, hfails⟩ := merge_spec hsorted hconforms hgroup
      rcases hmerge : (merge group).run groups with ⟨result, middle⟩
      rw [hmerge] at hgrown hfails
      rw [Step.forEach, Step.run_bind, hmerge, weight_cons]
      cases result with
      | error fault =>
          refine ⟨hgrown.mono (Nat.le_add_right _ _) ?_, hfails.mono (by omega)⟩
          exact List.cons_subset_cons _ (List.nil_subset _)
      | ok _ =>
          obtain ⟨hgrown', hfails'⟩ := ih hgrown.sorted hgrown.conforms hothers
          have hweight : weight middle ≤ weight groups + Accumulator.largest group.states :=
            hgrown.weight
          refine ⟨hgrown.trans hgrown', hfails'.mono ?_⟩
          rw [← Nat.add_assoc]
          exact Nat.add_le_add_right hweight _

end Groups

theorem Grouping.largest_start (grouping : Grouping) :
    Accumulator.largest grouping.start = 0 := by
  refine Nat.le_zero.1 (Accumulator.largest_le fun state hstate => ?_)
  obtain ⟨aggregate, -, rfl⟩ := List.mem_map.1 hstate
  rw [Aggregate.start]
  cases aggregate.function <;> exact Nat.le_refl 0

namespace GroupTable

open Groups

variable {table : GroupTable} {groups : List Group}

theorem grows_updateEach (binding : Binding) (states : List Accumulator)
    (aggregates : List Aggregate) :
    List.Forall₂ (Accumulator.Grows (2 ^ 63)) states (updateEach binding states aggregates).2 := by
  induction states generalizing aggregates with
  | nil => cases aggregates <;> exact .nil
  | cons state states ih =>
      cases aggregates with
      | nil => exact Accumulator.grows_self _ _
      | cons aggregate aggregates =>
          rw [updateEach]
          split
          · exact Accumulator.grows_self _ _
          · next inputs _ =>
              have hfirst := Accumulator.grows_update inputs state
              split
              · next hupdate =>
                  rw [hupdate] at hfirst
                  exact .cons hfirst (Accumulator.grows_self _ _)
              · next hupdate =>
                  rw [hupdate] at hfirst
                  exact .cons hfirst (ih aggregates)

/-- The accumulators of the key of a row after the row was added to them, up to a failure. -/
def statesAfter (table : GroupTable) (record : Record) : List Accumulator :=
  (updateEach (.ofLeft record)
    ((table.groups.get? (record.keyValues table.grouping.keys)).getD table.grouping.start)
    table.grouping.aggregates).2

theorem groups_insert (table : GroupTable) (record : Record) :
    ((insert record).run table).2 = { table with
      groups := put ⟨record.keyValues table.grouping.keys, table.statesAfter record⟩
        table.groups } := rfl

/-- What becomes of the groups of a table when a row is added to it, even if that fails. -/
theorem grown_insert (hsorted : Sorted table.groups)
    (hconforms : ∀ group ∈ table.groups, group.Conforms table.grouping) (record : Record) :
    Grown table.grouping (2 ^ 63) [record.keyValues table.grouping.keys] table.groups
      ((insert record).run table).2.groups := by
  have hgrows : List.Forall₂ _ _ (table.statesAfter record) := grows_updateEach _ _ _
  have hlargest := Accumulator.largest_of_grows hgrows
  have hkinds := Accumulator.kinds_of_grows hgrows
  have hkey := Record.length_keyValues record table.grouping.keys
  rw [groups_insert]
  cases hget : table.groups.get? (record.keyValues table.grouping.keys) with
  | none =>
      rw [hget, Option.getD_none] at hlargest hkinds
      rw [Grouping.largest_start] at hlargest
      refine grown_put hsorted hconforms hkey hkinds ?_
      rw [hget]
      exact hlargest
  | some states =>
      rw [hget, Option.getD_some] at hlargest hkinds
      have hstates := conforms_of_get? hsorted.nodup hconforms hget
      refine grown_put hsorted hconforms hkey (hkinds.trans hstates.states) ?_
      rw [hget]
      exact hlargest

/-- A table has a group of the key of a row that was added to it, even if that failed. -/
theorem mem_keys_insert (hsorted : Sorted table.groups) (record : Record) :
    record.keyValues table.grouping.keys ∈ keys ((insert record).run table).2.groups := by
  rw [groups_insert]
  exact List.mem_map_of_mem ((put_perm hsorted _).mem_iff.2 List.mem_cons_self)

theorem absorb_eq (others : List Group) (table : GroupTable) :
    (absorb others).run table = (((Step.forEach Groups.merge others).run table.groups).1,
      { table with groups := ((Step.forEach Groups.merge others).run table.groups).2 }) := by
  induction others generalizing table with
  | nil => rfl
  | cons group others ih =>
      rcases hmerge : (Groups.merge group).run table.groups with ⟨result, middle⟩
      have hstep : (merge group).run table = (result, { table with groups := middle }) := by
        rw [Step.run, merge, hmerge]
      rw [absorb, Step.forEach, Step.forEach, Step.run_bind, Step.run_bind, hstep, hmerge]
      cases result with
      | error fault => rfl
      | ok _ => exact ih _

/-- Groups that are merged into a table, up to the overflow of a total, are as many more as have no
group in the table yet. -/
theorem absorb_spec {others : List Group} (hsorted : Sorted table.groups)
    (hconforms : ∀ group ∈ table.groups, group.Conforms table.grouping)
    (hothers : ∀ group ∈ others, group.Conforms table.grouping) :
    Grown table.grouping (weight others) (keys others) table.groups
        ((absorb others).run table).2.groups ∧
      FailsByOverflow (weight table.groups + weight others) ((absorb others).run table).1 ∧
      ((absorb others).run table).2.groups.length ≤ table.size + table.countNew others := by
  obtain ⟨hgrown, hfails⟩ := mergeEach_spec hsorted hconforms hothers
  rw [absorb_eq]
  refine ⟨hgrown, hfails, ?_⟩
  have hnew := hgrown.length_le fun key hkey hnot => by
    obtain ⟨group, hgroup, rfl⟩ := List.mem_map.1 hkey
    have hkeys : group.key ∈ keys (others.filter fun group => !table.contains group.key) := by
      refine List.mem_map_of_mem (List.mem_filter.2 ⟨hgroup, ?_⟩)
      rw [contains, get?_eq_none_iff.2 hnot]
      rfl
    exact hkeys
  rw [List.length_map, ← List.countP_eq_length_filter] at hnew
  exact hnew

end GroupTable
end ExtentEngine
