import ExtentEngine.Aggregate.Table
import ExtentEngine.Proofs.Record.Order
import Mathlib.Data.List.Perm.Basic

/-!
# Groups in order

Groups are kept in strictly ascending order of their keys, so there is one group of a key at
most, and looking up a key, putting a group and erasing one act on that group alone.

**Results.**
* `get?_put`, `put_perm` and `sorted_put`: a group is put in place of the one with its key.
* `perm_of_get?`: a group that is found is one of the groups.
* `ofList_of_sorted`: groups in order are taken as they are.
-/

namespace ExtentEngine
namespace Groups

/-- The keys ascend. -/
def Sorted (groups : List Group) : Prop :=
  groups.Pairwise fun a b => Record.compare a.key b.key = .lt

variable {groups : List Group} {group : Group} {key : List Scalar}

theorem compare_ne_eq_of_lt {a b : Group} (h : Record.compare a.key b.key = .lt) :
    a.key ≠ b.key := by
  intro heq
  rw [heq, Record.compare_eq_iff.2 rfl] at h
  cases h

theorem Sorted.nodup (h : Sorted groups) : (groups.map Group.key).Nodup :=
  List.pairwise_map.2 (h.imp compare_ne_eq_of_lt)

/-- Only the keys matter to the order. -/
theorem Sorted.of_keys {others : List Group} (h : Sorted groups)
    (hkeys : others.map Group.key = groups.map Group.key) : Sorted others := by
  have hsorted : (groups.map Group.key).Pairwise fun a b => Record.compare a b = .lt :=
    List.pairwise_map.2 h
  rw [← hkeys] at hsorted
  exact List.pairwise_map.1 hsorted

theorem get?_cons (first : Group) (rest : List Group) (key : List Scalar) :
    get? (first :: rest) key = if first.key = key then some first.states else get? rest key := by
  by_cases h : first.key = key <;> simp [get?, h]

theorem erase_cons (first : Group) (rest : List Group) (key : List Scalar) :
    erase (first :: rest) key =
      if first.key = key then erase rest key else first :: erase rest key := by
  by_cases h : first.key = key <;> simp [erase, h]

theorem erase_of_notMem (h : key ∉ groups.map Group.key) : erase groups key = groups := by
  refine List.filter_eq_self.2 fun group hgroup => decide_eq_true fun hkey => h ?_
  exact hkey ▸ List.mem_map_of_mem hgroup

/-- Looking up a key that no group has. -/
theorem get?_eq_none_iff : get? groups key = none ↔ key ∉ groups.map Group.key := by
  rw [get?, Option.map_eq_none_iff, List.find?_eq_none, List.mem_map]
  constructor
  · rintro h ⟨group, hgroup, hkey⟩
    exact h group hgroup (decide_eq_true hkey)
  · exact fun h group hgroup hkey => h ⟨group, hgroup, of_decide_eq_true hkey⟩

/-- A group that is found is one of the groups. -/
theorem perm_of_get? (hnodup : (groups.map Group.key).Nodup) {states : List Accumulator}
    (h : get? groups key = some states) : groups.Perm (⟨key, states⟩ :: erase groups key) := by
  induction groups with
  | nil => cases h
  | cons first rest ih =>
      rw [List.map_cons, List.nodup_cons] at hnodup
      rw [get?_cons] at h
      rw [erase_cons]
      by_cases hkey : first.key = key
      · rw [if_pos hkey] at h ⊢
        cases h
        subst hkey
        rw [erase_of_notMem hnodup.1]
      · rw [if_neg hkey] at h ⊢
        exact ((ih hnodup.2 h).cons first).trans (.swap _ _ _)

theorem put_cons_lt {other : Group} (h : Record.compare group.key other.key = .lt) :
    put group (other :: groups) = group :: other :: groups := by
  rw [put, h]

theorem put_cons_eq {other : Group} (h : Record.compare group.key other.key = .eq) :
    put group (other :: groups) = group :: groups := by
  rw [put, h]

theorem put_cons_gt {other : Group} (h : Record.compare group.key other.key = .gt) :
    put group (other :: groups) = other :: put group groups := by
  rw [put, h]

/-- Putting a group changes what is found of its key and nothing else. -/
theorem get?_put (group : Group) (groups : List Group) (key : List Scalar) :
    get? (put group groups) key =
      if group.key = key then some group.states else get? groups key := by
  induction groups with
  | nil => exact get?_cons group [] key
  | cons other rest ih =>
      cases hcompare : Record.compare group.key other.key with
      | lt => rw [put_cons_lt hcompare, get?_cons]
      | eq =>
          rw [put_cons_eq hcompare, get?_cons, get?_cons, Record.compare_eq_iff.1 hcompare]
          split <;> rfl
      | gt =>
          have hne : group.key ≠ other.key := by
            intro heq
            rw [heq, Record.compare_eq_iff.2 rfl] at hcompare
            cases hcompare
          rw [put_cons_gt hcompare, get?_cons, get?_cons, ih]
          by_cases hkey : group.key = key
          · rw [if_pos hkey, if_pos hkey, if_neg fun hother => hne (hkey.trans hother.symm)]
          · rw [if_neg hkey, if_neg hkey]

/-- A group is put in place of the one with its key. -/
theorem put_perm (h : Sorted groups) (group : Group) :
    (put group groups).Perm (group :: erase groups group.key) := by
  induction groups with
  | nil => exact .refl _
  | cons other rest ih =>
      obtain ⟨hfirst, hrest⟩ := List.pairwise_cons.1 h
      cases hcompare : Record.compare group.key other.key with
      | lt =>
          have hnot : group.key ∉ (other :: rest).map Group.key := by
            rintro hmem
            obtain ⟨found, hfound, hkey⟩ := List.mem_map.1 hmem
            rcases List.mem_cons.1 hfound with rfl | hfound
            · exact compare_ne_eq_of_lt hcompare hkey.symm
            · exact compare_ne_eq_of_lt (Std.TransCmp.lt_trans hcompare (hfirst found hfound))
                hkey.symm
          rw [put_cons_lt hcompare, erase_of_notMem hnot]
      | eq =>
          have hkey : group.key = other.key := Record.compare_eq_iff.1 hcompare
          have hnot : group.key ∉ rest.map Group.key :=
            hkey ▸ (List.nodup_cons.1 (Sorted.nodup h)).1
          rw [put_cons_eq hcompare, erase_cons, if_pos hkey.symm, erase_of_notMem hnot]
      | gt =>
          have hkey : other.key ≠ group.key := by
            intro heq
            rw [heq, Record.compare_eq_iff.2 rfl] at hcompare
            cases hcompare
          rw [put_cons_gt hcompare, erase_cons, if_neg hkey]
          exact ((ih hrest).cons other).trans (.swap _ _ _)

theorem sorted_put (h : Sorted groups) (group : Group) : Sorted (put group groups) := by
  induction groups with
  | nil => exact List.pairwise_singleton _ _
  | cons other rest ih =>
      obtain ⟨hfirst, hrest⟩ := List.pairwise_cons.1 h
      cases hcompare : Record.compare group.key other.key with
      | lt =>
          rw [put_cons_lt hcompare]
          refine List.pairwise_cons.2 ⟨fun found hfound => ?_, h⟩
          rcases List.mem_cons.1 hfound with rfl | hfound
          · exact hcompare
          · exact Std.TransCmp.lt_trans hcompare (hfirst found hfound)
      | eq =>
          rw [put_cons_eq hcompare]
          refine List.pairwise_cons.2 ⟨fun found hfound => ?_, hrest⟩
          rw [Record.compare_eq_iff.1 hcompare]
          exact hfirst found hfound
      | gt =>
          rw [put_cons_gt hcompare]
          refine List.pairwise_cons.2 ⟨fun found hfound => ?_, ih hrest⟩
          rcases List.mem_cons.1 ((put_perm hrest group).mem_iff.1 hfound) with rfl | hfound
          · exact Std.OrientedCmp.gt_iff_lt.1 hcompare
          · exact hfirst found (List.mem_filter.1 hfound).1

theorem put_append_of_lt (h : ∀ other ∈ groups, Record.compare other.key group.key = .lt) :
    put group groups = groups ++ [group] := by
  induction groups with
  | nil => rfl
  | cons other rest ih =>
      obtain ⟨hother, hrest⟩ := List.forall_mem_cons.1 h
      rw [put_cons_gt (Std.OrientedCmp.gt_of_lt hother), ih hrest]
      rfl

theorem foldl_put (before : List Group) (h : Sorted (before ++ groups)) :
    groups.foldl (fun groups group => put group groups) before = before ++ groups := by
  induction groups generalizing before with
  | nil => rw [List.append_nil]; rfl
  | cons group rest ih =>
      have hbefore : ∀ other ∈ before, Record.compare other.key group.key = .lt :=
        fun other hother => (List.pairwise_append.1 h).2.2 other hother group List.mem_cons_self
      rw [List.foldl_cons, put_append_of_lt hbefore, ih (before ++ [group]) (by
        rw [List.append_assoc]
        exact h), List.append_assoc]
      rfl

/-- Groups in order are taken as they are. -/
theorem ofList_of_sorted (h : Sorted groups) : ofList groups = groups :=
  foldl_put [] h

end Groups
end ExtentEngine
