import ExtentEngine.Aggregate.SpillingTable
import ExtentEngine.Proofs.Aggregate.Groups

/-!
# What groups were made from

Groups of one key may be in several places, each made from some of what belongs to the key.
A *part* is a group together with what it was made from, rows or anything else; `made` is
the relation between the two.  What belongs to a key is then the sequence of what its groups
were made from, place by place, and merging groups keeps this sequence.

**Results.**
* `exists_spreadInto`: groups are merged into those of a file that have their keys.
-/

namespace ExtentEngine

variable {β : Type}

/-- A group with what it was made from. -/
abbrev Part (β : Type) := Group × List β

namespace Part

def key (part : Part β) : List Scalar := part.1.key

end Part

/-- The groups of some parts. -/
def groupsOf (parts : List (Part β)) : List Group := parts.map Prod.fst

/-- The keys of some parts. -/
def keysOf (parts : List (Part β)) : List (List Scalar) := parts.map Part.key

/-- What the groups of a key were made from. -/
def partAt (key : List Scalar) (parts : List (Part β)) : List β :=
  (parts.filter (·.key = key)).flatMap Prod.snd

/-- Groups that were made from sequences that are not too long can be merged into the group of
both sequences. -/
def Mergeable (made : Group → List β → Prop) (bound : Nat) : Prop :=
  ∀ group other first last, made group first → made other last → group.key = other.key →
    first.length + last.length ≤ bound →
    ∃ merged, (Accumulator.mergeAll group.states).run other.states = (.ok (), merged) ∧
      made ⟨group.key, merged⟩ (first ++ last)

variable {made : Group → List β → Prop} {bound : Nat} {parts later : List (Part β)}
  {key : List Scalar}

@[simp]
theorem groupsOf_cons (part : Part β) (parts : List (Part β)) :
    groupsOf (part :: parts) = part.1 :: groupsOf parts := rfl

@[simp]
theorem keysOf_cons (part : Part β) (parts : List (Part β)) :
    keysOf (part :: parts) = part.key :: keysOf parts := rfl

theorem map_key_groupsOf (parts : List (Part β)) :
    (groupsOf parts).map Group.key = keysOf parts :=
  List.map_map

theorem partAt_cons (key : List Scalar) (part : Part β) (parts : List (Part β)) :
    partAt key (part :: parts) = (if part.key = key then part.2 else []) ++ partAt key parts := by
  by_cases h : part.key = key <;> simp [partAt, h]

theorem partAt_append (key : List Scalar) (parts later : List (Part β)) :
    partAt key (parts ++ later) = partAt key parts ++ partAt key later := by
  rw [partAt, List.filter_append, List.flatMap_append]
  rfl

theorem partAt_of_notMem (h : key ∉ keysOf parts) : partAt key parts = [] := by
  have hnone : parts.filter (fun part => decide (part.key = key)) = [] := by
    refine List.filter_eq_nil_iff.2 fun part hpart hkey => h ?_
    exact of_decide_eq_true hkey ▸ List.mem_map_of_mem hpart
  rw [partAt, hnone]
  rfl

theorem keysOf_subset (h : parts ⊆ later) : keysOf parts ⊆ keysOf later :=
  List.map_subset _ h

theorem keysOf_append (parts later : List (Part β)) :
    keysOf (parts ++ later) = keysOf parts ++ keysOf later :=
  List.map_append

theorem keysOf_flatten (contents : List (List (Part β))) :
    keysOf contents.flatten = (contents.map keysOf).flatten :=
  List.map_flatten

theorem sorted_of_keys {parts parts' : List (Part β)} (h : Groups.Sorted (groupsOf parts))
    (hkeys : keysOf parts' = keysOf parts) : Groups.Sorted (groupsOf parts') :=
  h.of_keys (by rw [map_key_groupsOf, map_key_groupsOf, hkeys])

theorem nodup_of_sorted {parts : List (Part β)} (h : Groups.Sorted (groupsOf parts)) :
    (keysOf parts).Nodup := by
  rw [← map_key_groupsOf]
  exact h.nodup

/-- The parts without the one of a key. -/
def without (parts : List (Part β)) (key : List Scalar) : List (Part β) :=
  parts.filter (·.key ≠ key)

theorem groupsOf_without (parts : List (Part β)) (key : List Scalar) :
    groupsOf (without parts key) = Groups.erase (groupsOf parts) key := by
  rw [groupsOf, without, groupsOf, Groups.erase, List.filter_map]
  rfl

theorem partAt_without_self (parts : List (Part β)) (key : List Scalar) :
    partAt key (without parts key) = [] := by
  refine partAt_of_notMem fun h => ?_
  obtain ⟨part, hpart, hkey⟩ := List.mem_map.1 h
  exact of_decide_eq_true (List.mem_filter.1 hpart).2 hkey

theorem partAt_without_of_ne (parts : List (Part β)) {key other : List Scalar}
    (h : other ≠ key) : partAt other (without parts key) = partAt other parts := by
  rw [partAt, without, List.filter_filter, partAt]
  congr 1
  refine List.filter_congr fun part _ => ?_
  by_cases hother : part.key = other
  · simp [hother, h]
  · simp [hother]

/-- A part whose group is found. -/
theorem exists_part (hnodup : (keysOf parts).Nodup) {states : List Accumulator}
    (h : Groups.get? (groupsOf parts) key = some states) :
    ∃ made, (⟨⟨key, states⟩, made⟩ : Part β) ∈ parts ∧ partAt key parts = made := by
  induction parts with
  | nil => cases h
  | cons part parts ih =>
      rw [keysOf, List.map_cons, List.nodup_cons] at hnodup
      have hget : (if part.key = key then some part.1.states
          else Groups.get? (groupsOf parts) key) = some states :=
        (Groups.get?_cons part.1 (groupsOf parts) key).symm.trans h
      rw [partAt_cons]
      by_cases hkey : part.key = key
      · rw [if_pos hkey] at hget
        cases hget
        subst hkey
        refine ⟨part.2, List.mem_cons_self, ?_⟩
        rw [partAt_of_notMem hnodup.1, if_pos rfl, List.append_nil]
      · rw [if_neg hkey] at hget
        obtain ⟨made, hmem, hmade⟩ := ih hnodup.2 hget
        exact ⟨made, List.mem_cons_of_mem _ hmem, by rw [if_neg hkey, hmade]; rfl⟩

/-- What becomes of parts when they are merged into those of later places: those whose keys no
later place has remain, and every key keeps what belongs to it. -/
structure MergedInto (made : Group → List β → Prop) (parts : List (Part β))
    (later : List (List (Part β))) (rest : List (Part β)) (later' : List (List (Part β))) :
    Prop where
  sublist : rest.Sublist parts
  apart : ∀ part ∈ rest, part.key ∉ keysOf later.flatten
  keys : later'.map keysOf = later.map keysOf
  made : ∀ part ∈ later'.flatten, made part.1 part.2
  kept : ∀ key, partAt key rest ++ partAt key later'.flatten =
    partAt key parts ++ partAt key later.flatten

section SpreadInto

theorem notMem_of_apart {rest : List (Part β)} (h : ∀ part ∈ rest, part.key ∉ keysOf later)
    (hkey : key ∈ keysOf later) : key ∉ keysOf rest := by
  intro hmem
  obtain ⟨part, hpart, rfl⟩ := List.mem_map.1 hmem
  exact h part hpart hkey

/-- A group of the later place whose key does not occur is passed over. -/
theorem MergedInto.cons_of_notMem {rest : List (Part β)} {part : Part β} {later' : List (Part β)}
    (h : MergedInto made parts [later] rest [later']) (hpart : made part.1 part.2)
    (hkey : part.key ∉ keysOf parts) :
    MergedInto made parts [part :: later] rest [part :: later'] where
  sublist := h.sublist
  apart other hother hmem := by
    have hlater := h.apart other hother
    simp only [List.flatten_cons, List.flatten_nil, List.append_nil] at hmem hlater
    rcases List.mem_cons.1 hmem with heq | hmem
    · exact hkey (heq ▸ List.mem_map_of_mem (h.sublist.subset hother))
    · exact hlater hmem
  keys := by
    have hkeys := h.keys
    simp only [List.map_cons, List.map_nil, List.cons.injEq, and_true] at hkeys ⊢
    exact congrArg (part.key :: ·) hkeys
  made := by
    have hmade := h.made
    simp only [List.flatten_cons, List.flatten_nil, List.append_nil] at hmade ⊢
    exact List.forall_mem_cons.2 ⟨hpart, hmade⟩
  kept key := by
    have hkept := h.kept key
    simp only [List.flatten_cons, List.flatten_nil, List.append_nil, partAt_cons] at hkept ⊢
    split
    · next heq =>
        -- Neither the parts nor the rest have the key, so its sequence is that of the part.
        subst heq
        have hrest : part.key ∉ keysOf rest := fun hmem =>
          hkey (keysOf_subset h.sublist.subset hmem)
        rw [partAt_of_notMem hkey, partAt_of_notMem hrest] at hkept ⊢
        rw [List.nil_append, List.nil_append] at hkept ⊢
        rw [hkept]
    · exact hkept

/-- A group of the later place takes over what belongs to its key. -/
theorem MergedInto.cons_of_mem {rest : List (Part β)} {part : Part β} {later' : List (Part β)}
    {states : List Accumulator}
    (h : MergedInto made (without parts part.key) [later] rest [later'])
    (hmade : made ⟨part.key, states⟩ (partAt part.key parts ++ part.2))
    (hnodup : part.key ∉ keysOf later) :
    MergedInto made parts [part :: later] rest
      [(⟨part.key, states⟩, partAt part.key parts ++ part.2) :: later'] where
  sublist := h.sublist.trans List.filter_sublist
  apart other hother hmem := by
    have hlater := h.apart other hother
    simp only [List.flatten_cons, List.flatten_nil, List.append_nil] at hmem hlater
    rcases List.mem_cons.1 hmem with heq | hmem
    · exact of_decide_eq_true (List.mem_filter.1 (h.sublist.subset hother)).2 heq
    · exact hlater hmem
  keys := by
    have hkeys := h.keys
    simp only [List.map_cons, List.map_nil, List.cons.injEq, and_true] at hkeys ⊢
    exact congrArg (part.key :: ·) hkeys
  made := by
    have hmade' := h.made
    simp only [List.flatten_cons, List.flatten_nil, List.append_nil] at hmade' ⊢
    exact List.forall_mem_cons.2 ⟨hmade, hmade'⟩
  kept key := by
    have hkept := h.kept key
    simp only [List.flatten_cons, List.flatten_nil, List.append_nil, partAt_cons] at hkept ⊢
    by_cases heq : part.key = key
    · subst heq
      rw [partAt_without_self, partAt_of_notMem hnodup, List.append_nil,
        List.append_eq_nil_iff] at hkept
      rw [if_pos rfl, partAt_of_notMem hnodup, hkept.1, hkept.2]
      simp [Part.key]
    · rw [if_neg heq, partAt_without_of_ne parts (Ne.symm heq)] at *
      rw [if_neg (by exact heq)]
      exact hkept

theorem spreadInto_cons_none {current : Groups} {group : Group} {later : List Group}
    {spread : SpillingTable.Spread} (hget : current.get? group.key = none)
    (h : SpillingTable.spreadInto current later = .ok spread) :
    SpillingTable.spreadInto current (group :: later) =
      .ok { spread with later := group :: spread.later } := by
  rw [SpillingTable.spreadInto, hget, h]
  rfl

theorem spreadInto_cons_some {current : Groups} {group : Group} {later : List Group}
    {states merged : List Accumulator} {spread : SpillingTable.Spread}
    (hget : current.get? group.key = some states)
    (hmerged : (Accumulator.mergeAll states).run group.states = (.ok (), merged))
    (h : SpillingTable.spreadInto (current.erase group.key) later = .ok spread) :
    SpillingTable.spreadInto current (group :: later) =
      .ok ⟨spread.remaining, ⟨group.key, merged⟩ :: spread.later, true⟩ := by
  rw [SpillingTable.spreadInto, hget]
  simp only
  rw [hmerged]
  simp only
  rw [h]
  rfl

/-- Groups are merged into those of a later place that have their keys. -/
theorem exists_spreadInto (hmerge : Mergeable made bound)
    (hparts : ∀ part ∈ parts, made part.1 part.2) (hlater : ∀ part ∈ later, made part.1 part.2)
    (hnodup : (keysOf parts).Nodup) (hnodup' : (keysOf later).Nodup)
    (hbound : ∀ key, (partAt key parts).length + (partAt key later).length ≤ bound) :
    ∃ rest later' changed,
      SpillingTable.spreadInto (groupsOf parts) (groupsOf later) =
        .ok ⟨groupsOf rest, groupsOf later', changed⟩ ∧
      MergedInto made parts [later] rest [later'] ∧
      (changed = false → groupsOf later' = groupsOf later) := by
  induction later generalizing parts with
  | nil =>
      refine ⟨parts, [], false, rfl, ⟨.refl _, fun _ _ => nofun, rfl, nofun, fun _ => rfl⟩,
        fun _ => rfl⟩
  | cons part later ih =>
      obtain ⟨hpart, hrest⟩ := List.forall_mem_cons.1 hlater
      obtain ⟨hnot, hnodup'⟩ := List.nodup_cons.1 hnodup'
      have hle : ∀ key, (partAt key later).length ≤ (partAt key (part :: later)).length := by
        intro key
        rw [partAt_cons, List.length_append]
        exact Nat.le_add_left _ _
      cases hget : Groups.get? (groupsOf parts) part.key with
      | none =>
          have hkey : part.key ∉ keysOf parts := by
            rw [← map_key_groupsOf]
            exact Groups.get?_eq_none_iff.1 hget
          obtain ⟨rest, later', changed, hrun, hmerged, hsame⟩ := ih hparts hrest hnodup hnodup'
            fun key => Nat.le_trans (Nat.add_le_add_left (hle key) _) (hbound key)
          exact ⟨rest, part :: later', changed, spreadInto_cons_none hget hrun,
            hmerged.cons_of_notMem hpart hkey, fun h => congrArg (part.1 :: ·) (hsame h)⟩
      | some states =>
          obtain ⟨first, hmem, hfirst⟩ := exists_part hnodup hget
          have hlength : first.length + part.2.length ≤ bound := by
            have h := hbound part.key
            rw [hfirst, partAt_cons, if_pos rfl, List.length_append] at h
            omega
          obtain ⟨merged, hmerged, hmade⟩ := hmerge _ part.1 first part.2 (hparts _ hmem) hpart rfl
            hlength
          have hbound' : ∀ key, (partAt key (without parts part.key)).length +
              (partAt key later).length ≤ bound := by
            intro key
            have h := hbound key
            have h' := hle key
            by_cases heq : key = part.key
            · rw [heq, partAt_without_self, List.length_nil]
              rw [heq] at h h'
              omega
            · rw [partAt_without_of_ne parts heq]
              omega
          obtain ⟨rest, later', changed, hrun, hspread, -⟩ := @ih (without parts part.key)
            (fun other hother => hparts other (List.mem_filter.1 hother).1) hrest
            (hnodup.sublist (List.filter_sublist.map _)) hnodup' hbound'
          rw [groupsOf_without] at hrun
          refine ⟨rest, (⟨part.key, merged⟩, first ++ part.2) :: later', true,
            spreadInto_cons_some hget hmerged hrun, ?_, nofun⟩
          rw [← hfirst] at hmade ⊢
          exact hspread.cons_of_mem hmade hnot

end SpreadInto
end ExtentEngine
