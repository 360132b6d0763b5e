import ExtentEngine.Proofs.Aggregate.Parts

/-!
# What groups in memory were made from

Putting a group into a table changes what belongs to its key and nothing else, and merging
groups into a table adds what they were made from.

**Results.**
* `exists_put`: a part takes the place of the one with its key.
* `GroupTable.exists_absorb`: groups are merged into those of a table.
-/

namespace ExtentEngine

section Perm

variable {β : Type} {parts parts' : List (Part β)}

theorem perm_partAt (h : parts.Perm parts') (key : List Scalar) :
    (partAt key parts).Perm (partAt key parts') :=
  (h.filter _).flatMap_right _

/-- Groups in another order have their parts in that order. -/
theorem exists_perm_parts {groups : List Group} (h : groups.Perm (groupsOf parts)) :
    ∃ parts', groupsOf parts' = groups ∧ parts'.Perm parts := by
  have hforall : List.Forall₂ (fun (group : Group) (part : Part β) => group = part.1)
      (groupsOf parts) parts :=
    List.forall₂_map_left_iff.2 (List.forall₂_same.2 fun _ _ => rfl)
  obtain ⟨parts', hgroups, hperm⟩ := List.perm_comp_forall₂ h hforall
  refine ⟨parts', ?_, hperm⟩
  rw [groupsOf, ← List.forall₂_eq_eq_eq, List.forall₂_map_left_iff]
  exact hgroups.flip.imp fun _ _ => Eq.symm

/-- A group is put in place of the one with its key. -/
theorem exists_put (hsorted : Groups.Sorted (groupsOf parts)) (part : Part β) :
    ∃ parts', Groups.put part.1 (groupsOf parts) = groupsOf parts' ∧
      Groups.Sorted (groupsOf parts') ∧ parts'.Perm (part :: without parts part.key) := by
  have hperm := Groups.put_perm hsorted part.1
  rw [show Groups.erase (groupsOf parts) part.1.key = groupsOf (without parts part.key) from
    (groupsOf_without parts _).symm] at hperm
  rw [← groupsOf_cons] at hperm
  obtain ⟨parts', hgroups, hperm'⟩ := exists_perm_parts hperm
  refine ⟨parts', hgroups.symm, ?_, hperm'⟩
  rw [hgroups]
  exact Groups.sorted_put hsorted part.1

/-- What belongs to the keys when a part takes the place of the one with its key. -/
theorem perm_partAt_put {part : Part β} (h : parts'.Perm (part :: without parts part.key))
    {more : List β} (hpart : part.2.Perm (partAt part.key parts ++ more)) (key : List Scalar) :
    (partAt key parts').Perm (partAt key parts ++ if part.key = key then more else []) := by
  refine (perm_partAt h key).trans ?_
  rw [partAt_cons]
  by_cases hkey : part.key = key
  · subst hkey
    rw [if_pos rfl, if_pos rfl, partAt_without_self, List.append_nil]
    exact hpart
  · rw [if_neg hkey, if_neg hkey, partAt_without_of_ne parts (Ne.symm hkey), List.append_nil]
    exact .refl _

theorem forall_put {P : Part β → Prop} {part : Part β}
    (h : parts'.Perm (part :: without parts part.key)) (hpart : P part)
    (hparts : ∀ part ∈ parts, P part) : ∀ part ∈ parts', P part := by
  intro other hother
  rcases List.mem_cons.1 (h.mem_iff.1 hother) with rfl | hmem
  · exact hpart
  · exact hparts other (List.mem_filter.1 hmem).1

end Perm

section Absorb

variable {β : Type} {made : Group → List β → Prop} {bound : Nat} {parts others : List (Part β)}

/-- A group is merged into the one with its key. -/
theorem Groups.exists_merge (hmerge : Mergeable made bound)
    (hsorted : Groups.Sorted (groupsOf parts)) (hparts : ∀ part ∈ parts, made part.1 part.2)
    {part : Part β} (hpart : made part.1 part.2)
    (hbound : (partAt part.key parts).length + part.2.length ≤ bound) :
    ∃ parts', (Groups.merge part.1).run (groupsOf parts) = (.ok (), groupsOf parts') ∧
      Groups.Sorted (groupsOf parts') ∧ (∀ part ∈ parts', made part.1 part.2) ∧
      ∀ key, (partAt key parts').Perm (partAt key parts ++ partAt key [part]) := by
  have hone : ∀ key, partAt key [part] = if part.key = key then part.2 else [] := by
    intro key
    rw [partAt_cons]
    exact List.append_nil _
  cases hget : Groups.get? (groupsOf parts) part.key with
  | none =>
      obtain ⟨parts', hput, hsorted', hperm⟩ := exists_put hsorted part
      refine ⟨parts', ?_, hsorted', forall_put hperm hpart hparts, fun key => ?_⟩
      · rw [← hput, Step.run, Groups.merge, show part.1.key = part.key from rfl, hget]
      · rw [hone]
        refine perm_partAt_put hperm ?_ key
        have hkey : part.key ∉ keysOf parts := by
          rw [← map_key_groupsOf]
          exact Groups.get?_eq_none_iff.1 hget
        rw [partAt_of_notMem hkey]
        exact .refl _
  | some states =>
      obtain ⟨there, hmem, hthere⟩ := exists_part (by
        rw [← map_key_groupsOf]
        exact hsorted.nodup) hget
      rw [hthere, Nat.add_comm] at hbound
      obtain ⟨merged, hmerged, hmade⟩ :=
        hmerge part.1 _ part.2 there hpart (hparts _ hmem) rfl hbound
      obtain ⟨parts', hput, hsorted', hperm⟩ :=
        exists_put hsorted (⟨part.key, merged⟩, part.2 ++ there)
      refine ⟨parts', ?_, hsorted', forall_put hperm hmade hparts, fun key => ?_⟩
      · rw [← hput, Step.run, Groups.merge, show part.1.key = part.key from rfl, hget]
        simp only [hmerged]
      · rw [hone]
        refine perm_partAt_put hperm ?_ key
        rw [show Part.key (⟨part.key, merged⟩, part.2 ++ there) = part.key from rfl, hthere]
        exact List.perm_append_comm

namespace GroupTable

/-- Groups are merged into those of a table. -/
theorem exists_absorb (hmerge : Mergeable made bound) {table : GroupTable}
    (htable : table.groups = groupsOf parts) (hsorted : Groups.Sorted (groupsOf parts))
    (hparts : ∀ part ∈ parts, made part.1 part.2) (hothers : ∀ part ∈ others, made part.1 part.2)
    (hbound : ∀ key, (partAt key parts).length + (partAt key others).length ≤ bound) :
    ∃ parts', (absorb (groupsOf others)).run table =
        (.ok (), { table with groups := groupsOf parts' }) ∧
      Groups.Sorted (groupsOf parts') ∧ (∀ part ∈ parts', made part.1 part.2) ∧
      ∀ key, (partAt key parts').Perm (partAt key parts ++ partAt key others) := by
  induction others generalizing table parts with
  | nil =>
      refine ⟨parts, ?_, hsorted, hparts, fun key => ?_⟩
      · rw [← htable]
        rfl
      · exact .of_eq (List.append_nil _).symm
  | cons part others ih =>
      obtain ⟨hpart, hothers⟩ := List.forall_mem_cons.1 hothers
      have hsplit : ∀ key, partAt key (part :: others) = partAt key [part] ++ partAt key others :=
        fun key => partAt_append key [part] others
      have hpart' : partAt part.key [part] = part.2 := by
        rw [partAt_cons, if_pos rfl]
        exact List.append_nil _
      obtain ⟨middle, hrun, hsorted', hmade, hkept⟩ :=
        Groups.exists_merge hmerge hsorted hparts hpart (by
          have h := hbound part.key
          rw [hsplit, hpart', List.length_append] at h
          omega)
      obtain ⟨parts', hrun', hsorted'', hmade', hkept'⟩ :=
        @ih middle { table with groups := groupsOf middle } rfl hsorted' hmade hothers
          fun key => by
            have h := hbound key
            have hlength := (hkept key).length_eq
            rw [hsplit] at h
            simp only [List.length_append] at h hlength
            omega
      refine ⟨parts', ?_, hsorted'', hmade', fun key => ?_⟩
      · have hmerged : (merge part.1).run table =
            (.ok (), { table with groups := groupsOf middle }) := by
          rw [Step.run, merge, htable, hrun]
        rw [groupsOf_cons, absorb, Step.forEach, Step.run_bind, hmerged]
        exact hrun'
      · rw [hsplit, ← List.append_assoc]
        exact (hkept' key).trans ((hkept key).append_right _)

end GroupTable
end Absorb
end ExtentEngine
