import ExtentEngine.Proofs.Aggregate.Consolidation
import ExtentEngine.Proofs.Aggregate.Occurrences

/-!
# Consolidating files of any groups

Whatever the groups of some files were made from, consolidating the files leaves one group of
every key.  Unless a file operation fails, it fails only if a total overflows, and then every file
holds groups of the grouping nevertheless: those that it held, or those that it was written anew
with.

**Results.**
* `spreadInto_spec` and `spread_spec`: groups are merged into those of later files.
* `consolidateFiles_spec`: files are consolidated.
-/

namespace ExtentEngine

namespace Groups

variable {grouping : Grouping} {current later later' remaining remaining' : List Group}

/-- What becomes of groups that are merged into later ones: those remain whose keys the later ones
do not have. -/
structure SpreadsOver (grouping : Grouping) (current later remaining later' : List Group) :
    Prop where
  apart : remaining = current.filter (·.key ∉ keys later)
  keys : keys later' = keys later
  conforms : ∀ group ∈ later', group.Conforms grouping
  weight : weight remaining + weight later' ≤ weight current + weight later
  untouched : ∀ key, key ∉ Groups.keys current → statesAt key later' = statesAt key later
  merged : ∀ key, mergedAt key (remaining ++ later') = mergedAt key (current ++ later)

theorem mem_keys_filter {p : List Scalar → Bool} {groups : List Group} {key : List Scalar} :
    key ∈ keys (groups.filter fun group => p group.key) ↔ key ∈ keys groups ∧ p key = true := by
  simp only [keys, List.mem_map, List.mem_filter]
  constructor
  · rintro ⟨group, ⟨hgroup, hkey⟩, rfl⟩
    exact ⟨⟨group, hgroup, rfl⟩, hkey⟩
  · rintro ⟨⟨group, hgroup, rfl⟩, hkey⟩
    exact ⟨group, ⟨hgroup, hkey⟩, rfl⟩

/-- Nothing is merged into any groups, or anything into none. -/
theorem SpreadsOver.refl (hlater : ∀ group ∈ later, group.Conforms grouping)
    (hapart : ∀ group ∈ current, group.key ∉ Groups.keys later) :
    SpreadsOver grouping current later current later :=
  ⟨(List.filter_eq_self.2 fun group hgroup => decide_eq_true (hapart group hgroup)).symm, rfl,
    hlater, Nat.le_refl _, fun _ _ => rfl, fun _ => rfl⟩

/-- Nothing comes to those that remain. -/
theorem SpreadsOver.sublist (h : SpreadsOver grouping current later remaining later') :
    remaining.Sublist current := by
  rw [h.apart]
  exact List.filter_sublist

theorem SpreadsOver.conforms_remaining (h : SpreadsOver grouping current later remaining later')
    (hcurrent : ∀ group ∈ current, group.Conforms grouping) :
    ∀ group ∈ remaining, group.Conforms grouping :=
  fun group hgroup => hcurrent group (h.sublist.subset hgroup)

theorem SpreadsOver.nodup_remaining (h : SpreadsOver grouping current later remaining later')
    (hnodup : (Groups.keys current).Nodup) : (Groups.keys remaining).Nodup :=
  hnodup.sublist (h.sublist.map _)

/-- What remains does not have the keys of the later groups, nor others than before. -/
theorem SpreadsOver.notMem_remaining (h : SpreadsOver grouping current later remaining later')
    {key : List Scalar} (hkey : key ∈ Groups.keys later ∨ key ∉ Groups.keys current) :
    key ∉ Groups.keys remaining := by
  intro hmem
  obtain ⟨group, hgroup, rfl⟩ := List.mem_map.1 hmem
  rw [h.apart, List.mem_filter, decide_eq_true_eq] at hgroup
  exact hkey.elim hgroup.2 fun hnot => hnot (List.mem_map_of_mem hgroup.1)

/-- A key that the later groups do not have remains as it was. -/
theorem SpreadsOver.statesAt_remaining (h : SpreadsOver grouping current later remaining later')
    {key : List Scalar} (hkey : key ∉ Groups.keys later) :
    statesAt key remaining = statesAt key current := by
  rw [h.apart]
  exact statesAt_filter (p := fun key => decide (key ∉ Groups.keys later)) (decide_eq_true hkey)

theorem SpreadsOver.statesAt_later (h : SpreadsOver grouping current later remaining later')
    {key : List Scalar} (hkey : key ∉ Groups.keys later) : statesAt key later' = [] :=
  statesAt_of_notMem (h.keys ▸ hkey)

/-- Groups are merged into the groups of one place, and what remains into those of others. -/
theorem SpreadsOver.append {more more' : List Group}
    (h : SpreadsOver grouping current later remaining later')
    (h' : SpreadsOver grouping remaining more remaining' more') :
    SpreadsOver grouping current (later ++ more) remaining' (later' ++ more') where
  apart := by
    rw [h'.apart, h.apart, List.filter_filter]
    refine List.filter_congr fun group _ => ?_
    simp only [Groups.keys, List.map_append, List.mem_append, not_or, Bool.decide_and]
    exact Bool.and_comm _ _
  keys := by
    have hkeys := h.keys
    have hkeys' := h'.keys
    simp only [Groups.keys, List.map_append] at hkeys hkeys' ⊢
    rw [hkeys, hkeys']
  conforms := List.forall_mem_append.2 ⟨h.conforms, h'.conforms⟩
  weight := by
    have hweight := h.weight
    have hweight' := h'.weight
    rw [weight_append, weight_append]
    omega
  untouched key hkey := by
    rw [statesAt_append, h.untouched key hkey, h'.untouched key (h.notMem_remaining (Or.inr hkey)),
      statesAt_append]
  merged key := by
    by_cases hkey : key ∈ Groups.keys later
    · -- The first place takes over all of the key, and the others keep theirs.
      have hremaining := h.notMem_remaining (Or.inl hkey)
      have hremaining' := h'.notMem_remaining (Or.inr hremaining)
      have htaken : statesAt key (remaining ++ later') = statesAt key later' := by
        rw [statesAt_append, statesAt_of_notMem hremaining, List.nil_append]
      have hmerged := h.merged key
      rw [mergedAt_congr htaken] at hmerged
      have hsame :
          statesAt key (remaining' ++ (later' ++ more')) = statesAt key (later' ++ more) := by
        rw [statesAt_append, statesAt_of_notMem hremaining', List.nil_append, statesAt_append,
          h'.untouched key hremaining, statesAt_append]
      rw [mergedAt_congr hsame, mergedAt_append_congr hmerged more, List.append_assoc]
    · have hsame : statesAt key (remaining' ++ (later' ++ more')) =
          statesAt key (remaining' ++ more') := by
        simp only [statesAt_append, h.statesAt_later hkey, List.nil_append]
      have hsame' :
          statesAt key (remaining ++ more) = statesAt key (current ++ (later ++ more)) := by
        simp only [statesAt_append, h.statesAt_remaining hkey, statesAt_of_notMem hkey,
          List.nil_append]
      rw [mergedAt_congr hsame, h'.merged key, mergedAt_congr hsame']

/-- A later group whose key does not occur is passed over. -/
theorem SpreadsOver.cons_of_notMem {group : Group}
    (h : SpreadsOver grouping current later remaining later') (hgroup : group.Conforms grouping)
    (hkey : group.key ∉ Groups.keys current) :
    SpreadsOver grouping current (group :: later) remaining (group :: later') where
  apart := by
    rw [h.apart]
    refine List.filter_congr fun other hother => ?_
    have hne : other.key ≠ group.key := fun heq => hkey (heq ▸ List.mem_map_of_mem hother)
    simp [Groups.keys, hne]
  keys := congrArg (group.key :: ·) h.keys
  conforms := List.forall_mem_cons.2 ⟨hgroup, h.conforms⟩
  weight := by
    have hweight := h.weight
    rw [weight_cons, weight_cons]
    omega
  untouched key hkey' := by
    have hsame := h.untouched key hkey'
    by_cases heq : group.key = key
    · subst heq
      rw [statesAt_cons_self, statesAt_cons_self, hsame]
    · rw [statesAt_cons_of_ne heq, statesAt_cons_of_ne heq, hsame]
  merged key := by
    by_cases heq : group.key = key
    · subst heq
      refine mergedAt_congr ?_
      rw [statesAt_append, statesAt_append, statesAt_of_notMem hkey,
        statesAt_of_notMem (h.notMem_remaining (Or.inr hkey)), statesAt_cons_self,
        statesAt_cons_self, h.untouched _ hkey]
    · have hmerged := h.merged key
      simp only [mergedAt, statesAt_append, statesAt_cons_of_ne heq] at hmerged ⊢
      exact hmerged

/-- A later group takes over the one with its key. -/
theorem SpreadsOver.cons_of_mem {group : Group} {states merged : List Accumulator}
    (h : SpreadsOver grouping (erase current group.key) later remaining later')
    (hmerged : Group.Conforms grouping ⟨group.key, merged⟩)
    (hget : get? current group.key = some states) (hnodup : (Groups.keys current).Nodup)
    (hrun : (Accumulator.mergeAll states).run group.states = (.ok (), merged))
    (hlargest : Accumulator.largest merged ≤
      Accumulator.largest group.states + Accumulator.largest states) :
    SpreadsOver grouping current (group :: later) remaining (⟨group.key, merged⟩ :: later') where
  apart := by
    rw [h.apart, erase, List.filter_filter]
    refine List.filter_congr fun other _ => ?_
    by_cases hkey : other.key = group.key <;> simp [Groups.keys, hkey]
  keys := congrArg (group.key :: ·) h.keys
  conforms := List.forall_mem_cons.2 ⟨hmerged, h.conforms⟩
  weight := by
    have hweight := h.weight
    rw [weight_cons, weight_cons, weight_of_get? hnodup hget]
    dsimp only
    omega
  untouched key hkey := by
    have hne : group.key ≠ key := fun heq => by
      rw [← heq] at hkey
      rw [get?_eq_none_iff.2 hkey] at hget
      cases hget
    have herased : key ∉ Groups.keys (erase current group.key) := fun hmem =>
      hkey ((List.filter_sublist.map _).subset hmem)
    have hne' : Group.key ⟨group.key, merged⟩ ≠ key := hne
    rw [statesAt_cons_of_ne hne, statesAt_cons_of_ne hne', h.untouched key herased]
  merged key := by
    by_cases heq : group.key = key
    · subst heq
      have herased : group.key ∉ Groups.keys (erase current group.key) := fun hmem => by
        obtain ⟨other, hother, hkey⟩ := List.mem_map.1 hmem
        exact of_decide_eq_true (List.mem_filter.1 hother).2 hkey
      have hlater : statesAt group.key (⟨group.key, merged⟩ :: later') =
          merged :: statesAt group.key later := by
        rw [← h.untouched _ herased]
        exact statesAt_cons_self _ _
      rw [mergedAt, mergedAt, statesAt_append, statesAt_append,
        statesAt_of_notMem (h.notMem_remaining (Or.inr herased)), hlater,
        statesAt_of_get? hnodup hget, statesAt_cons_self]
      exact (foldlM_mergeNext hrun _).symm
    · have hmerged := h.merged key
      have hne : Group.key ⟨group.key, merged⟩ ≠ key := heq
      have herased : statesAt key (erase current group.key) = statesAt key current :=
        statesAt_filter (p := fun key => decide (key ≠ group.key)) (decide_eq_true (Ne.symm heq))
      simp only [mergedAt, statesAt_append, herased, statesAt_cons_of_ne hne,
        statesAt_cons_of_ne heq] at hmerged ⊢
      exact hmerged

/-- The keys of each place that no later place has. -/
def keptKeys : List (List (List Scalar)) → List (List (List Scalar))
  | [] => []
  | keys :: later => (keys.filter fun key => !later.flatten.contains key) :: keptKeys later

theorem keys_flatten (contents : List (List Group)) :
    Groups.keys contents.flatten = (contents.map Groups.keys).flatten :=
  List.map_flatten

theorem SpreadsOver.keys_remaining (h : SpreadsOver grouping current later remaining later') :
    Groups.keys remaining =
      (Groups.keys current).filter fun key => !(Groups.keys later).contains key := by
  rw [h.apart, Groups.keys, Groups.keys, List.filter_map]
  congr 1
  refine List.filter_congr fun group _ => ?_
  rw [Function.comp_apply, List.contains_eq_mem, decide_not]

/-- No key is lost if the later groups are replaced by groups with their keys. -/
theorem SpreadsOver.mem_keys_append {gathered : List Group}
    (h : SpreadsOver grouping current later remaining later')
    (hkeys : ∀ key, key ∈ Groups.keys gathered ↔ key ∈ Groups.keys later') (key : List Scalar) :
    key ∈ Groups.keys (remaining ++ gathered) ↔ key ∈ Groups.keys (current ++ later) := by
  have hremaining : key ∈ Groups.keys remaining ↔
      key ∈ Groups.keys current ∧ key ∉ Groups.keys later := by
    rw [h.apart, mem_keys_filter (p := fun key => decide (key ∉ Groups.keys later)),
      decide_eq_true_eq]
  have hgathered : key ∈ Groups.keys gathered ↔ key ∈ Groups.keys later := by
    rw [hkeys, h.keys]
  simp only [Groups.keys, List.map_append, List.mem_append] at hremaining hgathered ⊢
  rw [hremaining, hgathered]
  tauto

/-- The later groups may be replaced by groups of which the same comes. -/
theorem SpreadsOver.merged_append {gathered : List Group}
    (h : SpreadsOver grouping current later remaining later')
    (hkeys : ∀ key, key ∈ Groups.keys gathered → key ∈ Groups.keys later')
    (hmerged : ∀ key, mergedAt key gathered = mergedAt key later') (key : List Scalar) :
    mergedAt key (remaining ++ gathered) = mergedAt key (current ++ later) := by
  by_cases hkey : key ∈ Groups.keys later
  · have hremaining := statesAt_of_notMem (h.notMem_remaining (Or.inl hkey))
    have hover := h.merged key
    have hgathered := hmerged key
    simp only [mergedAt, statesAt_append, hremaining, List.nil_append] at hover hgathered ⊢
    exact hgathered.trans hover
  · have hgathered : statesAt key gathered = statesAt key later' := by
      rw [h.statesAt_later hkey]
      exact statesAt_of_notMem fun hmem => hkey (h.keys ▸ hkeys key hmem)
    have hover := h.merged key
    simp only [mergedAt, statesAt_append, hgathered] at hover ⊢
    exact hover

/-- What becomes of groups when those of each key are merged into one. -/
structure GathersInto (groups gathered : List Group) : Prop where
  nodup : (keys gathered).Nodup
  keys : ∀ key, key ∈ keys gathered ↔ key ∈ keys groups
  weight : weight gathered ≤ weight groups
  merged : ∀ key, mergedAt key gathered = mergedAt key groups

theorem GathersInto.refl {groups : List Group} (h : (Groups.keys groups).Nodup) :
    GathersInto groups groups :=
  ⟨h, fun _ => Iff.rfl, Nat.le_refl _, fun _ => rfl⟩

/-- Groups are merged into later ones, which are then gathered. -/
theorem GathersInto.append {gathered : List Group}
    (h : SpreadsOver grouping current later remaining later')
    (hnodup : (Groups.keys current).Nodup) (h' : GathersInto later' gathered) :
    GathersInto (current ++ later) (remaining ++ gathered) where
  nodup := by
    rw [Groups.keys, List.map_append]
    refine List.nodup_append.2 ⟨h.nodup_remaining hnodup, h'.nodup, ?_⟩
    rintro key hkey _ hgathered rfl
    obtain ⟨group, hgroup, rfl⟩ := List.mem_map.1 hkey
    rw [h.apart, List.mem_filter, decide_eq_true_eq] at hgroup
    have hlater := (h'.keys group.key).1 hgathered
    rw [h.keys] at hlater
    exact hgroup.2 hlater
  keys := h.mem_keys_append h'.keys
  weight := by
    have hweight := h.weight
    have hweight' := h'.weight
    rw [weight_append, weight_append]
    omega
  merged := h.merged_append (fun key => (h'.keys key).1) h'.merged

end Groups

namespace SpillingTable

open Groups

variable {grouping : Grouping} {current later : List Group}

/-- Groups are merged into those of a later place that have their keys, unless a total overflows. -/
theorem spreadInto_spec (hcurrent : ∀ group ∈ current, group.Conforms grouping)
    (hlater : ∀ group ∈ later, group.Conforms grouping) (hnodup : (keys current).Nodup) :
    FailsByOverflow (weight current + weight later) (spreadInto current later) ∧
      ∀ spread, spreadInto current later = .ok spread →
        SpreadsOver grouping current later spread.remaining spread.later ∧
          (spread.changed = false → spread.later = later) := by
  induction later generalizing current with
  | nil =>
      refine ⟨failsByOverflow_ok _ _, fun spread hspread => ?_⟩
      cases hspread
      exact ⟨.refl (List.forall_mem_nil _) fun _ _ => List.not_mem_nil, fun _ => rfl⟩
  | cons group later ih =>
      obtain ⟨hgroup, hlater⟩ := List.forall_mem_cons.1 hlater
      cases hget : get? current group.key with
      | none =>
          obtain ⟨hfails, hspreads⟩ := ih hcurrent hlater hnodup
          cases hrun : spreadInto current later with
          | error fault =>
              rw [spreadInto, hget]
              rw [hrun] at hfails ⊢
              exact ⟨hfails.mono (by rw [weight_cons]; omega), by rintro _ ⟨⟩⟩
          | ok spread =>
              obtain ⟨hspread, hsame⟩ := hspreads spread hrun
              rw [spreadInto_cons_none hget hrun]
              refine ⟨failsByOverflow_ok _ _, fun spread' hspread' => ?_⟩
              cases hspread'
              refine ⟨hspread.cons_of_notMem hgroup (get?_eq_none_iff.1 hget), fun h => ?_⟩
              exact congrArg (group :: ·) (hsame h)
      | some states =>
          have hstates := conforms_of_get? hnodup hcurrent hget
          have hkinds : group.states.map Accumulator.kind = states.map Accumulator.kind :=
            hgroup.states.trans hstates.states.symm
          have hfails := Accumulator.mergeAll_fails hkinds
          have hgrows := Accumulator.grows_mergeAll group.states states
          have hweight := weight_of_get? hnodup hget
          have herased : ∀ group' ∈ erase current group.key, group'.Conforms grouping :=
            fun group' hmem => hcurrent group' (List.mem_filter.1 hmem).1
          obtain ⟨hfails', hspreads⟩ := ih herased hlater
            (hnodup.sublist (List.filter_sublist.map _))
          rcases hmerged : (Accumulator.mergeAll states).run group.states with ⟨result, merged⟩
          rw [hmerged] at hfails hgrows
          cases result with
          | error fault =>
              rw [spreadInto, hget]
              simp only [hmerged]
              exact ⟨hfails.error.mono (by rw [weight_cons, hweight]; omega), by rintro _ ⟨⟩⟩
          | ok _ =>
              have hmade : Group.Conforms grouping ⟨group.key, merged⟩ :=
                ⟨hgroup.key, (Accumulator.kinds_of_grows hgrows).trans hgroup.states⟩
              cases hrun : spreadInto (erase current group.key) later with
              | error fault =>
                  rw [spreadInto, hget]
                  simp only [hmerged]
                  rw [hrun] at hfails' ⊢
                  exact ⟨hfails'.mono (by rw [weight_cons, hweight]; omega), by rintro _ ⟨⟩⟩
              | ok spread =>
                  obtain ⟨hspread, -⟩ := hspreads spread hrun
                  rw [spreadInto_cons_some hget hmerged hrun]
                  refine ⟨failsByOverflow_ok _ _, fun spread' hspread' => ?_⟩
                  cases hspread'
                  exact ⟨hspread.cons_of_mem hmade hget hnodup hmerged
                    (Accumulator.largest_of_grows hgrows), by rintro ⟨⟩⟩

/-- Files that were written anew, if at all, with groups of a grouping. -/
structure Rewritten (grouping : Grouping) (disk : Disk) (files : List SpillFile) (after : Disk)
    (files' : List SpillFile) (contents' : List (List Group)) : Prop where
  stores : FilesStore after files' contents'
  conforms : ∀ group ∈ contents'.flatten, group.Conforms grouping
  names : namesOf files' = namesOf files
  frame : Disk.Frame (· ∈ namesOf files) disk after

namespace Rewritten

variable {disk middle after : Disk} {file file' : SpillFile} {files files' : List SpillFile}
  {groups : List Group} {contents' : List (List Group)}

theorem refl {contents : List (List Group)} (hfiles : FilesStore disk files contents)
    (hconforms : ∀ group ∈ contents.flatten, group.Conforms grouping) :
    Rewritten grouping disk files disk files contents :=
  ⟨hfiles, hconforms, rfl, .refl _ _⟩

/-- It was the turn of an operation that changed nothing. -/
theorem of_turn (h : Rewritten grouping disk.turn files after files' contents') :
    Rewritten grouping disk files after files' contents' :=
  ⟨h.stores, h.conforms, h.names, (Disk.frame_turn _ disk).trans h.frame⟩

theorem trans {contents'' : List (List Group)} {files'' : List SpillFile}
    (h : Rewritten grouping disk files middle files' contents')
    (h' : Rewritten grouping middle files' after files'' contents'') :
    Rewritten grouping disk files after files'' contents'' where
  stores := h'.stores
  conforms := h'.conforms
  names := h'.names.trans h.names
  frame := h.frame.trans (h'.frame.mono fun _ _ hmem => h.names ▸ hmem)

/-- A file is written anew, and then others are. -/
theorem cons (hfile : file'.Holds middle groups)
    (hgroups : ∀ group ∈ groups, group.Conforms grouping) (hname : file'.file = file.file)
    (hframe : Disk.Frame (· = file.file) disk middle)
    (h : Rewritten grouping middle files after files' contents')
    (hnames : file.file ∉ namesOf files) :
    Rewritten grouping disk (file :: files) after (file' :: files') (groups :: contents') where
  stores := .cons (hfile.frame h.frame (hname ▸ hnames)) h.stores
  conforms := List.forall_mem_append.2 ⟨hgroups, h.conforms⟩
  names := congrArg₂ List.cons hname h.names
  frame := (hframe.mono fun _ _ heq => List.mem_cons.2 (Or.inl heq)).trans
    (h.frame.mono fun _ _ hmem => List.mem_cons_of_mem _ hmem)

/-- Files are written anew, and then the one before them is. -/
theorem cons_last (h : Rewritten grouping disk files middle files' contents')
    (hfile : file'.Holds after groups) (hgroups : ∀ group ∈ groups, group.Conforms grouping)
    (hname : file'.file = file.file) (hframe : Disk.Frame (· = file.file) middle after)
    (hnames : file.file ∉ namesOf files) :
    Rewritten grouping disk (file :: files) after (file' :: files') (groups :: contents') where
  stores := .cons hfile (h.stores.frame hframe fun _ hmem heq => hnames (heq ▸ h.names ▸ hmem))
  conforms := List.forall_mem_append.2 ⟨hgroups, h.conforms⟩
  names := congrArg₂ List.cons hname h.names
  frame := (h.frame.mono fun _ _ hmem => List.mem_cons_of_mem _ hmem).trans
    (hframe.mono fun _ _ heq => List.mem_cons.2 (Or.inl heq))

end Rewritten

/-- Groups are merged into the groups of the later files, unless a total overflows or a file
operation fails. -/
theorem spread_spec {files : List SpillFile} {contents : List (List Group)} {disk : Disk}
    (hfiles : FilesStore disk files contents) (hnames : (namesOf files).Nodup)
    (hcurrent : ∀ group ∈ current, group.Conforms grouping)
    (hcontents : ∀ group ∈ contents.flatten, group.Conforms grouping)
    (hnodup : (keys current).Nodup) (hwork : FilesWork (spread current files disk).1) :
    ∃ result files' after contents', spread current files disk = (result, files', after) ∧
      Rewritten grouping disk files after files' contents' ∧
      FailsByOverflow (weight current + weight contents.flatten) result ∧
      contents'.map keys = contents.map keys ∧
      ∀ remaining, result = .ok remaining →
        SpreadsOver grouping current contents.flatten remaining contents'.flatten := by
  induction files generalizing current contents disk with
  | nil =>
      cases hfiles
      refine ⟨.ok current, [], disk, [], rfl, .refl .nil (List.forall_mem_nil _),
        failsByOverflow_ok _ _, rfl, fun remaining hremaining => ?_⟩
      cases hremaining
      exact .refl (List.forall_mem_nil _) fun _ _ => List.not_mem_nil
  | cons file files ih =>
      cases hfiles with
      | @cons _ groups _ contents hfile hfiles =>
          obtain ⟨hname, hnames⟩ := List.nodup_cons.1 hnames
          have hconforms := hcontents
          rw [List.flatten_cons] at hcontents ⊢
          obtain ⟨hgroups, hcontents⟩ := List.forall_mem_append.1 hcontents
          cases hempty : current.isEmpty with
          | true =>
              obtain rfl := List.isEmpty_iff.1 hempty
              refine ⟨.ok [], file :: files, disk, groups :: contents, rfl,
                .refl (.cons hfile hfiles) hconforms, failsByOverflow_ok _ _, rfl,
                fun remaining hremaining => ?_⟩
              cases hremaining
              exact .refl hconforms (List.forall_mem_nil _)
          | false =>
              obtain ⟨hfails, hspreads⟩ := spreadInto_spec hcurrent hgroups hnodup
              have hload := exists_loaded hempty hfile hwork
              have hturn := Disk.frame_turn (· = file.file) disk
              rw [weight_append]
              cases hinto : spreadInto current groups with
              | error fault =>
                  rw [hinto] at hfails
                  have hkept : Rewritten grouping disk (file :: files) disk.turn (file :: files)
                      (groups :: contents) :=
                    .cons hfile.turn hgroups rfl hturn
                      (.refl (FilesStore.turn hfiles) hcontents) hname
                  exact ⟨.error fault, file :: files, disk.turn, groups :: contents,
                    spread_cons_of_error hempty hload hinto, hkept, hfails.error.mono (by omega),
                    rfl, nofun⟩
              | ok spread' =>
                  obtain ⟨hspread, hsame⟩ := hspreads spread' hinto
                  obtain ⟨file', middle, hwrite, hfile', hname', hrewrite⟩ :=
                    exists_rewrite hfile.turn (hfile.sorted.of_keys hspread.keys) hsame
                      (hwork.of_error fun fault hfault => by
                        rw [spread_cons_of_not_rewritten hempty hload hinto (Prod.ext hfault rfl)])
                  have hframe := hturn.trans hrewrite
                  have hfiles' : FilesStore middle files contents :=
                    FilesStore.frame hfiles hframe fun name hmem heq => hname (heq ▸ hmem)
                  rw [spread_cons hempty hload hinto hwrite] at hwork ⊢
                  have hremaining := hspread.conforms_remaining hcurrent
                  have hnodup' := hspread.nodup_remaining hnodup
                  obtain ⟨result, files', after, contents', hrun, hrewritten, hfails', hkeys,
                    hspreads'⟩ := ih hfiles' hnames hremaining hcontents hnodup' hwork
                  refine ⟨result, file' :: files', after, spread'.later :: contents', ?_,
                    .cons hfile' hspread.conforms hname' hframe hrewritten hname,
                    hfails'.mono ?_, congrArg₂ List.cons hspread.keys hkeys,
                    fun remaining hok => hspread.append (hspreads' remaining hok)⟩
                  · rw [hrun]
                  · have hweight := hspread.weight
                    omega

/-- Files are consolidated, unless a total overflows or a file operation fails. -/
theorem consolidateFiles_spec {files : List SpillFile} {contents : List (List Group)} {disk : Disk}
    (hfiles : FilesStore disk files contents) (hnames : (namesOf files).Nodup)
    (hcontents : ∀ group ∈ contents.flatten, group.Conforms grouping)
    (hwork : FilesWork (consolidateFiles files disk).1) :
    ∃ result files' after contents', consolidateFiles files disk = (result, files', after) ∧
      Rewritten grouping disk files after files' contents' ∧
      FailsByOverflow (weight contents.flatten) result ∧
      (result = .ok () → GathersInto contents.flatten contents'.flatten ∧
        contents'.map keys = keptKeys (contents.map keys)) := by
  induction hlength : files.length generalizing files contents disk with
  | zero =>
      obtain rfl := List.length_eq_zero_iff.1 hlength
      cases hfiles
      refine ⟨.ok (), [], disk, [], ?_, .refl .nil (List.forall_mem_nil _), failsByOverflow_ok _ _,
        fun _ => ⟨.refl .nil, rfl⟩⟩
      rw [consolidateFiles]
  | succ n ih =>
      cases hfiles with
      | nil => cases hlength
      | @cons file groups files contents hfile hfiles =>
          rw [namesOf_cons] at hnames
          obtain ⟨hname, hnames'⟩ := List.nodup_cons.1 hnames
          rw [List.flatten_cons] at hcontents ⊢
          obtain ⟨hgroups, hcontents⟩ := List.forall_mem_append.1 hcontents
          have hnodup : (keys groups).Nodup := hfile.sorted.nodup
          have hload := exists_loaded_first hfile hwork
          have hlist := Groups.ofList_of_sorted hfile.sorted
          obtain ⟨result, files', middle, contents', hspread, hspreading, hfails, hkeys,
              hspreads⟩ :=
            spread_spec (FilesStore.turn hfiles) hnames' hgroups hcontents hnodup
              (hwork.of_error fun fault hfault => by
                rw [← hlist] at hfault
                rw [consolidateFiles_cons_of_error hload (Prod.ext hfault rfl)])
          have hrewritten := hspreading.of_turn
          have hfile' : file.Holds middle groups := hfile.frame hrewritten.frame hname
          rw [← hlist] at hspread
          rw [weight_append]
          cases result with
          | error fault =>
              exact ⟨.error fault, file :: files', middle, groups :: contents',
                consolidateFiles_cons_of_error hload hspread,
                hrewritten.cons_last hfile' hgroups rfl (.refl _ _) hname, hfails.error,
                by rintro ⟨⟩⟩
          | ok remaining =>
              have hover := hspreads remaining rfl
              have hremaining := hover.conforms_remaining hgroups
              have hsorted : Groups.Sorted remaining := hfile.sorted.sublist hover.sublist
              obtain ⟨after, hreplace, hfile'', hframe⟩ :=
                (hwork.of_error fun fault hfault => by
                  rw [consolidateFiles_cons_of_not_replaced hload hspread
                    (Prod.ext hfault rfl)]).resolve (SpillFile.replace_cases hfile' hsorted)
              rw [consolidateFiles_cons hload hspread hreplace] at hwork ⊢
              have hfirst : Rewritten grouping disk (file :: files) after
                  ({ file with size := remaining.length } :: files') (remaining :: contents') :=
                hrewritten.cons_last hfile'' hremaining rfl hframe hname
              have hlength' : files'.length = n := by
                have h := congrArg List.length hrewritten.names
                rw [namesOf, namesOf, List.length_map, List.length_map] at h
                exact h.trans (Nat.succ.inj hlength)
              rw [← hrewritten.names] at hname hnames'
              obtain ⟨result, files'', last, contents'', hrun, hrest, hfails', hgathers⟩ :=
                ih (hrewritten.stores.frame hframe fun _ hmem heq => hname (heq ▸ hmem)) hnames'
                  hrewritten.conforms hwork hlength'
              have hlast : Rewritten grouping after
                  ({ file with size := remaining.length } :: files') last
                  ({ file with size := remaining.length } :: files'') (remaining :: contents'') :=
                .cons hfile'' hremaining rfl (.refl _ _) hrest hname
              refine ⟨result, _, last, remaining :: contents'', ?_, hfirst.trans hlast,
                hfails'.mono ?_, fun hok => ⟨.append hover hnodup (hgathers hok).1, ?_⟩⟩
              · rw [hrun]
              · have hweight := hover.weight
                omega
              · rw [List.map_cons, (hgathers hok).2, hkeys, hover.keys_remaining, List.map_cons,
                  keptKeys, keys_flatten]

end SpillingTable
end ExtentEngine
