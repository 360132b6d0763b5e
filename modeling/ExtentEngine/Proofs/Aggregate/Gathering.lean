import ExtentEngine.Proofs.Aggregate.UniqueKeys

/-!
# Where consolidating leaves groups

A file that is consolidated keeps the groups whose keys no later file has.  So the groups of a key
end up in the last of the files that had one, merged in turn from the first to the last, and files
are left in their order.

**Results.**
* `filesWith_keptKeys`: a key stays in the last place that has it.
* `Arises.consolidate_gathers`: what consolidating does to the files of a table.
-/

namespace ExtentEngine

namespace Groups

/-- The places that have a key. -/
def filesWith (key : List Scalar) (places : List (FileName × List (List Scalar))) :
    List FileName :=
  (places.filter fun place => place.2.contains key).map Prod.fst

variable {key : List Scalar} {names : List FileName} {places : List (List (List Scalar))}

theorem filesWith_cons (key : List Scalar) (place : FileName × List (List Scalar))
    (places : List (FileName × List (List Scalar))) : filesWith key (place :: places) =
      if key ∈ place.2 then place.1 :: filesWith key places else filesWith key places := by
  rw [filesWith, List.filter_cons]
  by_cases hkey : key ∈ place.2 <;> simp [filesWith, hkey]

/-- A place has a key if it is among the keys of the places. -/
theorem filesWith_eq_nil_iff (hlength : names.length = places.length) :
    filesWith key (names.zip places) = [] ↔ key ∉ places.flatten := by
  induction names generalizing places with
  | nil =>
      obtain rfl := List.length_eq_zero_iff.1 hlength.symm
      exact iff_of_true rfl List.not_mem_nil
  | cons name names ih =>
      cases places with
      | nil => cases hlength
      | cons keys places =>
          have hrest := ih (Nat.succ.inj hlength)
          rw [List.zip_cons_cons, filesWith_cons, List.flatten_cons, List.mem_append, not_or,
            ← hrest]
          by_cases hkey : key ∈ keys <;> simp [hkey]

theorem mem_filter_not_contains {given taken : List (List Scalar)} :
    key ∈ given.filter (fun key => !taken.contains key) ↔ key ∈ given ∧ key ∉ taken := by
  rw [List.mem_filter, List.contains_eq_mem, Bool.not_eq_true', decide_eq_false_iff_not]

/-- A key stays in the last place that has it. -/
theorem filesWith_keptKeys (hlength : names.length = places.length) (key : List Scalar) :
    filesWith key (names.zip (keptKeys places)) =
      (filesWith key (names.zip places)).getLast?.toList := by
  induction names generalizing places with
  | nil => rfl
  | cons name names ih =>
      cases places with
      | nil => cases hlength
      | cons keys places =>
          have hlength' := Nat.succ.inj hlength
          have hrest := ih hlength'
          rw [keptKeys, List.zip_cons_cons, List.zip_cons_cons, filesWith_cons, filesWith_cons,
            hrest]
          by_cases hlater : key ∈ places.flatten
          · -- A later place has the key, so this one gives it up.
            have hne : filesWith key (names.zip places) ≠ [] := fun hnil =>
              (filesWith_eq_nil_iff hlength').1 hnil hlater
            rw [if_neg fun hmem => (mem_filter_not_contains.1 hmem).2 hlater]
            split
            · rw [List.getLast?_cons_of_ne_nil hne]
            · rfl
          · have hnil := (filesWith_eq_nil_iff hlength').2 hlater
            rw [hnil]
            simp only [mem_filter_not_contains, hlater, not_false_eq_true, and_true]
            split <;> rfl

theorem filesWith_occupied (key : List Scalar) (places : List (FileName × List (List Scalar))) :
    filesWith key (SpillingTable.occupied places) = filesWith key places := by
  rw [filesWith, SpillingTable.occupied, List.filter_filter, filesWith]
  congr 1
  refine List.filter_congr fun place _ => ?_
  by_cases hkey : key ∈ place.2
  · cases hkeys : place.2 with
    | nil =>
        rw [hkeys] at hkey
        cases hkey
    | cons => simp
  · simp [hkey]

theorem length_keptKeys (places : List (List (List Scalar))) :
    (keptKeys places).length = places.length := by
  induction places with
  | nil => rfl
  | cons keys places ih => exact congrArg (· + 1) ih

/-- Places that have no key in common keep all of their keys. -/
theorem keptKeys_of_nodup (h : places.flatten.Nodup) : keptKeys places = places := by
  induction places with
  | nil => rfl
  | cons keys places ih =>
      rw [List.flatten_cons] at h
      obtain ⟨-, hrest, hapart⟩ := List.nodup_append.1 h
      rw [keptKeys, ih hrest]
      congr 1
      refine List.filter_eq_self.2 fun key hkey => ?_
      rw [List.contains_eq_mem, Bool.not_eq_true', decide_eq_false_iff_not]
      exact fun hlater => hapart key hkey key hlater rfl

end Groups

namespace SpillingTable

open Groups

variable {disk after : Disk} {s s' : SpillingTable} {files files' : List SpillFile}
  {contents contents' : List (List Group)}

/-- What consolidating makes of files with some groups. -/
structure GathersUp (files : List SpillFile) (contents : List (List Group))
    (files' : List SpillFile) (contents' : List (List Group)) : Prop where
  order : (namesOf files').Sublist (namesOf files)
  filled : ∀ file ∈ files', 0 < file.size
  sizes : (files'.map SpillFile.size).sum = (keys contents.flatten).dedup.length
  /-- A key is in the last of the files that had it. -/
  last : ∀ key, filesWith key (placesOf files' contents') =
    (filesWith key (placesOf files contents)).getLast?.toList
  once : (keys contents'.flatten).Nodup
  /-- A group is what comes of those of its key when they are merged in turn. -/
  merged : ∀ group ∈ contents'.flatten,
    mergedAt group.key contents.flatten = .ok (some group.states)

theorem length_names (h : FilesStore disk files contents) :
    (namesOf files).length = (contents.map keys).length := by
  rw [namesOf, List.length_map, List.length_map, h.length_eq]

theorem occupied_placesOf (hfull : [] ∉ contents) :
    occupied (placesOf files contents) = placesOf files contents := by
  refine List.filter_eq_self.2 fun place hplace => ?_
  obtain ⟨groups, hgroups, hkeys⟩ := List.mem_map.1 (List.of_mem_zip hplace).2
  rw [← hkeys]
  cases groups with
  | nil => exact absurd hgroups hfull
  | cons => rfl

theorem sum_sizes (h : FilesStore disk files contents) :
    (files.map SpillFile.size).sum = (keys contents.flatten).length := by
  induction h with
  | nil => rfl
  | cons hfile _ ih =>
      rw [List.map_cons, List.sum_cons, ih, hfile.size, List.flatten_cons, keys, keys,
        List.map_append, List.length_append, List.length_map, List.length_map]

/-- Groups that were brought together, in the files that they were left in. -/
theorem gathersUp_of_places (h : FilesStore disk files contents)
    (h' : FilesStore after files' contents')
    (hfull : [] ∉ contents') (hgathered : GathersInto contents.flatten contents'.flatten)
    (hplaces : placesOf files' contents' =
      occupied ((namesOf files).zip (keptKeys (contents.map keys)))) :
    GathersUp files contents files' contents' where
  order := by
    have hnames : namesOf files' = (placesOf files' contents').map Prod.fst :=
      (List.map_fst_zip (Nat.le_of_eq (length_names h'))).symm
    have hlength : (namesOf files).length ≤ (keptKeys (contents.map keys)).length := by
      rw [length_keptKeys]
      exact Nat.le_of_eq (length_names h)
    have hkept :
        ((namesOf files).zip (keptKeys (contents.map keys))).map Prod.fst = namesOf files :=
      List.map_fst_zip hlength
    have hsub : ((occupied ((namesOf files).zip (keptKeys (contents.map keys)))).map
        Prod.fst).Sublist _ := List.filter_sublist.map Prod.fst
    rw [hkept] at hsub
    rw [hnames, hplaces]
    exact hsub
  filled file hfile := by
    obtain ⟨groups, hgroups, hholds⟩ := exists_of_mem_left h' hfile
    rw [hholds.size, List.length_pos_iff]
    rintro rfl
    exact hfull hgroups
  sizes := by
    have hperm : (keys contents'.flatten).Perm (keys contents.flatten).dedup :=
      (List.perm_ext_iff_of_nodup hgathered.nodup (List.nodup_dedup _)).2 fun key =>
        (hgathered.keys key).trans List.mem_dedup.symm
    rw [sum_sizes h', hperm.length_eq]
  last key := by
    rw [hplaces, filesWith_occupied, filesWith_keptKeys (length_names h)]
    rfl
  once := hgathered.nodup
  merged group hgroup := by
    rw [← hgathered.merged, mergedAt_of_mem hgathered.nodup hgroup]

/-- Groups with the same keys, each once, of which the same comes are the same. -/
theorem eq_of_mergedAt {groups others : List Group} (hkeys : keys groups = keys others)
    (hnodup : (keys groups).Nodup) (hmerged : ∀ key, mergedAt key groups = mergedAt key others) :
    groups = others := by
  have hlength : groups.length = others.length := by
    simpa using congrArg List.length hkeys
  refine List.ext_getElem hlength fun i hi hi' => ?_
  have hkey : groups[i].key = others[i].key := by
    have hget := congrArg (·[i]?) hkeys
    simpa [keys, hi, hi'] using hget
  have hgroup := mergedAt_of_mem hnodup (List.getElem_mem hi)
  have hother := mergedAt_of_mem (hkeys ▸ hnodup) (List.getElem_mem hi')
  rw [hmerged, hkey, hother] at hgroup
  have hstates : others[i].states = groups[i].states := Option.some.inj (Except.ok.inj hgroup)
  exact congrArg₂ Group.mk hkey hstates.symm

/-- Files of the same names with the same groups are the same. -/
theorem eq_of_namesOf (h : FilesStore disk files contents) (h' : FilesStore after files' contents)
    (hnames : namesOf files' = namesOf files) : files' = files := by
  induction h generalizing files' with
  | nil =>
      cases h'
      rfl
  | @cons file groups files contents hfile _ ih =>
      cases h' with
      | @cons file' _ files' _ hfile' hfiles' =>
          obtain ⟨hname, hnames⟩ := List.cons.inj hnames
          have hsize : file'.size = file.size := hfile'.size.trans hfile.size.symm
          rw [ih hfiles' hnames]
          cases file
          cases file'
          cases hname
          cases hsize
          rfl

/-- Files with the same keys in the same places, each once, of whose groups the same comes. -/
theorem eq_of_placesOf (h : FilesStore disk files contents)
    (h' : FilesStore after files' contents')
    (hplaces : placesOf files' contents' = placesOf files contents)
    (hgathered : GathersInto contents.flatten contents'.flatten) :
    files' = files ∧ contents' = contents := by
  have hlength := length_names h
  have hlength' := length_names h'
  have hnames : namesOf files' = namesOf files := by
    have hfirst := congrArg (List.map Prod.fst) hplaces
    rwa [placesOf, placesOf, List.map_fst_zip (Nat.le_of_eq hlength'),
      List.map_fst_zip (Nat.le_of_eq hlength)] at hfirst
  have hkeys : contents'.map keys = contents.map keys := by
    have hsecond := congrArg (List.map Prod.snd) hplaces
    rwa [placesOf, placesOf, List.map_snd_zip (Nat.le_of_eq hlength'.symm),
      List.map_snd_zip (Nat.le_of_eq hlength.symm)] at hsecond
  have hflatten : contents'.flatten = contents.flatten := by
    refine eq_of_mergedAt ?_ hgathered.nodup hgathered.merged
    rw [keys_flatten, hkeys, keys_flatten]
  have hlengths : contents'.map List.length = contents.map List.length := by
    have hmapped := congrArg (List.map List.length) hkeys
    simpa only [List.map_map, Function.comp_def, keys, List.length_map] using hmapped
  obtain rfl : contents' = contents := List.eq_iff_flatten_eq.2 ⟨hflatten, hlengths⟩
  exact ⟨eq_of_namesOf h h' hnames, rfl⟩

/-- A table without its mark of consolidation. -/
def unmarked (s : SpillingTable) : SpillingTable := { s with consolidated := false }

/-- Nothing is gained by consolidating files once more in which no key is twice: even without the
mark, the same groups are left in the same files, unless a file operation fails. -/
theorem Stores.regather (h : s.Stores disk contents) (hempty : s.table.groups = [])
    (hfull : [] ∉ contents) (hnodup : (keys contents.flatten).Nodup)
    (hweight : weight contents.flatten < 2 ^ 127)
    (hfiles : FilesWork (SpillingTable.consolidate.run (s.unmarked, disk)).1) :
    ∃ s' after, SpillingTable.consolidate.run (s.unmarked, disk) = (.ok (), s', after) ∧
      s'.spills = s.spills ∧ FilesStore after s'.spills contents := by
  have hunmarked : s.unmarked.Stores disk contents := h.congr rfl rfl
  have hplace : (s.unmarked.consolidated || !s.unmarked.isSpilled) = !s.isSpilled := Bool.false_or _
  cases hspilled : s.isSpilled with
  | false =>
      rw [hspilled] at hplace
      exact ⟨_, disk, consolidate_of_settled hplace disk, rfl, h.files⟩
  | true =>
      rw [hspilled] at hplace
      have hclose : SpillingTable.close.run (s.unmarked, disk) = (.ok (), s.unmarked, disk) := by
        have hnothing : s.unmarked.table.groups.isEmpty = true := List.isEmpty_iff.2 hempty
        rw [close_of_isSpilled (s := s.unmarked) hspilled, spill_of_isEmpty hnothing]
      rw [consolidate_of_not_settled hplace, Step.run_bind, hclose] at hfiles
      obtain ⟨result, s', after, contents', hrun, hmoves, -, hfails, -, hgathers⟩ :=
        hunmarked.gatherFiles rfl hfiles
      have hconsolidate : SpillingTable.consolidate.run (s.unmarked, disk) =
          (result, s', after) := by
        rw [consolidate_of_not_settled hplace, Step.run_bind, hclose]
        exact hrun
      cases result with
      | error fault => exact absurd (hfails fault rfl).2 (Nat.not_le.2 hweight)
      | ok _ =>
          obtain ⟨-, hgathered, hplaces⟩ := hgathers rfl
          rw [keptKeys_of_nodup (keys_flatten contents ▸ hnodup)] at hplaces
          obtain ⟨hfiles, hcontents⟩ := eq_of_placesOf h.files hmoves.stores.files
            (hplaces.trans (occupied_placesOf hfull)) hgathered
          rw [hcontents] at hmoves
          exact ⟨s', after, hconsolidate, hfiles, hmoves.stores.files⟩

/-- What consolidating does to a table with files: `flushed` is the table when its groups in memory
have been written to a file. -/
structure Regroups (flushed : SpillingTable) (contents : List (List Group)) (after : Disk)
    (s' : SpillingTable) (contents' : List (List Group)) : Prop where
  files : FilesStore after s'.spills contents'
  emptied : s'.table.groups = []
  gathers : GathersUp flushed.spills contents s'.spills contents'
  /-- Consolidating once more changes nothing, and without the mark no groups unless a file
  operation fails. -/
  again : consolidate.run (s', after) = (.ok (), s', after)
  regather : FilesWork (consolidate.run (s'.unmarked, after)).1 →
    ∃ s'' again, consolidate.run (s'.unmarked, after) = (.ok (), s'', again) ∧
      s''.spills = s'.spills ∧ FilesStore again s''.spills contents'

theorem regroups_of_places {flushed : SpillingTable} (h : flushed.Stores disk contents)
    (h' : s'.Stores after contents') (hmarked : s'.consolidated = true)
    (hempty : s'.table.groups = []) (hfull : [] ∉ contents')
    (hgathered : GathersInto contents.flatten contents'.flatten)
    (hplaces : placesOf s'.spills contents' =
      occupied ((namesOf flushed.spills).zip (keptKeys (contents.map keys))))
    (hweight : weight contents.flatten < 2 ^ 127) :
    Regroups flushed contents after s' contents' where
  files := h'.files
  emptied := hempty
  gathers := gathersUp_of_places h.files h'.files hfull hgathered hplaces
  again := by
    have hplace : (s'.consolidated || !s'.isSpilled) = true := by
      rw [hmarked]
      rfl
    rw [consolidate_of_settled hplace, ← hmarked]
  regather := h'.regather hempty hfull hgathered.nodup
    (Nat.lt_of_le_of_lt hgathered.weight hweight)

end SpillingTable

namespace Family

open SpillingTable Groups

variable {grouping : Grouping} {accounts : List Account} {disk : Disk} {account : Account}

/-- A table with files, to which fewer than 2^63 rows were offered, is consolidated unless a file
operation fails.  Its groups in memory are written to a file first.  If it is marked as consolidated
already, the mark has to be right. -/
theorem Arises.consolidate_gathers (h : Arises grouping (fun _ => True) accounts disk)
    (haccount : account ∈ accounts) (hoffered : account.offered < 2 ^ 63)
    (hspilled : account.table.isSpilled = true)
    (hmark : account.table.consolidated = true →
      account.table.table.groups = [] ∧ (heldKeys disk account.table).Nodup)
    (hfiles : FilesWork (SpillingTable.consolidate.run (account.table, disk)).1) :
    ∃ flushed disk₁ contents s' after contents',
      SpillingTable.close.run (account.table, disk) = (.ok (), flushed, disk₁) ∧
      flushed.table.groups = [] ∧ FilesStore disk₁ flushed.spills contents ∧
      SpillingTable.consolidate.run (account.table, disk) = (.ok (), s', after) ∧
      Regroups flushed contents after s' contents' := by
  obtain ⟨contents, hkeeps⟩ := h.all.holds account haccount
  have hmost : account.offered ≤ mostOffered := by
    rw [mostOffered]
    omega
  have hweight : weight (groupsWith account.table contents) < 2 ^ 127 := by
    have hbound := hkeeps.weight hmost
    omega
  cases hmarked : account.table.consolidated with
  | true =>
      obtain ⟨hempty, hheld⟩ := hmark hmarked
      have hsame : groupsWith account.table contents = contents.flatten := by
        rw [groupsWith, hempty, List.append_nil]
      rw [hsame] at hweight
      have hnodup : (keys contents.flatten).Nodup :=
        hsame ▸ hkeeps.stores.heldKeys_perm.nodup_iff.1 hheld
      have hclose :
          SpillingTable.close.run (account.table, disk) = (.ok (), account.table, disk) := by
        rw [close_of_isSpilled hspilled, spill_of_isEmpty (List.isEmpty_iff.2 hempty)]
      have hplace : (account.table.consolidated || !account.table.isSpilled) = true := by
        rw [hmarked]
        rfl
      have hfull := hkeeps.filled hmost
      refine ⟨account.table, disk, contents, _, disk, contents, hclose, hempty, hkeeps.stores.files,
        consolidate_of_settled hplace disk, regroups_of_places hkeeps.stores
          (hkeeps.stores.congr rfl rfl) rfl hempty hfull (.refl hnodup) ?_ hweight⟩
      rw [keptKeys_of_nodup (keys_flatten contents ▸ hnodup)]
      exact (occupied_placesOf hfull).symm
  | false =>
      have hplace : (account.table.consolidated || !account.table.isSpilled) = false := by
        rw [hmarked, hspilled]
        rfl
      obtain ⟨flushed, disk₁, contents₁, hclose, hmoves, hempty, hgroups, -, hsame, -⟩ :=
        hkeeps.stores.close fun fault hfault =>
          hfiles fault (close_of_consolidate_error hplace hfault)
      have hflatten : groupsWith account.table contents = contents₁.flatten := by
        rw [← hgroups, groupsWith, hempty hspilled, List.append_nil]
      rw [hflatten] at hweight
      obtain ⟨result, s', after, contents', hrun, hmoves', htable, hfails, hmark', hgathers⟩ :=
        hmoves.stores.gatherFiles (hsame.trans hmarked) <| by
          rw [consolidate_of_not_settled hplace, Step.run_bind, hclose] at hfiles
          exact hfiles
      cases result with
      | error fault => exact absurd (hfails fault rfl).2 (Nat.not_le.2 hweight)
      | ok _ =>
          obtain ⟨hfull, hgathered, hplaces⟩ := hgathers rfl
          refine ⟨flushed, disk₁, contents₁, s', after, contents', hclose, hempty hspilled,
            hmoves.stores.files, ?_, regroups_of_places hmoves.stores hmoves'.stores (hmark'.2 rfl)
              (htable ▸ hempty hspilled) hfull hgathered hplaces hweight⟩
          rw [consolidate_of_not_settled hplace, Step.run_bind, hclose]
          exact hrun

/-- Rows of two keys and then of the first one again, of which two were spilled. -/
def smallAgain : SpillingTable × Disk :=
  ((SpillingTable.insert [.int 1, .int 5]).run Reaches.smallFirst).2

theorem consolidate_gathers_small : ∃ s' after contents',
    SpillingTable.consolidate.run smallAgain = (.ok (), s', after) ∧
      FilesStore after s'.spills contents' ∧ (keys contents'.flatten).Nodup ∧
      SpillingTable.consolidate.run (s', after) = (.ok (), s', after) := by
  have hrow : ((SpillingTable.insert [.int 1, .int 5]).run Reaches.smallFirst).1 = .ok () := by
    decide +kernel
  have hagain : Arises Reaches.smallGrouping (fun _ => True) [⟨smallAgain.1, 1, 3⟩] smallAgain.2 :=
    Arises.offer Reaches.smallFirst (arises_small _) [.int 1, .int 5] hrow (filesWork_ok ())
      (absurd rfl)
  obtain ⟨hspilled, hunmarked, hok⟩ : smallAgain.1.isSpilled = true ∧
      smallAgain.1.consolidated = false ∧
      (SpillingTable.consolidate.run smallAgain).1 = .ok () := by
    decide +kernel
  have hoffered : (3 : Nat) < 2 ^ 63 := by decide
  generalize smallAgain = state at hagain hspilled hunmarked hok ⊢
  obtain ⟨flushed, disk₁, contents, s', after, contents', -, -, -, hrun, hregroups⟩ :=
    hagain.consolidate_gathers List.mem_cons_self hoffered hspilled
      (fun hmarked => by
        rw [hunmarked] at hmarked
        cases hmarked)
      (by
        rw [hok]
        exact filesWork_ok ())
  exact ⟨s', after, contents', hrun, hregroups.files, hregroups.gathers.once, hregroups.again⟩

/-- A table that is marked as consolidated and has then a group of a key in two files. -/
def smallStale : SpillingTable × Disk :=
  (SpillingTable.close.run
    ((SpillingTable.insert [.int 1, .text "x"]).run smallMarked).2).2

/-- A table that was offered a row that cannot be added after it was consolidated has a key in two
files, and has it so when it is consolidated again. -/
theorem stale_mark_keeps_key_twice :
    Arises Reaches.smallGrouping (fun _ => True) [⟨smallStale.1, 1, 3⟩] smallStale.2 ∧
      (SpillingTable.consolidate.run smallStale).1 = .ok () ∧
      (SpillingTable.consolidate.run smallStale).2.1.table.groups = [] ∧
      ¬(heldKeys (SpillingTable.consolidate.run smallStale).2.2
        (SpillingTable.consolidate.run smallStale).2.1).Nodup := by
  refine ⟨?_, by decide +kernel⟩
  have hrefuse : ((SpillingTable.insert [.int 1, .text "x"]).run smallMarked).1 =
      .error (.notSummable .utf8) := by
    decide +kernel
  have hrefused := Arises.offer smallMarked arises_marked [.int 1, .text "x"] hrefuse
    (filesWork_notSummable _) fun _ => trivial
  have hclose : (SpillingTable.close.run
      ((SpillingTable.insert [.int 1, .text "x"]).run smallMarked).2).1 = .ok () := by
    decide +kernel
  rw [smallStale]
  generalize ((SpillingTable.insert [.int 1, .text "x"]).run smallMarked).2 = state
    at hrefused hclose ⊢
  exact hrefused.close (Prod.ext hclose rfl) (filesWork_ok ())

end Family
end ExtentEngine
