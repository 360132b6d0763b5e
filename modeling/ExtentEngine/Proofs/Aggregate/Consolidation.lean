import ExtentEngine.Proofs.Aggregate.Parts
import ExtentEngine.Proofs.Aggregate.Spill

/-!
# Consolidating spill files

Consolidating goes through the files from the first to the last and merges the groups of
each into the later files.  What is left in a file has a key that no later file has, so in
the end no key is in two places, and every key still has what belonged to it.

**Results.**
* `exists_spread`: groups are merged into the groups of the later files.
* `exists_consolidateFiles`: files that hold groups in order can be consolidated.
-/

namespace ExtentEngine

variable {β : Type} {made : Group → List β → Prop} {bound : Nat}

namespace MergedInto

variable {parts rest rest' first first' : List (Part β)} {later later' : List (List (Part β))}

theorem refl (h : ∀ part ∈ later.flatten, made part.1 part.2) :
    MergedInto made [] later [] later :=
  ⟨.refl _, nofun, rfl, h, fun _ => rfl⟩

/-- Parts are merged into the first of several places, and what remains into the others. -/
theorem cons (h : MergedInto made parts [first] rest [first'])
    (h' : MergedInto made rest later rest' later') :
    MergedInto made parts (first :: later) rest' (first' :: later') where
  sublist := h'.sublist.trans h.sublist
  apart part hpart hmem := by
    have hfirst := h.apart part (h'.sublist.subset hpart)
    rw [List.flatten_singleton] at hfirst
    rw [List.flatten_cons, keysOf, List.map_append, List.mem_append] at hmem
    rcases hmem with hmem | hmem
    · exact hfirst hmem
    · exact h'.apart part hpart hmem
  keys := by
    have hkeys := h.keys
    simp only [List.map_cons, List.map_nil, List.cons.injEq, and_true] at hkeys ⊢
    exact ⟨hkeys, h'.keys⟩
  made := by
    have hmade := h.made
    rw [List.flatten_singleton] at hmade
    rw [List.flatten_cons]
    exact List.forall_mem_append.2 ⟨hmade, h'.made⟩
  kept key := by
    have hkept := h.kept key
    have hkept' := h'.kept key
    have hapart := h.apart
    have hkeys := h.keys
    simp only [List.flatten_singleton, List.map_cons, List.map_nil, List.cons.injEq, and_true]
      at hkept hapart hkeys
    rw [List.flatten_cons, List.flatten_cons, partAt_append, partAt_append]
    by_cases hmem : key ∈ keysOf first
    · -- The first place has taken all of the key.
      have hrest := notMem_of_apart hapart hmem
      rw [partAt_of_notMem hrest] at hkept hkept'
      have hrest' : key ∉ keysOf rest' :=
        fun h => hrest (keysOf_subset h'.sublist.subset h)
      rw [partAt_of_notMem hrest'] at hkept' ⊢
      rw [List.nil_append] at hkept hkept' ⊢
      rw [hkept, hkept', List.nil_append, List.append_assoc]
    · have hmem' : key ∉ keysOf first' := by
        rw [hkeys]
        exact hmem
      rw [partAt_of_notMem hmem, partAt_of_notMem hmem', List.append_nil, List.append_nil] at hkept
      rw [partAt_of_notMem hmem, partAt_of_notMem hmem', List.nil_append, List.nil_append, ← hkept]
      exact hkept'

end MergedInto

/-- What becomes of parts when those of each key are merged into one. -/
structure Gathered (made : Group → List β → Prop) (parts parts' : List (Part β)) : Prop where
  nodup : (keysOf parts').Nodup
  keys : keysOf parts' ⊆ keysOf parts
  made : ∀ part ∈ parts', made part.1 part.2
  kept : ∀ key, partAt key parts' = partAt key parts

theorem Gathered.refl {parts : List (Part β)} (hnodup : (keysOf parts).Nodup)
    (hmade : ∀ part ∈ parts, made part.1 part.2) : Gathered made parts parts :=
  ⟨hnodup, List.Subset.refl _, hmade, fun _ => rfl⟩

/-- Parts are merged into later places, which are then gathered. -/
theorem Gathered.cons {parts rest : List (Part β)} {later later' later'' : List (List (Part β))}
    (h : MergedInto made parts later rest later') (hnodup : (keysOf parts).Nodup)
    (hmade : ∀ part ∈ parts, made part.1 part.2)
    (h' : Gathered made later'.flatten later''.flatten) :
    Gathered made (parts :: later).flatten (rest :: later'').flatten where
  nodup := by
    rw [List.flatten_cons, keysOf_append]
    refine List.nodup_append.2 ⟨hnodup.sublist (h.sublist.map _), h'.nodup, ?_⟩
    rintro key hkey _ hlater rfl
    obtain ⟨part, hpart, rfl⟩ := List.mem_map.1 hkey
    have hlater' := h'.keys hlater
    rw [keysOf_flatten, h.keys, ← keysOf_flatten] at hlater'
    exact h.apart part hpart hlater'
  keys := by
    have hkeys := h'.keys
    rw [keysOf_flatten later', h.keys, ← keysOf_flatten] at hkeys
    rw [List.flatten_cons, List.flatten_cons, keysOf_append, keysOf_append]
    exact List.append_subset.2
      ⟨List.subset_append_of_subset_left _ (keysOf_subset h.sublist.subset),
        List.subset_append_of_subset_right _ hkeys⟩
  made := List.forall_mem_append.2
    ⟨fun part hpart => hmade part (h.sublist.subset hpart), h'.made⟩
  kept key := by
    rw [List.flatten_cons, List.flatten_cons, partAt_append, partAt_append, h'.kept, h.kept]

/-- Files that hold some groups each. -/
def FilesStore (disk : Disk) (files : List SpillFile) (contents : List (List Group)) : Prop :=
  List.Forall₂ (fun file groups => file.Holds disk groups) files contents

/-- Files that hold the groups of some parts. -/
def FilesHold (disk : Disk) (files : List SpillFile) (contents : List (List (Part β))) : Prop :=
  List.Forall₂ (fun file parts => file.Holds disk (groupsOf parts)) files contents

theorem filesStore_iff {disk : Disk} {files : List SpillFile} {contents : List (List (Part β))} :
    FilesStore disk files (contents.map groupsOf) ↔ FilesHold disk files contents :=
  List.forall₂_map_right_iff

/-- The names of some files. -/
def namesOf (files : List SpillFile) : List FileName := files.map SpillFile.file

theorem namesOf_cons (file : SpillFile) (files : List SpillFile) :
    namesOf (file :: files) = file.file :: namesOf files := rfl

/-- Operations that own none of the files leave their groups in them. -/
theorem FilesStore.frame {own : FileName → Prop} {disk after : Disk} {files : List SpillFile}
    {contents : List (List Group)} (h : FilesStore disk files contents)
    (hframe : Disk.Frame own disk after) (hown : ∀ name ∈ namesOf files, ¬own name) :
    FilesStore after files contents := by
  induction h with
  | nil => exact .nil
  | cons hfile _ ih =>
      obtain ⟨hname, hnames⟩ := List.forall_mem_cons.1 hown
      exact .cons (hfile.frame hframe hname) (ih hnames)

theorem FilesHold.frame {own : FileName → Prop} {disk after : Disk} {files : List SpillFile}
    {contents : List (List (Part β))} (h : FilesHold disk files contents)
    (hframe : Disk.Frame own disk after) (hown : ∀ name ∈ namesOf files, ¬own name) :
    FilesHold after files contents :=
  filesStore_iff.1 ((filesStore_iff.2 h).frame hframe hown)

theorem FilesStore.turn {disk : Disk} {files : List SpillFile} {contents : List (List Group)}
    (h : FilesStore disk files contents) : FilesStore disk.turn files contents :=
  h.frame (Disk.frame_turn (fun _ => False) disk) fun _ _ => id

theorem FilesHold.turn {disk : Disk} {files : List SpillFile} {contents : List (List (Part β))}
    (h : FilesHold disk files contents) : FilesHold disk.turn files contents :=
  filesStore_iff.1 (filesStore_iff.2 h).turn

namespace SpillingTable

variable {current : Groups} {file file' : SpillFile} {files files' : List SpillFile}
  {disk loaded middle after : Disk} {groups : List Group} {spread' : Spread} {fault : Fault}

/-- Writes groups anew if they were changed. -/
def rewrite (changed : Bool) (groups : List Group) (file : SpillFile) (disk : Disk) :
    Attempt Unit × SpillFile × Disk :=
  if changed then (SpillFile.replace groups).run (file, disk) else (.ok (), file, disk)

/-- Groups are written anew if they were changed, unless a file operation fails. -/
theorem exists_rewrite {groups' : List Group} {changed : Bool} (hfile : file.Holds disk groups)
    (hsorted : Groups.Sorted groups') (hsame : changed = false → groups' = groups)
    (hfiles : FilesWork (rewrite changed groups' file disk).1) :
    ∃ file' after, rewrite changed groups' file disk = (.ok (), file', after) ∧
      file'.Holds after groups' ∧ file'.file = file.file ∧
      Disk.Frame (· = file.file) disk after := by
  cases changed with
  | false =>
      refine ⟨file, disk, rfl, ?_, rfl, .refl _ _⟩
      rw [hsame rfl]
      exact hfile
  | true =>
      obtain ⟨after, hrun, hholds, hframe⟩ :=
        hfiles.resolve (SpillFile.replace_cases hfile hsorted)
      exact ⟨_, after, hrun, hholds, rfl, hframe⟩

/-- Nothing is done with groups if the file cannot be read. -/
theorem spread_cons_of_not_loaded (hcurrent : current.isEmpty = false)
    (hload : file.load.run disk = (.error fault, loaded)) (files : List SpillFile) :
    spread current (file :: files) disk = (.error fault, file :: files, loaded) := by
  rw [spread, hcurrent]
  simp only [Bool.false_eq_true, if_false, Step.run_bind, hload]

/-- Groups are merged into those of a file that can be read, which is written anew if they were
changed, and what remains into those of the files behind it. -/
theorem spread_cons_of_loaded (hcurrent : current.isEmpty = false)
    (hload : file.load.run disk = (.ok groups, loaded)) (files : List SpillFile) :
    spread current (file :: files) disk =
      match spreadInto current groups with
      | .error fault => (.error fault, file :: files, loaded)
      | .ok spread' =>
        match rewrite spread'.changed spread'.later file loaded with
        | (.error fault, file', after) => (.error fault, file' :: files, after)
        | (.ok (), file', after) =>
          ((spread spread'.remaining files after).1,
            file' :: (spread spread'.remaining files after).2.1,
            (spread spread'.remaining files after).2.2) := by
  rw [spread, hcurrent]
  simp only [Bool.false_eq_true, if_false, Step.run_bind, hload, Step.run_ofAttempt]
  cases spreadInto current groups with
  | error fault => rfl
  | ok spread' =>
      simp only [rewrite]
      rcases hwrite : (if spread'.changed then (SpillFile.replace spread'.later).run (file, loaded)
        else (.ok (), file, loaded)) with ⟨_ | _, file', after⟩ <;> rfl

theorem spread_cons (hcurrent : current.isEmpty = false)
    (hload : file.load.run disk = (.ok groups, loaded))
    (hspread : spreadInto current groups = .ok spread')
    (hwrite : rewrite spread'.changed spread'.later file loaded = (.ok (), file', after)) :
    spread current (file :: files) disk =
      ((spread spread'.remaining files after).1,
        file' :: (spread spread'.remaining files after).2.1,
        (spread spread'.remaining files after).2.2) := by
  rw [spread_cons_of_loaded hcurrent hload, hspread]
  simp only [hwrite]

theorem spread_cons_of_error (hcurrent : current.isEmpty = false)
    (hload : file.load.run disk = (.ok groups, loaded))
    (hspread : spreadInto current groups = .error fault) :
    spread current (file :: files) disk = (.error fault, file :: files, loaded) := by
  rw [spread_cons_of_loaded hcurrent hload, hspread]

theorem spread_cons_of_not_rewritten (hcurrent : current.isEmpty = false)
    (hload : file.load.run disk = (.ok groups, loaded))
    (hspread : spreadInto current groups = .ok spread')
    (hwrite : rewrite spread'.changed spread'.later file loaded = (.error fault, file', after)) :
    spread current (file :: files) disk = (.error fault, file' :: files, after) := by
  rw [spread_cons_of_loaded hcurrent hload, hspread]
  simp only [hwrite]

/-- A file into which groups are merged can be read, unless a file operation fails. -/
theorem exists_loaded (hcurrent : current.isEmpty = false) (hfile : file.Holds disk groups)
    (hfiles : FilesWork (spread current (file :: files) disk).1) :
    file.load.run disk = (.ok groups, disk.turn) :=
  hfiles.resolve <| (SpillFile.load_cases hfile).imp_right fun ⟨fault, hload, hfault⟩ =>
    ⟨fault, by rw [spread_cons_of_not_loaded hcurrent hload], hfault⟩

/-- Groups are merged into the groups of the later files, unless a file operation fails. -/
theorem exists_spread (hmerge : Mergeable made bound) {parts : List (Part β)}
    {files : List SpillFile} {contents : List (List (Part β))} {disk : Disk}
    (hfiles : FilesHold disk files contents) (hnames : (namesOf files).Nodup)
    (hparts : ∀ part ∈ parts, made part.1 part.2)
    (hmade : ∀ part ∈ contents.flatten, made part.1 part.2) (hnodup : (keysOf parts).Nodup)
    (hbound : ∀ key, (partAt key parts).length + (partAt key contents.flatten).length ≤ bound)
    (hwork : FilesWork (spread (groupsOf parts) files disk).1) :
    ∃ rest files' after contents',
      spread (groupsOf parts) files disk = (.ok (groupsOf rest), files', after) ∧
      FilesHold after files' contents' ∧ namesOf files' = namesOf files ∧
      MergedInto made parts contents rest contents' ∧
      Disk.Frame (· ∈ namesOf files) disk after := by
  induction files generalizing parts contents disk with
  | nil =>
      cases hfiles
      exact ⟨parts, [], disk, [], rfl, .nil, rfl, ⟨.refl _, fun _ _ => nofun, rfl, nofun,
        fun _ => rfl⟩, .refl _ _⟩
  | cons file files ih =>
      cases hfiles with
      | @cons _ content _ contents hfile hfiles =>
          rw [List.flatten_cons] at hmade
          obtain ⟨hcontent, hcontents⟩ := List.forall_mem_append.1 hmade
          rw [namesOf_cons] at hnames ⊢
          obtain ⟨hname, hnames⟩ := List.nodup_cons.1 hnames
          cases hparts' : parts with
          | nil =>
              refine ⟨[], file :: files, disk, content :: contents, ?_, .cons hfile hfiles, rfl,
                .refl ?_, .refl _ _⟩
              · rw [spread]
                rfl
              · exact List.forall_mem_append.2 ⟨hcontent, hcontents⟩
          | cons part others =>
              rw [← hparts']
              have hcurrent : List.isEmpty (groupsOf parts) = false := by
                rw [hparts']
                rfl
              simp only [List.flatten_cons, partAt_append, List.length_append] at hbound
              have hcontent' := sorted_of_keys hfile.sorted rfl
              obtain ⟨rest, content', changed, hinto, hmerged, hsame⟩ :=
                exists_spreadInto hmerge hparts hcontent hnodup (nodup_of_sorted hfile.sorted)
                  fun key => Nat.le_trans (by omega) (hbound key)
              have hkeys : keysOf content' = keysOf content := List.singleton_inj.1 hmerged.keys
              have hload := exists_loaded hcurrent hfile hwork
              have hturn := Disk.frame_turn (· = file.file) disk
              obtain ⟨file', middle, hwrite, hfile', hname', hrewrite⟩ :=
                exists_rewrite hfile.turn (sorted_of_keys hfile.sorted hkeys) hsame
                  (hwork.of_error fun fault hfault => by
                    rw [spread_cons_of_not_rewritten hcurrent hload hinto (Prod.ext hfault rfl)])
              have hframe := hturn.trans hrewrite
              have hfiles' : FilesHold middle files contents :=
                FilesHold.frame hfiles hframe fun name hmem heq => hname (heq ▸ hmem)
              rw [spread_cons hcurrent hload hinto hwrite] at hwork ⊢
              obtain ⟨last, files', after, contents', hspread, hfiles'', hnames', hmerged',
                  hframe'⟩ :=
                ih hfiles' hnames (fun part hpart => hparts part (hmerged.sublist.subset hpart))
                  hcontents (hnodup.sublist (hmerged.sublist.map _)) (fun key => by
                    have hkept := congrArg List.length (hmerged.kept key)
                    have hle := hbound key
                    simp only [List.flatten_singleton, List.length_append] at hkept
                    omega) hwork
              refine ⟨last, file' :: files', after, content' :: contents', ?_, .cons ?_ hfiles'',
                ?_, hmerged.cons hmerged', ?_⟩
              · rw [hspread]
              · refine hfile'.frame hframe' ?_
                rw [hname']
                exact hname
              · exact congrArg₂ List.cons hname' hnames'
              · exact (hframe.mono fun _ _ h => List.mem_cons.2 (Or.inl h)).trans
                  (hframe'.mono fun _ _ h => List.mem_cons_of_mem _ h)

/-- Nothing is done with files of which the first cannot be read. -/
theorem consolidateFiles_cons_of_not_loaded (hload : file.load.run disk = (.error fault, loaded))
    (files : List SpillFile) :
    consolidateFiles (file :: files) disk = (.error fault, file :: files, loaded) := by
  rw [consolidateFiles, hload]

/-- The groups of a file that can be read are merged into the later files, and the file is written
anew with those that remain. -/
theorem consolidateFiles_cons_of_loaded (hload : file.load.run disk = (.ok groups, loaded))
    (files : List SpillFile) :
    consolidateFiles (file :: files) disk =
      match spread (Groups.ofList groups) files loaded with
      | (.error fault, files', middle) => (.error fault, file :: files', middle)
      | (.ok remaining, files', middle) =>
        match (SpillFile.replace remaining).run (file, middle) with
        | (.error fault, file', after) => (.error fault, file' :: files', after)
        | (.ok (), file', after) =>
          ((consolidateFiles files' after).1, file' :: (consolidateFiles files' after).2.1,
            (consolidateFiles files' after).2.2) := by
  rw [consolidateFiles, hload]
  simp only
  split
  · next heq => exact heq ▸ rfl
  · next heq => exact heq ▸ rfl

theorem consolidateFiles_cons {remaining : Groups}
    (hload : file.load.run disk = (.ok groups, loaded))
    (hspread : spread (Groups.ofList groups) files loaded = (.ok remaining, files', middle))
    (hreplace : (SpillFile.replace remaining).run (file, middle) = (.ok (), file', after)) :
    consolidateFiles (file :: files) disk =
      ((consolidateFiles files' after).1, file' :: (consolidateFiles files' after).2.1,
        (consolidateFiles files' after).2.2) := by
  rw [consolidateFiles_cons_of_loaded hload, hspread]
  simp only [hreplace]

theorem consolidateFiles_cons_of_error (hload : file.load.run disk = (.ok groups, loaded))
    (hspread : spread (Groups.ofList groups) files loaded = (.error fault, files', after)) :
    consolidateFiles (file :: files) disk = (.error fault, file :: files', after) := by
  rw [consolidateFiles_cons_of_loaded hload, hspread]

theorem consolidateFiles_cons_of_not_replaced {remaining : Groups}
    (hload : file.load.run disk = (.ok groups, loaded))
    (hspread : spread (Groups.ofList groups) files loaded = (.ok remaining, files', middle))
    (hreplace : (SpillFile.replace remaining).run (file, middle) = (.error fault, file', after)) :
    consolidateFiles (file :: files) disk = (.error fault, file' :: files', after) := by
  rw [consolidateFiles_cons_of_loaded hload, hspread]
  simp only [hreplace]

/-- The first of files that are consolidated can be read, unless a file operation fails. -/
theorem exists_loaded_first (hfile : file.Holds disk groups)
    (hfiles : FilesWork (consolidateFiles (file :: files) disk).1) :
    file.load.run disk = (.ok groups, disk.turn) :=
  hfiles.resolve <| (SpillFile.load_cases hfile).imp_right fun ⟨fault, hload, hfault⟩ =>
    ⟨fault, by rw [consolidateFiles_cons_of_not_loaded hload], hfault⟩

/-- Files that hold groups in order can be consolidated, unless a file operation fails. -/
theorem exists_consolidateFiles (hmerge : Mergeable made bound) {files : List SpillFile}
    {contents : List (List (Part β))} {disk : Disk} (hfiles : FilesHold disk files contents)
    (hnames : (namesOf files).Nodup) (hmade : ∀ part ∈ contents.flatten, made part.1 part.2)
    (hbound : ∀ key, (partAt key contents.flatten).length ≤ bound)
    (hwork : FilesWork (consolidateFiles files disk).1) :
    ∃ files' after contents', consolidateFiles files disk = (.ok (), files', after) ∧
      FilesHold after files' contents' ∧ namesOf files' = namesOf files ∧
      Gathered made contents.flatten contents'.flatten ∧
      Disk.Frame (· ∈ namesOf files) disk after := by
  induction hlength : files.length generalizing files contents disk with
  | zero =>
      rw [List.length_eq_zero_iff] at hlength
      subst hlength
      cases hfiles
      refine ⟨[], disk, [], ?_, .nil, rfl, ⟨.nil, List.Subset.refl _, nofun, fun _ => rfl⟩,
        .refl _ _⟩
      rw [consolidateFiles]
  | succ n ih =>
      cases hfiles with
      | nil => cases hlength
      | @cons file content files contents hfile hfiles =>
          rw [namesOf_cons] at hnames ⊢
          obtain ⟨hname, hnames'⟩ := List.nodup_cons.1 hnames
          rw [List.flatten_cons] at hmade
          obtain ⟨hcontent, hcontents⟩ := List.forall_mem_append.1 hmade
          simp only [List.flatten_cons, partAt_append, List.length_append] at hbound
          have hnodup := nodup_of_sorted hfile.sorted
          have hload := exists_loaded_first hfile hwork
          have hturn := Disk.frame_turn (· ∈ namesOf files) disk
          have hlist := Groups.ofList_of_sorted hfile.sorted
          obtain ⟨rest, files', middle, contents', hspread, hfiles', hsame, hmerged, hspreading⟩ :=
            exists_spread hmerge (FilesHold.turn hfiles) hnames' hcontent hcontents hnodup hbound
              (hwork.of_error fun fault hfault => by
                rw [← hlist] at hfault
                rw [consolidateFiles_cons_of_error hload (Prod.ext hfault rfl)])
          have hframe := hturn.trans hspreading
          have hfile' : file.Holds middle (groupsOf content) := hfile.frame hframe hname
          have hsorted : Groups.Sorted (groupsOf rest) :=
            hfile.sorted.sublist (hmerged.sublist.map _)
          rw [← hlist] at hspread
          obtain ⟨after, hreplace, hfile'', hframe'⟩ :=
            (hwork.of_error fun fault hfault => by
              rw [consolidateFiles_cons_of_not_replaced hload hspread
                (Prod.ext hfault rfl)]).resolve
              (SpillFile.replace_cases hfile' hsorted)
          rw [consolidateFiles_cons hload hspread hreplace] at hwork ⊢
          have hfiles'' : FilesHold after files' contents' := by
            refine hfiles'.frame hframe' fun name hmem heq => hname ?_
            rw [← hsame, ← heq]
            exact hmem
          have hlength' : files'.length = n := by
            have h := congrArg List.length hsame
            rw [namesOf, namesOf, List.length_map, List.length_map] at h
            rw [h]
            exact Nat.succ.inj hlength
          obtain ⟨files'', last, contents'', hrun, hholds, hsame', hgathered, hframe''⟩ :=
            ih hfiles'' (hsame ▸ hnames') hmerged.made (fun key => by
              have hkept := congrArg List.length (hmerged.kept key)
              have hle := hbound key
              simp only [List.length_append] at hkept
              omega) hwork hlength'
          refine ⟨_, last, rest :: contents'', ?_, .cons (hfile''.frame hframe'' ?_) hholds, ?_,
            .cons hmerged hnodup hcontent hgathered, ?_⟩
          · rw [hrun]
          · rw [hsame]
            exact hname
          · rw [namesOf_cons, hsame', hsame]
          · have hfirst := hframe.mono fun _ _ h => List.mem_cons_of_mem file.file h
            have hsecond : Disk.Frame (· ∈ file.file :: namesOf files) middle after :=
              hframe'.mono fun _ _ h => List.mem_cons.2 (Or.inl h)
            have hthird : Disk.Frame (· ∈ file.file :: namesOf files) after last :=
              hframe''.mono fun _ _ h => List.mem_cons_of_mem _ (hsame ▸ h)
            exact (hfirst.trans hsecond).trans hthird

end SpillingTable
end ExtentEngine
