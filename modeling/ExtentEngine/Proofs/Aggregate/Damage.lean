import ExtentEngine.Proofs.Aggregate.Spreading

/-!
# Consolidating damaged files

Files that cannot be read, and files that cannot be written anew, end the consolidation of some
files in the middle.  What was done before is not undone: a file whose groups were being merged
into later files still holds all of them, and the later files that were gone through hold what was
merged into them.  If writing a file anew broke off, the file has lost what it held before and got
no more than the first few of the groups that were meant for it.

**Results.**
* `exists_rewrites`: groups are written to a file anew, or the first few of them, or nothing is done
  to it.
* `spread_kept`: groups are merged into those of the later files, up to one that cannot be read or
  written.
* `consolidateFiles_kept`: no group is lost then but those that were not written to a torn file, and
  groups of one file may be there twice.
-/

namespace ExtentEngine

namespace SpillFile

/-- A file that groups were written to.  It may be unreadable for a while, or in no directory. -/
structure Keeps (disk : Disk) (spill : SpillFile) (groups : List Group) : Prop where
  read : ∀ found, spill.read disk = .ok found → found = groups
  sorted : Groups.Sorted groups
  allocated : disk.Allocated spill.file

/-- What a file holds if writing groups to it broke off: the first few characters, and so the first
few groups unless the file cannot be read. -/
structure Torn (disk : Disk) (written : List Group) (entry : SpillFile × List Group) : Prop where
  contents : ∃ count,
    disk.read? entry.1.file = some ((Lines.ofItems Group.toJson written).take count)
  first : entry.2 <+: written
  read : entry.1.read disk = .ok entry.2 ∨
    entry.1.read disk = .error (.lineUnreadable entry.1.file.path) ∧ entry.2 = []

/-- What becomes of a file with groups: nothing is done to it, or it is written anew, unless it is
the one that was torn. -/
inductive Carries (torn : Option FileName) (disk after : Disk) :
    SpillFile × List Group → SpillFile × List Group → Prop
  | same {entry : SpillFile × List Group}
      (hread : after.read? entry.1.file = disk.read? entry.1.file) :
      Carries torn disk after entry entry
  | anew {entry entry' : SpillFile × List Group} (hname : entry'.1.file = entry.1.file)
      (hholds : entry'.1.Holds after entry'.2) : Carries torn disk after entry entry'
  | torn {entry entry' : SpillFile × List Group} {written : List Group}
      (hname : entry'.1.file = entry.1.file) (hsorted : Groups.Sorted written)
      (htorn : Torn after written entry') (hwhere : torn = some entry'.1.file) :
      Carries torn disk after entry entry'

variable {disk middle after : Disk} {spill : SpillFile} {groups written : List Group}
  {entry entry' entry'' : SpillFile × List Group} {torn : Option FileName}

theorem Holds.keeps (h : spill.Holds disk groups) : spill.Keeps disk groups where
  read _ hfound := Except.ok.inj (hfound.symm.trans h.read)
  sorted := h.sorted
  allocated := h.allocated

theorem Torn.keeps (h : Torn disk written entry) (hsorted : Groups.Sorted written)
    (hallocated : disk.Allocated entry.1.file) : entry.1.Keeps disk entry.2 where
  read found hfound := by
    rcases h.read with hread | ⟨hread, -⟩ <;> rw [hread] at hfound <;> cases hfound
    rfl
  sorted := hsorted.sublist h.first.sublist
  allocated := hallocated

theorem read_congr (h : after.read? spill.file = disk.read? spill.file) :
    spill.read after = spill.read disk := by
  rw [read, read, Disk.readItems, Disk.readItems, h]

/-- What was loaded from a file is what it keeps. -/
theorem Keeps.of_load (h : spill.Keeps disk groups) {found : List Group}
    (hload : spill.load.run disk = (.ok found, after)) : found = groups := by
  rcases Disk.loadItems_cases Group.ofJson? spill.file disk with hrun | ⟨fault, hrun, -⟩
  · exact h.read found (congrArg Prod.fst (hrun.symm.trans hload))
  · cases hrun.symm.trans hload

theorem Holds.of_read? {own : FileName → Prop} (h : spill.Holds disk groups)
    (hread : after.read? spill.file = disk.read? spill.file) (hframe : Disk.Frame own disk after) :
    spill.Holds after groups where
  read := (read_congr hread).trans h.read
  size := h.size
  sorted := h.sorted
  directory := hframe.hasDirectory h.directory
  allocated := hframe.allocated h.allocated

theorem Keeps.of_read? (h : spill.Keeps disk groups)
    (hread : after.read? spill.file = disk.read? spill.file)
    (hserial : disk.nextSerial ≤ after.nextSerial) : spill.Keeps after groups where
  read found hfound := h.read found ((read_congr hread).symm.trans hfound)
  sorted := h.sorted
  allocated := Disk.allocated_mono hserial h.allocated

theorem Torn.of_read? (h : Torn disk written entry)
    (hread : after.read? entry.1.file = disk.read? entry.1.file) : Torn after written entry where
  contents := by
    rw [hread]
    exact h.contents
  first := h.first
  read := by
    rw [read_congr hread]
    exact h.read

theorem Carries.name (h : Carries torn disk after entry entry') : entry'.1.file = entry.1.file := by
  cases h with
  | same => rfl
  | anew hname => exact hname
  | torn hname => exact hname

/-- If nothing was torn, it is of no account which file might have been. -/
theorem Carries.whole (h : Carries none disk after entry entry') (torn : Option FileName) :
    Carries torn disk after entry entry' := by
  cases h with
  | same hread => exact .same hread
  | anew hname hholds => exact .anew hname hholds
  | torn _ _ _ hwhere => cases hwhere

theorem Carries.keeps (h : Carries torn disk after entry entry')
    (hkeeps : entry.1.Keeps disk entry.2) (hserial : disk.nextSerial ≤ after.nextSerial) :
    entry'.1.Keeps after entry'.2 := by
  cases h with
  | same hread => exact hkeeps.of_read? hread hserial
  | anew _ hholds => exact hholds.keeps
  | torn hname hsorted htorn =>
      refine htorn.keeps hsorted ?_
      rw [hname]
      exact Disk.allocated_mono hserial hkeeps.allocated

/-- A file that was torn is no other one later on. -/
theorem Carries.of_read? {own : FileName → Prop} (h : Carries torn disk middle entry entry')
    (hread : after.read? entry'.1.file = middle.read? entry'.1.file)
    (hframe : Disk.Frame own middle after) : Carries torn disk after entry entry' := by
  cases h with
  | same hread' => exact .same (hread.trans hread')
  | anew hname hholds => exact .anew hname (hholds.of_read? hread hframe)
  | torn hname hsorted htorn hwhere => exact .torn hname hsorted (htorn.of_read? hread) hwhere

theorem Carries.trans {own : FileName → Prop} (h : Carries none disk middle entry entry')
    (h' : Carries torn middle after entry' entry'') (hframe : Disk.Frame own middle after) :
    Carries torn disk after entry entry'' := by
  cases h' with
  | anew hname hholds => exact .anew (hname.trans h.name) hholds
  | torn hname hsorted htorn hwhere => exact .torn (hname.trans h.name) hsorted htorn hwhere
  | same hread =>
      cases h with
      | same hread' => exact .same (hread.trans hread')
      | anew hname hholds => exact .anew hname (hholds.of_read? hread hframe)
      | torn _ _ _ hwhere => cases hwhere

/-- What writing groups to a file comes to: they are there, or the first few of them are, or nothing
was done. -/
inductive Rewrites (disk after : Disk) (entry : SpillFile × List Group) (written : List Group) :
    Option FileName → Attempt Unit → SpillFile × List Group → Prop
  | done {file' : SpillFile} (hcarries : Carries none disk after entry (file', written)) :
      Rewrites disk after entry written none (.ok ()) (file', written)
  | torn {fault : Fault} {kept : List Group} (htorn : Torn after written (entry.1, kept)) :
      Rewrites disk after entry written (some entry.1.file) (.error fault) (entry.1, kept)
  | undone {fault : Fault} (hread : after.read? entry.1.file = disk.read? entry.1.file) :
      Rewrites disk after entry written none (.error fault) entry

theorem Rewrites.carries {result : Attempt Unit}
    (h : Rewrites disk after entry written torn result entry') (hsorted : Groups.Sorted written) :
    Carries torn disk after entry entry' := by
  cases h with
  | done hcarries => exact hcarries
  | torn htorn => exact .torn rfl hsorted htorn rfl
  | undone hread => exact .same hread

/-- Groups are written to a file anew, or the first few of them, or nothing is done to it. -/
theorem exists_rewrites (h : spill.Keeps disk groups) (hsorted : Groups.Sorted written) :
    ∃ torn result entry' after,
      (replace written).run (spill, disk) = (result, entry'.1, after) ∧
      Rewrites disk after (spill, groups) written torn result entry' ∧
      Disk.Frame (· = spill.file) disk after := by
  obtain ⟨hframe, -⟩ := frame_replace spill written disk
  rcases Disk.writeItems_cases Group.toJson spill.file written disk with
    ⟨hdirectory, hrun⟩ | ⟨-, count, amidItem, hrun⟩ | hrun <;>
    rw [replace_of_written spill hrun] at hframe ⊢
  · refine ⟨_, _, ({ spill with size := written.length }, written), _, rfl, .done (.anew rfl ?_),
      hframe⟩
    exact ⟨Group.readItems_of_read? (Disk.read?_put _ _ _), rfl, hsorted,
      hframe.hasDirectory hdirectory, hframe.allocated h.allocated⟩
  · have hcontents := Disk.read?_put disk.turn spill.file
      ((Lines.ofItems Group.toJson written).take count)
    rcases Group.readItems_of_read?_take hcontents with hread | ⟨kept, hread⟩
    · exact ⟨_, _, (spill, []), _, rfl,
        .torn ⟨⟨count, hcontents⟩, List.nil_prefix, Or.inr ⟨hread, rfl⟩⟩, hframe⟩
    · exact ⟨_, _, (spill, written.take kept), _, rfl,
        .torn ⟨⟨count, hcontents⟩, List.take_prefix _ _, Or.inl hread⟩, hframe⟩
  · exact ⟨_, _, (spill, groups), _, rfl, .undone rfl, hframe⟩

end SpillFile

/-- The groups of some files. -/
def groupsIn (held : List (SpillFile × List Group)) : List Group := held.flatMap Prod.snd

/-- Some files, or what they are if writing one of them broke off. -/
inductive TornFrom (disk : Disk) :
    Option FileName → List (SpillFile × List Group) → List (SpillFile × List Group) → Prop
  | whole (held : List (SpillFile × List Group)) : TornFrom disk none held held
  | torn {file : SpillFile} {written kept : List Group}
      (htorn : SpillFile.Torn disk written (file, kept)) (held : List (SpillFile × List Group)) :
      TornFrom disk (some file.file) ((file, written) :: held) ((file, kept) :: held)
  | cons {torn : Option FileName} (entry : SpillFile × List Group)
      {held held' : List (SpillFile × List Group)} (h : TornFrom disk torn held held') :
      TornFrom disk torn (entry :: held) (entry :: held')

/-- Different files that groups of a grouping were written to. -/
structure Kept (grouping : Grouping) (disk : Disk) (held : List (SpillFile × List Group)) :
    Prop where
  keeps : ∀ entry ∈ held, entry.1.Keeps disk entry.2
  names : (held.map fun entry => entry.1.file).Nodup
  conforms : ∀ group ∈ groupsIn held, group.Conforms grouping

/-- Files that were written anew, if at all, unless one was torn. -/
structure Carried (torn : Option FileName) (disk : Disk) (held : List (SpillFile × List Group))
    (after : Disk) (held' : List (SpillFile × List Group)) : Prop where
  carries : List.Forall₂ (SpillFile.Carries torn disk after) held held'
  frame : Disk.Frame (· ∈ held.map fun entry => entry.1.file) disk after

section Files

variable {grouping : Grouping} {disk middle after : Disk} {entry entry' : SpillFile × List Group}
  {held held' held'' : List (SpillFile × List Group)} {own : FileName → Prop}
  {torn : Option FileName}

theorem groupsIn_cons (entry : SpillFile × List Group) (held : List (SpillFile × List Group)) :
    groupsIn (entry :: held) = entry.2 ++ groupsIn held := List.flatMap_cons

theorem groupsIn_append (held held' : List (SpillFile × List Group)) :
    groupsIn (held ++ held') = groupsIn held ++ groupsIn held' := List.flatMap_append

/-- A tear adds no groups. -/
theorem TornFrom.sublist (h : TornFrom disk torn held held') :
    (groupsIn held').Sublist (groupsIn held) := by
  induction h with
  | whole held => exact List.Sublist.refl _
  | torn htorn held =>
      rw [groupsIn_cons, groupsIn_cons]
      exact htorn.first.sublist.append (List.Sublist.refl _)
  | cons entry _ ih =>
      rw [groupsIn_cons, groupsIn_cons]
      exact ih.append_left _

theorem Kept.conforms_cons (h : Kept grouping disk (entry :: held)) :
    (∀ group ∈ entry.2, group.Conforms grouping) ∧
      ∀ group ∈ groupsIn held, group.Conforms grouping :=
  List.forall_mem_append.1 h.conforms

theorem Kept.tail (h : Kept grouping disk (entry :: held)) : Kept grouping disk held :=
  ⟨(List.forall_mem_cons.1 h.keeps).2, (List.nodup_cons.1 h.names).2, h.conforms_cons.2⟩

theorem Kept.sublist (h : Kept grouping disk held) (hsub : held'.Sublist held) :
    Kept grouping disk held' where
  keeps entry hentry := h.keeps entry (hsub.subset hentry)
  names := h.names.sublist (hsub.map _)
  conforms group hgroup := by
    obtain ⟨entry, hentry, hmem⟩ := List.mem_flatMap.1 hgroup
    exact h.conforms group (List.mem_flatMap.2 ⟨entry, hsub.subset hentry, hmem⟩)

/-- A file is not one of those after it. -/
theorem Kept.ne_of_mem (h : Kept grouping disk (entry :: held)) :
    ∀ other ∈ held, other.1.file ≠ entry.1.file := by
  intro other hother heq
  exact (List.nodup_cons.1 h.names).1 (List.mem_map.2 ⟨other, hother, heq⟩)

theorem Carried.refl (torn : Option FileName) (disk : Disk)
    (held : List (SpillFile × List Group)) : Carried torn disk held disk held :=
  ⟨List.forall₂_same.2 fun _ _ => .same rfl, .refl _ _⟩

theorem Carried.names (h : Carried torn disk held after held') :
    (held'.map fun entry => entry.1.file) = held.map fun entry => entry.1.file :=
  map_eq_map_of_forall₂ h.carries.flip fun _ _ hentry => hentry.name

/-- Files that others are not are left alone. -/
theorem carries_of_frame (hkeeps : ∀ entry ∈ held, entry.1.Keeps disk entry.2)
    (hframe : Disk.Frame own disk after) (hown : ∀ entry ∈ held, ¬own entry.1.file) :
    List.Forall₂ (SpillFile.Carries torn disk after) held held :=
  List.forall₂_same.2 fun entry hentry =>
    .same (hframe.read _ (hkeeps entry hentry).allocated (hown entry hentry))

theorem forall₂_carries_trans (h : List.Forall₂ (SpillFile.Carries none disk middle) held held')
    (h' : List.Forall₂ (SpillFile.Carries torn middle after) held' held'')
    (hframe : Disk.Frame own middle after) :
    List.Forall₂ (SpillFile.Carries torn disk after) held held'' :=
  forall₂_trans h h' fun _ _ _ _ _ _ hentry hentry' => hentry.trans hentry' hframe

theorem Carried.trans (h : Carried none disk held middle held')
    (h' : Carried torn middle held' after held'') : Carried torn disk held after held'' where
  carries := forall₂_carries_trans h.carries h'.carries h'.frame
  frame := h.frame.trans (h'.frame.mono fun _ _ hmem => h.names ▸ hmem)

theorem Carried.keeps (h : Carried torn disk held after held')
    (hkeeps : ∀ entry ∈ held, entry.1.Keeps disk entry.2) :
    ∀ entry ∈ held', entry.1.Keeps after entry.2 := by
  intro entry' hentry'
  obtain ⟨entry, hentry, hcarries⟩ := exists_of_mem_right h.carries hentry'
  exact hcarries.keeps (hkeeps entry hentry) h.frame.serial

theorem Carried.kept (h : Carried torn disk held after held') (hkept : Kept grouping disk held)
    (hconforms : ∀ group ∈ groupsIn held', group.Conforms grouping) : Kept grouping after held' :=
  ⟨h.keeps hkept.keeps, h.names ▸ hkept.names, hconforms⟩

theorem Kept.frame (h : Kept grouping disk held) (hframe : Disk.Frame own disk after)
    (hown : ∀ entry ∈ held, ¬own entry.1.file) : Kept grouping after held where
  keeps entry hentry := by
    have hread := hframe.read _ (h.keeps entry hentry).allocated (hown entry hentry)
    exact (h.keeps entry hentry).of_read? hread hframe.serial
  names := h.names
  conforms := h.conforms

theorem Kept.turn (h : Kept grouping disk held) : Kept grouping disk.turn held :=
  h.frame (Disk.frame_turn (fun _ => False) disk) fun _ _ => id

/-- Taking its turn at a disk does nothing to any file. -/
theorem carried_turn (disk : Disk) (held : List (SpillFile × List Group)) :
    Carried none disk held disk.turn held :=
  ⟨List.forall₂_same.2 fun _ _ => .same rfl, Disk.frame_turn _ _⟩

/-- A file is written anew, if at all, and then others are. -/
theorem Carried.cons (hkept : Kept grouping disk (entry :: held))
    (hentry : SpillFile.Carries torn disk middle entry entry')
    (hframe : Disk.Frame (· = entry.1.file) disk middle)
    (h : Carried torn middle held after held') :
    Carried torn disk (entry :: held) after (entry' :: held') where
  carries := by
    have hkeeps := hentry.keeps (hkept.keeps entry List.mem_cons_self) hframe.serial
    have hnot : entry'.1.file ∉ held.map fun entry => entry.1.file := by
      rw [hentry.name]
      exact (List.nodup_cons.1 hkept.names).1
    refine .cons (hentry.of_read? (h.frame.read _ hkeeps.allocated hnot) h.frame) ?_
    exact forall₂_carries_trans (carries_of_frame hkept.tail.keeps hframe hkept.ne_of_mem)
      h.carries h.frame
  frame := (hframe.mono fun _ _ heq => List.mem_cons.2 (Or.inl heq)).trans
    (h.frame.mono fun _ _ hmem => List.mem_cons_of_mem _ hmem)

/-- Files are written anew, and then the one before them is, if at all. -/
theorem Carried.cons_last (hkept : Kept grouping disk (entry :: held))
    (h : Carried none disk held middle held')
    (hentry : SpillFile.Carries torn middle after entry entry')
    (hframe : Disk.Frame (· = entry.1.file) middle after) :
    Carried torn disk (entry :: held) after (entry' :: held') := by
  have hfirst : Carried none disk (entry :: held) middle (entry :: held') :=
    .cons hkept (.same rfl) (.refl _ _) h
  have hne : ∀ other ∈ held', other.1.file ≠ entry.1.file := by
    intro other hother heq
    have hmem : other.1.file ∈ held'.map fun entry => entry.1.file := List.mem_map_of_mem hother
    rw [h.names, heq] at hmem
    exact (List.nodup_cons.1 hkept.names).1 hmem
  exact hfirst.trans ⟨.cons hentry (carries_of_frame (h.keeps hkept.tail.keeps) hframe hne),
    hframe.mono fun _ _ heq => List.mem_cons.2 (Or.inl heq)⟩

end Files

namespace Groups

/-- What is left of groups when their consolidation ends in the middle: those of the keys that are
taken have been merged into later ones, and stand where they were nevertheless. -/
structure LeavesTwice (groups before current later : List Group) (taken : List (List Scalar)) :
    Prop where
  keys : ∀ key, key ∈ keys (before ++ (current ++ later)) ↔ key ∈ Groups.keys groups
  both : ∀ key ∈ taken, key ∈ Groups.keys current ∧ key ∈ Groups.keys later
  /-- Without those groups, what comes of each key is what came of it before. -/
  merged : ∀ key, mergedAt key
      (before ++ (current.filter (fun group => decide (group.key ∉ taken)) ++ later)) =
    mergedAt key groups

/-- The consolidation ends at a later file. -/
theorem LeavesTwice.cons {grouping : Grouping}
    {current later later' remaining before now after : List Group} {taken : List (List Scalar)}
    (h : SpreadsOver grouping current later remaining later')
    (h' : LeavesTwice later' before now after taken) :
    LeavesTwice (current ++ later) (remaining ++ before) now after taken where
  keys key := by
    rw [List.append_assoc]
    exact h.mem_keys_append h'.keys key
  both := h'.both
  merged key := by
    rw [List.append_assoc]
    refine h.merged_append (fun key hkey => (h'.keys key).1 ?_) h'.merged key
    have hsub : (now.filter (fun group => decide (group.key ∉ taken)) ++ after).Sublist
        (now ++ after) := List.filter_sublist.append_right after
    exact ((hsub.append_left before).map Group.key).subset hkey

end Groups

namespace SpillingTable

open Groups

variable {grouping : Grouping} {current : List Group} {disk middle after : Disk}
  {file file' : SpillFile} {files files' : List SpillFile} {groups : List Group} {fault : Fault}
  {entry entry' : SpillFile × List Group} {held held' : List (SpillFile × List Group)}
  {torn : Option FileName}

/-- Groups are merged into those of the first few files, and the other files are left alone. -/
def SpreadsPartly (grouping : Grouping) (current : List Group)
    (held held' : List (SpillFile × List Group)) : Prop :=
  ∃ done done' rest remaining, held = done ++ rest ∧ held' = done' ++ rest ∧
    SpreadsOver grouping current (groupsIn done) remaining (groupsIn done')

theorem spreadsPartly_refl (grouping : Grouping) (current : List Group)
    (held : List (SpillFile × List Group)) : SpreadsPartly grouping current held held :=
  ⟨[], [], held, current, rfl, rfl, .refl (List.forall_mem_nil _) fun _ _ => List.not_mem_nil⟩

theorem SpreadsPartly.cons {remaining : List Group}
    (h : SpreadsOver grouping current entry.2 remaining entry'.2)
    (h' : SpreadsPartly grouping remaining held held') :
    SpreadsPartly grouping current (entry :: held) (entry' :: held') := by
  obtain ⟨done, done', rest, remaining', rfl, rfl, hover⟩ := h'
  refine ⟨entry :: done, entry' :: done', rest, remaining', rfl, rfl, ?_⟩
  rw [groupsIn_cons, groupsIn_cons]
  exact h.append hover

theorem SpreadsPartly.conforms (h : SpreadsPartly grouping current held held')
    (hconforms : ∀ group ∈ groupsIn held, group.Conforms grouping) :
    ∀ group ∈ groupsIn held', group.Conforms grouping := by
  obtain ⟨done, done', rest, remaining, rfl, rfl, hover⟩ := h
  rw [groupsIn_append] at hconforms ⊢
  exact List.forall_mem_append.2 ⟨hover.conforms, (List.forall_mem_append.1 hconforms).2⟩

/-- Groups are written anew if they were changed, or the first few of them, or nothing is done to
their file. -/
theorem rewrite_kept {groups' : List Group} {changed : Bool} (h : file.Keeps disk groups)
    (hsorted : Groups.Sorted groups') (hsame : changed = false → groups' = groups) :
    ∃ torn result entry' after, rewrite changed groups' file disk = (result, entry'.1, after) ∧
      SpillFile.Rewrites disk after (file, groups) groups' torn result entry' ∧
      Disk.Frame (· = file.file) disk after := by
  cases changed with
  | true => exact SpillFile.exists_rewrites h hsorted
  | false =>
      rw [hsame rfl]
      exact ⟨none, .ok (), (file, groups), disk, rfl, .done (.same rfl), .refl _ _⟩

/-- Files into which groups were merged, up to one that could not be read or written. -/
structure Spreads (grouping : Grouping) (current : List Group) (torn : Option FileName)
    (disk : Disk) (held : List (SpillFile × List Group)) (result : Attempt Groups) (after : Disk)
    (held' : List (SpillFile × List Group)) : Prop where
  carried : Carried torn disk held after held'
  partly : ∃ full, SpreadsPartly grouping current held full ∧ TornFrom after torn full held'
  wholly : ∀ remaining, result = .ok remaining → torn = none ∧
    SpreadsOver grouping current (groupsIn held) remaining (groupsIn held')

/-- Nothing was done. -/
theorem spreads_refl (grouping : Grouping) (current : List Group) (disk : Disk)
    (held : List (SpillFile × List Group)) (fault : Fault) :
    Spreads grouping current none disk held (.error fault) disk held where
  carried := .refl _ _ _
  partly := ⟨held, spreadsPartly_refl _ _ _, .whole held⟩
  wholly := by rintro _ ⟨⟩

/-- Groups are merged into those of a file, and what remains into those of the files behind it. -/
theorem Spreads.cons {remaining : List Group} {result : Attempt Groups}
    (hkept : Kept grouping disk (entry :: held))
    (hspread : SpreadsOver grouping current entry.2 remaining entry'.2)
    (hcarries : SpillFile.Carries none disk middle entry entry')
    (hframe : Disk.Frame (· = entry.1.file) disk middle)
    (h : Spreads grouping remaining torn middle held result after held') :
    Spreads grouping current torn disk (entry :: held) result after (entry' :: held') where
  carried := .cons hkept (hcarries.whole torn) hframe h.carried
  partly := by
    obtain ⟨full, hpartly, htorn⟩ := h.partly
    exact ⟨entry' :: full, .cons hspread hpartly, .cons entry' htorn⟩
  wholly remaining' hremaining := by
    rw [groupsIn_cons, groupsIn_cons]
    obtain ⟨hnone, hover⟩ := h.wholly remaining' hremaining
    exact ⟨hnone, hspread.append hover⟩

/-- Groups are merged into those of a file that is not written, or only in part. -/
theorem spreads_of_not_rewritten {remaining written : List Group} {fault : Fault}
    (hkept : Kept grouping disk (entry :: held)) (hsorted : Groups.Sorted written)
    (hspread : SpreadsOver grouping current entry.2 remaining written)
    (hrewrites : SpillFile.Rewrites disk after entry written torn (.error fault) entry')
    (hframe : Disk.Frame (· = entry.1.file) disk after) :
    Spreads grouping current torn disk (entry :: held) (.error fault) after (entry' :: held) where
  carried := .cons hkept (hrewrites.carries hsorted) hframe (.refl _ _ _)
  partly := by
    cases hrewrites with
    | torn htorn =>
        have hpartly :
            SpreadsPartly grouping current (entry :: held) ((entry.1, written) :: held) :=
          .cons hspread (spreadsPartly_refl grouping remaining held)
        exact ⟨_, hpartly, .torn htorn held⟩
    | undone hread => exact ⟨_, spreadsPartly_refl _ _ _, .whole _⟩
  wholly := by rintro _ ⟨⟩

theorem Spreads.turn {result : Attempt Groups}
    (h : Spreads grouping current torn disk.turn held result after held') :
    Spreads grouping current torn disk held result after held' :=
  { h with carried := (carried_turn disk held).trans h.carried }

/-- Groups are merged into those of the later files, up to one that cannot be read or written. -/
theorem spread_kept (h : Kept grouping disk held)
    (hcurrent : ∀ group ∈ current, group.Conforms grouping) (hnodup : (keys current).Nodup) :
    ∃ torn result held' after,
      spread current (held.map Prod.fst) disk = (result, held'.map Prod.fst, after) ∧
      Spreads grouping current torn disk held result after held' := by
  induction held generalizing current disk with
  | nil =>
      refine ⟨none, .ok current, [], disk, rfl, .refl _ _ _,
        ⟨[], spreadsPartly_refl _ _ _, .whole []⟩, fun remaining hremaining => ?_⟩
      cases hremaining
      exact ⟨rfl, .refl (List.forall_mem_nil _) fun _ _ => List.not_mem_nil⟩
  | cons entry held ih =>
      obtain ⟨file, groups⟩ := entry
      rw [List.map_cons]
      cases hempty : current.isEmpty with
      | true =>
          obtain rfl := List.isEmpty_iff.1 hempty
          refine ⟨none, .ok [], (file, groups) :: held, disk, rfl, .refl _ _ _,
            ⟨_, spreadsPartly_refl _ _ _, .whole _⟩, fun remaining hremaining => ?_⟩
          cases hremaining
          exact ⟨rfl, .refl h.conforms (List.forall_mem_nil _)⟩
      | false =>
          have hfile : file.Keeps disk groups := h.keeps _ List.mem_cons_self
          obtain ⟨loads, hload⟩ := SpillFile.exists_load file disk
          cases loads with
          | error fault =>
              exact ⟨_, _, (file, groups) :: held, _, spread_cons_of_not_loaded hempty hload _,
                (spreads_refl _ _ _ _ _).turn⟩
          | ok found =>
              obtain rfl := hfile.of_load hload
              obtain ⟨-, hspreads⟩ := spreadInto_spec hcurrent h.conforms_cons.1 hnodup
              cases hinto : spreadInto current found with
              | error fault =>
                  exact ⟨_, _, (file, found) :: held, _, spread_cons_of_error hempty hload hinto,
                    (spreads_refl _ _ _ _ _).turn⟩
              | ok spread' =>
                  obtain ⟨hspread, hsame⟩ := hspreads spread' hinto
                  have hsorted := hfile.sorted.of_keys hspread.keys
                  have hloaded := h.turn
                  obtain ⟨torn, written, entry', middle, hwrite, hrewrites, hframe⟩ :=
                    rewrite_kept (hloaded.keeps _ List.mem_cons_self) hsorted hsame
                  cases written with
                  | error fault =>
                      exact ⟨_, _, entry' :: held, _,
                        spread_cons_of_not_rewritten hempty hload hinto hwrite,
                        (spreads_of_not_rewritten hloaded hsorted hspread hrewrites hframe).turn⟩
                  | ok _ =>
                      have hcarries := hrewrites.carries hsorted
                      cases hrewrites with
                      | done =>
                          obtain ⟨torn, result, held', after, hrun, hrest⟩ :=
                            ih (hloaded.tail.frame hframe hloaded.ne_of_mem)
                              (hspread.conforms_remaining hcurrent) (hspread.nodup_remaining hnodup)
                          refine ⟨torn, result, _ :: held', after, ?_,
                            (hrest.cons hloaded hspread hcarries hframe).turn⟩
                          rw [spread_cons hempty hload hinto hwrite, hrun]
                          rfl

/-- The consolidation ends while groups are merged into later files. -/
theorem leavesTwice_of_partly (current : List Group)
    (h : SpreadsPartly grouping current held held') :
    ∃ taken, LeavesTwice (current ++ groupsIn held) [] current (groupsIn held') taken := by
  obtain ⟨done, done', rest, remaining, rfl, rfl, hover⟩ := h
  have hkeys := hover.keys
  refine ⟨(keys current).filter fun key => decide (key ∈ keys (groupsIn done)),
    ⟨fun key => ?_, fun key hkey => ?_, fun key => ?_⟩⟩
  · simp only [keys, groupsIn_append, List.map_append] at hkeys ⊢
    rw [hkeys]
    rfl
  · rw [List.mem_filter, decide_eq_true_eq, ← hkeys] at hkey
    rw [groupsIn_append, keys, keys, List.map_append, List.mem_append]
    exact ⟨hkey.1, Or.inl hkey.2⟩
  · have hremaining : current.filter (fun group => decide (group.key ∉
        (keys current).filter fun key => decide (key ∈ keys (groupsIn done)))) = remaining := by
      rw [hover.apart]
      refine List.filter_congr fun group hgroup => ?_
      have hmem : group.key ∈ keys current := List.mem_map_of_mem hgroup
      simp [hmem]
    rw [hremaining, groupsIn_append, groupsIn_append, List.nil_append, ← List.append_assoc,
      ← List.append_assoc]
    exact mergedAt_append_congr (hover.merged key) _

theorem spreadsPartly_of_spreadsOver {remaining : List Group}
    (h : SpreadsOver grouping current (groupsIn held) remaining (groupsIn held')) :
    SpreadsPartly grouping current held held' :=
  ⟨held, held', [], remaining, (List.append_nil _).symm, (List.append_nil _).symm, h⟩

/-- The consolidation ends once the first groups were merged into later files and given up. -/
theorem leavesTwice_of_spreadsOver {later remaining later' : List Group}
    (h : SpreadsOver grouping current later remaining later') :
    LeavesTwice (current ++ later) [] remaining later' [] where
  keys := h.mem_keys_append fun _ => Iff.rfl
  both := List.forall_mem_nil _
  merged key := by
    have hall : remaining.filter (fun group => decide (group.key ∉ ([] : List (List Scalar)))) =
        remaining := List.filter_eq_self.2 fun _ _ => rfl
    rw [hall]
    exact h.merged key

/-- What is left of groups in files whose consolidation has ended in the middle, maybe because the
writing of one of them broke off. -/
def BreaksOff (torn : Option FileName) (disk : Disk) (groups : List Group)
    (held : List (SpillFile × List Group)) : Prop :=
  ∃ before entry later taken, TornFrom disk torn (before ++ entry :: later) held ∧
    LeavesTwice groups (groupsIn before) entry.2 (groupsIn later) taken

/-- Some files after their consolidation, whether or not it has ended in the middle. -/
def Ends (grouping : Grouping) (disk : Disk) (held : List (SpillFile × List Group))
    (result : Attempt Unit) (files : List SpillFile) (after : Disk) : Prop :=
  ∃ torn held', files = held'.map Prod.fst ∧ Carried torn disk held after held' ∧
    Kept grouping after held' ∧ (result = .ok () → torn = none) ∧
    (result ≠ .ok () → BreaksOff torn after (groupsIn held) held')

/-- The consolidation ends at the first file. -/
theorem ends_first {full : List (SpillFile × List Group)} {taken : List (List Scalar)}
    (h : Kept grouping disk held) (hcarried : Carried torn disk held after held')
    (htorn : TornFrom after torn (entry :: full) held')
    (hleaves : LeavesTwice (groupsIn held) [] entry.2 (groupsIn full) taken)
    (hconforms : ∀ group ∈ groupsIn (entry :: full), group.Conforms grouping) (fault : Fault) :
    Ends grouping disk held (.error fault) (held'.map Prod.fst) after :=
  ⟨torn, held', rfl, hcarried,
    hcarried.kept h fun group hgroup => hconforms group (htorn.sublist.subset hgroup),
    by rintro ⟨⟩, fun _ => ⟨[], entry, full, taken, htorn, hleaves⟩⟩

/-- The first file is left as it was. -/
theorem ends_of_spreads {result : Attempt Groups} (h : Kept grouping disk (entry :: held))
    (hspreads : Spreads grouping entry.2 torn disk held result after held') (fault : Fault) :
    Ends grouping disk (entry :: held) (.error fault) ((entry :: held').map Prod.fst) after := by
  obtain ⟨full, hpartly, htorn⟩ := hspreads.partly
  obtain ⟨taken, hleaves⟩ := leavesTwice_of_partly entry.2 hpartly
  have hfirst : Carried torn disk (entry :: held) after (entry :: held') :=
    .cons h (.same rfl) (.refl _ _) hspreads.carried
  obtain ⟨hconforms, hrest⟩ := h.conforms_cons
  exact ends_first h hfirst (.cons entry htorn) hleaves
    (List.forall_mem_append.2 ⟨hconforms, hpartly.conforms hrest⟩) fault

/-- The first file is not written anew with the groups that remain, or only with a part of them. -/
theorem ends_of_not_rewritten {remaining : List Group} {fault : Fault}
    (h : Kept grouping disk (entry :: held)) (hcarried : Carried none disk held middle held')
    (hspreads : SpreadsOver grouping entry.2 (groupsIn held) remaining (groupsIn held'))
    (hsorted : Groups.Sorted remaining)
    (hrewrites : SpillFile.Rewrites middle after entry remaining torn (.error fault) entry')
    (hframe : Disk.Frame (· = entry.1.file) middle after) (other : Fault) :
    Ends grouping disk (entry :: held) (.error other) ((entry' :: held').map Prod.fst) after := by
  obtain ⟨hconforms, hrest⟩ := h.conforms_cons
  have hfirst : Carried torn disk (entry :: held) after (entry' :: held') :=
    .cons_last h hcarried (hrewrites.carries hsorted) hframe
  cases hrewrites with
  | undone _ =>
      have hpartly := spreadsPartly_of_spreadsOver hspreads
      obtain ⟨taken, hleaves⟩ := leavesTwice_of_partly entry.2 hpartly
      exact ends_first h hfirst (.whole _) hleaves
        (List.forall_mem_append.2 ⟨hconforms, hpartly.conforms hrest⟩) other
  | torn htorn =>
      exact ends_first h hfirst (.torn htorn held') (leavesTwice_of_spreadsOver hspreads)
        (List.forall_mem_append.2 ⟨hspreads.conforms_remaining hconforms, hspreads.conforms⟩) other

/-- The first file is written anew with the groups that remain. -/
theorem Ends.cons {last : Disk} {result : Attempt Unit} {files : List SpillFile}
    (h : Kept grouping disk (entry :: held))
    (hcarried : Carried none disk held middle held')
    (hentry : SpillFile.Carries none middle after entry entry')
    (hframe : Disk.Frame (· = entry.1.file) middle after)
    (hspreads : SpreadsOver grouping entry.2 (groupsIn held) entry'.2 (groupsIn held'))
    (hrest : Kept grouping after (entry' :: held') →
      Ends grouping after held' result files last) :
    Ends grouping disk (entry :: held) result (entry'.1 :: files) last := by
  have hremaining := hspreads.conforms_remaining h.conforms_cons.1
  have hfirst : Carried none disk (entry :: held) after (entry' :: held') :=
    .cons_last h hcarried hentry hframe
  have hkept : Kept grouping after (entry' :: held') :=
    hfirst.kept h (List.forall_mem_append.2 ⟨hremaining, hspreads.conforms⟩)
  obtain ⟨torn, held'', rfl, hcarried', hkept', hwhole, hbreaks⟩ := hrest hkept
  have hlast : Carried torn disk (entry :: held) last (entry' :: held'') :=
    hfirst.trans (.cons hkept (.same rfl) (.refl _ _) hcarried')
  refine ⟨torn, entry' :: held'', rfl, hlast, hlast.kept h
    (List.forall_mem_append.2 ⟨hremaining, hkept'.conforms⟩), hwhole, fun hfails => ?_⟩
  obtain ⟨before, entry'', later, taken, htorn, hleaves⟩ := hbreaks hfails
  exact ⟨entry' :: before, entry'', later, taken, .cons entry' htorn, .cons hspreads hleaves⟩

/-- Files are consolidated, up to one that cannot be read or written. -/
theorem consolidateFiles_kept {result : Attempt Unit} {files : List SpillFile}
    (h : Kept grouping disk held)
    (hrun : consolidateFiles (held.map Prod.fst) disk = (result, files, after)) :
    Ends grouping disk held result files after := by
  induction hlength : held.length generalizing held disk files with
  | zero =>
      obtain rfl := List.length_eq_zero_iff.1 hlength
      rw [List.map_nil, consolidateFiles] at hrun
      cases hrun
      exact ⟨none, [], rfl, .refl _ _ _, h, fun _ => rfl, fun hfails => absurd rfl hfails⟩
  | succ n ih =>
      cases held with
      | nil => cases hlength
      | cons entry held =>
          obtain ⟨file, groups⟩ := entry
          have hfile : file.Keeps disk groups := h.keeps _ List.mem_cons_self
          rw [List.map_cons] at hrun
          obtain ⟨loads, hload⟩ := SpillFile.exists_load file disk
          cases loads with
          | error other =>
              rw [consolidateFiles_cons_of_not_loaded hload] at hrun
              cases hrun
              exact ends_of_spreads h (spreads_refl _ _ _ _ other).turn other
          | ok found =>
              obtain rfl := hfile.of_load hload
              obtain ⟨torn, spreads, held', middle, hspread, hspreads⟩ :=
                spread_kept h.tail.turn h.conforms_cons.1 hfile.sorted.nodup
              have hwhole := hspreads.turn
              rw [← Groups.ofList_of_sorted hfile.sorted] at hspread
              cases spreads with
              | error other =>
                  rw [consolidateFiles_cons_of_error hload hspread] at hrun
                  cases hrun
                  exact ends_of_spreads h hwhole other
              | ok remaining =>
                  obtain ⟨rfl, hover⟩ := hwhole.wholly remaining rfl
                  have hsorted : Groups.Sorted remaining := hfile.sorted.sublist hover.sublist
                  have hnot := (List.nodup_cons.1 h.names).1
                  have hsame := hwhole.carried.frame.read file.file hfile.allocated hnot
                  obtain ⟨torn, written, entry', after', hreplace, hrewrites, hframe⟩ :=
                    SpillFile.exists_rewrites
                      (hfile.of_read? hsame hwhole.carried.frame.serial) hsorted
                  cases written with
                  | error other =>
                      rw [consolidateFiles_cons_of_not_replaced hload hspread hreplace] at hrun
                      cases hrun
                      exact ends_of_not_rewritten h hwhole.carried hover hsorted hrewrites hframe
                        other
                  | ok _ =>
                      rw [consolidateFiles_cons hload hspread hreplace] at hrun
                      rcases hrest : consolidateFiles (held'.map Prod.fst) after' with
                        ⟨result', files', last⟩
                      rw [hrest] at hrun
                      cases hrun
                      have hlength' : held'.length = n :=
                        hwhole.carried.carries.length_eq.symm.trans (Nat.succ.inj hlength)
                      have hentry := hrewrites.carries hsorted
                      cases hrewrites with
                      | done =>
                          exact .cons h hwhole.carried hentry hframe hover
                            fun hkept => ih hkept.tail hrest hlength'

end SpillingTable
end ExtentEngine
