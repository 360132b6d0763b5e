import ExtentEngine.Dataset.Action
import ExtentEngine.Dataset.Emission
import ExtentEngine.Proofs.Dataset.Replacing
import ExtentEngine.Proofs.Disk.Owners

/-!
# What operations leave of a dataset

An operation on a dataset may fail after it has begun: records of the wrong arity end a sort whose
extents were removed already, and files may fail to be removed or to be written.  Files may also be
lost, and then nothing is read from them.  Whatever the outcome is, a dataset that claims to
be sorted is sorted.

**Results.**
* `push_spec`, `append_spec`, `replace_spec`: what becomes of the extents of a dataset, and that it
  has the records if the operation succeeds.
* `leaves_sort`, `leaves_rearrange`, `leaves_removed`, `leaves_perform`: what operations leave of a
  truthful dataset is truthful.
-/

namespace ExtentEngine

/-- A slot that was made for an extent, which can be loaded unless the file of the slot was lost. -/
def Slot.Keeps (disk : Disk) (slot : Slot) (extent : Extent) : Prop :=
  slot.load disk = .ok extent ∨ ∃ file, slot.file? = some file ∧ disk.read? file = none

namespace Slot

variable {disk after : Disk} {slot : Slot} {extent found : Extent} {file : FileName}

theorem load_of_lost (hfile : slot.file? = some file) (hlost : disk.read? file = none) :
    slot.load disk = .error (.fileNotOpened file.path) := by
  cases slot with
  | memory extent => cases hfile
  | file name length =>
      cases hfile
      rw [load, Disk.readItems, hlost]
      rfl

/-- What is loaded from a slot is what the slot was made for. -/
theorem Keeps.eq_of_load (h : slot.Keeps disk extent) (hload : slot.load disk = .ok found) :
    found = extent := by
  rcases h with hkept | ⟨file, hfile, hlost⟩
  · cases hkept.symm.trans hload
    rfl
  · cases (load_of_lost hfile hlost).symm.trans hload

/-- Others leave the file of a slot as it is, or it is lost. -/
theorem Keeps.disturb (h : slot.Keeps disk extent)
    (hfiles : ∀ file, slot.file? = some file →
      after.read? file = disk.read? file ∨ after.read? file = none) :
    slot.Keeps after extent := by
  rcases h with hload | ⟨file, hfile, hlost⟩
  · by_cases hlost : ∃ file, slot.file? = some file ∧ after.read? file = none
    · exact Or.inr hlost
    · refine Or.inl ((load_congr fun file hfile => ?_).trans hload)
      exact (hfiles file hfile).resolve_right fun hnone => hlost ⟨file, hfile, hnone⟩
  · refine Or.inr ⟨file, hfile, ?_⟩
    rcases hfiles file hfile with hsame | hnone
    · exact hsame.trans hlost
    · exact hnone

end Slot

namespace Dataset

/-- A dataset that was made for the given extents and is sorted if it claims to be. -/
structure Truthful (disk : Disk) (dataset : Dataset) (extents : List Extent) : Prop where
  slots : List.Forall₂ (Slot.Keeps disk) dataset.slots extents
  allocated : ∀ file ∈ dataset.files, disk.Allocated file
  sorted : ∀ key, dataset.sortedBy = some key →
    extents.flatten.Pairwise fun a b => Record.leOn key a b = true

namespace Truthful

variable {disk after : Disk} {dataset : Dataset} {extents : List Extent} {records : List Record}

/-- A dataset without extents is sorted, whatever it claims. -/
theorem empty (hslots : dataset.slots = []) (disk : Disk) : dataset.Truthful disk [] where
  slots := hslots ▸ .nil
  allocated := by
    rw [files, hslots]
    exact List.forall_mem_nil _
  sorted _ _ := .nil

/-- Others leave the files of the dataset as they are, or they are lost. -/
theorem disturb (h : dataset.Truthful disk extents) (hserial : disk.nextSerial ≤ after.nextSerial)
    (hfiles : ∀ file ∈ dataset.files,
      after.read? file = disk.read? file ∨ after.read? file = none) :
    dataset.Truthful after extents where
  slots := by
    refine List.forall₂_iff_get.2 ⟨h.slots.length_eq, fun i hi hi' => ?_⟩
    refine (h.slots.get hi hi').disturb fun file hfile => hfiles file ?_
    exact mem_files.2 ⟨_, List.get_mem _ _, hfile⟩
  allocated file hfile := Disk.allocated_mono hserial (h.allocated file hfile)
  sorted := h.sorted

/-- Operations that own none of its files leave a dataset as it is. -/
theorem frame {own : FileName → Prop} (h : dataset.Truthful disk extents)
    (hframe : Disk.Frame own disk after) (hown : ∀ file ∈ dataset.files, ¬own file) :
    dataset.Truthful after extents :=
  h.disturb hframe.serial fun file hfile =>
    Or.inl (hframe.read file (h.allocated file hfile) (hown file hfile))

/-- The records that can be read are those that the dataset was made for. -/
theorem flatten_eq (h : dataset.Truthful disk extents)
    (hrecords : dataset.records disk = .ok records) : extents.flatten = records := by
  obtain ⟨found, hfound, rfl⟩ := exists_extents_of_records hrecords
  have hloads := extents_eq_ok.1 hfound
  have hlength : extents.length = found.length := h.slots.length_eq.symm.trans hloads.length_eq
  refine congrArg List.flatten (List.ext_get hlength fun i hi hi' => ?_)
  have hslot : i < dataset.slots.length := h.slots.length_eq ▸ hi
  exact ((h.slots.get hslot hi).eq_of_load (hloads.get hslot hi')).symm

/-- The records can be read unless a file was lost. -/
theorem records_eq (h : dataset.Truthful disk extents)
    (hfiles : ∀ file ∈ dataset.files, disk.read? file ≠ none) :
    dataset.records disk = .ok extents.flatten := by
  refine records_eq_ok (extents_eq_ok.2 (List.forall₂_iff_get.2 ⟨h.slots.length_eq, ?_⟩))
  intro i hi hi'
  rcases h.slots.get hi hi' with hload | ⟨file, hfile, hlost⟩
  · exact hload
  · exact absurd hlost (hfiles file (mem_files.2 ⟨_, List.get_mem _ _, hfile⟩))

end Truthful

/-- What was appended to a truthful dataset leaves it truthful. -/
theorem Appended.truthful {extents extents' : List Extent} {s t : Dataset × Disk}
    (h : Appended extents' s t) (hs : s.1.Truthful s.2 extents) :
    t.1.Truthful t.2 (extents ++ extents') := by
  have hkept := hs.frame h.frame fun _ _ => id
  obtain ⟨slots, sortedBy, hdataset, hloads, -⟩ := h.dataset
  have hslots : t.1.slots = s.1.slots ++ slots := congrArg Dataset.slots hdataset
  refine ⟨?_, h.allocated hkept.allocated, fun key hkey => ?_⟩
  · rw [hslots]
    exact List.rel_append hkept.slots (hloads.imp fun _ _ => Or.inl)
  · obtain ⟨rfl, hkey⟩ := h.of_marked hkey
    rw [List.append_nil]
    exact hs.sorted key hkey

theorem Appended.hands {extents : List Extent} {s t : Dataset × Disk} (h : Appended extents s t) :
    HandsOn s.1.files s.2 t.1.files t.2 where
  frame := h.frame.mono fun _ _ hfalse => hfalse.elim
  names _ hfile := h.not_allocated hfile

/-- Whatever comes of it, an extent is appended or nothing is. -/
theorem push_spec (extent : Extent) (s : Dataset × Disk) :
    ∃ extents, Appended extents s ((push extent).run s).2 ∧
      (((push extent).run s).1 = .ok () → extents = [extent]) := by
  rcases push_cases extent s with
    ⟨-, t, hrun, happended⟩ | ⟨-, hrun⟩ | ⟨-, -, fault, t, hrun, -, -, happended⟩ <;> rw [hrun]
  · exact ⟨[extent], happended, fun _ => rfl⟩
  · exact ⟨[], .refl _, by rintro ⟨⟩⟩
  · exact ⟨[], happended, by rintro ⟨⟩⟩

end Dataset

namespace Writer

open Dataset (Appended)

variable {α β : Type}

/-- A step with a writer that appends extents, or nothing, to the dataset. -/
def Appending (step : Step (Writer × Disk) α) : Prop :=
  ∀ s, ∃ extents, Appended extents (s.1.dataset, s.2)
    ((step.run s).2.1.dataset, (step.run s).2.2)

/-- A step with a writer that appends extents to the dataset and, if it succeeds, has taken the
given records: they were appended after those that the writer held, or are held by it. -/
def Taking (records : List Record) (step : Step (Writer × Disk) α) : Prop :=
  ∀ s, ∃ extents, Appended extents (s.1.dataset, s.2)
      ((step.run s).2.1.dataset, (step.run s).2.2) ∧
    ∀ a, (step.run s).1 = .ok a →
      s.1.buffer ++ records = extents.flatten ++ (step.run s).2.1.buffer

theorem Taking.appending {records : List Record} {step : Step (Writer × Disk) α}
    (h : Taking records step) : Appending step :=
  fun s => (h s).imp fun _ hs => hs.1

namespace Appending

theorem pure (a : α) : Appending (Pure.pure a : Step (Writer × Disk) α) :=
  fun _ => ⟨[], .refl _⟩

theorem ofAttempt (attempt : Attempt α) :
    Appending (Step.ofAttempt attempt : Step (Writer × Disk) α) :=
  fun _ => ⟨[], .refl _⟩

theorem attempt {step : Step (Writer × Disk) α} (h : Appending step) : Appending step.attempt := h

theorem bind {step : Step (Writer × Disk) α} {next : α → Step (Writer × Disk) β}
    (h : Appending step) (hnext : ∀ a, Appending (next a)) : Appending (step >>= next) := by
  intro s
  obtain ⟨extents, hfirst⟩ := h s
  rw [Step.run_bind]
  rcases hrun : step.run s with ⟨result, t⟩
  rw [hrun] at hfirst
  cases result with
  | error fault => exact ⟨extents, hfirst⟩
  | ok a =>
      obtain ⟨extents', hlast⟩ := hnext a t
      exact ⟨extents ++ extents', hfirst.trans hlast⟩

end Appending

namespace Taking

theorem pure (a : α) : Taking [] (Pure.pure a : Step (Writer × Disk) α) :=
  fun _ => ⟨[], .refl _, fun _ _ => List.append_nil _⟩

theorem bind {records records' : List Record} {step : Step (Writer × Disk) α}
    {next : α → Step (Writer × Disk) β} (h : Taking records step)
    (hnext : ∀ a, Taking records' (next a)) : Taking (records ++ records') (step >>= next) := by
  intro s
  obtain ⟨extents, hfirst, htaken⟩ := h s
  rw [Step.run_bind]
  rcases hrun : step.run s with ⟨result, t⟩
  rw [hrun] at hfirst htaken
  cases result with
  | error fault => exact ⟨extents, hfirst, by rintro _ ⟨⟩⟩
  | ok a =>
      obtain ⟨extents', hlast, htaken'⟩ := hnext a t
      refine ⟨extents ++ extents', hfirst.trans hlast, fun b hb => ?_⟩
      rw [← List.append_assoc, htaken a rfl, List.append_assoc, htaken' b hb, List.flatten_append,
        List.append_assoc]

end Taking

/-- Whether or not its extent could be appended, a writer holds nothing after it was flushed. -/
theorem buffer_flush (s : Writer × Disk) : (flush.run s).2.1.buffer = [] := by
  by_cases hempty : s.1.buffer.isEmpty = true
  · rw [run_flush_of_isEmpty hempty]
    exact List.isEmpty_iff.1 hempty
  · rw [run_flush_of_not_isEmpty hempty]

theorem taking_flush : Taking [] flush := by
  intro s
  obtain ⟨extents, happended, hok⟩ := Dataset.push_spec s.1.buffer (s.1.dataset, s.2)
  by_cases hempty : s.1.buffer.isEmpty = true
  · rw [run_flush_of_isEmpty hempty]
    exact ⟨[], .refl _, fun _ _ => List.append_nil _⟩
  · rw [run_flush_of_not_isEmpty hempty]
    refine ⟨extents, happended, fun _ hresult => ?_⟩
    rw [hok hresult]
    simp

theorem taking_insert (record : Record) : Taking [record] (insert record) := by
  rintro ⟨writer, disk⟩
  by_cases harity : record.length = writer.dataset.schema.length
  · rw [run_insert harity]
    split
    · obtain ⟨extents, happended, htaken⟩ := taking_flush (writer.keep record, disk)
      refine ⟨extents, happended, fun a ha => ?_⟩
      rw [← htaken a ha, List.append_nil]
      rfl
    · exact ⟨[], .refl _, fun _ _ => rfl⟩
  · rw [run_insert_of_ne harity]
    exact ⟨[], .refl _, by rintro _ ⟨⟩⟩

theorem taking_insertAll (records : List Record) : Taking records (insertAll records) := by
  induction records with
  | nil => exact .pure ()
  | cons record records ih => exact (taking_insert record).bind fun _ => ih

theorem taking_close : Taking [] close :=
  taking_flush.bind fun _ _ => ⟨[], .refl _, fun _ _ => List.append_nil _⟩

theorem buffer_close (s : Writer × Disk) : (close.run s).2.1.buffer = [] := by
  have hflush := buffer_flush s
  rw [close, Step.run_bind]
  rcases hrun : flush.run s with ⟨result, t⟩
  rw [hrun] at hflush
  cases result <;> exact hflush

theorem appending_offer (records : List Record) : Appending (offer records) := by
  induction records with
  | nil => exact .pure _
  | cons record records ih =>
      exact (taking_insert record).appending.attempt.bind fun _ => ih.bind fun _ => .pure _

theorem appending_session (records : List Record) (closes : Bool) :
    Appending (session records closes) := by
  refine (appending_offer records).bind fun _ => ?_
  cases closes with
  | true => exact taking_close.appending.attempt.bind fun _ => .pure _
  | false => exact .pure _

end Writer

theorem Emission.appending_into {α : Type} (emission : Emission α) :
    Writer.Appending emission.into :=
  (Writer.taking_insertAll emission.rows).appending.bind fun _ => .ofAttempt _

/-- A writer that takes the records of an emission and then is closed. -/
theorem Emission.appending_closed {α : Type} (emission : Emission α) :
    Writer.Appending (do
      let result ← emission.into.attempt
      let closed ← Writer.close.attempt
      Step.ofAttempt (result.bind fun a => closed.map fun _ => a) : Step (Writer × Disk) α) :=
  emission.appending_into.attempt.bind fun _ =>
    Writer.taking_close.appending.attempt.bind fun _ => .ofAttempt _

namespace Dataset

variable {α : Type} {s t u : Dataset × Disk} {extents extents' : List Extent}

/-- What an operation leaves of a dataset is truthful, and of its files those are new that it did
not have before. -/
structure Leaves (s t : Dataset × Disk) (extents : List Extent) : Prop where
  truthful : t.1.Truthful t.2 extents
  hands : HandsOn s.1.files s.2 t.1.files t.2

theorem Leaves.refl (hs : s.1.Truthful s.2 extents) : Leaves s s extents :=
  ⟨hs, .refl _ _⟩

theorem Leaves.trans (h : Leaves s t extents) (h' : Leaves t u extents') : Leaves s u extents' :=
  ⟨h'.truthful, h.hands.trans h'.hands⟩

theorem Appended.leaves (h : Appended extents' s t) (hs : s.1.Truthful s.2 extents) :
    Leaves s t (extents ++ extents') :=
  ⟨h.truthful hs, h.hands⟩

/-- The extents are gone, also when some of their files could not be removed. -/
theorem leaves_removed (dataset : Dataset) (disk : Disk) (sortedBy : Option Key)
    {files : List FileName} (hfiles : files ⊆ dataset.files) :
    Leaves (dataset, disk) ({ dataset with slots := [], sortedBy := sortedBy },
      disk.removeAll files) [] where
  truthful := .empty rfl _
  hands := ⟨(Disk.frame_removeAll files disk).mono fun _ _ hfile => hfiles hfile,
    List.forall_mem_nil _⟩

theorem leaves_clear (s : Dataset × Disk) : Leaves s (clear.run s).2 [] := by
  rcases clear_cases s with hrun | ⟨-, done, file, rest, hfiles, hrun⟩ <;> rw [hrun]
  · exact leaves_removed s.1 s.2 none (List.Subset.refl _)
  · have hsub : (done ++ [file]).Sublist (done ++ file :: rest) :=
      (List.singleton_sublist.2 List.mem_cons_self).append_left done
    exact leaves_removed s.1 s.2 s.1.sortedBy (hfiles ▸ hsub.subset)

theorem leaves_writing {step : Step (Writer × Disk) α} (hstep : Writer.Appending step)
    (hs : s.1.Truthful s.2 extents) : ∃ extents', Leaves s ((writing step).run s).2 extents' := by
  obtain ⟨extents', happended⟩ := hstep (Writer.start s.1, s.2)
  exact ⟨extents ++ extents', Appended.leaves (t := ((writing step).run s).2) happended hs⟩

/-- Whatever comes of it, extents are appended, and they have all records if it succeeds. -/
theorem append_spec (records : List Record) (s : Dataset × Disk) :
    ∃ extents, Appended extents s ((append records).run s).2 ∧
      ∀ count, ((append records).run s).1 = .ok count → extents.flatten = records := by
  obtain ⟨extents, happended, htaken⟩ :=
    (Writer.taking_insertAll records).bind (fun _ => Writer.taking_close) (Writer.start s.1, s.2)
  refine ⟨extents, happended, fun count hcount => ?_⟩
  have hbuffer := htaken count hcount
  have hdrained : ((Writer.insertAll records >>= fun _ => Writer.close).run
      (Writer.start s.1, s.2)).2.1.buffer = [] := by
    have hcount' : ((Writer.insertAll records >>= fun _ => Writer.close).run
      (Writer.start s.1, s.2)).1 = .ok count := hcount
    rw [Step.run_bind] at hcount' ⊢
    rcases hinsert : (Writer.insertAll records).run (Writer.start s.1, s.2) with ⟨result, t⟩
    rw [hinsert] at hcount'
    cases result with
    | error fault => cases hcount'
    | ok _ => exact Writer.buffer_close t
  rw [hdrained, List.append_nil, List.append_nil] at hbuffer
  exact hbuffer.symm

/-- Whatever comes of it, what is left of a dataset is truthful, and it has the records that were
put in place if it succeeds. -/
theorem replace_spec (records : List Record) (s : Dataset × Disk) :
    ∃ extents, Leaves s ((replace records).run s).2 extents ∧
      (((replace records).run s).1 = .ok () → extents.flatten = records) := by
  have hcleared := leaves_clear s
  rw [replace, Step.run_bind]
  rcases hclear : clear.run s with ⟨_ | _, cleared⟩ <;> rw [hclear] at hcleared
  · exact ⟨[], hcleared, by rintro ⟨⟩⟩
  · obtain ⟨extents, happended, hok⟩ := append_spec records cleared
    have hleaves := hcleared.trans (happended.leaves hcleared.truthful)
    rw [List.nil_append] at hleaves
    simp only [Step.run_bind]
    rcases happend : (append records).run cleared with ⟨_ | count, t⟩ <;>
      rw [happend] at hleaves hok
    · exact ⟨extents, hleaves, by rintro ⟨⟩⟩
    · exact ⟨extents, hleaves, fun _ => hok count rfl⟩

theorem leaves_rearrange (order : List Record → List Record) (hs : s.1.Truthful s.2 extents) :
    ∃ extents', Leaves s ((rearrange order).run s).2 extents' := by
  cases hrecords : s.1.records s.2 with
  | error fault =>
      have hrun : (rearrange order).run s = (.error fault, s) := by
        simp only [rearrange, readAll, Step.run_bind, Step.run_get, Step.run_ofAttempt, hrecords]
      rw [hrun]
      exact ⟨extents, .refl hs⟩
  | ok records =>
      have hrun : (rearrange order).run s = (replace (order records)).run s := by
        simp only [rearrange, readAll, Step.run_bind, Step.run_get, Step.run_ofAttempt, hrecords]
      rw [hrun]
      exact (replace_spec (order records) s).imp fun _ h => h.1

theorem run_sort {key : Key} {records : List Record}
    (hvalid : key.validate s.1.schema.length = .ok ()) (hsorted : s.1.isSortedBy key = false)
    (hrecords : s.1.records s.2 = .ok records) :
    (sort key).run s = (do
      replace (Record.sortOn key records)
      Step.modify fun (dataset, disk) => ({ dataset with sortedBy := some key }, disk) :
        Step (Dataset × Disk) Unit).run s := by
  simp only [sort, readAll, Step.run_bind, Step.run_get, Step.run_ofAttempt, hvalid, hsorted,
    Bool.false_eq_true, if_false, hrecords]

/-- A dataset that was sorted claims to be sorted by the key, and is. -/
theorem leaves_sort (key : Key) (hs : s.1.Truthful s.2 extents) :
    ∃ extents', Leaves s ((sort key).run s).2 extents' := by
  cases hvalid : key.validate s.1.schema.length with
  | error fault =>
      have hrun : (sort key).run s = (.error fault, s) := by
        simp only [sort, Step.run_bind, Step.run_get, Step.run_ofAttempt, hvalid]
      rw [hrun]
      exact ⟨extents, .refl hs⟩
  | ok _ =>
      cases hsorted : s.1.isSortedBy key with
      | true =>
          have hrun : (sort key).run s = (.ok (), s) := by
            simp only [sort, Step.run_bind, Step.run_get, Step.run_ofAttempt, hvalid, hsorted,
              if_true, Step.run_pure]
          rw [hrun]
          exact ⟨extents, .refl hs⟩
      | false =>
          cases hrecords : s.1.records s.2 with
          | error fault =>
              have hrun : (sort key).run s = (.error fault, s) := by
                simp only [sort, readAll, Step.run_bind, Step.run_get, Step.run_ofAttempt, hvalid,
                  hsorted, Bool.false_eq_true, if_false, hrecords]
              rw [hrun]
              exact ⟨extents, .refl hs⟩
          | ok records =>
              obtain ⟨extents', hleaves, hok⟩ := replace_spec (Record.sortOn key records) s
              rw [run_sort hvalid hsorted hrecords, Step.run_bind]
              rcases hreplace : (replace (Record.sortOn key records)).run s with ⟨result, t⟩
              rw [hreplace] at hleaves hok
              cases result with
              | error fault => exact ⟨extents', hleaves⟩
              | ok _ =>
                  -- The mark is set only now that all records are in place.
                  refine ⟨extents', ⟨hleaves.truthful.slots, hleaves.truthful.allocated, ?_⟩,
                    hleaves.hands⟩
                  rintro other ⟨⟩
                  rw [hok rfl]
                  exact Record.pairwise_sortOn key records

/-- Whatever a caller does with a dataset leaves it truthful. -/
theorem leaves_perform (action : Action) (hs : s.1.Truthful s.2 extents) :
    ∃ extents', Leaves s ((perform action).run s).2 extents' := by
  cases action with
  | write records closes =>
      have hrun : ((perform (.write records closes)).run s).2 =
          ((writing (Writer.session records closes)).run s).2 := by
        rw [perform, Step.run_bind]
        rcases (writing (Writer.session records closes)).run s with ⟨result, t⟩
        cases result <;> rfl
      rw [hrun]
      exact leaves_writing (Writer.appending_session records closes) hs
  | push extent =>
      obtain ⟨extents', happended, -⟩ := push_spec extent s
      exact ⟨extents ++ extents', happended.leaves hs⟩
  | sort key => exact leaves_sort key hs
  | reverse => exact leaves_rearrange List.reverse hs
  | clear =>
      have hclear := leaves_clear s
      exact ⟨[], hclear⟩
  | extent | extentLength | records | read => exact ⟨extents, .refl hs⟩

end Dataset
end ExtentEngine
