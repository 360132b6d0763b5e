import ExtentEngine.Proofs.Dataset.Filling

/-!
# Records put in place of others

Other records are put in place of those of a dataset by removing all extents and appending the
records.  Both can go wrong: a file cannot be removed, and then the extents are gone all the same,
or what is appended is cut short.

**Results.**
* `clear_cases`: the extents are removed, or one of their files cannot be.
* `replace_cases`: records are put in place of others, or what is left of them, and why.
* `Valid.exists_replace`: records of the right arity are put in place of those of a valid dataset.
* `exists_sort`: sorting puts the records in order and touches no files of other datasets.
-/

namespace ExtentEngine
namespace Dataset

/-- The extents are gone, and so are their files unless one of them cannot be removed. -/
theorem clear_cases (s : Dataset × Disk) :
    clear.run s =
      (.ok (), ({ s.1 with slots := [], sortedBy := none }, s.2.removeAll s.1.files)) ∨
    ¬s.2.Calm ∧ ∃ done file rest, s.1.files = done ++ file :: rest ∧
      clear.run s = (.error (.fileNotRemoved file.path),
        ({ s.1 with slots := [] }, s.2.removeAll (done ++ [file]))) := by
  obtain ⟨dataset, disk⟩ := s
  rcases Disk.deleteAll_cases dataset.files disk with
    h | ⟨hstormy, done, file, rest, hfiles, h⟩ <;> rw [Step.run, files] at h
  · refine Or.inl ?_
    simp only [Step.run, clear, h]
    rfl
  · refine Or.inr ⟨hstormy, done, file, rest, hfiles, ?_⟩
    simp only [Step.run, clear, h]

theorem Writable.run_clear {s : Dataset × Disk} (hs : Writable s) :
    clear.run s =
      (.ok (), ({ s.1 with slots := [], sortedBy := none }, s.2.removeAll s.1.files)) :=
  (clear_cases s).resolve_right fun hfailed => hfailed.1 hs.calm

/-- Without files there is nothing to be removed. -/
theorem run_clear_of_files_eq_nil {s : Dataset × Disk} (h : s.1.files = []) :
    clear.run s = (.ok (), ({ s.1 with slots := [], sortedBy := none }, s.2)) := by
  rcases clear_cases s with hrun | ⟨-, done, file, rest, hfiles, -⟩
  · rw [hrun, h]
    rfl
  · cases List.append_ne_nil_of_right_ne_nil done (List.cons_ne_nil file rest) (hfiles ▸ h)

/-- Without its extents a dataset can be written to. -/
theorem Writable.removed {s : Dataset × Disk} (hs : Writable s) :
    Writable ({ s.1 with slots := [], sortedBy := none }, s.2.removeAll s.1.files) :=
  hs.frame (Disk.frame_removeAll s.1.files s.2) rfl

/-- Records are put in place of those of a dataset: they fill extents, and the rest makes one more.
Else a file of the dataset cannot be removed, and no records are left, or the records are cut
short. -/
theorem replace_cases (records : List Record) (s : Dataset × Disk) :
    (∃ t extents, (replace records).run s = (.ok (), t) ∧
      Appended extents ({ s.1 with slots := [], sortedBy := none }, s.2.removeAll s.1.files) t ∧
      extents.flatten = records ∧ Packed s.1.limit extents) ∨
    ¬s.2.Calm ∧ (∃ done file rest, s.1.files = done ++ file :: rest ∧
      (replace records).run s = (.error (.fileNotRemoved file.path),
        ({ s.1 with slots := [] }, s.2.removeAll (done ++ [file])))) ∨
    ∃ fault t left, (replace records).run s = (.error fault, t) ∧
      t.1.records t.2 = .ok left ∧
      CutShort s.1.limit s.1.schema.length records fault left ∧
      (fault.isWriteFailure = true → ¬Writable s) := by
  rw [replace, Step.run_bind]
  rcases clear_cases s with hclear | ⟨hstormy, done, file, rest, hfiles, hclear⟩ <;> rw [hclear]
  · simp only [Step.run_bind]
    rcases append_cases records ({ s.1 with slots := [], sortedBy := none },
      s.2.removeAll s.1.files) with
      ⟨t, extents, happend, happended, hflatten, hpacked⟩ |
        ⟨fault, t, extents, happend, happended, hcut, hnot⟩ <;> rw [happend]
    · exact Or.inl ⟨t, extents, rfl, happended, hflatten, hpacked⟩
    · exact Or.inr (Or.inr ⟨fault, t, extents.flatten, rfl, happended.records_eq rfl, hcut,
        fun hfault hs => hnot hfault hs.removed⟩)
  · exact Or.inr (Or.inl ⟨hstormy, done, file, rest, hfiles, rfl⟩)

/-- Records of the right arity are put in place of those of a dataset. -/
theorem exists_replace {records : List Record} {s : Dataset × Disk} (hs : Writable s)
    (harity : ∀ record ∈ records, record.length = s.1.schema.length) :
    ∃ t extents, (replace records).run s = (.ok (), t) ∧
      Appended extents
        ({ s.1 with slots := [], sortedBy := none }, s.2.removeAll s.1.files) t ∧
      extents.flatten = records ∧ Packed s.1.limit extents := by
  rcases replace_cases records s with h | ⟨hstormy, -⟩ | ⟨_, _, _, -, -, hcut, hstormy⟩
  · exact h
  · exact absurd hs.calm hstormy
  · exact absurd hs (hstormy (hcut.isWriteFailure harity))

/-- Other records of the right arity are put in place of those of a valid dataset. -/
theorem Valid.exists_replace {records : List Record} {dataset : Dataset} {disk : Disk}
    {extents : List Extent} (h : dataset.Valid disk extents)
    (harity : ∀ record ∈ records, record.length = dataset.schema.length) :
    ∃ dataset' disk' extents', (replace records).run (dataset, disk) = (.ok (), (dataset', disk')) ∧
      dataset'.schema = dataset.schema ∧ dataset'.Valid disk' extents' ∧
      extents'.flatten = records ∧ Disk.Frame (· ∈ dataset.files) disk disk' ∧
      ∀ file ∈ dataset'.files, ¬disk.Allocated file := by
  have hremoved := Disk.frame_removeAll dataset.files disk
  have hcleared : Valid (disk.removeAll dataset.files)
      { dataset with slots := [], sortedBy := none } [] :=
    ⟨⟨rfl, nofun⟩, nofun, nofun, h.writable.removed⟩
  obtain ⟨⟨dataset', disk'⟩, extents', hreplace, happended, rfl, -⟩ :=
    Dataset.exists_replace h.writable harity
  refine ⟨dataset', disk', extents', hreplace, happended.schema, happended.valid hcleared harity,
    rfl, hremoved.trans (happended.frame.mono fun _ _ hfalse => hfalse.elim), fun file hfile => ?_⟩
  rcases happended.not_allocated hfile with hold | hnew
  · cases hold
  · exact fun hallocated => hnew (hremoved.allocated hallocated)

/-- Sorting puts the records in order and touches no files of other datasets. -/
theorem exists_sort {key : Key} {dataset : Dataset} {disk : Disk} {extents : List Extent}
    (h : dataset.Valid disk extents) (hkey : key.validate dataset.schema.length = .ok ()) :
    ∃ dataset' disk' extents', (sort key).run (dataset, disk) = (.ok (), (dataset', disk')) ∧
      dataset'.schema = dataset.schema ∧ dataset'.Valid disk' extents' ∧
      extents'.flatten = Record.sortOn key extents.flatten ∧
      Disk.Frame (· ∈ dataset.files) disk disk' ∧
      ∀ file ∈ dataset'.files, file ∈ dataset.files ∨ ¬disk.Allocated file := by
  cases hsorted : dataset.isSortedBy key with
  | true =>
      have hmarker : dataset.sortedBy = some key := of_decide_eq_true hsorted
      have hsame : Record.sortOn key extents.flatten = extents.flatten :=
        List.mergeSort_of_pairwise (h.sorted key hmarker)
      refine ⟨dataset, disk, extents, ?_, rfl, h, hsame.symm, .refl _ _,
        fun _ hfile => Or.inl hfile⟩
      simp only [sort, Step.run_bind, Step.run_get, Step.run_ofAttempt, hkey, hsorted, if_true,
        Step.run_pure]
  | false =>
      have harity : ∀ record ∈ Record.sortOn key extents.flatten,
          record.length = dataset.schema.length :=
        fun record hrecord => h.arity record ((Record.sortOn_perm key _).mem_iff.1 hrecord)
      obtain ⟨dataset', disk', extents', hreplace, hschema, hvalid, hflatten, hframe, hfiles⟩ :=
        h.exists_replace harity
      refine ⟨{ dataset' with sortedBy := some key }, disk', extents', ?_, hschema, ?_, hflatten,
        hframe, fun file hfile => Or.inr (hfiles file hfile)⟩
      · simp only [sort, readAll, Step.run_bind, Step.run_get, Step.run_ofAttempt, hkey, hsorted,
          Bool.false_eq_true, if_false, records_eq_ok h.loads, hreplace, Step.run_modify]
      · refine ⟨⟨hvalid.loads, hvalid.allocated⟩, hvalid.arity, ?_,
          hvalid.writable.frame (.refl (fun _ => False) _) rfl⟩
        rintro other ⟨⟩
        rw [hflatten]
        exact Record.pairwise_sortOn key extents.flatten

end Dataset
end ExtentEngine
