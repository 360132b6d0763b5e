import ExtentEngine.Proofs.Dataset.Outcomes
import ExtentEngine.Proofs.Record.StableSort

/-!
# What sorting makes of a dataset

A dataset is sorted by reading all records, sorting them stably and writing them again.  The
writer fills one extent after the other, so however the records were spread over extents before,
afterwards every extent but the last is full and none is empty.

**Results.**
* `sort_packs_stably`: what sorting makes of the records and the extents of a dataset, and that
  sorting once more changes nothing.
-/

namespace ExtentEngine

namespace Dataset

variable {s : Dataset × Disk} {records : List Record}

/-- Sorting by the key that a dataset claims to be sorted by does nothing. -/
theorem run_sort_of_isSortedBy {key : Key} (hvalid : key.validate s.1.schema.length = .ok ())
    (hsorted : s.1.isSortedBy key = true) : (sort key).run s = (.ok (), s) := by
  simp only [sort, Step.run_bind, Step.run_get, Step.run_ofAttempt, hvalid, hsorted, if_true,
    Step.run_pure]

/-- If the records of a dataset can be read and fit the schema, and it can be written to, then
sorting by another key than the one it claims to be sorted by succeeds.  Afterwards its records are
the stable sort of those before, they are packed into extents, and the dataset claims to be sorted
by the key; sorting once more changes neither the dataset nor the disk. -/
theorem sort_packs_stably {key : Key} (hs : Writable s)
    (hkey : ∀ column ∈ key, column < s.1.schema.length) (hsorted : s.1.isSortedBy key = false)
    (hrecords : s.1.records s.2 = .ok records)
    (harity : ∀ record ∈ records, record.length = s.1.schema.length) :
    ∃ t extents, (sort key).run s = (.ok (), t) ∧
      t.1.extents t.2 = .ok extents ∧ t.1.records t.2 = .ok extents.flatten ∧
      Record.IsStableSort key records extents.flatten ∧
      Packed s.1.limit extents ∧ t.1.schema = s.1.schema ∧ t.1.limit = s.1.limit ∧
      t.1.isSortedBy key = true ∧ (sort key).run t = (.ok (), t) := by
  have hvalid : key.validate s.1.schema.length = .ok () := Key.validate_eq_ok_iff.2 hkey
  have hperm := Record.sortOn_perm key records
  obtain ⟨t, extents, hreplace, happended, hflatten, hpacked⟩ :=
    exists_replace hs fun record hrecord => harity record (hperm.mem_iff.1 hrecord)
  have hschema : t.1.schema = s.1.schema := happended.schema
  have hlimit : t.1.limit = s.1.limit := happended.limit
  have hextents : t.1.extents t.2 = .ok extents := happended.extents_eq rfl
  have hmarked : ({ t.1 with sortedBy := some key } : Dataset).isSortedBy key = true :=
    decide_eq_true rfl
  refine ⟨({ t.1 with sortedBy := some key }, t.2), extents, ?_, hextents,
    records_eq_ok hextents, ?_, hpacked, hschema, hlimit, hmarked,
    run_sort_of_isSortedBy (hschema ▸ hvalid) hmarked⟩
  · rw [run_sort hvalid hsorted hrecords, Step.run_bind, hreplace]
    rfl
  · rw [hflatten]
    exact Record.isStableSort_sortOn key records

/-- Records with a key of mixed types, spread over extents of which one is empty. -/
def smallUnsorted : Dataset :=
  ⟨[⟨"key", .int64, true⟩, ⟨"place", .int64, true⟩], 2, Nat.two_pos,
    [.memory [[.int 2, .int 0], [.null, .int 1]], .memory [],
      .memory [[.text "a", .int 2], [.int 2, .int 3]], .memory [[.float ⟨0⟩, .int 4]]],
    none, none⟩

theorem sort_packs_stably_small :
    ∃ t extents, (sort [0, 0]).run (smallUnsorted, .empty) = (.ok (), t) ∧
      t.1.extents t.2 = .ok extents ∧ Packed 2 extents ∧ extents.flatten.length = 5 ∧
      extents.flatten.filter (Record.ties [0, 0] [.int 2]) =
        [[.int 2, .int 0], [.int 2, .int 3]] := by
  have hrecords : smallUnsorted.records .empty =
      .ok [[.int 2, .int 0], [.null, .int 1], [.text "a", .int 2], [.int 2, .int 3],
        [.float ⟨0⟩, .int 4]] := by
    decide
  obtain ⟨t, extents, hrun, hextents, -, hstable, hpacked, -⟩ :=
    @sort_packs_stably (smallUnsorted, .empty) _ [0, 0] ⟨rfl, nofun⟩ (by decide) (by decide)
      hrecords (by decide)
  refine ⟨t, extents, hrun, hextents, hpacked, hstable.perm.length_eq, ?_⟩
  rw [hstable.stable]
  decide

end Dataset
end ExtentEngine
