import ExtentEngine.Proofs.Dataset.Resting
import ExtentEngine.Proofs.Partition.Coverage

/-!
# What a cursor has loaded

A cursor goes forward from extent to extent and loads each of them, so one that comes to the end
has loaded them all, and each record that it delivers is one of those that were left.

**Results.**
* `settle_traverses`, `next_traverses`: going forward loads the extents that are passed.
* `Traverses.frame`: operations that own no files of the dataset do not change what was loaded.
-/

namespace ExtentEngine

namespace Dataset

variable {disk later : Disk} {dataset : Dataset}

/-- Operations that own none of its files do not change what is loaded of a dataset. -/
theorem extent_frame (hframe : Disk.Frame (fun _ => False) disk later)
    (hfiles : ∀ file ∈ dataset.files, disk.Allocated file) (index : Nat) :
    dataset.extent later index = dataset.extent disk index := by
  rw [extent, extent, slot]
  cases hslot : dataset.slots[index]? with
  | none => rfl
  | some slot =>
      exact Slot.load_frame hframe fun file hfile =>
        ⟨hfiles file (mem_files.2 ⟨slot, List.mem_of_getElem? hslot, hfile⟩), id⟩

end Dataset

namespace Cursor

-- Sums start from the zero of the core library, whatever algebra is in scope.
attribute [local instance (high)] Zero.ofOfNat0

/-- The extents up to the one that a cursor is in can be loaded, and all of them if it is behind
the last one. -/
structure Traverses (disk : Disk) (cursor : Cursor) : Prop where
  loads : ∀ index ≤ cursor.extentIndex, index < cursor.dataset.extentCount →
    ∃ extent, cursor.dataset.extent disk index = .ok extent
  ends : cursor.extent = none → cursor.dataset.extentCount ≤ cursor.extentIndex

/-- A cursor that is at a row of its extent, if it is in one. -/
def Stops (cursor : Cursor) : Prop :=
  ∀ extent, cursor.extent = some extent → cursor.rowIndex < extent.length

/-- What going forward makes of a cursor. -/
structure Forward (disk : Disk) (cursor after : Cursor) : Prop where
  dataset : after.dataset = cursor.dataset
  traverses : after.Traverses disk
  stops : after.Stops
  remaining : after.remaining ≤ cursor.remaining

variable {disk : Disk} {dataset : Dataset} {cursor after : Cursor}

/-- All extents of the dataset can be loaded if the cursor is behind the last one. -/
theorem Traverses.exists_extent (h : cursor.Traverses disk) (hend : cursor.extent = none)
    {index : Nat} (hindex : index < cursor.dataset.extentCount) :
    ∃ extent, cursor.dataset.extent disk index = .ok extent :=
  h.loads index (Nat.le_of_lt (Nat.lt_of_lt_of_le hindex (h.ends hend))) hindex

/-- A cursor at a row of an extent has records left. -/
theorem Stops.extent_eq_none (h : cursor.Stops) (hremaining : cursor.remaining = 0) :
    cursor.extent = none := by
  cases hextent : cursor.extent with
  | none => rfl
  | some extent =>
      have hrow := h extent hextent
      rw [remaining, hextent, Option.getD_some] at hremaining
      omega

/-- The records that are left at the first row of an extent. -/
theorem remaining_of_extent {index : Nat} {extent : Extent}
    (h : dataset.extent disk index = .ok extent) (filter : Option Predicate) :
    remaining ⟨dataset, filter, index, 0, some extent⟩ =
      (dataset.extentLengths.drop index).sum := by
  obtain ⟨slot, hslot, hload⟩ := Attempt.bind_eq_ok.1 h
  rw [Dataset.slot] at hslot
  split at hslot
  · next hget =>
      cases hslot
      obtain ⟨hindex, hget⟩ := List.getElem?_eq_some_iff.1 hget
      have hlengths : index < dataset.extentLengths.length := by
        rwa [Dataset.extentLengths, List.length_map]
      rw [remaining, List.drop_eq_getElem_cons hlengths, List.sum_cons]
      simp only [Dataset.extentLengths, List.getElem_map, hget, Slot.length_of_load hload,
        Option.getD_some, Nat.sub_zero]
  · cases hslot

theorem settle_traverses (h : cursor.Traverses disk)
    (hrun : settle disk cursor = (.ok (), after)) : Forward disk cursor after := by
  fun_induction settle disk cursor with
  | case1 cursor hextent =>
      cases hrun
      refine ⟨rfl, h, fun extent hsome => ?_, Nat.le_refl _⟩
      rw [hextent] at hsome
      cases hsome
  | case2 cursor extent hextent row hsearch =>
      cases hrun
      obtain ⟨skipped, record, rest, hsplit, rfl, -, -⟩ := search_found hsearch
      have hlength := congrArg List.length hsplit
      rw [List.length_drop, List.length_append, List.length_cons] at hlength
      refine ⟨rfl, ⟨h.loads, h.ends⟩, fun other hother => ?_, ?_⟩
      · cases hextent.symm.trans hother
        dsimp only
        omega
      · simp only [remaining]
        omega
  | case3 => cases hrun
  | case4 => cases hrun
  | case5 cursor extent hextent hsearch next hnext extent' hextent' ih =>
      have htraverses : Traverses disk { next with extent := some extent' } := by
        refine ⟨fun index hindex hcount => ?_, ?_⟩
        · rcases Nat.lt_or_eq_of_le hindex with hbefore | rfl
          · exact h.loads index (Nat.le_of_lt_succ hbefore) hcount
          · exact ⟨extent', hextent'⟩
        · rintro ⟨⟩
      obtain ⟨hdataset, hafter, hstops, hremaining⟩ := ih htraverses hrun
      refine ⟨hdataset, hafter, hstops, Nat.le_trans hremaining ?_⟩
      rw [remaining_of_extent hextent', remaining]
      exact Nat.le_add_left _ _
  | case6 cursor extent hextent hsearch next hlast =>
      cases hrun
      have hends := Nat.not_lt.1 hlast
      refine ⟨rfl, ⟨fun index hindex hcount => ?_, fun _ => hends⟩, ?_, ?_⟩
      · exact h.loads index (by dsimp only [next] at hindex hcount; omega) hcount
      · rintro _ ⟨⟩
      · have hdrop : (cursor.dataset.extentLengths.drop (cursor.extentIndex + 1 + 1)) = [] := by
          refine List.drop_eq_nil_of_le ?_
          rw [Dataset.extentLengths, List.length_map]
          exact Nat.le_succ_of_le hends
        simp only [next, remaining, hdrop, Option.getD_none, List.length_nil, Nat.zero_sub,
          List.sum_nil, Nat.zero_add, Nat.zero_le]

theorem start_traverses {filter : Option Predicate}
    (hstart : start disk dataset filter = .ok cursor) :
    cursor.dataset = dataset ∧ cursor.Traverses disk ∧ cursor.Stops := by
  obtain ⟨extent, hsettle, hfirst, hnone⟩ := exists_settle_of_start hstart
  have htraverses : Traverses disk
      ⟨dataset, filter.filter fun predicate => !predicate.isAlways, 0, 0, extent⟩ := by
    refine ⟨fun index hindex hcount => ?_, fun hend => Nat.le_of_eq (hnone hend)⟩
    obtain rfl := Nat.le_zero.1 hindex
    cases extent with
    | none => exact absurd (hnone rfl ▸ hcount) (Nat.lt_irrefl 0)
    | some first => exact ⟨first, hfirst first rfl⟩
  have hforward := settle_traverses htraverses hsettle
  exact ⟨hforward.dataset, hforward.traverses, hforward.stops⟩

/-- Each record that is delivered is one of those that were left. -/
theorem next_traverses {record : Record} (h : cursor.Traverses disk)
    (hnext : (next disk).run cursor = (.ok (some record), after)) :
    Forward disk cursor after ∧ after.remaining < cursor.remaining := by
  have hcurrent := current_of_next (congrArg Prod.fst hnext)
  have hextent : ∃ extent, cursor.extent = some extent ∧ cursor.rowIndex < extent.length := by
    obtain ⟨extent, hextent, hrow⟩ := Option.bind_eq_some_iff.1 hcurrent
    exact ⟨extent, hextent, (List.getElem?_eq_some_iff.1 hrow).1⟩
  obtain ⟨extent, hextent, hrow⟩ := hextent
  have hend : cursor.atEnd = false := by rw [atEnd, hcurrent]; rfl
  rw [run_next, hcurrent] at hnext
  simp only [Step.run, advance, hend, Bool.false_eq_true, if_false] at hnext
  have hadvanced : remaining { cursor with rowIndex := cursor.rowIndex + 1 } <
      cursor.remaining := by
    simp only [remaining, hextent, Option.getD_some]
    omega
  rcases hsettle : settle disk { cursor with rowIndex := cursor.rowIndex + 1 } with
    ⟨result, settled⟩
  rw [hsettle] at hnext
  cases result with
  | error fault => cases hnext
  | ok _ =>
      cases hnext
      have hforward := settle_traverses (⟨h.loads, h.ends⟩ : Traverses disk
        { cursor with rowIndex := cursor.rowIndex + 1 }) hsettle
      have hless := Nat.lt_of_le_of_lt hforward.remaining hadvanced
      exact ⟨⟨hforward.dataset, hforward.traverses, hforward.stops, Nat.le_of_lt hless⟩, hless⟩

/-- A cursor that delivers nothing is behind the last extent. -/
theorem Stops.extent_eq_none_of_next (h : cursor.Stops)
    (hnext : (next disk).run cursor = (.ok none, after)) : cursor.extent = none := by
  cases hextent : cursor.extent with
  | none => rfl
  | some extent =>
      have hrow := h extent hextent
      have hcurrent : cursor.current = some extent[cursor.rowIndex] := by
        rw [current, hextent, Option.bind_some, List.getElem?_eq_getElem hrow]
      rw [run_next, hcurrent] at hnext
      rcases hrun : (advance disk).run cursor with ⟨result, moved⟩
      rw [hrun] at hnext
      cases result <;> cases hnext

/-- Operations that own none of the files of the dataset do not change what is loaded. -/
theorem Traverses.frame {later : Disk} (h : cursor.Traverses disk)
    (hframe : Disk.Frame (fun _ => False) disk later)
    (hfiles : ∀ file ∈ cursor.dataset.files, disk.Allocated file) : cursor.Traverses later where
  loads index hindex hcount := by
    rw [Dataset.extent_frame hframe hfiles]
    exact h.loads index hindex hcount
  ends := h.ends

end Cursor
end ExtentEngine
