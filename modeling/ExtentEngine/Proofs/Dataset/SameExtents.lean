import ExtentEngine.Dataset.Action
import ExtentEngine.Proofs.Dataset.Cursor
import ExtentEngine.Proofs.Lockstep

/-!
# What cursors see of datasets

A cursor sees nothing of a dataset but its extents and how long they are.  Cursors on two
datasets with the same extents therefore move in step, wherever the extents are kept and also
where a filter fails.

**Results.**
* `alike_settle`, `matches_previous`: going forward and going back.
* `browse_eq`: a caller sees the same of both datasets.
-/

namespace ExtentEngine

/-- Two datasets with the same extents, each of them on a disk of its own. -/
structure Dataset.SameExtents (disk disk' : Disk) (dataset dataset' : Dataset) : Prop where
  count : dataset'.extentCount = dataset.extentCount
  length : ∀ index, dataset'.extentLength index = dataset.extentLength index
  extent : ∀ index, dataset'.extent disk' index = dataset.extent disk index

namespace Dataset

section Slots

variable {disk disk' : Disk} {dataset dataset' : Dataset} {extents : List Extent} {index : Nat}

theorem slot_eq_error (h : dataset.extents disk = .ok extents) (hextent : extents[index]? = none) :
    dataset.slot index = .error (.extentMissing index extents.length) := by
  have hlength : dataset.slots.length = extents.length := extentCount_eq h
  have hslot : dataset.slots.length ≤ index := hlength ▸ List.getElem?_eq_none_iff.1 hextent
  rw [slot, List.getElem?_eq_none hslot, extentCount, hlength]

/-- Datasets from which the same extents can be loaded have the same extents. -/
theorem sameExtents_of_extents (h : dataset.extents disk = .ok extents)
    (h' : dataset'.extents disk' = .ok extents) : dataset.SameExtents disk disk' dataset' := by
  have hcount : dataset'.extentCount = dataset.extentCount :=
    (extentCount_eq h').trans (extentCount_eq h).symm
  refine ⟨hcount, fun index => ?_, fun index => ?_⟩
  · cases hextent : extents[index]? with
    | none =>
        rw [extentLength, extentLength, slot_eq_error h hextent, slot_eq_error h' hextent]
    | some extent =>
        obtain ⟨slot, hslot, hload⟩ := exists_slot h hextent
        obtain ⟨slot', hslot', hload'⟩ := exists_slot h' hextent
        have hlength := Slot.length_of_load hload
        have hlength' := Slot.length_of_load hload'
        rw [extentLength, extentLength, hslot, hslot', Except.map, Except.map, hlength, hlength']
  · cases hextent : extents[index]? with
    | none =>
        rw [Dataset.extent, Dataset.extent, slot_eq_error h hextent, slot_eq_error h' hextent]
        rfl
    | some extent => rw [extent_eq_ok h hextent, extent_eq_ok h' hextent]

end Slots

end Dataset

namespace Cursor

/-- Two cursors at the same place of datasets with the same extents. -/
inductive Beside (disk disk' : Disk) : Cursor → Cursor → Prop
  | intro (cursor : Cursor) {dataset' : Dataset}
      (h : cursor.dataset.SameExtents disk disk' dataset') :
      Beside disk disk' cursor { cursor with dataset := dataset' }

variable {disk disk' : Disk} {cursor cursor' : Cursor} {dataset dataset' : Dataset}

/-- Going forward. -/
theorem alike_settle (h : cursor.dataset.SameExtents disk disk' dataset') :
    Alike (Beside disk disk') (settle disk cursor)
      (settle disk' { cursor with dataset := dataset' }) := by
  fun_induction settle disk cursor with
  | case1 cursor hextent =>
      rw [settle]
      simp only [hextent]
      exact ⟨rfl, hextent ▸ .intro cursor h⟩
  | case2 cursor extent hextent row hsearch =>
      rw [settle]
      simp only [hextent, hsearch]
      exact ⟨rfl, .intro ⟨_, _, _, row, _⟩ h⟩
  | case3 cursor extent hextent row fault hsearch =>
      rw [settle]
      simp only [hextent, hsearch]
      exact ⟨rfl, .intro ⟨_, _, _, row, _⟩ h⟩
  | case4 cursor extent hextent hsearch next hnext fault hfault =>
      rw [settle]
      simp only [hextent, hsearch, h.count, hnext, if_true, h.extent]
      rw [hfault]
      exact ⟨rfl, hextent ▸ Beside.intro next h⟩
  | case5 cursor extent hextent hsearch next hnext extent' hextent' ih =>
      rw [settle.eq_def disk' { cursor with dataset := dataset' }]
      simp only [hextent, hsearch, h.count, hnext, if_true, h.extent]
      rw [hextent']
      exact ih h
  | case6 cursor extent hextent hsearch next hnext =>
      rw [settle]
      simp only [hextent, hsearch, h.count, hnext, if_false]
      exact ⟨rfl, .intro ⟨_, _, _, 0, none⟩ h⟩

/-- A search for the first match begins alike. -/
theorem matches_start (h : dataset.SameExtents disk disk' dataset') (filter : Option Predicate) :
    Matches (Beside disk disk') (start disk dataset filter) (start disk' dataset' filter) := by
  have hfrom : ∀ extent : Option Extent, Matches (Beside disk disk')
      (do
        let cursor := settle disk
          ⟨dataset, filter.filter fun predicate => !predicate.isAlways, 0, 0, extent⟩
        cursor.1
        pure cursor.2)
      (do
        let cursor := settle disk'
          ⟨dataset', filter.filter fun predicate => !predicate.isAlways, 0, 0, extent⟩
        cursor.1
        pure cursor.2) := by
    intro extent
    have hsettle := @alike_settle disk disk'
      ⟨dataset, filter.filter fun predicate => !predicate.isAlways, 0, 0, extent⟩ dataset' h
    simp only [hsettle.result]
    exact (Matches.refl _).bind fun _ _ _ => .ok hsettle.state
  rw [start, start, h.count, h.extent]
  split
  · refine (Matches.refl _).bind ?_
    rintro extent _ rfl
    exact hfrom extent
  · exact hfrom none

theorem Beside.current (h : Beside disk disk' cursor cursor') :
    cursor'.current = cursor.current := by
  cases h
  rfl

theorem alike_advance (h : Beside disk disk' cursor cursor') :
    Alike (Beside disk disk') ((advance disk).run cursor) ((advance disk').run cursor') := by
  have hend : cursor'.atEnd = cursor.atEnd := congrArg Option.isNone h.current
  simp only [Step.run, advance, hend]
  split
  · exact ⟨rfl, h⟩
  · cases h with
    | @intro dataset' h =>
        exact @alike_settle disk disk' { cursor with rowIndex := cursor.rowIndex + 1 } dataset' h

/-- Going back in the extents before. -/
theorem matches_lastInExtents (h : cursor.dataset.SameExtents disk disk' dataset') (index : Nat) :
    Matches (Option.Rel (Beside disk disk')) (lastInExtents disk cursor index)
      (lastInExtents disk' { cursor with dataset := dataset' } index) := by
  induction index with
  | zero => exact .ok .none
  | succ index ih =>
      rw [lastInExtents, lastInExtents, h.length, h.extent]
      refine (Matches.refl _).bind ?_
      rintro length _ rfl
      split
      · exact ih
      · refine (Matches.refl _).bind ?_
        rintro extent _ rfl
        refine (Matches.refl _).bind ?_
        rintro row _ rfl
        cases row with
        | none => exact ih
        | some row => exact .ok (.some (.intro ⟨_, _, index, row, some extent⟩ h))

theorem matches_previous (h : Beside disk disk' cursor cursor') :
    Matches (Option.Rel (Beside disk disk')) (previous disk cursor) (previous disk' cursor') := by
  cases h with
  | intro h =>
      rw [previous, previous]
      refine (Matches.refl _).bind ?_
      rintro row _ rfl
      cases row with
      | none =>
          simp only [h.count]
          exact matches_lastInExtents h _
      | some row => exact .ok (.some (.intro ⟨_, _, _, row, _⟩ h))

theorem matches_previousBy (asked steps : Nat) (h : Beside disk disk' cursor cursor') :
    Matches (Beside disk disk') (previousBy disk asked steps cursor)
      (previousBy disk' asked steps cursor') := by
  induction steps generalizing cursor cursor' with
  | zero => exact .ok h
  | succ steps ih =>
      rw [previousBy, previousBy]
      refine (matches_previous h).bind fun before before' hbefore => ?_
      cases hbefore with
      | none => exact .error _
      | some hbeside => exact ih hbeside

/-- Going back as far as a caller asks for. -/
theorem alike_revert (steps : Nat) (h : Beside disk disk' cursor cursor') :
    Alike (Beside disk disk') ((revert disk steps).run cursor)
      ((revert disk' steps).run cursor') := by
  have hprevious := matches_previousBy steps steps h
  simp only [Step.run, revert]
  generalize previousBy disk steps steps cursor = one at hprevious ⊢
  generalize previousBy disk' steps steps cursor' = other at hprevious ⊢
  cases hprevious with
  | ok h => exact ⟨rfl, h⟩
  | error fault => exact ⟨rfl, h⟩

theorem alike_next (h : Beside disk disk' cursor cursor') :
    Alike (Beside disk disk') ((next disk).run cursor) ((next disk').run cursor') := by
  simp only [next, Step.run_bind, Step.run_get, h.current]
  cases cursor.current with
  | none => exact ⟨rfl, h⟩
  | some record => exact (alike_advance h).bind fun _ _ _ h => ⟨rfl, h⟩

theorem alike_move (m : Move) (h : Beside disk disk' cursor cursor') :
    Alike (Beside disk disk') ((move disk m).run cursor) ((move disk' m).run cursor') := by
  cases m with
  | next => exact alike_next h
  | advance => exact (alike_advance h).bind fun _ _ _ h => ⟨rfl, h⟩
  | revert steps => exact (alike_revert steps h).bind fun _ _ _ h => ⟨rfl, h⟩

theorem roam_eq (moves : List Move) (h : Beside disk disk' cursor cursor') :
    roam disk' moves cursor' = roam disk moves cursor := by
  induction moves generalizing cursor cursor' with
  | nil => rfl
  | cons m moves ih =>
      have hmove := alike_move m h
      simp only [roam, hmove.result, hmove.state.current, ih hmove.state]

end Cursor

/-- A caller sees the same of both datasets. -/
theorem Dataset.browse_eq {disk disk' : Disk} {dataset dataset' : Dataset}
    (h : dataset.SameExtents disk disk' dataset') (filter : Option Predicate)
    (moves : List Cursor.Move) :
    dataset'.browse disk' filter moves = dataset.browse disk filter moves := by
  have hstart := Cursor.matches_start h filter
  rw [browse, browse]
  generalize Cursor.start disk dataset filter = one at hstart ⊢
  generalize Cursor.start disk' dataset' filter = other at hstart ⊢
  cases hstart with
  | ok h => simp only [h.current, Cursor.roam_eq moves h]
  | error fault => rfl

end ExtentEngine
