import ExtentEngine.Proofs.Dataset.Positions

/-!
# Where cursors rest after failures

A cursor rests on a match or behind the last one, until a call forward fails.  It has left the match
by then, and stands on the record on which the filter failed, or on the first row of the extent that
it still holds where the next one could not be loaded.  The next call delivers what it stands on,
matching or not.  A call back that fails leaves the cursor where it was, and one that comes to a
match makes up for the failure.

**Results.**
* `settle_leaves`, `previousBy_found`: where going forward stops, and where going back ends.
* `Stands.move`: where one call leaves the cursor, also if it fails.
* `rests_unless_stopped`: a cursor rests on a match unless the last call that moved it failed.
* `stopped_cursor_delivers`: after such a failure it delivers a record that does not match.
-/

namespace ExtentEngine
namespace Cursor

/-- The failure of a result, if it is one. -/
def failure? {α : Type} : Attempt α → Option Fault
  | .ok _ => none
  | .error fault => some fault

/-- The failure that a cursor stands at after a call, given the failure before and the result.
A call forward moves the cursor also when it fails, a call back only when it does not. -/
def Move.stopped {α : Type} (before : Option Fault) (result : Attempt α) : Move → Option Fault
  | .next | .advance => failure? result
  | .revert 0 => before
  | .revert (_ + 1) =>
    match result with
    | .ok _ => none
    | .error _ => before

/-- The cursor after calls, each made on the disk as it is then, and the failure that the cursor
stands at. -/
def watch (calls : List (Disk × Move)) (s : Cursor × Option Fault) : Cursor × Option Fault :=
  calls.foldl (fun s call =>
    let run := (move call.1 call.2).run s.1
    (run.2, call.2.stopped s.2 run.1)) s

/-- A cursor on a dataset, with a filter as good as a given one. -/
structure Serves (dataset : Dataset) (filter : Option Predicate) (cursor : Cursor) : Prop where
  dataset : cursor.dataset = dataset
  agrees : ∀ record, accepts cursor.filter record = accepts filter record

/-- Where a cursor stands, given the failure that stopped it. -/
inductive Stands (dataset : Dataset) (filter : Option Predicate) (disks : List Disk)
    (cursor : Cursor) : Option Fault → Prop
  /-- It rests on a match, or behind the last one. -/
  | resting (h : ∀ record, cursor.current = some record → accepts filter record = .ok true) :
      Stands dataset filter disks cursor none
  /-- It stands on a record on which the filter fails. -/
  | refused {record : Record} {fault : Fault} (hcurrent : cursor.current = some record)
      (hfault : accepts filter record = .error fault) :
      Stands dataset filter disks cursor (some fault)
  /-- It stands on the first row of the extent that it still holds, as the one that it points to
  could not be loaded. -/
  | unloaded {disk : Disk} {fault : Fault} (hdisk : disk ∈ disks) (hrow : cursor.rowIndex = 0)
      (hfault : dataset.extent disk cursor.extentIndex = .error fault) :
      Stands dataset filter disks cursor (some fault)

section Search

variable {filter : Option Predicate} {extent : Extent} {row found : Nat}

theorem exists_match_of_search (h : search filter row (extent.drop row) = .found found) :
    ∃ record, extent[found]? = some record ∧ accepts filter record = .ok true := by
  obtain ⟨skipped, record, rest, hsplit, rfl, -, hmatch⟩ := search_found h
  refine ⟨record, ?_, hmatch⟩
  rw [← List.getElem?_drop, hsplit, List.getElem?_append_right (Nat.le_refl _), Nat.sub_self]
  rfl

theorem exists_fault_of_search {fault : Fault}
    (h : search filter row (extent.drop row) = .failed found fault) :
    ∃ record, extent[found]? = some record ∧ accepts filter record = .error fault := by
  obtain ⟨skipped, record, rest, hsplit, rfl, -, hfault⟩ := search_failed h
  refine ⟨record, ?_, hfault⟩
  rw [← List.getElem?_drop, hsplit, List.getElem?_append_right (Nat.le_refl _), Nat.sub_self]
  rfl

end Search

section Calls

variable {dataset : Dataset} {filter : Option Predicate} {disks : List Disk} {disk : Disk}
  {cursor before : Cursor} {stopped : Option Fault}

/-- A cursor that is not at a record does not stand on one that fails to match. -/
theorem Stands.of_atEnd (h : cursor.atEnd = true) : Stands dataset filter disks cursor none :=
  .resting fun record hrecord => by
    rw [atEnd, hrecord] at h
    cases h

/-- A run that leaves a cursor where its own result says. -/
structure Leaves {α : Type} (dataset : Dataset) (filter : Option Predicate) (disks : List Disk)
    (run : Attempt α × Cursor) : Prop where
  serves : run.2.Serves dataset filter
  stands : Stands dataset filter disks run.2 (failure? run.1)

/-- Where going forward stops. -/
theorem settle_leaves (hdisk : disk ∈ disks) (h : cursor.Serves dataset filter) :
    Leaves dataset filter disks (settle disk cursor) := by
  fun_induction settle disk cursor with
  | case1 cursor hextent =>
      refine ⟨h, .of_atEnd ?_⟩
      rw [atEnd, current, hextent]
      rfl
  | case2 cursor extent hextent row hsearch =>
      obtain ⟨record, hrecord, hmatch⟩ := exists_match_of_search hsearch
      refine ⟨⟨h.dataset, h.agrees⟩, .resting fun other hother => ?_⟩
      rw [current, hextent, Option.bind_some, hrecord] at hother
      cases hother
      rw [← h.agrees, hmatch]
  | case3 cursor extent hextent row fault hsearch =>
      obtain ⟨record, hrecord, hfault⟩ := exists_fault_of_search hsearch
      have hcurrent : current { cursor with rowIndex := row } = some record := by
        rw [current, hextent, Option.bind_some, hrecord]
      exact ⟨⟨h.dataset, h.agrees⟩, .refused hcurrent ((h.agrees record).symm.trans hfault)⟩
  | case4 cursor extent hextent hsearch next hnext fault hfault =>
      exact ⟨⟨h.dataset, h.agrees⟩, .unloaded hdisk rfl (h.dataset ▸ hfault)⟩
  | case5 cursor extent hextent hsearch next hnext extent' hextent' ih =>
      exact ih ⟨h.dataset, h.agrees⟩
  | case6 cursor extent hextent hsearch next hnext =>
      exact ⟨⟨h.dataset, h.agrees⟩, .of_atEnd rfl⟩

/-- A cursor settles from the first row of the first extent, if there is one. -/
theorem exists_settle_of_start (hstart : start disk dataset filter = .ok cursor) :
    ∃ extent, settle disk
        ⟨dataset, filter.filter fun predicate => !predicate.isAlways, 0, 0, extent⟩ =
          (.ok (), cursor) ∧
      (∀ first, extent = some first → dataset.extent disk 0 = .ok first) ∧
      (extent = none → dataset.extentCount = 0) := by
  have hfrom : ∀ extent : Option Extent,
      (do
        let cursor := settle disk
          ⟨dataset, filter.filter fun predicate => !predicate.isAlways, 0, 0, extent⟩
        cursor.1
        pure cursor.2 : Attempt Cursor) = .ok cursor →
      settle disk ⟨dataset, filter.filter fun predicate => !predicate.isAlways, 0, 0, extent⟩ =
        (.ok (), cursor) := by
    intro extent h
    obtain ⟨_, hresult, hpure⟩ := Attempt.bind_eq_ok.1 h
    cases hpure
    exact Prod.ext hresult rfl
  rw [start] at hstart
  split at hstart
  · obtain ⟨extent, hload, h⟩ := Attempt.bind_eq_ok.1 hstart
    obtain ⟨first, hfirst, rfl⟩ := Attempt.map_eq_ok.1 hload
    refine ⟨some first, hfrom _ h, ?_, ?_⟩
    · rintro _ ⟨⟩
      exact hfirst
    · rintro ⟨⟩
  · next hnone =>
      refine ⟨none, hfrom none hstart, ?_, fun _ => Nat.eq_zero_of_not_pos hnone⟩
      rintro _ ⟨⟩

/-- A cursor starts on a match, or behind the last one. -/
theorem start_stands (hstart : start disk dataset filter = .ok cursor) (disks : List Disk) :
    cursor.Serves dataset filter ∧ Stands dataset filter disks cursor none := by
  obtain ⟨extent, hsettle, -, -⟩ := exists_settle_of_start hstart
  have hserves : Serves dataset filter
      ⟨dataset, filter.filter fun predicate => !predicate.isAlways, 0, 0, extent⟩ :=
    ⟨rfl, accepts_filter filter⟩
  have hleaves := settle_leaves (List.mem_singleton_self disk) hserves
  rw [hsettle] at hleaves
  refine ⟨hleaves.serves, ?_⟩
  cases hleaves.stands with
  | resting h => exact .resting h

theorem advance_leaves (hdisk : disk ∈ disks) (h : cursor.Serves dataset filter) :
    Leaves dataset filter disks ((advance disk).run cursor) := by
  cases hend : cursor.atEnd with
  | true =>
      rw [Step.run, Cursor.advance, hend]
      exact ⟨h, .of_atEnd hend⟩
  | false =>
      have hserves : Serves dataset filter { cursor with rowIndex := cursor.rowIndex + 1 } :=
        ⟨h.dataset, h.agrees⟩
      rw [Step.run, Cursor.advance, hend]
      exact settle_leaves hdisk hserves

theorem next_leaves (hdisk : disk ∈ disks) (h : cursor.Serves dataset filter) :
    Leaves dataset filter disks ((next disk).run cursor) := by
  rw [run_next]
  cases hcurrent : cursor.current with
  | none => exact ⟨h, .of_atEnd (Option.isNone_iff_eq_none.2 hcurrent)⟩
  | some record =>
      have hadvance := advance_leaves hdisk h
      rcases hrun : (advance disk).run cursor with ⟨result, after⟩
      rw [hrun] at hadvance
      cases result with
      | ok _ => exact ⟨hadvance.serves, hadvance.stands⟩
      | error fault => exact ⟨hadvance.serves, hadvance.stands⟩

/-- A call delivers the record that the cursor stands on. -/
theorem current_of_next {record : Record}
    (h : ((next disk).run cursor).1 = .ok (some record)) : cursor.current = some record := by
  rw [run_next] at h
  cases hcurrent : cursor.current with
  | none =>
      rw [hcurrent] at h
      cases h
  | some other =>
      rw [hcurrent] at h
      rcases hrun : (advance disk).run cursor with ⟨result, after⟩
      cases result <;> rw [hrun] at h <;> cases h
      rfl

/-- A cursor that going back has brought to a match. -/
structure OnMatch (dataset : Dataset) (filter : Option Predicate) (cursor : Cursor) : Prop where
  serves : cursor.Serves dataset filter
  on : ∃ record, cursor.current = some record ∧ accepts filter record = .ok true

theorem OnMatch.stands (h : cursor.OnMatch dataset filter) :
    Stands dataset filter disks cursor none := by
  obtain ⟨record, hcurrent, hmatch⟩ := h.on
  refine .resting fun other hother => ?_
  cases hcurrent.symm.trans hother
  exact hmatch

theorem onMatch_of_lastBefore (h : before.Serves dataset filter) {row : Nat}
    (hlast : lastBefore before.filter (before.extent.getD []) row = .ok (some before.rowIndex)) :
    before.OnMatch dataset filter := by
  obtain ⟨record, hrecord, hmatch⟩ := exists_match_of_lastBefore hlast
  refine ⟨h, record, ?_, (h.agrees record).symm.trans hmatch⟩
  rw [← hrecord, current]
  cases before.extent <;> rfl

theorem lastInExtents_found (h : cursor.Serves dataset filter) {index : Nat}
    (hlast : lastInExtents disk cursor index = .ok (some before)) :
    before.OnMatch dataset filter := by
  induction index with
  | zero => cases hlast
  | succ index ih =>
      obtain ⟨length, -, hlast⟩ := Attempt.bind_eq_ok.1 hlast
      split at hlast
      · exact ih hlast
      · obtain ⟨extent, -, hlast⟩ := Attempt.bind_eq_ok.1 hlast
        obtain ⟨found, hfound, hlast⟩ := Attempt.bind_eq_ok.1 hlast
        cases found with
        | none => exact ih hlast
        | some row =>
            cases hlast
            exact onMatch_of_lastBefore ⟨h.dataset, h.agrees⟩ hfound

theorem previous_found (h : cursor.Serves dataset filter)
    (hprevious : previous disk cursor = .ok (some before)) : before.OnMatch dataset filter := by
  obtain ⟨found, hfound, hprevious⟩ := Attempt.bind_eq_ok.1 hprevious
  cases found with
  | none => exact lastInExtents_found h hprevious
  | some row =>
      cases hprevious
      exact onMatch_of_lastBefore ⟨h.dataset, h.agrees⟩ hfound

theorem exists_previous_of_previousBy {asked steps : Nat}
    (h : previousBy disk asked (steps + 1) cursor = .ok before) :
    ∃ middle, previous disk cursor = .ok (some middle) ∧
      previousBy disk asked steps middle = .ok before := by
  rw [previousBy_succ] at h
  split at h
  · next middle hmiddle => exact ⟨middle, hmiddle, h⟩
  · cases h
  · cases h

/-- Going back ends on a match. -/
theorem previousBy_found {asked steps : Nat} (h : cursor.Serves dataset filter)
    (hprevious : previousBy disk asked (steps + 1) cursor = .ok before) :
    before.OnMatch dataset filter := by
  induction steps generalizing cursor with
  | zero =>
      obtain ⟨middle, hmiddle, hrest⟩ := exists_previous_of_previousBy hprevious
      cases hrest
      exact previous_found h hmiddle
  | succ steps ih =>
      obtain ⟨middle, hmiddle, hrest⟩ := exists_previous_of_previousBy hprevious
      exact ih (previous_found h hmiddle).serves hrest

/-- Where one call leaves a cursor, also if it fails. -/
theorem Stands.move (hdisk : disk ∈ disks) (h : cursor.Serves dataset filter)
    (hstands : Stands dataset filter disks cursor stopped) (m : Move) :
    ((move disk m).run cursor).2.Serves dataset filter ∧
      Stands dataset filter disks ((move disk m).run cursor).2
        (m.stopped stopped ((move disk m).run cursor).1) := by
  cases m with
  | next =>
      have hnext := next_leaves hdisk h
      exact ⟨hnext.serves, hnext.stands⟩
  | advance =>
      have hadvance := advance_leaves hdisk h
      rw [Cursor.move, Step.run_bind]
      rcases hrun : (advance disk).run cursor with ⟨result, after⟩
      rw [hrun] at hadvance
      cases result with
      | ok _ => exact ⟨hadvance.serves, hadvance.stands⟩
      | error fault => exact ⟨hadvance.serves, hadvance.stands⟩
  | revert steps =>
      rw [Cursor.move, Step.run_bind, Step.run, revert]
      cases hprevious : previousBy disk steps steps cursor with
      | error fault => cases steps <;> exact ⟨h, hstands⟩
      | ok before =>
          cases steps with
          | zero =>
              cases hprevious
              exact ⟨h, hstands⟩
          | succ steps =>
              have hmatch := previousBy_found h hprevious
              exact ⟨hmatch.serves, hmatch.stands⟩

/-- Where calls leave a cursor, one after the other. -/
theorem Stands.watch (hserves : cursor.Serves dataset filter)
    (hstands : Stands dataset filter disks cursor stopped) (calls : List (Disk × Move))
    (hdisks : ∀ call ∈ calls, call.1 ∈ disks) :
    Stands dataset filter disks (watch calls (cursor, stopped)).1
      (watch calls (cursor, stopped)).2 := by
  induction calls generalizing cursor stopped with
  | nil => exact hstands
  | cons call calls ih =>
      obtain ⟨hdisk, hrest⟩ := List.forall_mem_cons.1 hdisks
      obtain ⟨hafter, hleft⟩ := hstands.move hdisk hserves call.2
      exact ih hafter hleft hrest

/-- A cursor rests on a match, or behind the last one, unless the last call that moved it failed.
After such a call it stands on the record on which the filter failed, or an extent could not be
loaded.  What it stands on is the only record that the next call can deliver. -/
theorem rests_unless_stopped (hstart : start disk dataset filter = .ok cursor)
    (calls : List (Disk × Move)) :
    Stands dataset filter (calls.map Prod.fst) (watch calls (cursor, none)).1
        (watch calls (cursor, none)).2 ∧
      ∀ disk record, ((next disk).run (watch calls (cursor, none)).1).1 = .ok (some record) →
        (watch calls (cursor, none)).1.current = some record := by
  obtain ⟨hserves, hstands⟩ := start_stands hstart (calls.map Prod.fst)
  exact ⟨hstands.watch hserves calls fun call hcall => List.mem_map_of_mem hcall,
    fun _ _ => current_of_next⟩

end Calls

/-- Records of which one is too large for a filter that adds one to it. -/
def smallLarge : Dataset :=
  ⟨[⟨"x", .int64, true⟩], 2, Nat.two_pos,
    [.memory [[.int 1], [.int 9223372036854775807]], .memory [[.int 2]]], none, none⟩

def smallSum : Predicate :=
  ⟨.compare .lt (.arithmetic .add (.leftColumn 0) (.literal (.int 1))) (.literal (.int 100))⟩

/-- On the first record. -/
def smallFirst : Cursor :=
  ⟨smallLarge, some smallSum, 0, 0, some [[.int 1], [.int 9223372036854775807]]⟩

/-- On the record that is too large. -/
def smallRefused : Cursor := { smallFirst with rowIndex := 1 }

theorem start_smallLarge : start Disk.empty smallLarge (some smallSum) = .ok smallFirst := by
  decide +kernel

theorem watch_smallLarge : watch [(Disk.empty, .advance)] (smallFirst, none) =
    (smallRefused, some (.integerOverflow 9223372036854775807 .add 1)) := by
  decide +kernel

theorem rests_unless_stopped_small :
    ∃ record, smallRefused.current = some record ∧
      accepts (some smallSum) record = .error (.integerOverflow 9223372036854775807 .add 1) := by
  obtain ⟨hstands, -⟩ := rests_unless_stopped start_smallLarge [(Disk.empty, .advance)]
  rw [watch_smallLarge] at hstands
  cases hstands with
  | refused hcurrent hfault => exact ⟨_, hcurrent, hfault⟩
  | unloaded hdisk hrow hfault => cases hrow

/-- So a cursor may rest on a record that does not match, and deliver it. -/
theorem stopped_cursor_delivers :
    (¬∀ disk dataset filter cursor, start disk dataset filter = .ok cursor → ∀ moves record,
      (follow disk moves cursor).current = some record → accepts filter record = .ok true) ∧
    ¬∀ disk dataset filter cursor, start disk dataset filter = .ok cursor → ∀ moves record,
      ((next disk).run (follow disk moves cursor)).1 = .ok (some record) →
        accepts filter record = .ok true := by
  have hrefused : accepts (some smallSum) [.int 9223372036854775807] ≠ .ok true := by
    decide +kernel
  have hcurrent : (follow Disk.empty [.advance] smallFirst).current =
      some [.int 9223372036854775807] := by
    decide +kernel
  have hnext : ((next Disk.empty).run (follow Disk.empty [.advance] smallFirst)).1 =
      .ok (some [.int 9223372036854775807]) := by
    decide +kernel
  exact ⟨fun hrests => hrefused (hrests _ _ _ _ start_smallLarge _ _ hcurrent),
    fun hrests => hrefused (hrests _ _ _ _ start_smallLarge _ _ hnext)⟩

end Cursor
end ExtentEngine
