import ExtentEngine.Proofs.Dataset.SameExtents

/-!
# Cursors as positions in a list

A cursor stands for a position in the list of all matches: the number of matches before its place.
It may have to pass over extents without records and over records that do not match, and it may
start from behind the last extent, but whichever way it moves, a caller sees a position in a list
that goes up by one or down by as many as asked for.

**Results.**
* `retraces_previous`: going back comes to the last match before the place.
* `At.advance`, `At.next`, `At.revert`: what one move does to the position.
* `start_positioned`, `At.follow`: a cursor starts at position zero, and moves lead to where the
  same moves lead in the list.
* `exists_cursor_in_step`: so a cursor on a dataset and a position in a list cannot be told apart.
-/

namespace ExtentEngine

theorem Dataset.extentLength_eq_ok {disk : Disk} {dataset : Dataset} {extents : List Extent}
    (h : dataset.extents disk = .ok extents) {index : Nat} {extent : Extent}
    (hextent : extents[index]? = some extent) :
    dataset.extentLength index = .ok extent.length := by
  obtain ⟨slot, hslot, hload⟩ := exists_slot h hextent
  rw [extentLength, hslot, Except.map, Slot.length_of_load hload]

namespace Cursor

section Search

variable {filter : Option Predicate} {rows : List (Record × Nat)} {found : Nat} {fault : Fault}

theorem searchBack_found (h : searchBack filter rows = .ok (some found)) :
    ∃ skipped record rest, rows = skipped ++ (record, found) :: rest ∧
      (∀ entry ∈ skipped, accepts filter entry.1 = .ok false) ∧
      accepts filter record = .ok true := by
  induction rows with
  | nil => cases h
  | cons entry rows ih =>
      obtain ⟨record, row⟩ := entry
      rw [searchBack] at h
      split at h
      · cases h
      · next hmatch =>
          cases h
          exact ⟨[], record, rows, rfl, List.forall_mem_nil _, hmatch⟩
      · next hskip =>
          obtain ⟨skipped, other, rest, rfl, hskipped, hmatch⟩ := ih h
          exact ⟨(record, row) :: skipped, other, rest, rfl,
            List.forall_mem_cons.2 ⟨hskip, hskipped⟩, hmatch⟩

theorem searchBack_none (h : searchBack filter rows = .ok none) :
    ∀ entry ∈ rows, accepts filter entry.1 = .ok false := by
  induction rows with
  | nil => exact List.forall_mem_nil _
  | cons entry rows ih =>
      rw [searchBack] at h
      split at h
      · cases h
      · cases h
      · next hskip => exact List.forall_mem_cons.2 ⟨hskip, ih h⟩

theorem searchBack_error (h : searchBack filter rows = .error fault) :
    ∃ entry ∈ rows, accepts filter entry.1 = .error fault := by
  induction rows with
  | nil => cases h
  | cons entry rows ih =>
      rw [searchBack] at h
      split at h
      · next hfault =>
          cases h
          exact ⟨entry, List.mem_cons_self, hfault⟩
      · cases h
      · obtain ⟨other, hother, hfault⟩ := ih h
        exact ⟨other, List.mem_cons_of_mem _ hother, hfault⟩

/-- A row in a numbered list is numbered by the rows before it. -/
theorem split_of_zipIdx {records : List Record} {front back : List (Record × Nat)} {record : Record}
    (h : records.zipIdx = front ++ (record, found) :: back) :
    records = front.map Prod.fst ++ record :: back.map Prod.fst ∧ found = front.length := by
  have hmap := congrArg (List.map Prod.fst) h
  have hentry : records.zipIdx[front.length]? = some (record, found) := by
    rw [h, List.getElem?_append_right (Nat.le_refl _), Nat.sub_self]
    rfl
  rw [List.zipIdx_map_fst, List.map_append, List.map_cons] at hmap
  rw [List.getElem?_zipIdx, Nat.zero_add] at hentry
  obtain ⟨_, -, hsame⟩ := Option.map_eq_some_iff.1 hentry
  exact ⟨hmap, (congrArg Prod.snd hsame).symm⟩

variable {extent : Extent} {row : Nat}

/-- The records behind the last match do not match. -/
theorem lastBefore_found (h : lastBefore filter extent row = .ok (some found)) :
    ∃ front record skipped, extent.take row = front ++ record :: skipped ∧ found = front.length ∧
      (∀ record ∈ skipped, accepts filter record = .ok false) ∧
      accepts filter record = .ok true := by
  obtain ⟨skipped, record, rest, hrows, hskipped, hmatch⟩ := searchBack_found h
  have hzip : (extent.take row).zipIdx = rest.reverse ++ (record, found) :: skipped.reverse := by
    rw [← List.reverse_reverse (extent.take row).zipIdx, hrows]
    simp
  obtain ⟨hsplit, hfound⟩ := split_of_zipIdx hzip
  refine ⟨_, record, _, hsplit, by rw [hfound, List.length_map], fun other hother => ?_, hmatch⟩
  obtain ⟨entry, hentry, rfl⟩ := List.mem_map.1 hother
  exact hskipped entry (List.mem_reverse.1 hentry)

theorem getElem?_of_take {front skipped : List Record} {record : Record}
    (h : extent.take row = front ++ record :: skipped) : extent[front.length]? = some record := by
  rw [← List.take_append_drop row extent, h, List.append_assoc,
    List.getElem?_append_right (Nat.le_refl _), Nat.sub_self]
  rfl

/-- The last match is at the row that was found. -/
theorem exists_match_of_lastBefore (h : lastBefore filter extent row = .ok (some found)) :
    ∃ record, extent[found]? = some record ∧ accepts filter record = .ok true := by
  obtain ⟨front, record, skipped, hsplit, rfl, -, hmatch⟩ := lastBefore_found h
  exact ⟨record, getElem?_of_take hsplit, hmatch⟩

theorem mem_zipIdx_of_mem {records : List Record} {record : Record} (h : record ∈ records) :
    ∃ entry ∈ records.zipIdx.reverse, entry.1 = record := by
  rw [← List.zipIdx_map_fst 0 records] at h
  obtain ⟨entry, hentry, hrecord⟩ := List.mem_map.1 h
  exact ⟨entry, List.mem_reverse.2 hentry, hrecord⟩

theorem lastBefore_none (h : lastBefore filter extent row = .ok none) :
    ∀ record ∈ extent.take row, accepts filter record = .ok false := by
  intro record hrecord
  obtain ⟨entry, hentry, rfl⟩ := mem_zipIdx_of_mem hrecord
  exact searchBack_none h entry hentry

theorem lastBefore_error (h : lastBefore filter extent row = .error fault) :
    ∃ record ∈ extent.take row, accepts filter record = .error fault := by
  obtain ⟨entry, hentry, hfault⟩ := searchBack_error h
  refine ⟨entry.1, ?_, hfault⟩
  rw [← List.zipIdx_map_fst 0 (extent.take row)]
  exact List.mem_map_of_mem (List.mem_reverse.1 hentry)

end Search

section Selection

variable {filter : Option Predicate} {records more : List Record} {record : Record}

/-- The records that match. -/
def selection (filter : Option Predicate) (records : List Record) : List Record :=
  records.filter fun record => accepts filter record = .ok true

theorem selection_append (filter : Option Predicate) (records more : List Record) :
    selection filter (records ++ more) = selection filter records ++ selection filter more :=
  List.filter_append ..

theorem selection_skipped (h : ∀ record ∈ records, accepts filter record = .ok false) :
    selection filter records = [] :=
  List.filter_eq_nil_iff.2 fun record hrecord hmatch => by
    cases (h record hrecord).symm.trans (of_decide_eq_true hmatch)

/-- One match and records that do not match. -/
theorem selection_passed (hmatch : accepts filter record = .ok true)
    (h : ∀ record ∈ records, accepts filter record = .ok false) :
    selection filter (record :: records) = [record] := by
  rw [selection, List.filter_cons, if_pos (decide_eq_true hmatch)]
  exact congrArg (List.cons record) (selection_skipped h)

end Selection

section Place

variable {disk : Disk} {extents : List Extent} {cursor before after : Cursor} {record : Record}

/-- The records before the place of a cursor. -/
def rowsBefore (extents : List Extent) (cursor : Cursor) : List Record :=
  (extents.take cursor.extentIndex).flatten ++ (cursor.extent.getD []).take cursor.rowIndex

/-- A cursor that is in the extent it points to, or behind the last one. -/
structure Placed (extents : List Extent) (cursor : Cursor) : Prop where
  within : cursor.Within extents
  ended : cursor.extent = none → extents.length ≤ cursor.extentIndex

/-- A place divides the records in two. -/
theorem Placed.rows (h : cursor.Placed extents) :
    cursor.rowsBefore extents ++ cursor.rowsFrom extents = extents.flatten := by
  cases hextent : cursor.extent with
  | none =>
      rw [rowsFrom_of_none hextent, rowsBefore, hextent, List.take_of_length_le (h.ended hextent)]
      simp
  | some extent =>
      obtain ⟨hindex, hget⟩ := List.getElem?_eq_some_iff.1 (h.within extent hextent)
      have hsplit : extents =
          extents.take cursor.extentIndex ++ extent :: extents.drop (cursor.extentIndex + 1) := by
        rw [← hget, ← List.drop_eq_getElem_cons hindex, List.take_append_drop]
      rw [rowsFrom_of_some hextent, rowsBefore, hextent, Option.getD_some, List.append_assoc,
        ← List.append_assoc (extent.take cursor.rowIndex), List.take_append_drop]
      conv_rhs => rw [hsplit]
      rw [List.flatten_append, List.flatten_cons]

/-- What a cursor passes over is before it afterwards. -/
theorem Placed.rowsBefore_eq (hbefore : before.Placed extents) (hafter : after.Placed extents)
    {passed : List Record}
    (h : before.rowsFrom extents = passed ++ after.rowsFrom extents) :
    after.rowsBefore extents = before.rowsBefore extents ++ passed := by
  have hrows := hafter.rows.trans hbefore.rows.symm
  rw [h, ← List.append_assoc] at hrows
  exact List.append_cancel_right hrows

/-- A cursor that rests on a record is right before it. -/
theorem head?_rowsFrom (extents : List Extent) (h : cursor.current = some record) :
    (cursor.rowsFrom extents).head? = some record := by
  cases hextent : cursor.extent with
  | none =>
      rw [current, hextent] at h
      cases h
  | some extent =>
      rw [current, hextent, Option.bind_some] at h
      obtain ⟨hrow, rfl⟩ := List.getElem?_eq_some_iff.1 h
      rw [rowsFrom_of_some hextent, List.drop_eq_getElem_cons hrow]
      rfl

/-- Behind the last extent a cursor is also after it has settled. -/
theorem ended_settle (disk : Disk) (cursor : Cursor)
    (h : cursor.extent = none → cursor.dataset.extentCount ≤ cursor.extentIndex) :
    (settle disk cursor).2.extent = none →
      cursor.dataset.extentCount ≤ (settle disk cursor).2.extentIndex := by
  fun_induction settle disk cursor with
  | case1 cursor hextent => exact fun _ => h hextent
  | case2 cursor extent hextent =>
      intro hnone
      cases hextent.symm.trans hnone
  | case3 cursor extent hextent =>
      intro hnone
      cases hextent.symm.trans hnone
  | case4 cursor extent hextent =>
      intro hnone
      cases hextent.symm.trans hnone
  | case5 cursor extent hextent hsearch next hnext extent' hextent' ih =>
      exact ih (absurd · (Option.some_ne_none extent'))
  | case6 cursor extent hextent hsearch next hnext => exact fun _ => Nat.not_lt.1 hnext

/-- A cursor that settles is placed in the extents. -/
theorem placed_settle (hloads : cursor.dataset.extents disk = .ok extents)
    (hplaced : cursor.Placed extents) (hrun : settle disk cursor = (.ok (), after))
    (hsettled : Settled extents cursor after) : after.Placed extents where
  within := hsettled.within
  ended := by
    have hcount := Dataset.extentCount_eq hloads
    have hended := ended_settle disk cursor (hcount ▸ hplaced.ended)
    rw [hrun, hcount] at hended
    exact hended

/-- A cursor on the last match among records that it has before it, or rests on. -/
structure Precedes (extents : List Extent) (rows : List Record) (before cursor : Cursor) :
    Prop where
  dataset : before.dataset = cursor.dataset
  filter : before.filter = cursor.filter
  placed : before.Placed extents
  passes : ∃ record skipped, before.current = some record ∧
    accepts cursor.filter record = .ok true ∧
    rows = before.rowsBefore extents ++ record :: skipped ∧
    ∀ record ∈ skipped, accepts cursor.filter record = .ok false

/-- What a search for the last match among records comes to. -/
inductive Retraces (extents : List Extent) (rows : List Record) (cursor : Cursor) :
    Attempt (Option Cursor) → Prop
  | found {before : Cursor} (h : Precedes extents rows before cursor) :
      Retraces extents rows cursor (.ok (some before))
  | nothing (h : ∀ record ∈ rows, accepts cursor.filter record = .ok false) :
      Retraces extents rows cursor (.ok none)
  | failed {fault : Fault} (h : ∃ record ∈ rows, accepts cursor.filter record = .error fault) :
      Retraces extents rows cursor (.error fault)

/-- Records that do not match are passed over. -/
theorem Retraces.skip {rows skipped : List Record} {result : Attempt (Option Cursor)}
    (h : Retraces extents rows cursor result)
    (hskipped : ∀ record ∈ skipped, accepts cursor.filter record = .ok false) :
    Retraces extents (rows ++ skipped) cursor result := by
  cases h with
  | found h =>
      obtain ⟨record, more, hcurrent, hmatch, hrows, hmore⟩ := h.passes
      refine .found { h with passes := ⟨record, more ++ skipped, hcurrent, hmatch, ?_, ?_⟩ }
      · rw [hrows, List.append_assoc, List.cons_append]
      · exact List.forall_mem_append.2 ⟨hmore, hskipped⟩
  | nothing h => exact .nothing (List.forall_mem_append.2 ⟨h, hskipped⟩)
  | failed h =>
      obtain ⟨record, hrecord, hfault⟩ := h
      exact .failed ⟨record, List.mem_append_left _ hrecord, hfault⟩

/-- The last match among the rows of an extent before a given one. -/
theorem precedes_of_lastBefore {extent : Extent} {index row found : Nat}
    (hextent : extents[index]? = some extent)
    (h : lastBefore cursor.filter extent row = .ok (some found)) :
    Precedes extents ((extents.take index).flatten ++ extent.take row)
      { cursor with extentIndex := index, rowIndex := found, extent := some extent } cursor := by
  obtain ⟨front, record, skipped, hsplit, rfl, hskipped, hmatch⟩ := lastBefore_found h
  have htake : extent.take front.length = front := by
    rw [← List.take_append_drop row extent, hsplit, List.append_assoc, List.take_left]
  refine ⟨rfl, rfl, ⟨?_, nofun⟩, record, skipped, getElem?_of_take hsplit, hmatch, ?_, hskipped⟩
  · rintro _ ⟨⟩
    exact hextent
  · rw [rowsBefore, Option.getD_some, htake, hsplit, List.append_assoc]

theorem retraces_lastInExtents (hloads : cursor.dataset.extents disk = .ok extents) (index : Nat)
    (hindex : index ≤ extents.length) :
    Retraces extents (extents.take index).flatten cursor (lastInExtents disk cursor index) := by
  induction index with
  | zero => exact .nothing (List.forall_mem_nil _)
  | succ index ih =>
      have hget : extents[index]? = some extents[index] := List.getElem?_eq_getElem hindex
      have hall : extents[index].take extents[index].length = extents[index] := List.take_length
      have hrows : (extents.take (index + 1)).flatten =
          (extents.take index).flatten ++ extents[index] := by
        rw [List.take_succ_eq_append_getElem hindex, List.flatten_append, List.flatten_singleton]
      have hearlier := ih (Nat.le_of_lt hindex)
      rw [lastInExtents, Dataset.extentLength_eq_ok hloads hget, Dataset.extent_eq_ok hloads hget,
        hrows]
      change Retraces extents _ cursor (if extents[index].length = 0 then
        lastInExtents disk cursor index else _)
      split
      · next hempty =>
          rw [List.length_eq_zero_iff.1 hempty]
          exact hearlier.skip (List.forall_mem_nil _)
      · change Retraces extents _ cursor
          (lastBefore cursor.filter extents[index] extents[index].length >>= _)
        cases hlast : lastBefore cursor.filter extents[index] extents[index].length with
        | error fault =>
            obtain ⟨record, hrecord, hfault⟩ := lastBefore_error hlast
            rw [hall] at hrecord
            exact .failed ⟨record, List.mem_append_right _ hrecord, hfault⟩
        | ok found =>
            cases found with
            | none =>
                have hskipped := lastBefore_none hlast
                rw [hall] at hskipped
                exact hearlier.skip hskipped
            | some row =>
                have hprecedes := precedes_of_lastBefore hget hlast
                rw [hall] at hprecedes
                exact .found hprecedes

/-- Going back searches the records before the place of a cursor. -/
theorem retraces_previous (hloads : cursor.dataset.extents disk = .ok extents)
    (hplaced : cursor.Placed extents) :
    Retraces extents (cursor.rowsBefore extents) cursor (previous disk cursor) := by
  have htake : extents.take (min cursor.extentIndex extents.length) =
      extents.take cursor.extentIndex := List.take_eq_take_min.symm
  have hearlier := retraces_lastInExtents hloads _
    (Nat.min_le_right cursor.extentIndex extents.length)
  rw [htake] at hearlier
  rw [previous, rowsBefore, Dataset.extentCount_eq hloads]
  cases hlast : lastBefore cursor.filter (cursor.extent.getD []) cursor.rowIndex with
  | error fault =>
      obtain ⟨record, hrecord, hfault⟩ := lastBefore_error hlast
      exact .failed ⟨record, List.mem_append_right _ hrecord, hfault⟩
  | ok found =>
      cases found with
      | none => exact hearlier.skip (lastBefore_none hlast)
      | some row =>
          cases hextent : cursor.extent with
          | none =>
              rw [hextent] at hlast
              obtain ⟨front, record, skipped, hsplit, -⟩ := lastBefore_found hlast
              rw [Option.getD_none, List.take_nil] at hsplit
              cases front <;> cases hsplit
          | some extent =>
              rw [hextent] at hlast
              exact .found (precedes_of_lastBefore (hplaced.within extent hextent) hlast)

end Place

section Position

variable {disk : Disk} {extents : List Extent} {filter : Option Predicate} {position : Nat}
  {cursor : Cursor}

/-- A cursor that rests on the match with some number, or behind the last one. -/
structure At (disk : Disk) (extents : List Extent) (filter : Option Predicate) (position : Nat)
    (cursor : Cursor) : Prop where
  loads : cursor.dataset.extents disk = .ok extents
  agrees : ∀ record, accepts cursor.filter record = accepts filter record
  placed : cursor.Placed extents
  rests : cursor.Rests extents
  passed : (selection filter (cursor.rowsBefore extents)).length = position

/-- The matches before the place of a cursor and those from it on. -/
theorem At.selection_eq (h : At disk extents filter position cursor) :
    selection filter extents.flatten =
      selection filter (cursor.rowsBefore extents) ++
        selection filter (cursor.rowsFrom extents) := by
  rw [← h.placed.rows, selection_append]

theorem At.position_le (h : At disk extents filter position cursor) :
    position ≤ (selection filter extents.flatten).length := by
  rw [h.selection_eq, List.length_append, h.passed]
  exact Nat.le_add_right _ _

/-- A cursor rests on the match at its position. -/
theorem At.current (h : At disk extents filter position cursor) :
    cursor.current = (selection filter extents.flatten)[position]? := by
  rw [h.selection_eq, List.getElem?_append_right h.passed.le, h.passed, Nat.sub_self]
  cases hrows : cursor.rowsFrom extents with
  | nil =>
      rw [h.rests.current, hrows]
      rfl
  | cons record rest =>
      have hcurrent : cursor.current = some record := by rw [h.rests.current, hrows]; rfl
      have hmatch : accepts filter record = .ok true :=
        (h.agrees record).symm.trans (h.rests.matches' record hcurrent)
      rw [hcurrent, selection, List.filter_cons, if_pos (decide_eq_true hmatch)]
      rfl

/-- Behind the last match, and only there, a cursor is at the end. -/
theorem At.atEnd (h : At disk extents filter position cursor) (hend : cursor.atEnd = true) :
    position = (selection filter extents.flatten).length := by
  rw [Cursor.atEnd, Option.isNone_iff_eq_none, h.current, List.getElem?_eq_none_iff] at hend
  exact Nat.le_antisymm h.position_le hend

/-- A filter that can be evaluated on every record. -/
def Total (filter : Option Predicate) (records : List Record) : Prop :=
  ∀ record ∈ records, ∃ b, accepts filter record = .ok b

theorem Total.not_error {records : List Record} {record : Record} {fault : Fault}
    (h : Total filter records) (hrecord : record ∈ records) :
    accepts filter record ≠ .error fault := by
  obtain ⟨b, hb⟩ := h record hrecord
  rw [hb]
  exact nofun

theorem mem_flatten_of_rowsFrom {record : Record} (h : record ∈ cursor.rowsFrom extents)
    (hplaced : cursor.Placed extents) : record ∈ extents.flatten := by
  rw [← hplaced.rows]
  exact List.mem_append_right _ h

/-- A cursor that settles passes over records that do not match. -/
theorem exists_settle (htotal : Total filter extents.flatten) (hplaced : cursor.Placed extents)
    (hloads : cursor.dataset.extents disk = .ok extents)
    (hfilter : ∀ record, accepts cursor.filter record = accepts filter record) :
    ∃ after, settle disk cursor = (.ok (), after) ∧
      At disk extents filter (selection filter (cursor.rowsBefore extents)).length after := by
  rcases settle_spec hloads hplaced.within with
    ⟨after, hrun, hsettled⟩ | ⟨after, fault, hrun, record, hrecord, hfault⟩
  · have hafter := placed_settle hloads hplaced hrun hsettled
    obtain ⟨skipped, hrows, hskipped⟩ := hsettled.skips
    refine ⟨after, hrun, hsettled.dataset ▸ hloads, fun record => ?_, hafter, hsettled.rests, ?_⟩
    · rw [hsettled.filter, hfilter]
    · have hnone : selection filter skipped = [] :=
        selection_skipped fun record hrecord =>
          (hfilter record).symm.trans (hskipped record hrecord)
      rw [hplaced.rowsBefore_eq hafter hrows, selection_append, hnone, List.append_nil]
  · exact absurd ((hfilter record).symm.trans hfault)
      (htotal.not_error (mem_flatten_of_rowsFrom hrecord hplaced))

/-- A cursor starts at position zero. -/
theorem start_positioned {dataset : Dataset} (hloads : dataset.extents disk = .ok extents)
    (htotal : Total filter extents.flatten) :
    ∃ cursor, start disk dataset filter = .ok cursor ∧ At disk extents filter 0 cursor := by
  have hplaced : (first dataset filter extents).Placed extents :=
    ⟨fun _ h => h, fun h => List.getElem?_eq_none_iff.1 h⟩
  obtain ⟨cursor, hrun, hat⟩ := exists_settle htotal hplaced hloads (accepts_filter filter)
  have hbefore : (first dataset filter extents).rowsBefore extents = [] := by
    cases extents <;> rfl
  rw [hbefore] at hat
  exact ⟨cursor, by rw [start_eq hloads, hrun], hat⟩

/-- Going forward. -/
theorem At.advance (h : At disk extents filter position cursor)
    (htotal : Total filter extents.flatten) :
    ∃ after, (advance disk).run cursor = (.ok (), after) ∧
      At disk extents filter (min (position + 1) (selection filter extents.flatten).length)
        after := by
  cases hend : cursor.atEnd with
  | true =>
      have hposition := h.atEnd hend
      refine ⟨cursor, by rw [Step.run, Cursor.advance, hend]; rfl, ?_⟩
      rw [← hposition, Nat.min_eq_right (Nat.le_succ _)]
      exact h
  | false =>
      obtain ⟨record, hcurrent⟩ : ∃ record, cursor.current = some record :=
        Option.isSome_iff_exists.1 (by rw [← Option.not_isNone, ← Cursor.atEnd, hend]; rfl)
      obtain ⟨rest, hrows⟩ : ∃ rest, cursor.rowsFrom extents = record :: rest := by
        rw [h.rests.current] at hcurrent
        exact ⟨_, (List.head?_eq_some_iff.1 hcurrent).choose_spec⟩
      have hsome : cursor.extent ≠ none := fun hnone => by
        rw [rowsFrom_of_none hnone] at hrows
        cases hrows
      have hplaced : Placed extents { cursor with rowIndex := cursor.rowIndex + 1 } :=
        ⟨h.placed.within, fun hnone => absurd hnone hsome⟩
      have hmatch : accepts filter record = .ok true :=
        (h.agrees record).symm.trans (h.rests.matches' record hcurrent)
      have hnext := rowsFrom_succ h.rests hrows
      have hbefore : rowsBefore extents { cursor with rowIndex := cursor.rowIndex + 1 } =
          cursor.rowsBefore extents ++ [record] :=
        h.placed.rowsBefore_eq hplaced (by rw [hnext, hrows]; rfl)
      obtain ⟨after, hrun, hat⟩ := exists_settle htotal hplaced h.loads h.agrees
      rw [hbefore, selection_append, List.length_append, h.passed,
        selection_passed hmatch (List.forall_mem_nil _), List.length_singleton] at hat
      refine ⟨after, ?_, ?_⟩
      · rw [Step.run, Cursor.advance, hend]
        exact hrun
      · rw [Nat.min_eq_left hat.position_le]
        exact hat

theorem run_next (disk : Disk) (cursor : Cursor) :
    (next disk).run cursor =
      match cursor.current with
      | none => (.ok none, cursor)
      | some record =>
        match (advance disk).run cursor with
        | (.ok _, after) => (.ok (some record), after)
        | (.error fault, after) => (.error fault, after) := by
  rw [next, Step.run_bind, Step.run_get]
  dsimp only
  cases cursor.current with
  | none => rfl
  | some record =>
      dsimp only
      rw [Step.run_bind]
      rcases (advance disk).run cursor with ⟨result, after⟩
      cases result <;> rfl

/-- Delivering the record that the cursor rests on, and going forward. -/
theorem At.next (h : At disk extents filter position cursor)
    (htotal : Total filter extents.flatten) :
    ∃ after, (next disk).run cursor = (.ok (selection filter extents.flatten)[position]?, after) ∧
      At disk extents filter (min (position + 1) (selection filter extents.flatten).length)
        after := by
  obtain ⟨after, hrun, hat⟩ := h.advance htotal
  refine ⟨after, ?_, hat⟩
  rw [run_next, hrun, ← h.current]
  cases hcurrent : cursor.current with
  | some record => rfl
  | none =>
      have hend : cursor.atEnd = true := by rw [Cursor.atEnd, hcurrent]; rfl
      rw [Step.run, Cursor.advance, hend] at hrun
      cases hrun
      rfl

/-- Going back by one match, if there is one before the place. -/
theorem At.previous (h : At disk extents filter position cursor)
    (htotal : Total filter extents.flatten) :
    match position with
    | 0 => previous disk cursor = .ok none
    | position + 1 => ∃ before, previous disk cursor = .ok (some before) ∧
        At disk extents filter position before := by
  have hbefore := retraces_previous h.loads h.placed
  have hpassed := h.passed
  generalize Cursor.previous disk cursor = result at hbefore ⊢
  cases hbefore with
  | nothing hskipped =>
      rw [selection_skipped fun record hrecord =>
        (h.agrees record).symm.trans (hskipped record hrecord)] at hpassed
      subst hpassed
      rfl
  | failed hfailed =>
      obtain ⟨record, hrecord, hfault⟩ := hfailed
      have hmem : record ∈ extents.flatten := by
        rw [← h.placed.rows]
        exact List.mem_append_left _ hrecord
      exact absurd ((h.agrees record).symm.trans hfault) (htotal.not_error hmem)
  | @found before hprecedes =>
      obtain ⟨record, skipped, hcurrent, hmatch, hrows, hskipped⟩ := hprecedes.passes
      have hone : selection filter (record :: skipped) = [record] :=
        selection_passed ((h.agrees record).symm.trans hmatch) fun other hother =>
          (h.agrees other).symm.trans (hskipped other hother)
      rw [hrows, selection_append, hone, List.length_append, List.length_singleton] at hpassed
      subst hpassed
      refine ⟨before, rfl, hprecedes.dataset ▸ h.loads, fun other => ?_, hprecedes.placed,
        ⟨?_, fun other hother => ?_⟩, rfl⟩
      · rw [hprecedes.filter, h.agrees]
      · rw [hcurrent, head?_rowsFrom extents hcurrent]
      · cases hcurrent.symm.trans hother
        rw [hprecedes.filter, hmatch]

theorem previousBy_succ (disk : Disk) (asked steps : Nat) (cursor : Cursor) :
    previousBy disk asked (steps + 1) cursor =
      match previous disk cursor with
      | .ok (some before) => previousBy disk asked steps before
      | .ok none => .error (.revertPastStart asked)
      | .error fault => .error fault := by
  rw [previousBy]
  cases previous disk cursor with
  | error fault => rfl
  | ok found => cases found <;> rfl

/-- Going back by several matches, if there are so many before the place. -/
theorem At.previousBy (h : At disk extents filter position cursor)
    (htotal : Total filter extents.flatten) (asked steps : Nat) :
    if steps ≤ position then
      ∃ before, previousBy disk asked steps cursor = .ok before ∧
        At disk extents filter (position - steps) before
    else previousBy disk asked steps cursor = .error (.revertPastStart asked) := by
  induction steps generalizing position cursor with
  | zero => exact ⟨cursor, rfl, h⟩
  | succ steps ih =>
      have hone := h.previous htotal
      rw [previousBy_succ]
      cases position with
      | zero =>
          rw [show Cursor.previous disk cursor = .ok none from hone]
          rfl
      | succ position =>
          obtain ⟨before, hprevious, hat⟩ := hone
          rw [hprevious]
          simpa only [Nat.succ_le_succ_iff, Nat.add_sub_add_right] using ih hat

/-- Going back as far as a caller asks for, or not at all. -/
theorem At.revert (h : At disk extents filter position cursor)
    (htotal : Total filter extents.flatten) (steps : Nat) :
    if steps ≤ position then
      ∃ after, (revert disk steps).run cursor = (.ok (), after) ∧
        At disk extents filter (position - steps) after
    else (revert disk steps).run cursor = (.error (.revertPastStart steps), cursor) := by
  have hback := h.previousBy htotal steps steps
  rw [Step.run, Cursor.revert]
  split at hback
  · next hsteps =>
      obtain ⟨before, hprevious, hat⟩ := hback
      rw [if_pos hsteps, hprevious]
      exact ⟨before, rfl, hat⟩
  · next hsteps => rw [if_neg hsteps, hback]

/-- What a move answers at a position in a list of matches, and the position after it. -/
def Move.seek (matching : List Record) (position : Nat) :
    Move → Attempt (Option Record) × Nat
  | .next => (.ok matching[position]?, min (position + 1) matching.length)
  | .advance => (.ok none, min (position + 1) matching.length)
  | .revert steps =>
    if steps ≤ position then (.ok none, position - steps)
    else (.error (.revertPastStart steps), position)

/-- One move of a cursor is the same move in the list. -/
theorem At.move (h : At disk extents filter position cursor)
    (htotal : Total filter extents.flatten) (m : Move) :
    ((move disk m).run cursor).1 = (m.seek (selection filter extents.flatten) position).1 ∧
      At disk extents filter (m.seek (selection filter extents.flatten) position).2
        ((move disk m).run cursor).2 := by
  cases m with
  | next =>
      obtain ⟨after, hrun, hat⟩ := h.next htotal
      rw [Cursor.move, hrun]
      exact ⟨rfl, hat⟩
  | advance =>
      obtain ⟨after, hrun, hat⟩ := h.advance htotal
      rw [Cursor.move, Step.run_bind, hrun]
      exact ⟨rfl, hat⟩
  | revert steps =>
      have hback := h.revert htotal steps
      rw [Cursor.move, Step.run_bind, Move.seek]
      split at hback
      · next hsteps =>
          obtain ⟨after, hrun, hat⟩ := hback
          rw [hrun, if_pos hsteps]
          exact ⟨rfl, hat⟩
      · next hsteps =>
          rw [hback, if_neg hsteps]
          exact ⟨rfl, h⟩

/-- The cursor after moves, whatever became of each of them. -/
def follow (disk : Disk) (moves : List Move) (cursor : Cursor) : Cursor :=
  moves.foldl (fun cursor m => ((move disk m).run cursor).2) cursor

/-- The position after moves, whatever became of each of them. -/
def seekAll (matching : List Record) (moves : List Move) (position : Nat) : Nat :=
  moves.foldl (fun position m => (m.seek matching position).2) position

theorem At.follow (h : At disk extents filter position cursor)
    (htotal : Total filter extents.flatten) (moves : List Move) :
    At disk extents filter (seekAll (selection filter extents.flatten) moves position)
      (follow disk moves cursor) := by
  induction moves generalizing position cursor with
  | nil => exact h
  | cons m moves ih => exact ih (h.move htotal m).2

/-- A cursor that a caller cannot tell from a position in a list of matches. -/
structure InStep (disk : Disk) (matching : List Record) (position : Nat) (cursor : Cursor) :
    Prop where
  position_le : position ≤ matching.length
  current : cursor.current = matching[position]?
  answers : ∀ m, ((move disk m).run cursor).1 = (m.seek matching position).1

theorem At.inStep (h : At disk extents filter position cursor)
    (htotal : Total filter extents.flatten) :
    InStep disk (selection filter extents.flatten) position cursor :=
  ⟨h.position_le, h.current, fun m => (h.move htotal m).1⟩

/-- A cursor with a filter that can be evaluated on every record is a position in the list of all
matches.  It starts at position zero, and any moves lead to where the same moves lead in the
list. -/
theorem exists_cursor_in_step {dataset : Dataset} {records : List Record}
    (hrecords : dataset.records disk = .ok records) (htotal : Total filter records) :
    ∃ cursor, start disk dataset filter = .ok cursor ∧ ∀ moves,
      InStep disk (selection filter records) (seekAll (selection filter records) moves 0)
        (follow disk moves cursor) := by
  obtain ⟨extents, hloads, rfl⟩ := Dataset.exists_extents_of_records hrecords
  obtain ⟨cursor, hstart, hat⟩ := start_positioned hloads htotal
  exact ⟨cursor, hstart, fun moves => (hat.follow htotal moves).inStep htotal⟩

end Position

/-- Records of one column, with extents without records among the others. -/
def smallSpread : Dataset :=
  ⟨[⟨"x", .int64, true⟩], 2, Nat.two_pos,
    [.memory [], .memory [[.int 1], [.int 5]], .memory [], .memory [[.int 2]]], none, none⟩

/-- The filter for values below five. -/
def smallFilter : Predicate := ⟨.compare .lt (.leftColumn 0) (.literal (.int 5))⟩

theorem cursor_in_step_small :
    smallSpread.records Disk.empty = .ok [[.int 1], [.int 5], [.int 2]] ∧
      ∃ cursor, start Disk.empty smallSpread (some smallFilter) = .ok cursor ∧ ∀ moves,
        InStep Disk.empty [[.int 1], [.int 2]] (seekAll [[.int 1], [.int 2]] moves 0)
          (follow Disk.empty moves cursor) := by
  have hrecords : smallSpread.records Disk.empty = .ok [[.int 1], [.int 5], [.int 2]] := by
    decide +kernel
  have htotal : Total (some smallFilter) [[.int 1], [.int 5], [.int 2]] :=
    List.forall_mem_cons.2 ⟨⟨true, by decide +kernel⟩, List.forall_mem_cons.2
      ⟨⟨false, by decide +kernel⟩, List.forall_mem_singleton.2 ⟨true, by decide +kernel⟩⟩⟩
  have hselection : selection (some smallFilter) [[.int 1], [.int 5], [.int 2]] =
      [[.int 1], [.int 2]] := by
    decide +kernel
  have hsteps := exists_cursor_in_step hrecords htotal
  rw [hselection] at hsteps
  exact ⟨hrecords, hsteps⟩

end Cursor
end ExtentEngine
