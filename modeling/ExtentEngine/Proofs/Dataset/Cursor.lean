import ExtentEngine.Dataset.Cursor
import ExtentEngine.Proofs.Dataset.Storage

/-!
# Where cursors are

A cursor has the records from its place on before it.  Settling passes over records that do
not match, and the cursor then rests on a match, or there is none left.

**Results.**
* `settle_spec`: settling comes to the first match, or to a record on which the filter fails.
* `start_spec`: a cursor starts with all records of the dataset.
* `next_spec`: the record that a cursor rests on is delivered.
-/

namespace ExtentEngine

namespace Cursor

section Search

variable {filter : Option Predicate} {records : List Record} {row found : Nat}

/-- The records before the first match do not match. -/
theorem search_found (h : search filter row records = .found found) :
    ∃ skipped record rest, records = skipped ++ record :: rest ∧ found = row + skipped.length ∧
      (∀ record ∈ skipped, accepts filter record = .ok false) ∧
      accepts filter record = .ok true := by
  induction records generalizing row with
  | nil => cases h
  | cons record records ih =>
      rw [search] at h
      split at h
      · cases h
      · next hmatch =>
          cases h
          exact ⟨[], record, records, rfl, rfl, nofun, hmatch⟩
      · next hskip =>
          obtain ⟨skipped, other, rest, rfl, rfl, hskipped, hmatch⟩ := ih h
          refine ⟨record :: skipped, other, rest, rfl, ?_, List.forall_mem_cons.2 ⟨hskip, hskipped⟩,
            hmatch⟩
          rw [List.length_cons, Nat.add_assoc, Nat.add_comm 1]

theorem search_exhausted (h : search filter row records = .exhausted) :
    ∀ record ∈ records, accepts filter record = .ok false := by
  induction records generalizing row with
  | nil => exact nofun
  | cons record records ih =>
      rw [search] at h
      split at h
      · cases h
      · cases h
      · next hskip => exact List.forall_mem_cons.2 ⟨hskip, ih h⟩

/-- The records before the one on which the filter fails do not match. -/
theorem search_failed {fault : Fault} (h : search filter row records = .failed found fault) :
    ∃ skipped record rest, records = skipped ++ record :: rest ∧ found = row + skipped.length ∧
      (∀ record ∈ skipped, accepts filter record = .ok false) ∧
      accepts filter record = .error fault := by
  induction records generalizing row with
  | nil => cases h
  | cons record records ih =>
      rw [search] at h
      split at h
      · next hfault =>
          cases h
          exact ⟨[], record, records, rfl, rfl, nofun, hfault⟩
      · cases h
      · next hskip =>
          obtain ⟨skipped, other, rest, rfl, rfl, hskipped, hfault⟩ := ih h
          refine ⟨record :: skipped, other, rest, rfl, ?_, List.forall_mem_cons.2 ⟨hskip, hskipped⟩,
            hfault⟩
          rw [List.length_cons, Nat.add_assoc, Nat.add_comm 1]

end Search

/-- A cursor that is in one of the extents, or behind the last one. -/
def Within (extents : List Extent) (cursor : Cursor) : Prop :=
  ∀ extent, cursor.extent = some extent → extents[cursor.extentIndex]? = some extent

/-- The records from the place of a cursor on. -/
def rowsFrom (extents : List Extent) (cursor : Cursor) : List Record :=
  match cursor.extent with
  | none => []
  | some extent =>
    extent.drop cursor.rowIndex ++ (extents.drop (cursor.extentIndex + 1)).flatten

/-- A cursor that rests on the first one of its records, a match, if there is one. -/
structure Rests (extents : List Extent) (cursor : Cursor) : Prop where
  current : cursor.current = (cursor.rowsFrom extents).head?
  matches' : ∀ record, cursor.current = some record → accepts cursor.filter record = .ok true

/-- What settling makes of a cursor. -/
structure Settled (extents : List Extent) (cursor after : Cursor) : Prop where
  dataset : after.dataset = cursor.dataset
  filter : after.filter = cursor.filter
  within : after.Within extents
  rests : after.Rests extents
  skips : ∃ skipped, cursor.rowsFrom extents = skipped ++ after.rowsFrom extents ∧
    ∀ record ∈ skipped, accepts cursor.filter record = .ok false

variable {disk : Disk} {extents : List Extent} {cursor : Cursor}

theorem rowsFrom_of_none (h : cursor.extent = none) : cursor.rowsFrom extents = [] := by
  rw [rowsFrom, h]

theorem rowsFrom_of_some {extent : Extent} (h : cursor.extent = some extent) :
    cursor.rowsFrom extents =
      extent.drop cursor.rowIndex ++ (extents.drop (cursor.extentIndex + 1)).flatten := by
  rw [rowsFrom, h]

theorem rests_of_none (h : cursor.extent = none) : cursor.Rests extents := by
  have hcurrent : cursor.current = none := by
    rw [current, h]
    rfl
  refine ⟨?_, fun record hrecord => ?_⟩
  · rw [hcurrent, rowsFrom_of_none h]
    rfl
  · rw [hcurrent] at hrecord
    cases hrecord

/-- A cursor behind the last extent stays where it is. -/
theorem settled_of_none (hextent : cursor.extent = none) : Settled extents cursor cursor := by
  refine ⟨rfl, rfl, fun extent hsome => ?_, rests_of_none hextent, [], rfl, List.forall_mem_nil _⟩
  cases hextent.symm.trans hsome

/-- A match in the extent that the cursor is in. -/
theorem settled_of_found {extent : Extent} (hextent : cursor.extent = some extent)
    (hwithin : cursor.Within extents) {row : Nat}
    (h : search cursor.filter cursor.rowIndex (extent.drop cursor.rowIndex) = .found row) :
    Settled extents cursor { cursor with rowIndex := row } := by
  obtain ⟨skipped, record, rest, hsplit, rfl, hskipped, hmatch⟩ := search_found h
  have hdrop : extent.drop (cursor.rowIndex + skipped.length) = record :: rest := by
    rw [← List.drop_drop, hsplit, List.drop_left]
  have hsame : Cursor.extent { cursor with rowIndex := cursor.rowIndex + skipped.length } =
      some extent := hextent
  have hrows : rowsFrom extents { cursor with rowIndex := cursor.rowIndex + skipped.length } =
      record :: (rest ++ (extents.drop (cursor.extentIndex + 1)).flatten) := by
    rw [rowsFrom_of_some hsame, hdrop, List.cons_append]
  have hcurrent :
      current { cursor with rowIndex := cursor.rowIndex + skipped.length } = some record := by
    rw [current, hsame, Option.bind_some, ← List.head?_drop, hdrop]
    rfl
  refine ⟨rfl, rfl, hwithin, ⟨?_, fun other hother => ?_⟩, skipped, ?_, hskipped⟩
  · rw [hcurrent, hrows]
    rfl
  · rw [hcurrent] at hother
    cases hother
    exact hmatch
  · rw [hrows, rowsFrom_of_some hextent, hsplit, List.append_assoc, List.cons_append]

/-- No match in the last extent. -/
theorem settled_of_last {extent : Extent} (hextent : cursor.extent = some extent)
    (hlast : extents.length ≤ cursor.extentIndex + 1)
    (hskipped : ∀ record ∈ extent.drop cursor.rowIndex,
      accepts cursor.filter record = .ok false) :
    Settled extents cursor
      ⟨cursor.dataset, cursor.filter, cursor.extentIndex + 1, 0, none⟩ := by
  refine ⟨rfl, rfl, nofun, rests_of_none rfl, _, ?_, hskipped⟩
  rw [rowsFrom_of_some hextent, List.drop_of_length_le hlast]
  rfl

/-- The records behind those of an extent begin the next one. -/
theorem rowsFrom_eq_append {extent next : Extent} (hextent : cursor.extent = some extent)
    (hnext : extents[cursor.extentIndex + 1]? = some next) :
    cursor.rowsFrom extents = extent.drop cursor.rowIndex ++
      rowsFrom extents ⟨cursor.dataset, cursor.filter, cursor.extentIndex + 1, 0, some next⟩ := by
  obtain ⟨hindex, rfl⟩ := List.getElem?_eq_some_iff.1 hnext
  rw [rowsFrom_of_some hextent, List.drop_eq_getElem_cons hindex, List.flatten_cons]
  rfl

/-- Records that do not match are passed over. -/
theorem Settled.of_skipped {next after : Cursor} {skipped : List Record}
    (h : Settled extents next after) (hdataset : next.dataset = cursor.dataset)
    (hfilter : next.filter = cursor.filter)
    (hrows : cursor.rowsFrom extents = skipped ++ next.rowsFrom extents)
    (hskipped : ∀ record ∈ skipped, accepts cursor.filter record = .ok false) :
    Settled extents cursor after where
  dataset := h.dataset.trans hdataset
  filter := h.filter.trans hfilter
  within := h.within
  rests := h.rests
  skips := by
    obtain ⟨more, hmore, hnone⟩ := h.skips
    rw [hfilter] at hnone
    exact ⟨skipped ++ more, by rw [hrows, hmore, List.append_assoc],
      List.forall_mem_append.2 ⟨hskipped, hnone⟩⟩

/-- Settling comes to the first match, or to a record on which the filter fails. -/
theorem settle_spec (hloads : cursor.dataset.extents disk = .ok extents)
    (hwithin : cursor.Within extents) :
    (∃ after, settle disk cursor = (.ok (), after) ∧ Settled extents cursor after) ∨
      ∃ after fault, settle disk cursor = (.error fault, after) ∧
        ∃ record ∈ cursor.rowsFrom extents, accepts cursor.filter record = .error fault := by
  have hcount := Dataset.extentCount_eq hloads
  fun_induction settle disk cursor with
  | case1 cursor hextent => exact Or.inl ⟨cursor, rfl, settled_of_none hextent⟩
  | case2 cursor extent hextent row hsearch =>
      exact Or.inl ⟨_, rfl, settled_of_found hextent hwithin hsearch⟩
  | case3 cursor extent hextent row fault hsearch =>
      obtain ⟨skipped, record, rest, hsplit, -, -, hfault⟩ := search_failed hsearch
      refine Or.inr ⟨_, fault, rfl, record, ?_, hfault⟩
      rw [rowsFrom_of_some hextent, hsplit]
      exact List.mem_append_left _ (List.mem_append_right _ List.mem_cons_self)
  | case4 cursor extent hextent hsearch next hnext fault hfault =>
      -- All extents of the dataset can be loaded.
      have hget := List.getElem?_eq_getElem (hcount ▸ hnext)
      cases hfault.symm.trans (Dataset.extent_eq_ok hloads hget)
  | case5 cursor extent hextent hsearch next hnext extent' hextent' ih =>
      have hget := List.getElem?_eq_getElem (hcount ▸ hnext)
      cases hextent'.symm.trans (Dataset.extent_eq_ok hloads hget)
      have hrows := rowsFrom_eq_append hextent hget
      rcases ih hloads (by rintro _ ⟨⟩; exact hget) hcount with
        ⟨after, hrun, hsettled⟩ | ⟨after, fault, hrun, record, hrecord, hfault⟩
      · exact Or.inl ⟨after, hrun,
          hsettled.of_skipped rfl rfl hrows (search_exhausted hsearch)⟩
      · refine Or.inr ⟨after, fault, hrun, record, ?_, hfault⟩
        rw [hrows]
        exact List.mem_append_right _ hrecord
  | case6 cursor extent hextent hsearch next hlast =>
      exact Or.inl ⟨_, rfl,
        settled_of_last hextent (hcount ▸ Nat.not_lt.1 hlast) (search_exhausted hsearch)⟩

/-- A filter that always holds is as good as none. -/
theorem accepts_filter (filter : Option Predicate) (record : Record) :
    accepts (filter.filter fun predicate => !predicate.isAlways) record =
      accepts filter record := by
  cases filter with
  | none => rfl
  | some predicate =>
      cases halways : predicate.isAlways with
      | false => simp only [Option.filter, halways, Bool.not_false, if_true]
      | true =>
          simp only [Option.filter, halways, Bool.not_true, Bool.false_eq_true, if_false, accepts,
            Predicate.holds, if_true]

/-- The place at which a search for the first match begins. -/
def first (dataset : Dataset) (filter : Option Predicate) (extents : List Extent) : Cursor :=
  ⟨dataset, filter.filter fun predicate => !predicate.isAlways, 0, 0, extents[0]?⟩

theorem start_eq {dataset : Dataset} {filter : Option Predicate}
    (hloads : dataset.extents disk = .ok extents) :
    start disk dataset filter =
      match settle disk (first dataset filter extents) with
      | (.ok _, cursor) => .ok cursor
      | (.error fault, _) => .error fault := by
  rw [start, Dataset.extentCount_eq hloads]
  cases extents with
  | nil =>
      rw [List.length_nil, if_neg (Nat.lt_irrefl 0)]
      change (do
        (settle disk (first dataset filter [])).1
        pure (settle disk (first dataset filter [])).2 : Attempt Cursor) = _
      rcases settle disk (first dataset filter []) with ⟨result, cursor⟩
      cases result <;> rfl
  | cons extent extents =>
      have hpos : 0 < (extent :: extents).length := Nat.succ_pos _
      rw [if_pos hpos, Dataset.extent_eq_ok hloads rfl]
      change (do
        (settle disk (first dataset filter (extent :: extents))).1
        pure (settle disk (first dataset filter (extent :: extents))).2 : Attempt Cursor) = _
      rcases settle disk (first dataset filter (extent :: extents)) with ⟨result, cursor⟩
      cases result <;> rfl

theorem rowsFrom_first (dataset : Dataset) (filter : Option Predicate) (extents : List Extent) :
    (first dataset filter extents).rowsFrom extents = extents.flatten := by
  cases extents <;> rfl

/-- A cursor starts with all records of the dataset. -/
theorem start_spec {dataset : Dataset} {filter : Option Predicate}
    (hloads : dataset.extents disk = .ok extents) :
    (∃ cursor, start disk dataset filter = .ok cursor ∧ cursor.dataset = dataset ∧
      (∀ record, accepts cursor.filter record = accepts filter record) ∧
      cursor.Within extents ∧ cursor.Rests extents ∧
      ∃ skipped, extents.flatten = skipped ++ cursor.rowsFrom extents ∧
        ∀ record ∈ skipped, accepts filter record = .ok false) ∨
      ∃ fault, start disk dataset filter = .error fault ∧
        ∃ record ∈ extents.flatten, accepts filter record = .error fault := by
  have hwithin : (first dataset filter extents).Within extents := fun _ h => h
  rw [start_eq hloads, ← rowsFrom_first dataset filter extents]
  rcases settle_spec hloads hwithin with
    ⟨after, hrun, hsettled⟩ | ⟨after, fault, hrun, record, hrecord, hfault⟩
  · obtain ⟨skipped, hsplit, hskipped⟩ := hsettled.skips
    rw [hrun]
    refine Or.inl ⟨after, rfl, hsettled.dataset, fun record => ?_, hsettled.within,
      hsettled.rests, skipped, hsplit, fun record hrecord => ?_⟩
    · rw [hsettled.filter]
      exact accepts_filter filter record
    · rw [← accepts_filter]
      exact hskipped record hrecord
  · rw [hrun]
    refine Or.inr ⟨fault, rfl, record, hrecord, ?_⟩
    rw [← accepts_filter]
    exact hfault

theorem next_of_nil (hrests : cursor.Rests extents) (hrows : cursor.rowsFrom extents = []) :
    (next disk).run cursor = (.ok none, cursor) := by
  have hcurrent : cursor.current = none := by rw [hrests.current, hrows]; rfl
  rw [next, Step.run_bind, Step.run_get]
  simp only
  rw [hcurrent]
  rfl

theorem rowsFrom_succ {record : Record} {rest : List Record} (hrests : cursor.Rests extents)
    (hrows : cursor.rowsFrom extents = record :: rest) :
    rowsFrom extents { cursor with rowIndex := cursor.rowIndex + 1 } = rest := by
  have hcurrent : cursor.current = some record := by rw [hrests.current, hrows]; rfl
  cases hextent : cursor.extent with
  | none =>
      rw [rowsFrom_of_none hextent] at hrows
      cases hrows
  | some extent =>
      rw [current, hextent, Option.bind_some] at hcurrent
      obtain ⟨hrow, -⟩ := List.getElem?_eq_some_iff.1 hcurrent
      rw [rowsFrom_of_some hextent, List.drop_eq_getElem_cons hrow, List.cons_append] at hrows
      exact (List.cons.inj hrows).2

/-- The record that a cursor rests on is delivered. -/
theorem next_spec (hloads : cursor.dataset.extents disk = .ok extents)
    (hwithin : cursor.Within extents) (hrests : cursor.Rests extents) {record : Record}
    {rest : List Record} (hrows : cursor.rowsFrom extents = record :: rest) :
    (∃ after, (next disk).run cursor = (.ok (some record), after) ∧
      after.dataset = cursor.dataset ∧ after.filter = cursor.filter ∧ after.Within extents ∧
      after.Rests extents ∧ ∃ skipped, rest = skipped ++ after.rowsFrom extents ∧
        ∀ record ∈ skipped, accepts cursor.filter record = .ok false) ∨
      ∃ after fault, (next disk).run cursor = (.error fault, after) ∧
        ∃ record ∈ rest, accepts cursor.filter record = .error fault := by
  have hcurrent : cursor.current = some record := by rw [hrests.current, hrows]; rfl
  have hnext : (next disk).run cursor =
      match settle disk { cursor with rowIndex := cursor.rowIndex + 1 } with
      | (.ok _, after) => (.ok (some record), after)
      | (.error fault, after) => (.error fault, after) := by
    rw [next, Step.run_bind, Step.run_get]
    simp only
    rw [hcurrent]
    simp only
    rw [Step.run_bind, Step.run, advance, atEnd, hcurrent, Option.isNone_some,
      if_neg Bool.false_ne_true]
    rcases settle disk { cursor with rowIndex := cursor.rowIndex + 1 } with ⟨result, after⟩
    cases result <;> rfl
  rw [hnext, ← rowsFrom_succ hrests hrows]
  rcases @settle_spec disk extents { cursor with rowIndex := cursor.rowIndex + 1 } hloads
      hwithin with
    ⟨after, hrun, hsettled⟩ | ⟨after, fault, hrun, hfault⟩
  · rw [hrun]
    exact Or.inl ⟨after, rfl, hsettled.dataset, hsettled.filter, hsettled.within, hsettled.rests,
      hsettled.skips⟩
  · rw [hrun]
    exact Or.inr ⟨after, fault, rfl, hfault⟩

theorem length_rowsFrom (hloads : cursor.dataset.extents disk = .ok extents) :
    (cursor.rowsFrom extents).length ≤ cursor.remaining := by
  rw [remaining, Dataset.extentLengths_eq hloads]
  cases hextent : cursor.extent with
  | none =>
      rw [rowsFrom_of_none hextent]
      exact Nat.zero_le _
  | some extent =>
      rw [rowsFrom_of_some hextent, List.length_append, List.length_drop, List.length_flatten,
        List.map_drop]
      exact Nat.le_refl _

end Cursor
end ExtentEngine
