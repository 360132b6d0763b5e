import ExtentEngine.Proofs.Dataset.Outcomes

/-!
# What a writer leaves behind

Records are offered to a writer one after the other.  It refuses those that do not have the arity
of the schema and takes the others; an extent is appended as soon as enough records for one were
taken.  In the end the writer is closed, and what it still holds makes one more extent, or it is
dropped, and what it still holds is lost.

**Results.**
* `Writer.growing_session`: whatever becomes of a writer, its dataset may get further extents, and
  only one that gets none is still known to be sorted.
* `Writer.exists_filled_offer`: which records are taken, whatever became of those before.
* `Dataset.session_appends`: what is appended is what was taken, cut into full extents.
-/

namespace ExtentEngine
namespace Dataset

/-- Extents are added to a dataset, and it is not known to be sorted any more if there are any. -/
def Grown (before after : Dataset) : Prop :=
  ∃ slots, after = { before with
    slots := before.slots ++ slots
    sortedBy := if slots = [] then before.sortedBy else none }

namespace Grown

variable {first middle last : Dataset}

theorem refl (dataset : Dataset) : Grown dataset dataset :=
  ⟨[], by rw [List.append_nil, if_pos rfl]⟩

theorem trans (h : Grown first middle) (h' : Grown middle last) : Grown first last := by
  obtain ⟨slots, rfl⟩ := h
  obtain ⟨slots', rfl⟩ := h'
  refine ⟨slots ++ slots', ?_⟩
  rw [List.append_assoc]
  cases slots <;> cases slots' <;> rfl

/-- The dataset with one more extent. -/
theorem push (dataset : Dataset) (slot : Slot) :
    Grown dataset { dataset with slots := dataset.slots ++ [slot], sortedBy := none } :=
  ⟨[slot], rfl⟩

end Grown

theorem grown_push (extent : Extent) (s : Dataset × Disk) :
    Grown s.1 ((Dataset.push extent).run s).2.1 := by
  obtain ⟨dataset, disk⟩ := s
  rcases Nat.lt_or_ge dataset.limit extent.length with hlong | hlimit
  · rw [run_push_of_lt hlong]
    exact .refl dataset
  · cases hnamer : dataset.namer with
    | none =>
        rw [run_push_inMemory hlimit hnamer]
        exact .push dataset _
    | some namer =>
        rcases hstore : (storeExtent namer extent).run disk with ⟨_ | slot, after⟩
        · rw [run_push_of_not_stored hlimit hnamer hstore]
          exact .refl dataset
        · rw [run_push_of_stored hlimit hnamer hstore]
          exact .push dataset slot

end Dataset

namespace Writer

open Dataset (Appended Grown Writable)

section Growing

variable {α β : Type}

/-- A step with a writer that adds extents to the dataset, or none. -/
def Growing (step : Step (Writer × Disk) α) : Prop :=
  ∀ s, Grown s.1.dataset (step.run s).2.1.dataset

namespace Growing

theorem pure (a : α) : Growing (Pure.pure a : Step (Writer × Disk) α) := fun s => .refl s.1.dataset

theorem attempt {step : Step (Writer × Disk) α} (h : Growing step) : Growing step.attempt := h

theorem bind {step : Step (Writer × Disk) α} {next : α → Step (Writer × Disk) β}
    (h : Growing step) (hnext : ∀ a, Growing (next a)) : Growing (step >>= next) := by
  intro s
  have hfirst := h s
  rw [Step.run_bind]
  rcases hrun : step.run s with ⟨result, t⟩
  rw [hrun] at hfirst
  cases result with
  | error fault => exact hfirst
  | ok a => exact hfirst.trans (hnext a t)

end Growing

theorem growing_flush : Growing flush := by
  intro s
  by_cases hempty : s.1.buffer.isEmpty = true
  · rw [run_flush_of_isEmpty hempty]
    exact .refl _
  · rw [run_flush_of_not_isEmpty hempty]
    exact Dataset.grown_push s.1.buffer (s.1.dataset, s.2)

theorem growing_insert (record : Record) : Growing (insert record) := by
  rintro ⟨writer, disk⟩
  by_cases harity : record.length = writer.dataset.schema.length
  · rw [run_insert harity]
    split
    · exact growing_flush (writer.keep record, disk)
    · exact .refl writer.dataset
  · rw [run_insert_of_ne harity]
    exact .refl writer.dataset

theorem growing_offer (records : List Record) : Growing (offer records) := by
  induction records with
  | nil => exact .pure []
  | cons record records ih =>
      exact (growing_insert record).attempt.bind fun _ => ih.bind fun _ => .pure _

theorem growing_close : Growing close :=
  growing_flush.bind fun _ s => .refl s.1.dataset

theorem growing_session (records : List Record) (closes : Bool) :
    Growing (session records closes) := by
  refine (growing_offer records).bind fun _ => ?_
  cases closes with
  | false => exact .pure _
  | true => exact growing_close.attempt.bind fun _ => .pure _

end Growing

/-- The records with the arity that a schema asks for. -/
def fitting (arity : Nat) (records : List Record) : List Record :=
  records.filter fun record => record.length = arity

theorem fitting_cons_of_eq {arity : Nat} {record : Record} (records : List Record)
    (h : record.length = arity) :
    fitting arity (record :: records) = record :: fitting arity records :=
  List.filter_cons_of_pos (decide_eq_true h)

theorem fitting_cons_of_ne {arity : Nat} {record : Record} (records : List Record)
    (h : record.length ≠ arity) : fitting arity (record :: records) = fitting arity records :=
  List.filter_cons_of_neg fun heq => h (of_decide_eq_true heq)

/-- What a writer answers if it is offered a record. -/
def answer (arity : Nat) (record : Record) : Attempt Unit :=
  if record.length = arity then .ok () else .error (.datasetArity record.length arity)

/-- The records that fit are taken, whatever became of those before them. -/
theorem exists_filled_offer (records : List Record) {arity : Nat} {s : Writer × Disk}
    (hs : Writable (s.1.dataset, s.2)) (hschema : s.1.dataset.schema.length = arity)
    (hroom : s.1.buffer.length < s.1.dataset.limit) :
    ∃ t, (offer records).run s = (.ok (records.map (answer arity)), t) ∧
      Filled (fitting arity records) s t := by
  induction records generalizing s with
  | nil => exact ⟨s, rfl, ⟨[], .refl _, List.append_nil _, List.forall_mem_nil _⟩, rfl, hroom⟩
  | cons record records ih =>
      by_cases harity : record.length = arity
      · obtain ⟨t, hinsert, hfirst⟩ := exists_insert hs (harity.trans hschema.symm) hroom
        obtain ⟨extents, happended, -, -⟩ := hfirst.appended
        have hschema' : t.1.dataset.schema = s.1.dataset.schema := happended.schema
        obtain ⟨u, hrest, hlast⟩ := ih (happended.writable hs) (hschema' ▸ hschema) hfirst.room
        refine ⟨u, ?_, ?_⟩
        · simp only [offer, Step.run_bind, Step.run_attempt, hinsert, hrest, Step.run_pure,
            List.map_cons, answer, harity, if_true]
        · rw [fitting_cons_of_eq records harity]
          exact hfirst.trans hlast
      · have hrefuse := run_insert_of_ne (s := s) (hschema ▸ harity)
        obtain ⟨u, hrest, hlast⟩ := ih hs hschema hroom
        refine ⟨u, ?_, ?_⟩
        · simp only [offer, Step.run_bind, Step.run_attempt, hrefuse, hrest, hschema,
            Step.run_pure, List.map_cons, answer, harity, if_false]
        · rwa [fitting_cons_of_ne records harity]

/-- If a writer is closed, it appends what it still holds and tells how many records it took. -/
theorem exists_ending {records : List Record} (closes : Bool) {s t : Writer × Disk}
    {answers : List (Attempt Unit)} (hoffer : (offer records).run s = (.ok answers, t))
    (ht : Writable (t.1.dataset, t.2)) (hroom : t.1.buffer.length ≤ t.1.dataset.limit) :
    ∃ u, (session records closes).run s =
        (.ok (answers, if closes then some (.ok t.1.accepted) else none), u) ∧
      Appended (if closes then t.1.pending else []) (t.1.dataset, t.2) (u.1.dataset, u.2) := by
  cases closes with
  | false =>
      refine ⟨t, ?_, .refl _⟩
      simp only [session, Step.run_bind, hoffer, Bool.false_eq_true, if_false, Step.run_pure]
  | true =>
      obtain ⟨u, hflush, -, haccepted, happended⟩ := exists_flush ht hroom
      refine ⟨u, ?_, happended⟩
      simp only [session, close, Step.run_bind, Step.run_attempt, hoffer, hflush, haccepted,
        if_true, Step.run_get, Step.run_pure]

end Writer

namespace Dataset

open Writer (answer exists_ending exists_filled_offer fitting session)

/-- What a writer appends is what it took, cut into full extents: all of it if the writer is
closed, and otherwise what fills whole extents. -/
theorem exists_appended_session (records : List Record) (closes : Bool) {s : Dataset × Disk}
    (hs : Writable s) :
    ∃ t extents, (writing (session records closes)).run s =
        (.ok (records.map (answer s.1.schema.length),
          if closes then some (.ok (fitting s.1.schema.length records).length) else none), t) ∧
      Appended extents s t ∧
      extents.flatten = (if closes then fitting s.1.schema.length records
        else wholeExtents s.1.limit (fitting s.1.schema.length records)) ∧
      Packed s.1.limit extents ∧
      (closes = false → ∀ extent ∈ extents, extent.length = s.1.limit) := by
  obtain ⟨t, hoffer, hfilled⟩ :=
    exists_filled_offer (s := (Writer.start s.1, s.2)) records hs rfl s.1.limit_pos
  obtain ⟨extents, happended, hbuffer, hfull⟩ := hfilled.appended
  have hlimit : t.1.dataset.limit = s.1.limit := happended.limit
  have hroom : t.1.buffer.length < s.1.limit := hlimit ▸ hfilled.room
  have haccepted : t.1.accepted = (fitting s.1.schema.length records).length :=
    hfilled.accepted.trans (Nat.zero_add _)
  have htaken : fitting s.1.schema.length records = extents.flatten ++ t.1.buffer := hbuffer
  obtain ⟨u, hsession, hrest⟩ :=
    exists_ending closes hoffer (happended.writable hs) hfilled.room.le
  have hrun : (writing (session records closes)).run s =
      (.ok (records.map (answer s.1.schema.length),
        if closes then some (.ok t.1.accepted) else none), (u.1.dataset, u.2)) := by
    simp only [Step.run] at hsession
    simp only [Step.run, writing, hsession]
    rfl
  refine ⟨(u.1.dataset, u.2), _, haccepted ▸ hrun, happended.trans hrest, ?_⟩
  cases closes with
  | false =>
      simp only [Bool.false_eq_true, if_false, List.append_nil]
      refine ⟨?_, Packed.of_full s.1.limit_pos hfull, fun _ => hfull⟩
      rw [htaken]
      exact (wholeExtents_eq hfull hroom).symm
  | true =>
      simp only [if_true]
      refine ⟨?_, Writer.packed_append_pending s.1.limit_pos hfull hroom.le, ?_⟩
      · rw [htaken, List.flatten_append, Writer.flatten_pending]
      · rintro ⟨⟩

/-- A record that does not have the arity of the schema is refused and changes nothing; every other
one is taken if the dataset can be written to, so no extent is ever too long.  Behind the extents
of the dataset, which stay as they are, come extents with the records that were taken: all of them
if the writer is closed, and then it tells how many there are, and otherwise those that fill whole
extents.  The dataset is known to be sorted as before unless an extent was appended. -/
theorem session_appends (records : List Record) (closes : Bool) {s : Dataset × Disk}
    (hs : Writable s) (hfiles : ∀ file ∈ s.1.files, s.2.Allocated file) :
    (∀ record (w : Writer × Disk), record.length ≠ w.1.dataset.schema.length →
      (Writer.insert record).run w =
        (.error (.datasetArity record.length w.1.dataset.schema.length), w)) ∧
    ∃ t slots extents,
      (writing (session records closes)).run s =
        (.ok (records.map (answer s.1.schema.length),
          if closes then some (.ok (fitting s.1.schema.length records).length) else none), t) ∧
      t.1 = { s.1 with
        slots := s.1.slots ++ slots
        sortedBy := if slots = [] then s.1.sortedBy else none } ∧
      (∀ slot ∈ s.1.slots, slot.load t.2 = slot.load s.2) ∧
      List.Forall₂ (fun slot extent => slot.load t.2 = .ok extent) slots extents ∧
      extents.flatten = (if closes then fitting s.1.schema.length records
        else wholeExtents s.1.limit (fitting s.1.schema.length records)) ∧
      Packed s.1.limit extents ∧
      (closes = false → ∀ extent ∈ extents, extent.length = s.1.limit) := by
  refine ⟨fun record w => Writer.run_insert_of_ne, ?_⟩
  obtain ⟨t, extents, hrun, happended, hextents⟩ := exists_appended_session records closes hs
  obtain ⟨slots, hgrown⟩ : Grown s.1 t.1 := by
    have hgrowing : Grown s.1 ((writing (session records closes)).run s).2.1 :=
      Writer.growing_session records closes (Writer.start s.1, s.2)
    rwa [hrun] at hgrowing
  -- The slots that were added are those from which the extents are loaded.
  obtain ⟨loaded, _, hdataset, hloads, -⟩ := happended.dataset
  have hslots : s.1.slots ++ slots = s.1.slots ++ loaded :=
    congrArg Dataset.slots (hgrown.symm.trans hdataset)
  cases List.append_cancel_left hslots
  refine ⟨t, slots, extents, hrun, hgrown, fun slot hslot => ?_, hloads, hextents⟩
  exact Slot.load_frame happended.frame fun file hfile =>
    ⟨hfiles file (mem_files.2 ⟨slot, hslot, hfile⟩), id⟩

/-- A dataset in memory that is known to be sorted. -/
def smallShelf : Dataset :=
  ⟨[⟨"x", .int64, true⟩], 2, Nat.two_pos, [.memory [[.int 1], [.int 2]]], none, some [0]⟩

/-- A dataset on disk with two records in one file. -/
def smallShelfOnDisk : Dataset × Disk :=
  let namer := (Namer.inDirectory "/tmp").withLabel "dataset"
  let made := ((Disk.ensureDirectory "/tmp").run .empty).2
  ((push [[.int 1], [.int 2]]).run ({ smallShelf with slots := [], namer := some namer }, made)).2

theorem writable_smallShelfOnDisk : Writable smallShelfOnDisk where
  calm := by decide +kernel
  directory := by
    intro namer hnamer
    have heq : smallShelfOnDisk.1.namer =
        some ((Namer.inDirectory "/tmp").withLabel "dataset") := by
      decide +kernel
    cases heq.symm.trans hnamer
    decide +kernel

theorem allocated_smallShelfOnDisk :
    ∀ file ∈ smallShelfOnDisk.1.files, smallShelfOnDisk.2.Allocated file := by
  have hfiles : smallShelfOnDisk.1.files =
      [.fresh ((Namer.inDirectory "/tmp").withLabel "dataset") "extent" 0] := by
    decide +kernel
  have hserial : 0 < smallShelfOnDisk.2.nextSerial := by decide +kernel
  rw [hfiles]
  exact List.forall_mem_singleton.2 hserial

/-- Records of another arity are refused, and the others are appended if they fill an extent or the
writer is closed.  On disk they are in new files, and the file that was there can be read as
before. -/
theorem session_appends_small :
    (∃ t, (writing (session [[.int 3], [.int 4, .int 4]] false)).run (smallShelf, .empty) =
        (.ok ([.ok (), .error (.datasetArity 2 1)], none), t) ∧ t.1.sortedBy = some [0]) ∧
    (∃ t extents, (writing (session [[.int 3], [], [.int 4], [.int 5]] true)).run
        (smallShelf, .empty) =
        (.ok ([.ok (), .error (.datasetArity 0 1), .ok (), .ok ()], some (.ok 3)), t) ∧
      extents.flatten = [[.int 3], [.int 4], [.int 5]] ∧ Packed 2 extents ∧
      t.1.sortedBy = none) ∧
    ∃ t slots, (writing (session [[.int 3], [.int 4]] true)).run smallShelfOnDisk =
        (.ok ([.ok (), .ok ()], some (.ok 2)), t) ∧
      t.1.slots = smallShelfOnDisk.1.slots ++ slots ∧
      (∀ slot ∈ smallShelfOnDisk.1.slots,
        slot.load t.2 = slot.load smallShelfOnDisk.2) ∧
      ∃ extents, List.Forall₂ (fun slot extent => slot.load t.2 = .ok extent) slots extents ∧
        extents.flatten = [[.int 3], [.int 4]] := by
  refine ⟨?_, ?_, ?_⟩
  · obtain ⟨-, t, slots, extents, hrun, hgrown, -, hloads, hflatten, hpacked, -⟩ :=
      @session_appends [[.int 3], [.int 4, .int 4]] false (smallShelf, .empty)
        ⟨rfl, nofun⟩ (List.forall_mem_nil _)
    have hnone : extents = [] :=
      List.eq_nil_iff_forall_not_mem.2 fun extent hextent =>
        hpacked.nonempty extent hextent (List.flatten_eq_nil_iff.1 hflatten extent hextent)
    rw [hnone, List.forall₂_nil_right_iff] at hloads
    refine ⟨t, hrun, ?_⟩
    rw [hgrown, hloads]
    rfl
  · obtain ⟨-, t, slots, extents, hrun, hgrown, -, hloads, hflatten, hpacked, -⟩ :=
      @session_appends [[.int 3], [], [.int 4], [.int 5]] true (smallShelf, .empty)
        ⟨rfl, nofun⟩ (List.forall_mem_nil _)
    refine ⟨t, extents, hrun, hflatten, hpacked, ?_⟩
    rw [hgrown]
    refine if_neg ?_
    rintro rfl
    rw [List.forall₂_nil_left_iff] at hloads
    rw [hloads] at hflatten
    cases hflatten
  · have harity : smallShelfOnDisk.1.schema.length = 1 := by decide +kernel
    obtain ⟨-, t, slots, extents, hrun, hgrown, hkept, hloads, hflatten, -⟩ :=
      @session_appends [[.int 3], [.int 4]] true smallShelfOnDisk writable_smallShelfOnDisk
        allocated_smallShelfOnDisk
    rw [harity] at hrun hflatten
    exact ⟨t, slots, hrun, congrArg Dataset.slots hgrown, hkept, extents, hloads, hflatten⟩

end Dataset
end ExtentEngine
