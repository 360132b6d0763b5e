import ExtentEngine.Proofs.Dataset.Storage

/-!
# Records that fill extents

A writer appends an extent as soon as it has as many records as an extent may have, so all extents
that it appends before it is closed are full.  It stops at the first record that does not fit and
at the first extent that cannot be written.  The dataset then has got the records of the extents
before that and no others.

**Results.**
* `wholeExtents_eq`: the records that fill whole extents are those of the extents.
* `Writer.insertAll_cases`: records are taken and fill extents, or the writer stops, and why.
* `Dataset.append_cases`: records are appended, or what is appended is cut short.
* `Dataset.exists_append`: on a writable dataset, records of the right arity are appended.
-/

namespace ExtentEngine

/-- All extents but the last are full, and none is empty. -/
structure Packed (limit : Nat) (extents : List Extent) : Prop where
  full : ∀ extent ∈ extents.dropLast, extent.length = limit
  nonempty : ∀ extent ∈ extents, extent ≠ []
  bounded : ∀ extent ∈ extents, extent.length ≤ limit

theorem Packed.of_full {limit : Nat} {extents : List Extent} (hlimit : 0 < limit)
    (h : ∀ extent ∈ extents, extent.length = limit) : Packed limit extents where
  full extent hextent := h extent (List.mem_of_mem_dropLast hextent)
  nonempty extent hextent := List.ne_nil_of_length_pos (h extent hextent ▸ hlimit)
  bounded extent hextent := (h extent hextent).le

/-- The records that fill whole extents. -/
def wholeExtents (limit : Nat) (records : List Record) : List Record :=
  records.take (records.length / limit * limit)

theorem length_flatten_of_full {limit : Nat} {extents : List Extent}
    (h : ∀ extent ∈ extents, extent.length = limit) :
    extents.flatten.length = extents.length * limit := by
  rw [List.length_flatten, List.map_congr_left h, List.map_const', List.sum_replicate_nat]

theorem wholeExtents_of_lt {limit : Nat} {records : List Record} (h : records.length < limit) :
    wholeExtents limit records = [] := by
  rw [wholeExtents, Nat.div_eq_of_lt h, Nat.zero_mul, List.take_zero]

/-- Full extents are whole, and what comes behind them does not change that. -/
theorem wholeExtents_append {limit : Nat} {extents : List Extent} (hlimit : 0 < limit)
    (h : ∀ extent ∈ extents, extent.length = limit) (records : List Record) :
    wholeExtents limit (extents.flatten ++ records) =
      extents.flatten ++ wholeExtents limit records := by
  have hcount : (extents.length * limit + records.length) / limit * limit =
      extents.flatten.length + records.length / limit * limit := by
    rw [Nat.mul_comm extents.length, Nat.mul_add_div hlimit, Nat.add_mul, length_flatten_of_full h]
  rw [wholeExtents, List.length_append, length_flatten_of_full h, hcount,
    List.take_length_add_append, wholeExtents]

/-- Full extents are whole, and fewer records than fill another one are left. -/
theorem wholeExtents_eq {limit : Nat} {extents : List Extent} {rest : List Record}
    (h : ∀ extent ∈ extents, extent.length = limit) (hrest : rest.length < limit) :
    wholeExtents limit (extents.flatten ++ rest) = extents.flatten := by
  rw [wholeExtents_append (Nat.zero_lt_of_lt hrest) h, wholeExtents_of_lt hrest, List.append_nil]

theorem wholeExtents_length_le (limit : Nat) (records : List Record) :
    (wholeExtents limit records).length ≤ records.length :=
  List.length_take_le' _ _

/-- Why of the given records only some could be put into extents, and which. -/
inductive CutShort (limit arity : Nat) (records : List Record) : Fault → List Record → Prop
  /-- A record does not fit.  Those before it are left as far as they fill extents. -/
  | misfit {fitting rest : List Record} {misfit : Record}
      (hrecords : records = fitting ++ misfit :: rest)
      (hfitting : ∀ record ∈ fitting, record.length = arity) (hmisfit : misfit.length ≠ arity) :
      CutShort limit arity records (.datasetArity misfit.length arity) (wholeExtents limit fitting)
  /-- An extent cannot be written.  Those before it are left. -/
  | unwritten {written rest : List Record} {extent : Extent} {fault : Fault}
      (hrecords : records = written ++ (extent ++ rest))
      (hfitting : ∀ record ∈ written ++ extent, record.length = arity)
      (hwhole : limit ∣ written.length) (hnonempty : extent ≠ []) (hbound : extent.length ≤ limit)
      (hfault : fault.isWriteFailure = true) : CutShort limit arity records fault written

namespace CutShort

variable {limit arity : Nat} {records left : List Record} {fault : Fault}

/-- Some records are lost. -/
theorem length_lt (h : CutShort limit arity records fault left) : left.length < records.length := by
  cases h with
  | @misfit fitting _ _ hrecords =>
      have hle := wholeExtents_length_le limit fitting
      rw [hrecords, List.length_append, List.length_cons]
      omega
  | unwritten hrecords _ _ hnonempty =>
      have hpos := List.length_pos_of_ne_nil hnonempty
      rw [hrecords, List.length_append, List.length_append]
      omega

/-- If all records fit, an extent could not be written. -/
theorem isWriteFailure (h : CutShort limit arity records fault left)
    (hfits : ∀ record ∈ records, record.length = arity) : fault.isWriteFailure = true := by
  cases h with
  | misfit hrecords _ hmisfit =>
      rw [hrecords] at hfits
      exact absurd (hfits _ (List.mem_append_right _ List.mem_cons_self)) hmisfit
  | unwritten _ _ _ _ _ hfault => exact hfault

/-- More records behind those at which it stopped are of no account. -/
theorem append (h : CutShort limit arity records fault left) (more : List Record) :
    CutShort limit arity (records ++ more) fault left := by
  cases h with
  | @misfit fitting rest misfit hrecords hfitting hmisfit =>
      have hrecords' : records ++ more = fitting ++ misfit :: (rest ++ more) := by
        rw [hrecords, List.append_assoc, List.cons_append]
      exact .misfit hrecords' hfitting hmisfit
  | @unwritten _ rest extent _ hrecords hfitting hwhole hnonempty hbound hfault =>
      have hrecords' : records ++ more = left ++ (extent ++ (rest ++ more)) := by
        rw [hrecords, List.append_assoc, List.append_assoc]
      exact .unwritten hrecords' hfitting hwhole hnonempty hbound hfault

/-- Full extents before those records are left as well. -/
theorem behind {extents : List Extent} (hlimit : 0 < limit)
    (hfull : ∀ extent ∈ extents, extent.length = limit)
    (hfits : ∀ record ∈ extents.flatten, record.length = arity)
    (h : CutShort limit arity records fault left) :
    CutShort limit arity (extents.flatten ++ records) fault (extents.flatten ++ left) := by
  cases h with
  | @misfit fitting rest misfit hrecords hfitting hmisfit =>
      have hrecords' : extents.flatten ++ records =
          (extents.flatten ++ fitting) ++ misfit :: rest := by
        rw [hrecords, List.append_assoc]
      rw [← wholeExtents_append hlimit hfull]
      exact .misfit hrecords' (List.forall_mem_append.2 ⟨hfits, hfitting⟩) hmisfit
  | @unwritten _ rest extent _ hrecords hfitting hwhole hnonempty hbound hfault =>
      have hrecords' : extents.flatten ++ records =
          (extents.flatten ++ left) ++ (extent ++ rest) := by
        rw [hrecords, List.append_assoc]
      refine .unwritten hrecords' ?_ ?_ hnonempty hbound hfault
      · rw [List.append_assoc]
        exact List.forall_mem_append.2 ⟨hfits, hfitting⟩
      · rw [List.length_append, length_flatten_of_full hfull]
        exact Nat.dvd_add (Nat.dvd_mul_left _ _) hwhole

end CutShort

theorem Step.forEach_append {σ β : Type} (step : β → Step σ Unit) (items more : List β) (s : σ) :
    (Step.forEach step (items ++ more)).run s =
      (do Step.forEach step items; Step.forEach step more).run s := by
  induction items generalizing s with
  | nil => rfl
  | cons item items ih =>
      simp only [List.cons_append, Step.forEach, Step.run_bind] at ih ⊢
      rcases (step item).run s with ⟨_ | _, t⟩
      · rfl
      · exact ih t

namespace Writer

theorem run_flush_of_isEmpty {s : Writer × Disk} (h : s.1.buffer.isEmpty = true) :
    flush.run s = (.ok (), s) := if_pos h

/-- The records that a writer holds are given up, also if they could not be appended. -/
theorem run_flush_of_not_isEmpty {s : Writer × Disk} (h : ¬s.1.buffer.isEmpty = true) :
    flush.run s = (((Dataset.push s.1.buffer).run (s.1.dataset, s.2)).1,
      ({ s.1 with
        dataset := ((Dataset.push s.1.buffer).run (s.1.dataset, s.2)).2.1, buffer := [] },
        ((Dataset.push s.1.buffer).run (s.1.dataset, s.2)).2.2)) := if_neg h

/-- The extent that the records make which a writer holds, if it holds any. -/
def pending (writer : Writer) : List Extent :=
  if writer.buffer.isEmpty then [] else [writer.buffer]

theorem flatten_pending (writer : Writer) : writer.pending.flatten = writer.buffer := by
  rw [pending]
  split
  · next hempty => exact (List.isEmpty_iff.1 hempty).symm
  · exact List.flatten_singleton

theorem eq_buffer_of_mem_pending {writer : Writer} {extent : Extent}
    (h : extent ∈ writer.pending) : extent = writer.buffer := by
  rw [pending] at h
  split at h
  · cases h
  · exact List.mem_singleton.1 h

/-- Behind full extents, the extent that is still to come need not be full. -/
theorem packed_append_pending {limit : Nat} {extents : List Extent} {writer : Writer}
    (hlimit : 0 < limit) (h : ∀ extent ∈ extents, extent.length = limit)
    (hroom : writer.buffer.length ≤ limit) : Packed limit (extents ++ writer.pending) := by
  have hpacked := Packed.of_full hlimit h
  rw [pending]
  split
  · rwa [List.append_nil]
  · next hnonempty =>
      refine ⟨?_, List.forall_mem_append.2 ⟨hpacked.nonempty, ?_⟩,
        List.forall_mem_append.2 ⟨hpacked.bounded, ?_⟩⟩
      · rwa [List.dropLast_concat]
      · exact List.forall_mem_singleton.2 fun hnil => hnonempty (List.isEmpty_iff.2 hnil)
      · exact List.forall_mem_singleton.2 hroom

/-- The records that a writer holds are appended, or their extent cannot be written. -/
theorem flush_cases {s : Writer × Disk} (hlength : s.1.buffer.length ≤ s.1.dataset.limit) :
    (∃ t, flush.run s = (.ok (), t) ∧ t.1.buffer = [] ∧ t.1.accepted = s.1.accepted ∧
      Dataset.Appended s.1.pending (s.1.dataset, s.2) (t.1.dataset, t.2)) ∨
    (¬Dataset.Writable (s.1.dataset, s.2) ∧ ∃ fault t, flush.run s = (.error fault, t) ∧
      fault.isWriteFailure = true ∧ s.1.buffer ≠ [] ∧
      Dataset.Appended [] (s.1.dataset, s.2) (t.1.dataset, t.2)) := by
  by_cases hempty : s.1.buffer.isEmpty = true
  · rw [pending, if_pos hempty]
    exact Or.inl ⟨s, run_flush_of_isEmpty hempty, List.isEmpty_iff.1 hempty, rfl, .refl _⟩
  · rw [pending, if_neg hempty, run_flush_of_not_isEmpty hempty]
    rcases Dataset.push_cases s.1.buffer (s.1.dataset, s.2) with
      ⟨-, t, hpush, happended⟩ | ⟨hlong, -⟩ | ⟨-, hnot, fault, t, hpush, hfault, -, happended⟩
    · rw [hpush]
      exact Or.inl ⟨_, rfl, rfl, rfl, happended⟩
    · exact absurd hlength (Nat.not_le.2 hlong)
    · rw [hpush]
      exact Or.inr ⟨hnot, fault, _, rfl, hfault, fun hnil => hempty (List.isEmpty_iff.2 hnil),
        happended⟩

theorem exists_flush {s : Writer × Disk} (hs : Dataset.Writable (s.1.dataset, s.2))
    (hlength : s.1.buffer.length ≤ s.1.dataset.limit) :
    ∃ t, flush.run s = (.ok (), t) ∧ t.1.buffer = [] ∧ t.1.accepted = s.1.accepted ∧
      Dataset.Appended s.1.pending (s.1.dataset, s.2) (t.1.dataset, t.2) :=
  (flush_cases hlength).resolve_right fun hfailed => hfailed.1 hs

/-- A writer that has taken a record, before it may have to flush. -/
def keep (writer : Writer) (record : Record) : Writer :=
  { writer with buffer := writer.buffer ++ [record], accepted := writer.accepted + 1 }

theorem run_insert {record : Record} {writer : Writer} {disk : Disk}
    (harity : record.length = writer.dataset.schema.length) :
    (insert record).run (writer, disk) =
      if writer.dataset.limit ≤ writer.buffer.length + 1 then
        flush.run (writer.keep record, disk)
      else (.ok (), (writer.keep record, disk)) := by
  simp only [insert, Step.run_bind, Step.run_get, harity, if_true, Step.run_modify,
    List.length_append, List.length_singleton]
  split <;> rfl

/-- A record that does not fit changes nothing. -/
theorem run_insert_of_ne {record : Record} {s : Writer × Disk}
    (h : record.length ≠ s.1.dataset.schema.length) :
    (insert record).run s =
      (.error (.datasetArity record.length s.1.dataset.schema.length), s) := by
  simp only [insert, Step.run_bind, Step.run_get, h, if_false, Step.run_fail]

section Filling

variable {record : Record} {records : List Record} {s t u : Writer × Disk}

/-- What taking records makes of a writer and the disk: the records that the writer does not
hold any more fill extents, which are appended. -/
structure Filled (records : List Record) (before after : Writer × Disk) : Prop where
  appended : ∃ extents,
    Dataset.Appended extents (before.1.dataset, before.2) (after.1.dataset, after.2) ∧
    before.1.buffer ++ records = extents.flatten ++ after.1.buffer ∧
    ∀ extent ∈ extents, extent.length = before.1.dataset.limit
  accepted : after.1.accepted = before.1.accepted + records.length
  room : after.1.buffer.length < after.1.dataset.limit

theorem Filled.trans {more : List Record} (h : Filled records s t) (h' : Filled more t u) :
    Filled (records ++ more) s u where
  appended := by
    obtain ⟨extents, happended, hbuffer, hfull⟩ := h.appended
    obtain ⟨extents', happended', hbuffer', hfull'⟩ := h'.appended
    have hlimit : t.1.dataset.limit = s.1.dataset.limit := happended.limit
    refine ⟨extents ++ extents', happended.trans happended', ?_, ?_⟩
    · rw [← List.append_assoc, hbuffer, List.append_assoc, hbuffer', List.flatten_append,
        List.append_assoc]
    · exact List.forall_mem_append.2 ⟨hfull, hlimit ▸ hfull'⟩
  accepted := by rw [h'.accepted, h.accepted, List.length_append, Nat.add_assoc]
  room := h'.room

/-- What becomes of a writer that stops: of the records that it held or was to take, it has
appended those which do not come too late. -/
structure Stopped (records : List Record) (fault : Fault) (before after : Writer × Disk) :
    Prop where
  appended : ∃ extents,
    Dataset.Appended extents (before.1.dataset, before.2) (after.1.dataset, after.2) ∧
    CutShort before.1.dataset.limit before.1.dataset.schema.length (before.1.buffer ++ records)
      fault extents.flatten
  stormy : fault.isWriteFailure = true → ¬Dataset.Writable (before.1.dataset, before.2)

theorem Stopped.append {fault : Fault} (h : Stopped records fault s t) (more : List Record) :
    Stopped (records ++ more) fault s t where
  appended := by
    obtain ⟨extents, happended, hcut⟩ := h.appended
    exact ⟨extents, happended, List.append_assoc .. ▸ hcut.append more⟩
  stormy := h.stormy

/-- A writer that has taken records, all of which fit, stops later. -/
theorem Filled.stopped {more : List Record} {fault : Fault} (h : Filled records s t)
    (hfits : ∀ record ∈ s.1.buffer ++ records, record.length = s.1.dataset.schema.length)
    (h' : Stopped more fault t u) : Stopped (records ++ more) fault s u := by
  obtain ⟨extents, happended, hbuffer, hfull⟩ := h.appended
  obtain ⟨extents', happended', hcut⟩ := h'.appended
  have hlimit : t.1.dataset.limit = s.1.dataset.limit := happended.limit
  have hschema : t.1.dataset.schema = s.1.dataset.schema := happended.schema
  rw [hbuffer] at hfits
  refine ⟨⟨extents ++ extents', happended.trans happended', ?_⟩,
    fun hfault hs => h'.stormy hfault (happended.writable hs)⟩
  rw [← List.append_assoc, hbuffer, List.append_assoc, List.flatten_append]
  rw [hlimit, hschema] at hcut
  exact hcut.behind s.1.dataset.limit_pos hfull (List.forall_mem_append.1 hfits).1

/-- A record that fits is kept until there are enough for an extent, unless the extent cannot be
written. -/
theorem insert_cases (harity : record.length = s.1.dataset.schema.length)
    (hroom : s.1.buffer.length < s.1.dataset.limit) :
    (∃ t, (insert record).run s = (.ok (), t) ∧ Filled [record] s t) ∨
    (¬Dataset.Writable (s.1.dataset, s.2) ∧ s.1.buffer.length + 1 = s.1.dataset.limit ∧
      ∃ fault t, (insert record).run s = (.error fault, t) ∧ fault.isWriteFailure = true ∧
        Dataset.Appended [] (s.1.dataset, s.2) (t.1.dataset, t.2)) := by
  obtain ⟨writer, disk⟩ := s
  have hlength : (writer.keep record).buffer.length = writer.buffer.length + 1 := by
    rw [keep, List.length_append, List.length_singleton]
  rw [run_insert harity]
  split
  · next henough =>
      have hfull : writer.buffer.length + 1 = writer.dataset.limit :=
        Nat.le_antisymm hroom henough
      rcases flush_cases (s := (writer.keep record, disk)) (hlength.trans hfull).le with
        ⟨t, hflush, hdrained, haccepted, happended⟩ |
          ⟨hnot, fault, t, hflush, hfault, -, happended⟩
      · refine Or.inl ⟨t, hflush, ⟨_, happended, ?_, fun extent hextent => ?_⟩, haccepted, ?_⟩
        · rw [flatten_pending, hdrained, List.append_nil]
          rfl
        · rw [eq_buffer_of_mem_pending hextent, hlength, hfull]
        · rw [hdrained]
          exact t.1.dataset.limit_pos
      · exact Or.inr ⟨hnot, hfull, fault, t, hflush, hfault, happended⟩
  · next hfew =>
      refine Or.inl ⟨_, rfl, ⟨[], .refl _, rfl, List.forall_mem_nil _⟩, rfl, ?_⟩
      rw [hlength]
      exact Nat.not_le.1 hfew

theorem exists_insert (hs : Dataset.Writable (s.1.dataset, s.2))
    (harity : record.length = s.1.dataset.schema.length)
    (hroom : s.1.buffer.length < s.1.dataset.limit) :
    ∃ t, (insert record).run s = (.ok (), t) ∧ Filled [record] s t :=
  (insert_cases harity hroom).resolve_right fun hfailed => hfailed.1 hs

/-- A writer that cannot take a record stops there. -/
theorem insert_stops (record : Record)
    (hbuffer : ∀ held ∈ s.1.buffer, held.length = s.1.dataset.schema.length)
    (hroom : s.1.buffer.length < s.1.dataset.limit) :
    (record.length = s.1.dataset.schema.length ∧
      ∃ t, (insert record).run s = (.ok (), t) ∧ Filled [record] s t) ∨
    ∃ fault t, (insert record).run s = (.error fault, t) ∧ Stopped [record] fault s t := by
  by_cases harity : record.length = s.1.dataset.schema.length
  · rcases insert_cases harity hroom with
      htaken | ⟨hnot, hfull, fault, t, hrun, hfault, happended⟩
    · exact Or.inl ⟨harity, htaken⟩
    · refine Or.inr ⟨fault, t, hrun, ⟨[], happended, ?_⟩, fun _ => hnot⟩
      have hfits : ∀ held ∈ s.1.buffer ++ [record], held.length = s.1.dataset.schema.length :=
        List.forall_mem_append.2 ⟨hbuffer, List.forall_mem_singleton.2 harity⟩
      have hlength : (s.1.buffer ++ [record]).length = s.1.dataset.limit := by
        rw [List.length_append, List.length_singleton, hfull]
      have hrecords : s.1.buffer ++ [record] = [] ++ (s.1.buffer ++ [record] ++ []) :=
        (List.append_nil _).symm
      exact .unwritten hrecords hfits (dvd_zero _)
        (List.append_ne_nil_of_right_ne_nil _ (List.cons_ne_nil _ _)) hlength.le hfault
  · refine Or.inr ⟨_, _, run_insert_of_ne harity, ⟨[], .refl _, ?_⟩, nofun⟩
    rw [List.flatten_nil, ← wholeExtents_of_lt hroom]
    exact .misfit rfl hbuffer harity

/-- Records are taken and fill extents, or the writer stops. -/
theorem insertAll_cases (records : List Record) (s : Writer × Disk)
    (hbuffer : ∀ held ∈ s.1.buffer, held.length = s.1.dataset.schema.length)
    (hroom : s.1.buffer.length < s.1.dataset.limit) :
    ((∀ record ∈ records, record.length = s.1.dataset.schema.length) ∧
      ∃ t, (insertAll records).run s = (.ok (), t) ∧ Filled records s t) ∨
    ∃ fault t, (insertAll records).run s = (.error fault, t) ∧ Stopped records fault s t := by
  induction records generalizing s with
  | nil =>
      exact Or.inl ⟨List.forall_mem_nil _, s, rfl,
        ⟨[], .refl _, List.append_nil _, List.forall_mem_nil _⟩, rfl, hroom⟩
  | cons record records ih =>
      simp only [insertAll, Step.forEach, Step.run_bind] at ih ⊢
      rcases insert_stops record hbuffer hroom with
        ⟨harity, t, hinsert, hfirst⟩ | ⟨fault, t, hinsert, hstopped⟩
      · obtain ⟨extents, happended, hheld, -⟩ := hfirst.appended
        have hschema : t.1.dataset.schema = s.1.dataset.schema := happended.schema
        have hfits : ∀ held ∈ s.1.buffer ++ [record],
            held.length = s.1.dataset.schema.length :=
          List.forall_mem_append.2 ⟨hbuffer, List.forall_mem_singleton.2 harity⟩
        have hbuffer' : ∀ held ∈ t.1.buffer, held.length = t.1.dataset.schema.length := by
          rw [hschema]
          exact (List.forall_mem_append.1 (hheld ▸ hfits)).2
        rw [hinsert]
        rcases ih t hbuffer' hfirst.room with
          ⟨hrest, u, hrun, hlast⟩ | ⟨fault, u, hrun, hstopped⟩
        · exact Or.inl ⟨List.forall_mem_cons.2 ⟨harity, hschema ▸ hrest⟩, u, hrun,
            hfirst.trans hlast⟩
        · exact Or.inr ⟨fault, u, hrun, hfirst.stopped hfits hstopped⟩
      · rw [hinsert]
        exact Or.inr ⟨fault, t, rfl, hstopped.append records⟩

end Filling

end Writer

namespace Dataset

/-- What was appended to a dataset without extents is what can be read of it. -/
theorem Appended.extents_eq {extents : List Extent} {s t : Dataset × Disk}
    (h : Appended extents s t) (hs : s.1.slots = []) : t.1.extents t.2 = .ok extents := by
  obtain ⟨slots, sortedBy, hdataset, hloads, -⟩ := h.dataset
  have hslots : t.1.slots = slots := by rw [hdataset, hs, List.nil_append]
  exact extents_eq_ok.2 (hslots ▸ hloads)

theorem Appended.records_eq {extents : List Extent} {s t : Dataset × Disk}
    (h : Appended extents s t) (hs : s.1.slots = []) :
    t.1.records t.2 = .ok extents.flatten :=
  records_eq_ok (h.extents_eq hs)

/-- What appending records leaves of a dataset is what the writer leaves of it. -/
theorem run_append {records : List Record} {s : Dataset × Disk} {result : Attempt Nat}
    {t : Writer × Disk}
    (h : (do Writer.insertAll records; Writer.close).run (Writer.start s.1, s.2) = (result, t)) :
    (append records).run s = (result, (t.1.dataset, t.2)) := by
  simp only [Step.run] at h
  simp only [Step.run, append, writing, h]

/-- Records are appended through a writer: they fill extents, and the rest makes one more.  If the
writer stops, what is appended is cut short. -/
theorem append_cases (records : List Record) (s : Dataset × Disk) :
    (∃ t extents, (append records).run s = (.ok records.length, t) ∧ Appended extents s t ∧
      extents.flatten = records ∧ Packed s.1.limit extents) ∨
    ∃ fault t extents, (append records).run s = (.error fault, t) ∧ Appended extents s t ∧
      CutShort s.1.limit s.1.schema.length records fault extents.flatten ∧
      (fault.isWriteFailure = true → ¬Writable s) := by
  rcases Writer.insertAll_cases records (Writer.start s.1, s.2) (List.forall_mem_nil _)
    s.1.limit_pos with
    ⟨hfits, t, hinsert, hfilled⟩ | ⟨fault, t, hinsert, hstopped⟩
  · obtain ⟨extents, happended, hbuffer, hfull⟩ := hfilled.appended
    have hlimit : t.1.dataset.limit = s.1.limit := happended.limit
    have hheld : records = extents.flatten ++ t.1.buffer := hbuffer
    rcases Writer.flush_cases hfilled.room.le with
      ⟨u, hflush, -, haccepted, hrest⟩ | ⟨hnot, fault, u, hflush, hfault, hnonempty, hrest⟩
    · have hcount : u.1.accepted = records.length := by
        rw [haccepted, hfilled.accepted]
        exact Nat.zero_add _
      refine Or.inl ⟨(u.1.dataset, u.2), extents ++ t.1.pending, run_append ?_,
        happended.trans hrest, ?_,
        Writer.packed_append_pending s.1.limit_pos hfull (hlimit ▸ hfilled.room.le)⟩
      · simp only [Writer.close, Step.run_bind, hinsert, hflush, Step.run_get, Step.run_pure,
          hcount]
      · rw [List.flatten_append, Writer.flatten_pending, ← hheld]
    · refine Or.inr ⟨fault, (u.1.dataset, u.2), extents ++ [], run_append ?_,
        happended.trans hrest, ?_, fun _ hs => hnot (happended.writable hs)⟩
      · simp only [Writer.close, Step.run_bind, hinsert, hflush]
      · have hwhole : s.1.limit ∣ extents.flatten.length := by
          rw [length_flatten_of_full hfull]
          exact Nat.dvd_mul_left _ _
        have hrecords : records = extents.flatten ++ (t.1.buffer ++ []) := by
          rw [List.append_nil, ← hheld]
        rw [List.append_nil]
        exact .unwritten hrecords (hheld ▸ hfits) hwhole hnonempty
          (hlimit ▸ hfilled.room.le) hfault
  · obtain ⟨extents, happended, hcut⟩ := hstopped.appended
    refine Or.inr ⟨fault, (t.1.dataset, t.2), extents, run_append ?_, happended, hcut,
      hstopped.stormy⟩
    simp only [Step.run_bind, hinsert]

/-- Records of the right arity are appended through a writer: they fill extents, and the rest makes
one more. -/
theorem exists_append {records : List Record} {s : Dataset × Disk} (hs : Writable s)
    (harity : ∀ record ∈ records, record.length = s.1.schema.length) :
    ∃ t extents, (append records).run s = (.ok records.length, t) ∧ Appended extents s t ∧
      extents.flatten = records ∧ Packed s.1.limit extents :=
  (append_cases records s).resolve_right fun ⟨_, _, _, _, _, hcut, hstormy⟩ =>
    hstormy (hcut.isWriteFailure harity) hs

end Dataset
end ExtentEngine
