import ExtentEngine.Partition.Requests
import ExtentEngine.Proofs.Partition.Coverage

/-!
# What requests hand out

In whatever order the partitions of a dataset are asked, a portion of the dataset is either still
to be handed out or has been handed out, once.  Each partition goes through its own pieces in
order, no matter what the others are asked.

**Results.**
* `portions_handouts`: what was handed out and what is pending are together what was pending.
* `exists_served`: a partition hands out its pieces from the first one on.
* `length_of_new`, `size_le_of_new`: how many partitions there are, and that they are of nearly
  the same size.
* `serves_exactly`: no portion is handed out twice, whether one is left can be told beforehand,
  and partitions with nothing left have handed out the records of the dataset.
-/

namespace ExtentEngine

namespace Partition

variable {disk : Disk} {partition : Partition} {piece : Piece} {rest : List Piece}

theorem requestNext_of_nil (h : partition.pending = []) :
    (requestNext disk).run partition = (.ok none, partition) := by
  rw [Step.run, requestNext, h]

theorem requestNext_of_error {fault : Fault} (h : partition.pending = piece :: rest)
    (hload : partition.load disk piece = .error fault) :
    (requestNext disk).run partition = (.error fault, partition) := by
  rw [Step.run, requestNext, h]
  simp only [hload]

theorem requestNext_of_ok {records : Extent} (h : partition.pending = piece :: rest)
    (hload : partition.load disk piece = .ok records) :
    (requestNext disk).run partition =
      (.ok (some records), { partition with pending := rest }) := by
  rw [Step.run, requestNext, h]
  simp only [hload]

end Partition

namespace Partitioner

variable {disk : Disk} {dataset : Dataset} {partitioner : Partitioner} {partition : Partition}
  {id n : Nat}

section Requests

theorem get_of_getElem? (h : partitioner.partitions[id]? = some partition) :
    partitioner.get id = .ok partition := by
  rw [get, h]

theorem run_requestNext (h : partitioner.partitions[id]? = some partition) :
    (requestNext disk id).run partitioner =
      (((Partition.requestNext disk).run partition).1, { partitioner with
        partitions :=
          partitioner.partitions.set id ((Partition.requestNext disk).run partition).2 }) := by
  rw [Step.run, requestNext, onPartition, get_of_getElem? h]

theorem run_requestNext_of_none (h : partitioner.partitions[id]? = none) :
    (requestNext disk id).run partitioner =
      (.error (.partitionMissing id partitioner.partitions.length), partitioner) := by
  rw [Step.run, requestNext, onPartition, get, h]

/-- A request hands out the first pending piece of a partition, or it changes nothing. -/
theorem serve_cases (disk : Disk) (partitioner : Partitioner) (request : Request) :
    (partitioner.handout? disk request = none ∧ partitioner.serve disk request = partitioner) ∨
    ∃ id partition piece rest records, request = .next id ∧
      partitioner.partitions[id]? = some partition ∧ partition.pending = piece :: rest ∧
      partition.load disk piece = .ok records ∧
      partitioner.handout? disk request = some ⟨id, piece, records⟩ ∧
      partitioner.serve disk request = { partitioner with
        partitions := partitioner.partitions.set id { partition with pending := rest } } := by
  cases request with
  | canRequest id => exact Or.inl ⟨rfl, rfl⟩
  | next id =>
      cases hpartition : partitioner.partitions[id]? with
      | none =>
          rw [handout?, serve, run_requestNext_of_none hpartition, get, hpartition]
          exact Or.inl ⟨rfl, rfl⟩
      | some partition =>
          obtain ⟨hid, hget⟩ := List.getElem?_eq_some_iff.1 hpartition
          have hsame : { partitioner with partitions := partitioner.partitions.set id partition } =
              partitioner := by
            rw [← hget, List.set_getElem_self]
          rw [handout?, serve, run_requestNext hpartition, get_of_getElem? hpartition]
          cases hpending : partition.pending with
          | nil =>
              rw [Partition.requestNext_of_nil hpending]
              exact Or.inl ⟨rfl, hsame⟩
          | cons piece rest =>
              cases hload : partition.load disk piece with
              | error fault =>
                  rw [Partition.requestNext_of_error hpending hload]
                  exact Or.inl ⟨rfl, hsame⟩
              | ok records =>
                  rw [Partition.requestNext_of_ok hpending hload]
                  refine Or.inr ⟨id, partition, piece, rest, records, rfl, hpartition, hpending,
                    hload, ?_, rfl⟩
                  simp only [hpending, List.head?_cons, Option.map_some]

/-- Each partition has the number of its place. -/
def Numbered (partitioner : Partitioner) : Prop :=
  ∀ (id : Nat) (partition : Partition),
    partitioner.partitions[id]? = some partition → partition.id = id

/-- The portions that are still to be handed out. -/
def pendingPortions (partitioner : Partitioner) : List Portion :=
  partitioner.partitions.flatMap fun partition => partition.pending.map (Piece.portion partition.id)

theorem Numbered.serve (h : partitioner.Numbered) (disk : Disk) (request : Request) :
    (partitioner.serve disk request).Numbered := by
  rcases serve_cases disk partitioner request with
    ⟨-, hserve⟩ | ⟨id, partition, piece, rest, records, -, hpartition, -, -, -, hserve⟩
  · rw [hserve]
    exact h
  · rw [hserve]
    intro other found hfound
    rw [List.getElem?_set] at hfound
    split at hfound
    · next heq =>
        subst heq
        split at hfound
        · cases hfound
          exact h id partition hpartition
        · cases hfound
    · exact h other found hfound

/-- A portion that is handed out is pending no more. -/
theorem portions_handout (h : partitioner.Numbered) (disk : Disk) (request : Request) :
    ((partitioner.handout? disk request).toList.map Handout.portion ++
      (partitioner.serve disk request).pendingPortions).Perm partitioner.pendingPortions := by
  rcases serve_cases disk partitioner request with
    ⟨hhandout, hserve⟩ | ⟨id, partition, piece, rest, records, -, hpartition, hpending, -, hhandout,
      hserve⟩
  · rw [hhandout, hserve]
    exact .refl _
  · obtain ⟨hid, hget⟩ := List.getElem?_eq_some_iff.1 hpartition
    obtain ⟨before, behind, hsplit, -, hset⟩ : ∃ before behind,
        partitioner.partitions = before ++ partitioner.partitions[id] :: behind ∧
        before.length = id ∧
        partitioner.partitions.set id { partition with pending := rest } =
          before ++ { partition with pending := rest } :: behind :=
      List.exists_of_set hid
    rw [hget] at hsplit
    have hportion : Handout.portion ⟨id, piece, records⟩ = piece.portion partition.id := by
      rw [h id partition hpartition]
      rfl
    rw [hhandout, hserve, pendingPortions, pendingPortions, hset, hsplit, List.flatMap_append,
      List.flatMap_append, List.flatMap_cons, List.flatMap_cons, hpending]
    simp only [Option.toList_some, List.map_cons, List.map_nil, hportion]
    rw [List.singleton_append, List.cons_append]
    exact List.perm_middle.symm

/-- What was handed out and what is pending are together what was pending at first. -/
theorem portions_handouts (disk : Disk) (requests : List Request) :
    ∀ partitioner : Partitioner, partitioner.Numbered →
      ((partitioner.handouts disk requests).map Handout.portion ++
        (partitioner.serveAll disk requests).pendingPortions).Perm partitioner.pendingPortions := by
  induction requests with
  | nil => exact fun partitioner _ => .refl _
  | cons request requests ih =>
      intro partitioner h
      rw [handouts, List.map_append, List.append_assoc]
      exact ((ih _ (h.serve disk request)).append_left _).trans (portions_handout h disk request)

theorem length_serveAll (disk : Disk) (requests : List Request) :
    ∀ partitioner : Partitioner,
      (partitioner.serveAll disk requests).partitions.length = partitioner.partitions.length := by
  induction requests with
  | nil => exact fun _ => rfl
  | cons request requests ih =>
      intro partitioner
      refine (ih _).trans ?_
      rcases serve_cases disk partitioner request with
        ⟨-, hserve⟩ | ⟨id, partition, piece, rest, records, -, -, -, -, -, hserve⟩
      · rw [hserve]
      · rw [hserve, List.length_set]

/-- What a request leaves of a partition, and what it makes of it. -/
theorem exists_served_one (disk : Disk) (h : partitioner.partitions[id]? = some partition)
    (request : Request) :
    ∃ pieces rest chunk,
      (partitioner.serve disk request).partitions[id]? = some { partition with pending := rest } ∧
      partition.pending = pieces ++ rest ∧
      List.Forall₂ (fun piece records => partition.load disk piece = .ok records) pieces chunk ∧
      Handout.recordsOf id (partitioner.handout? disk request).toList = chunk.flatten ∧
      (request ≠ .next id → pieces = []) := by
  rcases serve_cases disk partitioner request with
    ⟨hhandout, hserve⟩ |
      ⟨other, found, piece, rest, records, rfl, hfound, hpending, hload, hhandout, hserve⟩
  · rw [hhandout, hserve]
    exact ⟨[], partition.pending, [], h, rfl, .nil, rfl, fun _ => rfl⟩
  · rw [hhandout, hserve]
    by_cases heq : other = id
    · subst heq
      rw [h] at hfound
      cases hfound
      obtain ⟨hid, -⟩ := List.getElem?_eq_some_iff.1 h
      refine ⟨[piece], rest, [records], List.getElem?_set_self hid, hpending, .cons hload .nil, ?_,
        fun hne => absurd rfl hne⟩
      simp [Handout.recordsOf]
    · refine ⟨[], partition.pending, [], ?_, rfl, .nil, ?_, fun _ => rfl⟩
      · rw [List.getElem?_set_ne heq]
        exact h
      · simp [Handout.recordsOf, heq]

/-- A partition hands out its pieces from the first one on, and only if it is asked itself. -/
theorem exists_served (disk : Disk) (requests : List Request) :
    ∀ {partitioner : Partitioner} {partition : Partition},
      partitioner.partitions[id]? = some partition →
      ∃ pieces rest chunk,
        (partitioner.serveAll disk requests).partitions[id]? =
          some { partition with pending := rest } ∧
        partition.pending = pieces ++ rest ∧
        List.Forall₂ (fun piece records => partition.load disk piece = .ok records) pieces chunk ∧
        Handout.recordsOf id (partitioner.handouts disk requests) = chunk.flatten ∧
        (.next id ∉ requests → pieces = []) := by
  induction requests with
  | nil =>
      intro partitioner partition h
      exact ⟨[], partition.pending, [], h, rfl, .nil, rfl, fun _ => rfl⟩
  | cons request requests ih =>
      intro partitioner partition h
      obtain ⟨first, rest, chunk, hserve, hpending, hloads, hrecords, hnone⟩ :=
        exists_served_one disk h request
      obtain ⟨pieces, last, chunks, hserve', hpending', hloads', hrecords', hnone'⟩ := ih hserve
      refine ⟨first ++ pieces, last, chunk ++ chunks, hserve', ?_,
        List.rel_append hloads hloads', ?_, fun hmem => ?_⟩
      · rw [hpending, List.append_assoc]
        exact congrArg (first ++ ·) hpending'
      · rw [handouts, Handout.recordsOf, List.filter_append, List.flatMap_append,
          List.flatten_append]
        exact congrArg₂ (· ++ ·) hrecords hrecords'
      · rw [List.mem_cons, not_or] at hmem
        rw [hnone fun heq => hmem.1 heq.symm, hnone' hmem.2, List.nil_append]

end Requests

section New

variable {extents : List Extent}

theorem length_itemsIn {α : Type} {items : List α} {first last : Nat} (h : last ≤ items.length) :
    (itemsIn items (first, last)).length = last - first := by
  rw [itemsIn, List.length_take, List.length_drop]
  exact Nat.min_eq_left (Nat.sub_le_sub_right h first)

/-- The number of partitions. -/
theorem length_of_new (h : new disk dataset n = .ok partitioner) :
    partitioner.partitions.length =
      if dataset.extentCount = 1 then n else max 1 (min n dataset.extentCount) := by
  rcases new_cases h with ⟨-, hone, extent, -, hpartitions⟩ | ⟨hmany, rfl⟩
  · rw [if_pos hone, hpartitions, List.length_map, List.length_zipIdx, length_splitRanges]
  · rw [if_neg hmany, byExtents, List.length_map, List.length_zipIdx, length_splitRanges]

/-- The parts of `total` items are of nearly the same size. -/
theorem length_of_mem_splitRanges {total : Nat} {range : Nat × Nat}
    (h : range ∈ splitRanges total n) :
    total / n ≤ range.2 - range.1 ∧ range.2 - range.1 ≤ total / n + 1 := by
  obtain ⟨index, -, rfl⟩ := List.mem_map.1 h
  simp only [splitPoint, Nat.add_mul, Nat.one_mul]
  generalize total / n = base, total % n = larger
  omega

/-- Partitions are of nearly the same size. -/
theorem size_le_of_new (h : new disk dataset n = .ok partitioner) :
    ∀ first ∈ partitioner.partitions, ∀ second ∈ partitioner.partitions,
      first.size ≤ second.size + 1 := by
  have hsize : ∃ least, ∀ partition ∈ partitioner.partitions,
      least ≤ partition.size ∧ partition.size ≤ least + 1 := by
    rcases new_cases h with ⟨hn, -, extent, -, hpartitions⟩ | ⟨-, rfl⟩
    · refine ⟨extent.length / n, ?_⟩
      rw [hpartitions]
      refine List.forall_mem_map.2 ?_
      rintro ⟨⟨first, last⟩, id⟩ hentry
      have hrange := List.fst_mem_of_mem_zipIdx hentry
      rw [Partition.size, length_itemsIn (mem_splitRanges hn hrange).2]
      exact length_of_mem_splitRanges hrange
    · refine ⟨dataset.extentCount / max 1 (min n dataset.extentCount),
        List.forall_mem_map.2 fun entry hentry => ?_⟩
      rw [Partition.size, List.length_map, List.length_range']
      exact length_of_mem_splitRanges (List.fst_mem_of_mem_zipIdx hentry)
  obtain ⟨least, hleast⟩ := hsize
  intro first hfirst second hsecond
  have hle := hleast first hfirst
  have hge := hleast second hsecond
  omega

theorem numbered_of_new (h : new disk dataset n = .ok partitioner) : partitioner.Numbered := by
  intro id partition hpartition
  have hids := congrArg (·[id]?) (ids_of_new h)
  simp only [List.getElem?_map, hpartition, Option.map_some] at hids
  obtain ⟨hid, -⟩ := List.getElem?_eq_some_iff.1 hpartition
  rw [List.getElem?_range hid] at hids
  exact Option.some.inj hids

theorem itemsIn_range {total first last : Nat} (h : last ≤ total) :
    itemsIn (List.range total) (first, last) = List.range' first (last - first) := by
  refine List.ext_getElem ?_ fun i _ _ => ?_
  · rw [length_itemsIn (h.trans_eq List.length_range.symm), List.length_range']
  · simp only [itemsIn, List.getElem_take, List.getElem_drop, List.getElem_range,
      List.getElem_range', Nat.one_mul]

/-- The pieces of a new partitioner are different portions of the dataset. -/
theorem nodup_pendingPortions (h : new disk dataset n = .ok partitioner) :
    partitioner.pendingPortions.Nodup := by
  rcases new_cases h with ⟨-, -, extent, -, hpartitions⟩ | ⟨-, rfl⟩
  · have hportions : partitioner.pendingPortions =
        (partitioner.partitions.map Partition.id).map Portion.slice := by
      rw [pendingPortions, hpartitions, List.flatMap_map, List.map_map, List.map_map,
        List.map_eq_flatMap]
      rfl
    rw [hportions, ids_of_new h]
    exact List.nodup_range.map fun _ _ => Portion.slice.inj
  · have hn : 0 < max 1 (min n dataset.extentCount) :=
      Nat.lt_of_lt_of_le Nat.one_pos (Nat.le_max_left _ _)
    have hcover := flatten_splitRanges (List.range dataset.extentCount) hn
    rw [List.length_range] at hcover
    have hportions : (byExtents dataset (max 1 (min n dataset.extentCount))).pendingPortions =
        (List.range dataset.extentCount).map Portion.extent := by
      conv_rhs => rw [← hcover, List.map_flatten, List.map_map, ← map_fst_zipIdx]
      rw [pendingPortions, byExtents, List.flatMap_map, List.flatMap_def]
      refine congrArg List.flatten (List.map_congr_left ?_)
      rintro ⟨⟨first, last⟩, id⟩ hentry
      have hrange := mem_splitRanges hn (List.fst_mem_of_mem_zipIdx hentry)
      simp only [Function.comp_apply, itemsIn_range hrange.2, List.map_map]
      rfl
    rw [hportions]
    exact List.nodup_range.map fun _ _ => Portion.extent.inj

theorem getElem?_extentLengths {index : Nat} {extent : Extent}
    (h : dataset.extent disk index = .ok extent) :
    dataset.extentLengths[index]? = some extent.length := by
  obtain ⟨slot, hslot, hload⟩ := Attempt.bind_eq_ok.1 h
  rw [Dataset.slot] at hslot
  split at hslot
  · next found hfound =>
      cases hslot
      rw [Dataset.extentLengths, List.getElem?_map, hfound, Option.map_some,
        Slot.length_of_load hload]
  · cases hslot

/-- As many records are assigned to a partition as its pieces have. -/
theorem elements_of_new (h : new disk dataset n = .ok partitioner)
    (hpartition : partition ∈ partitioner.partitions) {chunk : List Extent}
    (hchunk : List.Forall₂ (fun piece records => partition.load disk piece = .ok records)
      partition.pending chunk) : partition.elements = chunk.flatten.length := by
  rcases new_cases h with ⟨-, -, extent, -, hpartitions⟩ | ⟨-, rfl⟩
  · rw [hpartitions] at hpartition
    obtain ⟨entry, -, rfl⟩ := List.mem_map.1 hpartition
    cases hchunk with
    | cons hrecords hnone =>
        cases hrecords
        cases hnone
        rw [List.flatten_singleton]
  · obtain ⟨⟨⟨first, last⟩, id⟩, hentry, rfl⟩ := List.mem_map.1 hpartition
    have hn : 0 < max 1 (min n dataset.extentCount) :=
      Nat.lt_of_lt_of_le Nat.one_pos (Nat.le_max_left _ _)
    have hrange := mem_splitRanges hn (List.fst_mem_of_mem_zipIdx hentry)
    have hlengths : itemsIn dataset.extentLengths (first, last) = chunk.map List.length := by
      have hcount := hchunk.length_eq
      rw [List.length_map, List.length_range'] at hcount
      have hlast : last ≤ dataset.extentLengths.length := by
        rw [Dataset.extentLengths, List.length_map]
        exact hrange.2
      refine List.ext_getElem ?_ fun i hi hi' => ?_
      · rw [length_itemsIn hlast, List.length_map, hcount]
      · rw [List.length_map] at hi'
        have hi'' : i < ((List.range' first (last - first)).map Piece.whole).length := by
          rw [List.length_map, List.length_range', hcount]
          exact hi'
        have hload := hchunk.get hi'' hi'
        simp only [List.get_eq_getElem, List.getElem_map, List.getElem_range', Nat.one_mul] at hload
        have hlength := getElem?_extentLengths hload
        simp only [itemsIn, List.getElem_take, List.getElem_drop, List.getElem_map]
        exact List.getElem_of_getElem? hlength |>.2
    rw [List.length_flatten, ← hlengths]
    rfl

end New

section Serve

/-- What holds of a partitioner that has been asked by some requests. -/
structure ServesExactly (disk : Disk) (dataset : Dataset) (partitioner : Partitioner)
    (requests : List Request) : Prop where
  /-- No portion is handed out twice. -/
  once : ((partitioner.handouts disk requests).map Handout.portion).Nodup
  /-- A partition tells whether it will hand something out when it is asked next, whatever the
  others are asked before. -/
  foreseen : (∃ records, dataset.records disk = .ok records) →
    ∀ (id : Nat) (between : List Request), .next id ∉ between →
      ((partitioner.serveAll disk requests).canRequest id = .ok true ↔
        ∃ extent, ((requestNext disk id).run
          (partitioner.serveAll disk (requests ++ between))).1 = .ok (some extent))
  /-- Partitions with nothing left have handed out the records of the dataset, in order. -/
  complete : (∀ id < partitioner.partitions.length,
      (partitioner.serveAll disk requests).canRequest id = .ok false) →
    dataset.records disk = .ok ((List.range partitioner.partitions.length).flatMap fun id =>
        Handout.recordsOf id (partitioner.handouts disk requests)) ∧
      ∀ id < partitioner.partitions.length, partitioner.elements id =
        .ok (Handout.recordsOf id (partitioner.handouts disk requests)).length

theorem canRequest_of_getElem? (h : partitioner.partitions[id]? = some partition) :
    partitioner.canRequest id = .ok partition.canRequest := by
  rw [canRequest, get_of_getElem? h]
  rfl

theorem serveAll_append (disk : Disk) (partitioner : Partitioner)
    (requests between : List Request) :
    partitioner.serveAll disk (requests ++ between) =
      (partitioner.serveAll disk requests).serveAll disk between :=
  List.foldl_append

/-- The pieces of a new partitioner can be loaded if the dataset can be read. -/
theorem exists_chunks (hn : 0 < n) {extents : List Extent}
    (hextents : dataset.extents disk = .ok extents) (h : new disk dataset n = .ok partitioner) :
    ∃ chunks, List.Forall₂ (fun partition chunk =>
        List.Forall₂ (fun piece records => partition.load disk piece = .ok records)
          partition.pending chunk) partitioner.partitions chunks ∧
      chunks.flatten.flatten = extents.flatten := by
  obtain ⟨partitioner', chunks, hnew, hcovers, hflatten⟩ := exists_new hextents hn
  rw [h] at hnew
  cases hnew
  refine ⟨chunks, hcovers.imp fun partition chunk hcover => ?_, hflatten⟩
  refine hcover.pending.imp fun piece records hpiece => hpiece.load ?_
  rw [hcover.dataset]
  exact hextents

/-- Whether something will be handed out can be told if the dataset can be read. -/
theorem foreseen_of_new (hn : 0 < n) {records : List Record}
    (hrecords : dataset.records disk = .ok records) (h : new disk dataset n = .ok partitioner)
    (requests : List Request) {between : List Request} (hbetween : .next id ∉ between) :
    (partitioner.serveAll disk requests).canRequest id = .ok true ↔
      ∃ extent, ((requestNext disk id).run
        (partitioner.serveAll disk (requests ++ between))).1 = .ok (some extent) := by
  rw [serveAll_append]
  cases hpartition : partitioner.partitions[id]? with
  | none =>
      have hnone : ∀ requests, (partitioner.serveAll disk requests).partitions[id]? = none := by
        intro requests
        rw [List.getElem?_eq_none_iff, length_serveAll]
        exact List.getElem?_eq_none_iff.1 hpartition
      rw [← serveAll_append, run_requestNext_of_none (hnone _), canRequest, get, hnone]
      exact ⟨nofun, nofun⟩
  | some partition =>
      obtain ⟨done, rest, chunk, hserved, hpending, -⟩ :=
        exists_served disk requests hpartition
      obtain ⟨pieces, last, -, hserved', hpending', -, -, hnone⟩ :=
        exists_served disk between hserved
      rw [hnone hbetween, List.nil_append] at hpending'
      obtain rfl : rest = last := hpending'
      rw [canRequest_of_getElem? hserved, run_requestNext hserved']
      cases rest with
      | nil =>
          rw [Partition.requestNext_of_nil rfl]
          exact ⟨nofun, nofun⟩
      | cons piece rest =>
          have hmem : piece ∈ partition.pending := by
            rw [hpending]
            exact List.mem_append_right _ List.mem_cons_self
          obtain ⟨extents, hextents, -⟩ := Dataset.exists_extents_of_records hrecords
          obtain ⟨chunks, hchunks, -⟩ := exists_chunks hn hextents h
          obtain ⟨_, -, hloads⟩ := exists_of_mem_left hchunks (List.mem_of_getElem? hpartition)
          obtain ⟨extent, -, hload⟩ := exists_of_mem_left hloads hmem
          have hnext : (Partition.requestNext disk).run
                { partition with pending := piece :: rest } =
              (.ok (some extent), { partition with pending := rest }) :=
            Partition.requestNext_of_ok rfl hload
          exact ⟨fun _ => ⟨extent, congrArg Prod.fst hnext⟩, fun _ => rfl⟩

/-- Partitions with nothing left have handed out the records of the dataset. -/
theorem complete_of_new (hn : 0 < n) (h : new disk dataset n = .ok partitioner)
    {requests : List Request} (hdrained : ∀ id < partitioner.partitions.length,
      (partitioner.serveAll disk requests).canRequest id = .ok false) :
    dataset.records disk = .ok ((List.range partitioner.partitions.length).flatMap fun id =>
        Handout.recordsOf id (partitioner.handouts disk requests)) ∧
      ∀ id < partitioner.partitions.length, partitioner.elements id =
        .ok (Handout.recordsOf id (partitioner.handouts disk requests)).length := by
  have hhanded : ∀ (id : Nat) (partition : Partition),
      partitioner.partitions[id]? = some partition → ∃ chunk,
        List.Forall₂ (fun piece records => partition.load disk piece = .ok records)
          partition.pending chunk ∧
        Handout.recordsOf id (partitioner.handouts disk requests) = chunk.flatten := by
    intro id partition hpartition
    obtain ⟨hid, -⟩ := List.getElem?_eq_some_iff.1 hpartition
    obtain ⟨pieces, rest, chunk, hserved, hpending, hloads, hrecords, -⟩ :=
      exists_served disk requests hpartition
    have hempty := hdrained id hid
    rw [canRequest_of_getElem? hserved, Partition.canRequest] at hempty
    cases rest with
    | nil =>
        rw [List.append_nil] at hpending
        exact ⟨chunk, hpending ▸ hloads, hrecords⟩
    | cons piece rest => cases hempty
  obtain ⟨extents, hextents⟩ := exists_extents h fun partition hpartition piece hpiece => by
    obtain ⟨id, hid⟩ := List.mem_iff_getElem?.1 hpartition
    obtain ⟨chunk, hloads, -⟩ := hhanded id partition hid
    obtain ⟨records, -, hload⟩ := exists_of_mem_left hloads hpiece
    exact ⟨records, hload⟩
  obtain ⟨chunks, hchunks, hflatten⟩ := exists_chunks hn hextents h
  refine ⟨?_, fun id hid => ?_⟩
  · have heach : (List.range partitioner.partitions.length).map (fun id =>
        Handout.recordsOf id (partitioner.handouts disk requests)) = chunks.map List.flatten := by
      refine List.ext_getElem ?_ fun id hid hid' => ?_
      · rw [List.length_map, List.length_map, List.length_range, hchunks.length_eq]
      · rw [List.length_map, List.length_range] at hid
        rw [List.length_map] at hid'
        obtain ⟨chunk, hloads, hrecords⟩ := hhanded id _ (List.getElem?_eq_getElem hid)
        have hsame := (Attempt.mapM_eq_ok.2 hloads).symm.trans
          (Attempt.mapM_eq_ok.2 (hchunks.get hid hid'))
        cases hsame
        simp only [List.getElem_map, List.getElem_range]
        exact hrecords
    rw [Dataset.records_eq_ok hextents, ← hflatten, List.flatMap_def, heach, List.flatten_flatten]
  · obtain ⟨chunk, hloads, hrecords⟩ := hhanded id _ (List.getElem?_eq_getElem hid)
    rw [elements, get_of_getElem? (List.getElem?_eq_getElem hid), hrecords,
      ← elements_of_new h (List.getElem_mem hid) hloads]
    rfl

/-- A dataset that can be read is split into as many partitions as asked for, or as it has
extents, all of nearly the same size.  No portion is handed out twice, whether one is left can be
told beforehand, and partitions with nothing left have handed out the records of the dataset. -/
theorem serves_exactly (disk : Disk) (dataset : Dataset) (hn : 0 < n) :
    ((∃ records, dataset.records disk = .ok records) →
      ∃ partitioner, new disk dataset n = .ok partitioner) ∧
    ∀ partitioner, new disk dataset n = .ok partitioner →
      partitioner.partitions.length =
        (if dataset.extentCount = 1 then n else max 1 (min n dataset.extentCount)) ∧
      (∀ first ∈ partitioner.partitions, ∀ second ∈ partitioner.partitions,
        first.size ≤ second.size + 1) ∧
      ∀ requests, ServesExactly disk dataset partitioner requests := by
  refine ⟨?_, fun partitioner h => ⟨length_of_new h, size_le_of_new h, fun requests => ?_⟩⟩
  · rintro ⟨records, hrecords⟩
    obtain ⟨extents, hextents, -⟩ := Dataset.exists_extents_of_records hrecords
    obtain ⟨partitioner, -, hnew, -⟩ := exists_new hextents hn
    exact ⟨partitioner, hnew⟩
  · refine ⟨?_, ?_, complete_of_new hn h⟩
    · have hportions := portions_handouts disk requests partitioner (numbered_of_new h)
      exact (hportions.nodup_iff.2 (nodup_pendingPortions h)).of_append_left
    · rintro ⟨records, hrecords⟩ id between hbetween
      exact foreseen_of_new hn hrecords h requests hbetween

/-- Three records in two extents, with an empty one between them. -/
def threeExtents : Dataset :=
  ⟨[⟨"n", .int64, true⟩], 2, Nat.two_pos,
    [.memory [[.int 1], [.int 2]], .memory [], .memory [[.int 3]]], none, none⟩

/-- Requests to two partitions in turn, until nothing is left. -/
def turns : List Request := [.next 1, .canRequest 0, .next 0, .next 1, .next 0]

theorem serves_exactly_small : ∃ partitioner,
    new .empty threeExtents 2 = .ok partitioner ∧ partitioner.partitions.length = 2 ∧
      ((partitioner.handouts .empty turns).map Handout.portion) =
        [.extent 2, .extent 0, .extent 1] ∧
      ServesExactly .empty threeExtents partitioner turns ∧
      threeExtents.records .empty = .ok (Handout.recordsOf 0 (partitioner.handouts .empty turns) ++
        Handout.recordsOf 1 (partitioner.handouts .empty turns)) := by
  obtain ⟨hexists, hall⟩ := serves_exactly (n := 2) .empty threeExtents Nat.two_pos
  obtain ⟨partitioner, hnew⟩ := hexists ⟨_, rfl⟩
  obtain ⟨hlength, -, hserves⟩ := hall partitioner hnew
  refine ⟨partitioner, hnew, hlength, ?_, hserves turns, ?_⟩
  · cases hnew
    rfl
  · refine ((hserves turns).complete fun id hid => ?_).1.trans ?_
    · cases hnew
      match id, hid with
      | 0, _ => rfl
      | 1, _ => rfl
    · cases hnew
      rfl

end Serve
end Partitioner
end ExtentEngine
