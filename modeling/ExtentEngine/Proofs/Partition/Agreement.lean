import ExtentEngine.Proofs.Partition.Coverage
import ExtentEngine.Proofs.Partition.InTurn

/-!
# Side by side or one after the other

A job over a dataset comes to the same whether its workers run side by side, in any order of
their steps and of their failures, or one after the other.  If it succeeds every worker has
taken all its pieces and its node was closed, once, and the nodes are reduced in the order of
their partitions.

**Results.**
* `Worker.loads_of_run`: a worker that succeeds was given all pieces of its partition.
* `Job.completed_of_ok`: what a job is that succeeded.
* `Job.runInterleaved_agrees`: all ways of running a job agree.
-/

namespace ExtentEngine

variable {ν : Type}

/-- Whether nodes hold the records that they were given. -/
structure Mapper.Collects (mapper : Mapper ν) (held : ν → List Record) : Prop where
  create : ∀ id node, mapper.create id = .ok node → held node = []
  execute : ∀ extent node disk, ((mapper.execute extent).run (node, disk)).1 = .ok () →
    held ((mapper.execute extent).run (node, disk)).2.1 = held node ++ extent
  close : ∀ node disk, (mapper.close.run (node, disk)).1 = .ok () →
    held (mapper.close.run (node, disk)).2.1 = held node

namespace Worker

variable {mapper : Mapper ν} {disk : Disk}

/-- A worker that succeeds was given all pieces of its partition. -/
theorem loads_of_run (hprivate : mapper.Private) {worker : Worker ν}
    (hok : ((run mapper).run (worker, disk)).1 = .ok ()) :
    (worker.ran mapper disk).partition.pending = [] ∧
    ∃ extents, List.Forall₂ (fun piece extent => worker.partition.load disk piece = .ok extent)
        worker.partition.pending extents ∧
      ∀ held, mapper.Collects held →
        held (worker.ran mapper disk).node = held worker.node ++ extents.flatten := by
  induction hpending : worker.partition.pending generalizing worker with
  | nil =>
      rw [ran, run_of_nil hpending]
      exact ⟨hpending, [], .nil, fun held _ => (List.append_nil _).symm⟩
  | cons piece rest ih =>
      have hrun := @run_of_cons ν mapper worker disk piece rest hpending
      cases hload : worker.partition.load disk piece with
      | error fault =>
          simp only [hload] at hrun
          rw [hrun] at hok
          cases hok
      | ok extent =>
          obtain ⟨result, node, hexecute⟩ := hprivate.exists_execute extent worker.node disk
          cases result with
          | error fault =>
              simp only [hload, hexecute] at hrun
              rw [hrun] at hok
              cases hok
          | ok _ =>
              simp only [hload, hexecute] at hrun
              rw [hrun] at hok
              obtain ⟨hdone, extents, hloads, hheld⟩ := ih hok rfl
              rw [ran, ← hrun] at hdone hheld
              refine ⟨hdone, extent :: extents, .cons hload hloads, fun held hcollects => ?_⟩
              have hgiven := hcollects.execute extent worker.node disk (by rw [hexecute])
              rw [hexecute] at hgiven
              rw [ran, hheld held hcollects, hgiven, List.append_assoc, List.flatten_cons]

/-- Whether a worker runs to its end and its node is closed. -/
def Finishes (mapper : Mapper ν) (disk : Disk) (worker after : Worker ν) : Prop :=
  ∃ ran node, (run mapper).run (worker, disk) = (.ok (), ran, disk) ∧
    ran.partition.pending = [] ∧
    mapper.close.run (ran.node, disk) = (.ok (), node, disk) ∧
    after = ⟨node, ran.partition, true⟩

theorem run_close_of_open {worker : Worker ν} (hopen : worker.closed = false) :
    (close mapper).run (worker, disk) =
      match mapper.close.run (worker.node, disk) with
      | (.error fault, node, disk) => (.error fault, ({ worker with node }, disk))
      | (.ok (), node, disk) => (.ok (), ({ worker with node, closed := true }, disk)) :=
  if_neg (Bool.eq_false_iff.1 hopen)

theorem finishes_of_ok (hprivate : mapper.Private) {worker : Worker ν}
    (hopen : worker.closed = false) (hrun : ((run mapper).run (worker, disk)).1 = .ok ())
    (hclose : ((close mapper).run (worker.ran mapper disk, disk)).1 = .ok ()) :
    Finishes mapper disk worker ((close mapper).run (worker.ran mapper disk, disk)).2.1 := by
  have hcontained := contained_run hprivate worker disk
  have hpending := (loads_of_run hprivate hrun).1
  have hidle := hprivate.close (worker.ran mapper disk).node disk
  have hstill : (worker.ran mapper disk).closed = false := hcontained.closed.trans hopen
  rw [run_close_of_open hstill] at hclose ⊢
  rcases hnode : mapper.close.run ((worker.ran mapper disk).node, disk) with
    ⟨result, node, diskAfter⟩
  rw [hnode] at hidle hclose
  obtain rfl : diskAfter = disk := hidle
  cases result with
  | error fault => cases hclose
  | ok _ =>
      refine ⟨worker.ran mapper diskAfter, node, ?_, hpending, hnode, rfl⟩
      exact Prod.ext hrun (Prod.ext rfl hcontained.idle)

theorem Finishes.id_eq (hprivate : mapper.Private) {worker after : Worker ν}
    (h : Finishes mapper disk worker after) : after.partition.id = worker.partition.id := by
  obtain ⟨ran, node, hrun, -, -, rfl⟩ := h
  have hid := (contained_run hprivate worker disk).id
  rwa [hrun] at hid

theorem Finishes.held_eq {held : ν → List Record} (hcollects : mapper.Collects held)
    {worker after : Worker ν} (h : Finishes mapper disk worker after) :
    held after.node = held (worker.ran mapper disk).node := by
  obtain ⟨ran, node, hrun, -, hclose, rfl⟩ := h
  have hheld := hcollects.close ran.node disk (by rw [hclose])
  rw [hclose] at hheld
  rw [Worker.ran, hrun]
  exact hheld

end Worker

namespace Job

open Worker

variable {mapper : Mapper ν} {disk : Disk} {dataset : Dataset} {n : Nat} {job : Job ν}

/-- What a job over a dataset is that succeeded. -/
structure Completed (mapper : Mapper ν) (disk : Disk) (dataset : Dataset) (job after : Job ν) :
    Prop where
  stage : after.stage = .completed
  workers : List.Forall₂ (Finishes mapper disk) job.workers after.workers
  /-- The nodes are in the order of their partitions. -/
  ids : after.workers.map (fun worker => worker.partition.id) = List.range after.workers.length
  reduce : ∀ {σ : Type} (consume : ν → Step σ Unit),
    after.reduce consume = Step.forEach consume (after.workers.map Worker.node)
  records : ∀ held, mapper.Collects held →
    dataset.records disk = .ok ((after.workers.map Worker.node).flatMap held)

theorem open_of_new (hnew : new mapper disk dataset n = .ok job) :
    ∀ worker ∈ job.workers, worker.closed = false := by
  obtain ⟨partitioner, -, hworkers⟩ := Attempt.bind_eq_ok.1 hnew
  obtain ⟨workers, hmap, hjob⟩ := Attempt.bind_eq_ok.1 hworkers
  cases hjob
  intro worker hworker
  obtain ⟨partition, -, hworker⟩ := exists_of_mem_right (Attempt.mapM_eq_ok.1 hmap) hworker
  obtain ⟨node, -, hpure⟩ := Attempt.bind_eq_ok.1 hworker
  cases hpure
  rfl

/-- The workers of a new job are numbered in order. -/
theorem ids_of_new (hnew : new mapper disk dataset n = .ok job) :
    job.workers.map (fun worker => worker.partition.id) = List.range job.workers.length := by
  obtain ⟨partitioner, hsplit, -⟩ := Attempt.bind_eq_ok.1 hnew
  have hworkers := (workers_of_new hsplit hnew).2
  have hids : job.workers.map (fun worker => worker.partition.id) =
      partitioner.partitions.map Partition.id :=
    map_eq_map_of_forall₂ hworkers.flip fun _ _ h => congrArg Partition.id h.1
  rw [hids, Partitioner.ids_of_new hsplit, hworkers.length_eq]

theorem inOrder_of_new (hnew : new mapper disk dataset n = .ok job) : InOrder job.workers := by
  refine List.pairwise_map.1 ?_
  rw [ids_of_new hnew]
  exact List.pairwise_lt_range

/-- Nodes that collect records hold the records of the dataset in the end. -/
theorem records_of_ran (hprivate : mapper.Private) (hnew : new mapper disk dataset n = .ok job)
    (hrun : ∀ worker ∈ job.workers, ((run mapper).run (worker, disk)).1 = .ok ())
    {held : ν → List Record} (hcollects : mapper.Collects held) :
    dataset.records disk =
      .ok (job.workers.flatMap fun worker => held (worker.ran mapper disk).node) := by
  obtain ⟨partitioner, hsplit, -⟩ := Attempt.bind_eq_ok.1 hnew
  have hworkers := (workers_of_new hsplit hnew).2
  have hloads : ∀ partition ∈ partitioner.partitions, ∀ piece ∈ partition.pending,
      ∃ extent, partition.load disk piece = .ok extent := by
    intro partition hpartition piece hpiece
    obtain ⟨worker, hworker, rfl, -⟩ := exists_of_mem_left hworkers hpartition
    obtain ⟨-, extents, hloads, -⟩ := loads_of_run hprivate (hrun worker hworker)
    obtain ⟨extent, -, hextent⟩ := exists_of_mem_left hloads hpiece
    exact ⟨extent, hextent⟩
  obtain ⟨extents, hextents⟩ := Partitioner.exists_extents hsplit hloads
  have hpos : 0 < n := by
    by_contra hzero
    rw [Partitioner.new, if_pos (by omega)] at hsplit
    cases hsplit
  obtain ⟨partitioner', chunks, hsplit', hcovers, hchunks⟩ := Partitioner.exists_new hextents hpos
  rw [hsplit] at hsplit'
  cases hsplit'
  have hheld : List.Forall₂ (fun worker (chunk : List Extent) =>
      held (worker.ran mapper disk).node = chunk.flatten) job.workers chunks := by
    refine forall₂_trans hworkers.flip hcovers ?_
    rintro worker hworker partition - chunk - ⟨rfl, hnode⟩ hcover
    obtain ⟨-, given, hgiven, hheld⟩ := loads_of_run hprivate (hrun worker hworker)
    have hsame : List.Forall₂ Eq given chunk := by
      refine forall₂_trans hgiven.flip hcover.pending fun extent _ piece _ records _ hload his => ?_
      rw [his.load (hcover.dataset ▸ hextents)] at hload
      cases hload
      rfl
    obtain rfl : given = chunk := by rwa [← List.forall₂_eq_eq_eq]
    rw [hheld held hcollects, hcollects.create _ _ hnode, List.nil_append]
  have hflat : (job.workers.map fun worker => held (worker.ran mapper disk).node) =
      chunks.map List.flatten :=
    map_eq_map_of_forall₂ hheld fun _ _ heq => heq
  rw [Dataset.records_eq_ok hextents, List.flatMap_def, hflat, ← List.flatten_flatten, hchunks]

/-- A job over a dataset that succeeds. -/
theorem completed_of_ok (hprivate : mapper.Private) (hnew : new mapper disk dataset n = .ok job)
    (hrun : ∀ worker ∈ job.workers, ((run mapper).run (worker, disk)).1 = .ok ())
    (hclose : ∀ worker ∈ job.workers.map (ran mapper disk),
      ((close mapper).run (worker, disk)).1 = .ok ()) :
    Completed mapper disk dataset job ⟨job.strategy, (job.workers.map (ran mapper disk)).map
      fun worker => ((close mapper).run (worker, disk)).2.1, .completed⟩ := by
  have hfinishes : List.Forall₂ (Finishes mapper disk) job.workers
      ((job.workers.map (ran mapper disk)).map
        fun worker => ((close mapper).run (worker, disk)).2.1) := by
    rw [List.forall₂_map_right_iff, List.forall₂_map_right_iff, List.forall₂_same]
    exact fun worker hworker => finishes_of_ok hprivate (open_of_new hnew worker hworker)
      (hrun worker hworker) (hclose _ (List.mem_map_of_mem hworker))
  refine ⟨rfl, hfinishes, ?_, fun consume => rfl, fun held hcollects => ?_⟩
  · rw [← map_eq_map_of_forall₂ hfinishes fun _ _ h => (h.id_eq hprivate).symm,
      ids_of_new hnew, hfinishes.length_eq]
  · rw [records_of_ran hprivate hnew hrun hcollects, List.flatMap_def, List.flatMap_def,
      List.map_map, map_eq_map_of_forall₂ hfinishes fun _ _ h => (h.held_eq hcollects).symm]
    rfl

/-- Under every schedule a job comes to what it comes to when its workers run one after the
other: it succeeds and leaves the same, or it reports the failure of the lowest partition. -/
theorem runInterleaved_agrees (hprivate : mapper.Private)
    (hnew : new mapper disk dataset n = .ok job) :
    (∀ schedule, ∃ rest, job.Exhausts mapper disk (schedule ++ rest)) ∧
    ∀ schedule, job.Exhausts mapper disk schedule →
      (runInterleaved mapper schedule).run (job, disk) = (runConcurrent mapper).run (job, disk) ∧
      ((∃ after, (runConcurrent mapper).run (job, disk) = (.ok (), after, disk) ∧
          (runSequential mapper).run (job, disk) = (.ok (), after, disk) ∧
          Completed mapper disk dataset job after) ∨
        ∃ fault, ((runConcurrent mapper).run (job, disk)).1 = .error fault ∧
          ((runSequential mapper).run (job, disk)).1 = .error fault ∧
          Fails mapper disk job fault) := by
  obtain ⟨partitioner, hsplit, -⟩ := Attempt.bind_eq_ok.1 hnew
  have hcreated := (workers_of_new hsplit hnew).1
  have horder := inOrder_of_new hnew
  refine ⟨exists_exhausts mapper job disk, fun schedule hfinished => ?_⟩
  refine ⟨runInterleaved_eq hprivate horder hfinished, ?_⟩
  have hconcurrent := outcome_of_runConcurrent hprivate hcreated horder disk
  have hsequential := outcome_of_runSequential hprivate hcreated horder disk
  obtain ⟨hresult, hsame⟩ := hconcurrent.agree hprivate horder hsequential
  generalize (runSequential mapper).run (job, disk) = sequential at hresult hsame ⊢
  generalize (runConcurrent mapper).run (job, disk) = concurrent at hconcurrent hresult hsame ⊢
  cases hconcurrent with
  | completed hrun hclose =>
      exact .inl ⟨_, rfl, (hsame rfl).symm, completed_of_ok hprivate hnew hrun hclose⟩
  | failed hfails after => exact .inr ⟨_, rfl, hresult.symm, hfails⟩

theorem private_collecting (refused : Record) : (collecting refused).Private where
  execute extent node disk := by
    simp only [collecting, Step.run]
    split <;> rfl
  close _ _ := rfl
  persists extent node disk := by
    simp only [collecting, Step.run]
    split <;> simp

/-- The second worker takes its piece before the first one, and then both find none left. -/
theorem runInterleaved_agrees_small : ∃ job after,
    new (collecting [.int 7]) .empty twoExtents 2 = .ok job ∧
    job.Exhausts (collecting [.int 7]) .empty [1, 0, 1, 0] ∧
    (runInterleaved (collecting [.int 7]) [1, 0, 1, 0]).run (job, .empty) =
      (.ok (), after, .empty) ∧
    (runSequential (collecting [.int 7])).run (job, .empty) = (.ok (), after, .empty) ∧
    Completed (collecting [.int 7]) .empty twoExtents job after ∧
    after.nodes = .ok [[[.int 1]], [[.int 2]]] := by
  have hexhausts : Exhausts (collecting [.int 7]) ⟨.byExtents,
      [⟨[], ⟨0, 1, .byExtents, twoExtents, [.whole 0], [.whole 0]⟩, false⟩,
        ⟨[], ⟨1, 1, .byExtents, twoExtents, [.whole 1], [.whole 1]⟩, false⟩], .created⟩
      .empty [1, 0, 1, 0] := by
    refine List.forall_mem_cons.2 ⟨rfl, List.forall_mem_cons.2 ⟨rfl, List.forall_mem_nil _⟩⟩
  obtain ⟨hconcurrent, hagrees⟩ := (@runInterleaved_agrees _ (collecting [.int 7]) .empty twoExtents
    2 _ (private_collecting _) rfl).2 [1, 0, 1, 0] hexhausts
  rcases hagrees with ⟨after, hrun, hsequential, hcompleted⟩ | ⟨fault, hfault, -⟩
  · refine ⟨_, after, rfl, hexhausts, hconcurrent.trans hrun, hsequential, hcompleted, ?_⟩
    cases hrun
    rfl
  · cases hfault

end Job
end ExtentEngine
