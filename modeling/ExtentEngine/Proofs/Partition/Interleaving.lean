import ExtentEngine.Partition.Schedule
import ExtentEngine.Proofs.Dataset.Faults
import Mathlib.Algebra.GroupWithZero.Nat
import Mathlib.Data.List.Basic
import Mathlib.Data.List.Nodup
import Mathlib.Data.List.Perm.Basic

/-!
# Runs side by side

What a worker will come to is settled from the start, if nodes leave the disk alone: no step of
another worker changes it, and neither does a step of its own.  The same holds of the failures
that are or will be reported, up to their order, and sorting them makes up for that.

**Results.**
* `Task.settled_step`: what a step of a worker preserves.
* `Crew.settled_follow`: no schedule changes what the workers come to.
* `Job.exists_exhausts`: every schedule can be continued until all workers are finished.
* `Job.runInterleaved_eq`: under all schedules that let the workers finish a job does the same.
-/

namespace ExtentEngine

variable {ν : Type}

/-- The faults of loading a piece come of what is stored. -/
theorem Partition.ofReading_load (disk : Disk) (partition : Partition) (piece : Piece) :
    (partition.load disk piece).OfReading := by
  cases piece with
  | rows extent => exact .ok extent
  | whole number => exact partition.dataset.ofReading_extent disk number

/-- Nothing that is loaded makes a worker give up. -/
theorem Partition.load_ne_abandoned (disk : Disk) (partition : Partition) (piece : Piece) :
    partition.load disk piece ≠ .error .abandoned :=
  (partition.ofReading_load disk piece).ne_error Bool.false_ne_true

/-- Whether nodes keep to themselves: they leave the disk as it is, and do not give up. -/
structure Mapper.Private (mapper : Mapper ν) : Prop where
  execute : ∀ extent node disk, ((mapper.execute extent).run (node, disk)).2.2 = disk
  close : ∀ node disk, (mapper.close.run (node, disk)).2.2 = disk
  persists : ∀ extent node disk,
    ((mapper.execute extent).run (node, disk)).1 ≠ .error .abandoned

theorem Mapper.Private.exists_execute {mapper : Mapper ν} (h : mapper.Private) (extent : Extent)
    (node : ν) (disk : Disk) :
    ∃ result node', (mapper.execute extent).run (node, disk) = (result, node', disk) := by
  have hidle := h.execute extent node disk
  rcases hrun : (mapper.execute extent).run (node, disk) with ⟨result, node', after⟩
  rw [hrun] at hidle
  obtain rfl : after = disk := hidle
  exact ⟨result, node', rfl⟩

namespace Worker

variable {mapper : Mapper ν} {worker : Worker ν} {disk : Disk}

theorem run_of_nil (h : worker.partition.pending = []) :
    (run mapper).run (worker, disk) = (.ok (), worker, disk) := by
  simp only [Step.run, run, h]
  rfl

/-- A run takes the next piece, and then it is the run of what is left. -/
theorem run_of_cons {piece : Piece} {rest : List Piece}
    (h : worker.partition.pending = piece :: rest) :
    (run mapper).run (worker, disk) =
      match worker.partition.load disk piece with
      | .error fault => (.error fault, (worker, disk))
      | .ok extent =>
        let partition := { worker.partition with pending := rest }
        match (mapper.execute extent).run (worker.node, disk) with
        | (.error fault, node, disk) => (.error fault, ({ worker with node, partition }, disk))
        | (.ok (), node, disk) => (run mapper).run ({ worker with node, partition }, disk) := by
  simp only [Step.run, run, h]
  rfl

/-- What a run leaves as it was. -/
structure Contained (worker : Worker ν) (disk : Disk)
    (run : Attempt Unit × Worker ν × Disk) : Prop where
  idle : run.2.2 = disk
  id : run.2.1.partition.id = worker.partition.id
  closed : run.2.1.closed = worker.closed
  persists : run.1 ≠ .error .abandoned

theorem contained_run (hprivate : mapper.Private) (worker : Worker ν) (disk : Disk) :
    Contained worker disk ((run mapper).run (worker, disk)) := by
  induction hpending : worker.partition.pending generalizing worker with
  | nil =>
      rw [run_of_nil hpending]
      exact ⟨rfl, rfl, rfl, by simp⟩
  | cons piece rest ih =>
      rw [run_of_cons hpending]
      have hloads := worker.partition.load_ne_abandoned disk piece
      cases hload : worker.partition.load disk piece with
      | error fault =>
          rw [hload] at hloads
          exact ⟨rfl, rfl, rfl, by simpa using hloads⟩
      | ok extent =>
          have hpersists := hprivate.persists extent worker.node disk
          obtain ⟨result, node, hexecute⟩ := hprivate.exists_execute extent worker.node disk
          rw [hexecute] at hpersists
          simp only [hexecute]
          cases result with
          | error fault => exact ⟨rfl, rfl, rfl, hpersists⟩
          | ok _ =>
              have hrest := ih ⟨node, { worker.partition with pending := rest }, worker.closed⟩ rfl
              exact ⟨hrest.idle, hrest.id, hrest.closed, hrest.persists⟩

/-- The worker that a run leaves. -/
def ran (mapper : Mapper ν) (disk : Disk) (worker : Worker ν) : Worker ν :=
  ((run mapper).run (worker, disk)).2.1

/-- The failures that come of a run. -/
def faults (mapper : Mapper ν) (disk : Disk) (worker : Worker ν) : List (Nat × Fault) :=
  match ((run mapper).run (worker, disk)).1 with
  | .ok () => []
  | .error fault =>
    [((worker.ran mapper disk).partition.id, (worker.ran mapper disk).reportedFault fault)]

theorem reportedFault_of_ne {fault : Fault} (h : fault ≠ .abandoned) (worker : Worker ν) :
    worker.reportedFault fault = fault := by
  cases fault with
  | abandoned => exact absurd rfl h
  | _ => rfl

/-- A failure is reported as it is, for a partition that keeps its number. -/
theorem faults_eq (hprivate : mapper.Private) (worker : Worker ν) (disk : Disk) :
    worker.faults mapper disk =
      match ((run mapper).run (worker, disk)).1 with
      | .ok () => []
      | .error fault => [(worker.partition.id, fault)] := by
  have hcontained := contained_run hprivate worker disk
  rw [faults]
  cases hresult : ((run mapper).run (worker, disk)).1 with
  | ok _ => rfl
  | error fault =>
      have hpersists : fault ≠ .abandoned := by
        simpa [hresult] using hcontained.persists
      simp only [ran, hcontained.id, reportedFault_of_ne hpersists]

/-- Workers in the order of their partitions. -/
def InOrder (workers : List (Worker ν)) : Prop :=
  workers.Pairwise fun worker other => worker.partition.id < other.partition.id

theorem faults_increasing (hprivate : mapper.Private) {workers : List (Worker ν)}
    (horder : InOrder workers) (disk : Disk) :
    (workers.flatMap (faults mapper disk)).Pairwise fun a b => a.1 < b.1 := by
  have hid : ∀ (worker : Worker ν), ∀ entry ∈ worker.faults mapper disk,
      entry.1 = worker.partition.id := by
    intro worker entry hentry
    rw [faults_eq hprivate] at hentry
    split at hentry
    · cases hentry
    · rw [List.mem_singleton.1 hentry]
  refine List.pairwise_flatMap.2 ⟨fun worker _ => ?_, horder.imp ?_⟩
  · rw [faults_eq hprivate]
    split
    · exact .nil
    · exact List.pairwise_singleton _ _
  · intro worker other hlt entry hentry entry' hentry'
    rw [hid worker entry hentry, hid other entry' hentry']
    exact hlt

/-- In private each worker runs as if it were alone. -/
theorem runEach_eq (hprivate : mapper.Private) (workers : List (Worker ν)) (disk : Disk) :
    runEach mapper workers disk =
      (workers.flatMap (faults mapper disk), workers.map (ran mapper disk), disk) := by
  induction workers with
  | nil => rfl
  | cons worker workers ih =>
      have hidle := (contained_run hprivate worker disk).idle
      have hran : ran mapper disk worker = ((run mapper).run (worker, disk)).2.1 := rfl
      rw [List.flatMap_cons, List.map_cons, runEach, faults, hran]
      rcases hrun : (run mapper).run (worker, disk) with ⟨result, after, diskAfter⟩
      rw [hrun] at hidle
      obtain rfl : diskAfter = disk := hidle
      simp only [ih]
      cases result <;> rfl

end Worker

/-- Of failures in the order of their partitions the first one counts. -/
theorem lowestFault_of_increasing {faults : List (Nat × Fault)}
    (h : faults.Pairwise fun a b => a.1 < b.1) : lowestFault faults = faults.head? := by
  induction faults with
  | nil => rfl
  | cons entry faults ih =>
      obtain ⟨hentry, hfaults⟩ := List.pairwise_cons.1 h
      obtain ⟨id, fault⟩ := entry
      rw [lowestFault, ih hfaults]
      cases faults with
      | nil => rfl
      | cons other faults =>
          have hlt : id < other.1 := hentry other List.mem_cons_self
          exact if_neg (Nat.not_lt.2 (Nat.le_of_lt hlt))

namespace Task

/-- The worker as it will be when it is finished. -/
def outcome (mapper : Mapper ν) (disk : Disk) (task : Task ν) : Worker ν :=
  match task.phase with
  | .running => task.worker.ran mapper disk
  | .failed _ => task.worker
  | .finished => task.worker

/-- The failures that the worker will still report. -/
def unreported (mapper : Mapper ν) (disk : Disk) (task : Task ν) : List (Nat × Fault) :=
  match task.phase with
  | .running => task.worker.faults mapper disk
  | .failed fault => [(task.worker.partition.id, task.worker.reportedFault fault)]
  | .finished => []

/-- How many steps the worker may still take. -/
def steps (task : Task ν) : Nat :=
  match task.phase with
  | .running => task.worker.partition.pending.length + 2
  | .failed _ => 1
  | .finished => 0

/-- What a step makes of a worker, of the failures and of the disk. -/
structure Settled (mapper : Mapper ν) (disk : Disk) (task : Task ν)
    (after : Task ν × List (Nat × Fault) × Disk) : Prop where
  idle : after.2.2 = disk
  outcome : after.1.outcome mapper disk = task.outcome mapper disk
  unreported : after.2.1 ++ after.1.unreported mapper disk = task.unreported mapper disk

/-- A step of a worker settles nothing that was not settled before. -/
theorem settled_step {mapper : Mapper ν} (hprivate : mapper.Private) (disk : Disk)
    (task : Task ν) : Settled mapper disk task (task.step mapper disk) := by
  obtain ⟨worker, phase⟩ := task
  cases phase with
  | finished => exact ⟨rfl, rfl, rfl⟩
  | failed fault => exact ⟨rfl, rfl, rfl⟩
  | running =>
      cases hpending : worker.partition.pending with
      | nil =>
          have hrun := @Worker.run_of_nil ν mapper worker disk hpending
          simp only [step, hpending]
          constructor
          all_goals simp [outcome, unreported, Worker.ran, Worker.faults, hrun]
      | cons piece rest =>
          have hrun := @Worker.run_of_cons ν mapper worker disk piece rest hpending
          simp only [step, hpending]
          cases hload : worker.partition.load disk piece with
          | error fault =>
              simp only [hload] at hrun
              constructor
              all_goals simp [outcome, unreported, Worker.ran, Worker.faults, hrun]
          | ok extent =>
              obtain ⟨result, node, hexecute⟩ := hprivate.exists_execute extent worker.node disk
              simp only [hload, hexecute] at hrun ⊢
              cases result with
              | error fault =>
                  constructor
                  all_goals simp [outcome, unreported, Worker.ran, Worker.faults, hrun]
              | ok _ =>
                  constructor
                  all_goals
                    simp [outcome, unreported, Worker.ran, Worker.faults, hrun]

/-- Every step brings a worker nearer to its end. -/
theorem steps_step_lt (mapper : Mapper ν) (disk : Disk) {task : Task ν}
    (hphase : task.phase ≠ .finished) : (task.step mapper disk).1.steps < task.steps := by
  obtain ⟨worker, phase⟩ := task
  cases phase with
  | finished => exact absurd rfl hphase
  | failed fault => exact Nat.one_pos
  | running =>
      cases hpending : worker.partition.pending with
      | nil => simp [step, steps, hpending]
      | cons piece rest =>
          simp only [step, hpending]
          cases worker.partition.load disk piece with
          | error fault => simp [steps]
          | ok extent =>
              simp only
              rcases (mapper.execute extent).run (worker.node, disk) with ⟨result, node, after⟩
              cases result <;> simp [steps, hpending]

end Task

namespace Crew

variable {mapper : Mapper ν} {crew : Crew ν} {workers : List (Worker ν)}
  {faults : List (Nat × Fault)} {disk : Disk}

/-- What the workers come to: the workers as they will be, the failures in any order, and the
disk. -/
structure Settled (mapper : Mapper ν) (workers : List (Worker ν)) (faults : List (Nat × Fault))
    (disk : Disk) (crew : Crew ν) : Prop where
  idle : crew.disk = disk
  outcomes : crew.tasks.map (Task.outcome mapper disk) = workers
  faults : (crew.faults ++ crew.tasks.flatMap (Task.unreported mapper disk)).Perm faults

theorem settled_start (mapper : Mapper ν) (workers : List (Worker ν)) (disk : Disk) :
    Settled mapper (workers.map (Worker.ran mapper disk))
      (workers.flatMap (Worker.faults mapper disk)) disk (start workers disk) where
  idle := rfl
  outcomes := by
    rw [start, List.map_map]
    rfl
  faults := by
    rw [start, List.nil_append, List.flatMap_map]
    exact .refl _

/-- What a step of the worker at a place is to the crew. -/
theorem tick_eq {index : Nat} {task : Task ν} (htask : crew.tasks[index]? = some task) :
    crew.tick mapper index =
      ⟨crew.tasks.set index (task.step mapper crew.disk).1,
        crew.faults ++ (task.step mapper crew.disk).2.1, (task.step mapper crew.disk).2.2⟩ := by
  rw [tick, htask]

/-- The tasks around the one at a place. -/
theorem exists_set {index : Nat} {task : Task ν} (htask : crew.tasks[index]? = some task)
    (after : Task ν) : ∃ before behind, crew.tasks = before ++ task :: behind ∧
      crew.tasks.set index after = before ++ after :: behind := by
  obtain ⟨hindex, rfl⟩ := List.getElem?_eq_some_iff.1 htask
  obtain ⟨before, behind, htasks, -, hset⟩ := List.exists_of_set hindex
  exact ⟨before, behind, htasks, hset⟩

/-- No step changes what the workers come to. -/
theorem settled_tick (hprivate : mapper.Private) (h : Settled mapper workers faults disk crew)
    (index : Nat) : Settled mapper workers faults disk (crew.tick mapper index) := by
  cases htask : crew.tasks[index]? with
  | none =>
      rw [tick, htask]
      exact h
  | some task =>
      have hstep := Task.settled_step hprivate disk task
      obtain ⟨before, behind, htasks, hset⟩ := exists_set htask (task.step mapper disk).1
      rw [tick_eq htask, h.idle, hset]
      refine ⟨hstep.idle, ?_, ?_⟩
      · rw [← h.outcomes, htasks]
        simp only [List.map_append, List.map_cons, hstep.outcome]
      · refine .trans ?_ h.faults
        -- the failure that the worker reports moves in front of what the others will report
        rw [htasks, List.perm_iff_count]
        intro entry
        simp only [List.flatMap_append, List.flatMap_cons, List.count_append,
          ← hstep.unreported]
        omega

/-- No schedule changes what the workers come to. -/
theorem settled_follow (hprivate : mapper.Private) (schedule : List Nat)
    (h : Settled mapper workers faults disk crew) :
    Settled mapper workers faults disk (crew.follow mapper schedule) := by
  induction schedule generalizing crew with
  | nil => exact h
  | cons index schedule ih => exact ih (settled_tick hprivate h index)

/-- How many steps the workers may still take. -/
def steps (crew : Crew ν) : Nat := (crew.tasks.map Task.steps).sum

theorem steps_tick_lt (mapper : Mapper ν) {index : Nat} {task : Task ν}
    (htask : crew.tasks[index]? = some task) (hphase : task.phase ≠ .finished) :
    (crew.tick mapper index).steps < crew.steps := by
  obtain ⟨before, behind, htasks, hset⟩ := exists_set htask (task.step mapper crew.disk).1
  have hlt := Task.steps_step_lt mapper crew.disk hphase
  rw [tick_eq htask, steps, steps, hset, htasks]
  simp only [List.map_append, List.map_cons, List.sum_append, List.sum_cons]
  omega

/-- The workers can be brought to their end from wherever they are. -/
theorem exists_finished (mapper : Mapper ν) (crew : Crew ν) :
    ∃ schedule, (crew.follow mapper schedule).Finished := by
  induction hsteps : crew.steps using Nat.strongRecOn generalizing crew with
  | _ count ih =>
      by_cases hfinished : crew.Finished
      · exact ⟨[], hfinished⟩
      · obtain ⟨task, hmem, hphase⟩ := by simpa only [Finished, not_forall] using hfinished
        obtain ⟨index, htask⟩ := List.mem_iff_getElem?.1 hmem
        have hlt := steps_tick_lt mapper htask hphase
        obtain ⟨schedule, hschedule⟩ := ih _ (hsteps ▸ hlt) (crew.tick mapper index) rfl
        exact ⟨index :: schedule, hschedule⟩

theorem follow_append (crew : Crew ν) (first rest : List Nat) :
    crew.follow mapper (first ++ rest) = (crew.follow mapper first).follow mapper rest :=
  List.foldl_append

/-- When all workers are finished they are what they come to. -/
theorem Settled.workers_eq (h : Settled mapper workers faults disk crew)
    (hfinished : crew.Finished) : crew.tasks.map Task.worker = workers := by
  rw [← h.outcomes]
  refine List.map_congr_left fun task hmem => ?_
  rw [Task.outcome, hfinished task hmem]

theorem Settled.faults_perm (h : Settled mapper workers faults disk crew)
    (hfinished : crew.Finished) : crew.faults.Perm faults := by
  have hnil : crew.tasks.flatMap (Task.unreported mapper disk) = [] := by
    refine List.flatMap_eq_nil_iff.2 fun task hmem => ?_
    rw [Task.unreported, hfinished task hmem]
  have hfaults := h.faults
  rwa [hnil, List.append_nil] at hfaults

theorem exists_of_fault? {fault : Fault} (h : crew.fault? = some fault) :
    ∃ entry ∈ crew.faults, entry.2 = fault := by
  obtain ⟨entry, hentry, hfault⟩ := Option.map_eq_some_iff.1 h
  exact ⟨entry, (List.mergeSort_perm _ _).mem_iff.1 (List.mem_of_head? hentry), hfault⟩

theorem faults_eq_nil (h : crew.fault? = none) : crew.faults = [] := by
  have hsorted := List.head?_eq_none_iff.1 (Option.map_eq_none_iff.1 h)
  have hperm := List.mergeSort_perm crew.faults fun a b => decide (a.1 ≤ b.1)
  rw [hsorted] at hperm
  exact hperm.nil_eq.symm

/-- The failures are sorted whatever their order was, if their numbers differ. -/
theorem fault?_of_perm (hperm : crew.faults.Perm faults)
    (hsorted : faults.Pairwise fun a b => a.1 < b.1) : crew.fault? = faults.head?.map (·.2) := by
  have hsort : crew.faults.mergeSort (fun a b => a.1 ≤ b.1) = faults := by
    have hmerged : (crew.faults.mergeSort fun a b => a.1 ≤ b.1).Pairwise fun a b => a.1 ≤ b.1 := by
      refine (List.pairwise_mergeSort ?_ ?_ crew.faults).imp of_decide_eq_true
      · exact fun a b c hab hbc => decide_eq_true
          (Nat.le_trans (of_decide_eq_true hab) (of_decide_eq_true hbc))
      · intro a b
        simpa using Nat.le_total a.1 b.1
    have hsame := (List.mergeSort_perm crew.faults fun a b => a.1 ≤ b.1).trans hperm
    have hnodup : (faults.map Prod.fst).Nodup := List.pairwise_map.2 (hsorted.imp Nat.ne_of_lt)
    refine List.Perm.eq_of_pairwise ?_ hmerged (hsorted.imp Nat.le_of_lt) hsame
    exact fun a b ha hb hab hba =>
      List.inj_on_of_nodup_map hnodup (hsame.subset ha) hb (Nat.le_antisymm hab hba)
  rw [fault?, hsort]

end Crew

namespace Job

variable {mapper : Mapper ν} {disk : Disk} {schedule : List Nat}

/-- Every schedule can be continued until all workers are finished. -/
theorem exists_exhausts (mapper : Mapper ν) (job : Job ν) (disk : Disk) (schedule : List Nat) :
    ∃ rest, job.Exhausts mapper disk (schedule ++ rest) := by
  obtain ⟨rest, hrest⟩ := Crew.exists_finished mapper
    ((Crew.start job.workers disk).follow mapper schedule)
  refine ⟨rest, ?_⟩
  rw [Exhausts, Crew.follow_append]
  exact hrest

theorem runScheduled_eq (hprivate : mapper.Private) {workers : List (Worker ν)}
    (horder : Worker.InOrder workers)
    (hfinished : ((Crew.start workers disk).follow mapper schedule).Finished) :
    (runScheduled mapper schedule).run (workers, disk) =
      (runAll mapper).run (workers, disk) := by
  have hsettled := Crew.settled_follow hprivate schedule (Crew.settled_start mapper workers disk)
  have hincreasing := Worker.faults_increasing hprivate horder disk
  have hfault := Crew.fault?_of_perm (hsettled.faults_perm hfinished) hincreasing
  simp only [Step.run, runScheduled, runAll, Worker.runEach_eq hprivate, hfault,
    hsettled.workers_eq hfinished, hsettled.idle, lowestFault_of_increasing hincreasing]
  cases (workers.flatMap (Worker.faults mapper disk)).head? <;> rfl

/-- Whatever the order of the steps, a job does what it does when the workers run in the order
of their partitions. -/
theorem runInterleaved_eq (hprivate : mapper.Private) {job : Job ν}
    (horder : Worker.InOrder job.workers) (hfinished : job.Exhausts mapper disk schedule) :
    (runInterleaved mapper schedule).run (job, disk) =
      (runConcurrent mapper).run (job, disk) := by
  have hscheduled : (onWorkers (runScheduled mapper schedule)).run (job, disk) =
      (onWorkers (runAll mapper)).run (job, disk) := by
    have hrun := runScheduled_eq hprivate horder hfinished
    simp only [Step.run] at hrun
    simp only [Step.run, onWorkers, hrun]
  simp only [runInterleaved, runConcurrent, Step.run_bind, Step.run_get, Step.run_ofAttempt]
  cases job.expectStage .created with
  | error fault => rfl
  | ok _ => simp only [hscheduled]

end Job
end ExtentEngine
