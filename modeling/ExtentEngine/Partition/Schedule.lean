import ExtentEngine.Partition.Job

/-!
# Schedules

Workers that run side by side take their steps in an order that nobody controls.  A schedule
says which worker takes the next step: it takes a piece of its partition, finds that none is
left, or adds its failure to the list that all workers share.  When every worker is finished
the failures are sorted by the numbers of the partitions, and the first one counts.
-/

namespace ExtentEngine

variable {ν : Type}

/-- How far a worker has come. -/
inductive Phase
  | running
  /-- The worker failed and has yet to report it. -/
  | failed (fault : Fault)
  | finished
deriving DecidableEq, Repr

/-- A worker that runs beside others. -/
structure Task (ν : Type) where
  worker : Worker ν
  phase : Phase

namespace Task

/-- One step of a worker, with the failure that it reports. -/
def step (mapper : Mapper ν) (disk : Disk) (task : Task ν) :
    Task ν × List (Nat × Fault) × Disk :=
  match task.phase with
  | .finished => (task, [], disk)
  | .failed fault =>
    ({ task with phase := .finished },
      [(task.worker.partition.id, task.worker.reportedFault fault)], disk)
  | .running =>
    match task.worker.partition.pending with
    | [] => ({ task with phase := .finished }, [], disk)
    | piece :: rest =>
      match task.worker.partition.load disk piece with
      | .error fault => ({ task with phase := .failed fault }, [], disk)
      | .ok extent =>
        let partition := { task.worker.partition with pending := rest }
        match (mapper.execute extent).run (task.worker.node, disk) with
        | (.error fault, node, disk) =>
          (⟨{ task.worker with node, partition }, .failed fault⟩, [], disk)
        | (.ok (), node, disk) => (⟨{ task.worker with node, partition }, .running⟩, [], disk)

end Task

/-- Workers that run side by side. -/
structure Crew (ν : Type) where
  tasks : List (Task ν)
  /-- The failures in the order in which they were reported. -/
  faults : List (Nat × Fault)
  disk : Disk

namespace Crew

/-- Workers none of which has taken a step. -/
def start (workers : List (Worker ν)) (disk : Disk) : Crew ν :=
  ⟨workers.map fun worker => ⟨worker, .running⟩, [], disk⟩

/-- The worker at a place takes a step. -/
def tick (mapper : Mapper ν) (crew : Crew ν) (index : Nat) : Crew ν :=
  match crew.tasks[index]? with
  | none => crew
  | some task =>
    let (task, reported, disk) := task.step mapper crew.disk
    ⟨crew.tasks.set index task, crew.faults ++ reported, disk⟩

/-- The workers take their steps as a schedule says. -/
def follow (mapper : Mapper ν) (crew : Crew ν) (schedule : List Nat) : Crew ν :=
  schedule.foldl (tick mapper) crew

/-- Whether every worker is finished. -/
def Finished (crew : Crew ν) : Prop := ∀ task ∈ crew.tasks, task.phase = .finished

/-- The failure that counts, if there is one. -/
def fault? (crew : Crew ν) : Option Fault :=
  (crew.faults.mergeSort fun a b => a.1 ≤ b.1).head?.map (·.2)

end Crew

namespace Job

/-- Lets the workers take their steps as a schedule says. -/
def runScheduled (mapper : Mapper ν) (schedule : List Nat) :
    Step (List (Worker ν) × Disk) Unit := fun (workers, disk) =>
  let crew := (Crew.start workers disk).follow mapper schedule
  match crew.fault? with
  | some fault => (.error fault, (crew.tasks.map Task.worker, crew.disk))
  | none => (.ok (), (crew.tasks.map Task.worker, crew.disk))

/-- Runs the workers side by side in the order of a schedule. -/
def runInterleaved (mapper : Mapper ν) (schedule : List Nat) : Step (Job ν × Disk) Unit := do
  let (job, _) ← Step.get
  Step.ofAttempt (job.expectStage .created)
  onWorkers (runScheduled mapper schedule)
  closeAll mapper

/-- Whether a schedule lets every worker finish. -/
def Exhausts (mapper : Mapper ν) (job : Job ν) (disk : Disk) (schedule : List Nat) : Prop :=
  ((Crew.start job.workers disk).follow mapper schedule).Finished

end Job
end ExtentEngine
