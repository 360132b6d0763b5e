import ExtentEngine.Partition.Basic

/-!
# Jobs

A job maps the partitions of a dataset to nodes and reduces the nodes to a result.  Each
partition has a worker with a node of its own, and the worker feeds its node the pieces of
its partition one by one.

* `runSequential` lets the workers run one after the other and stops at the first failure.
* `runConcurrent` lets every worker run to its end or its failure, and reports the failure
  of the lowest partition.  Workers share nothing but the disk.  Here they run in the order of
  their partitions.  `Crew` has them take their steps in any order, which comes to the same if
  nodes leave the disk alone.  Nodes that write files find other names for them in another order,
  but the tables of an aggregation have the same rows then.

After all workers have succeeded their nodes are closed, and only then can the job be
reduced.
-/

namespace ExtentEngine

/-- What the nodes of a job do. -/
structure Mapper (ν : Type) where
  /-- The node of a partition. -/
  create : Nat → Attempt ν
  /-- Takes one piece of the partition. -/
  execute : Extent → Step (ν × Disk) Unit
  /-- Follows the last piece. -/
  close : Step (ν × Disk) Unit

/-- A node with the partition that it works on. -/
structure Worker (ν : Type) where
  node : ν
  partition : Partition
  closed : Bool

namespace Worker

variable {ν : Type}

/-- Feeds the node the given pieces, which are the pending ones.  A piece is handed out
before the node sees it, so one that the node fails on is not handed out again. -/
def runPieces (mapper : Mapper ν) : List Piece → Step (Worker ν × Disk) Unit
  | [] => pure ()
  | piece :: rest => fun (worker, disk) =>
    match worker.partition.load disk piece with
    | .error fault => (.error fault, (worker, disk))
    | .ok extent =>
      let partition := { worker.partition with pending := rest }
      match (mapper.execute extent).run (worker.node, disk) with
      | (.error fault, node, disk) => (.error fault, ({ worker with node, partition }, disk))
      | (.ok (), node, disk) => runPieces mapper rest ({ worker with node, partition }, disk)

/-- Feeds the node what is left of its partition. -/
def run (mapper : Mapper ν) : Step (Worker ν × Disk) Unit := fun (worker, disk) =>
  runPieces mapper worker.partition.pending (worker, disk)

/-- Closes the node, unless it is closed. -/
def close (mapper : Mapper ν) : Step (Worker ν × Disk) Unit := fun (worker, disk) =>
  if worker.closed then (.ok (), (worker, disk))
  else
    match mapper.close.run (worker.node, disk) with
    | (.error fault, node, disk) => (.error fault, ({ worker with node }, disk))
    | (.ok (), node, disk) => (.ok (), ({ worker with node, closed := true }, disk))

/-- Lets the workers do a step one after the other, up to the first failure. -/
def eachInTurn (step : Step (Worker ν × Disk) Unit) :
    List (Worker ν) → Disk → Attempt Unit × List (Worker ν) × Disk
  | [], disk => (.ok (), [], disk)
  | worker :: workers, disk =>
    match step.run (worker, disk) with
    | (.error fault, worker, disk) => (.error fault, worker :: workers, disk)
    | (.ok (), worker, disk) =>
      let (result, workers, disk) := eachInTurn step workers disk
      (result, worker :: workers, disk)

/-- A failure as the job reports it: a worker that gave up is named by its partition. -/
def reportedFault (worker : Worker ν) : Fault → Fault
  | .abandoned => .workerAbandoned worker.partition.id
  | fault => fault

/-- Lets every worker run, and delivers the failures with the numbers of their partitions. -/
def runEach (mapper : Mapper ν) :
    List (Worker ν) → Disk → List (Nat × Fault) × List (Worker ν) × Disk
  | [], disk => ([], [], disk)
  | worker :: workers, disk =>
    let (result, worker, disk) := (run mapper).run (worker, disk)
    let (faults, workers, disk) := runEach mapper workers disk
    match result with
    | .ok () => (faults, worker :: workers, disk)
    | .error fault =>
      ((worker.partition.id, worker.reportedFault fault) :: faults, worker :: workers, disk)

end Worker

/-- The failure of the lowest partition; of two with one number the earlier one. -/
def lowestFault : List (Nat × Fault) → Option (Nat × Fault)
  | [] => none
  | (id, fault) :: faults =>
    match lowestFault faults with
    | some (other, otherFault) =>
      if other < id then some (other, otherFault) else some (id, fault)
    | none => some (id, fault)

/-- A job over the partitions of a dataset. -/
structure Job (ν : Type) where
  strategy : SplitStrategy
  workers : List (Worker ν)
  stage : JobStage

namespace Job

variable {ν : Type}

/-- Splits a dataset and makes a node for each partition. -/
def new (mapper : Mapper ν) (disk : Disk) (dataset : Dataset) (partitions : Nat) :
    Attempt (Job ν) := do
  let partitioner ← Partitioner.new disk dataset partitions
  let workers ← partitioner.partitions.mapM fun partition => do
    let node ← mapper.create partition.id
    pure ⟨node, partition, false⟩
  pure ⟨partitioner.strategy, workers, .created⟩

/-- Fails unless the job is at the given stage. -/
def expectStage (job : Job ν) (stage : JobStage) : Attempt Unit :=
  if job.stage = stage then .ok () else .error (.jobStage stage job.stage)

/-- Does a step on the workers. -/
def onWorkers (step : Step (List (Worker ν) × Disk) Unit) : Step (Job ν × Disk) Unit :=
  fun (job, disk) =>
    let (result, workers, disk) := step.run (job.workers, disk)
    (result, ({ job with workers }, disk))

/-- Closes the nodes and completes the job. -/
def closeAll (mapper : Mapper ν) : Step (Job ν × Disk) Unit := do
  onWorkers fun (workers, disk) => Worker.eachInTurn (Worker.close mapper) workers disk
  Step.modify fun (job, disk) => ({ job with stage := .completed }, disk)

/-- Lets every worker run; the failure of the lowest partition counts. -/
def runAll (mapper : Mapper ν) : Step (List (Worker ν) × Disk) Unit := fun (workers, disk) =>
  let (faults, workers, disk) := Worker.runEach mapper workers disk
  match lowestFault faults with
  | some (_, fault) => (.error fault, (workers, disk))
  | none => (.ok (), (workers, disk))

/-- Runs the workers side by side. -/
def runConcurrent (mapper : Mapper ν) : Step (Job ν × Disk) Unit := do
  let (job, _) ← Step.get
  Step.ofAttempt (job.expectStage .created)
  onWorkers (runAll mapper)
  closeAll mapper

/-- Runs the workers one after the other. -/
def runSequential (mapper : Mapper ν) : Step (Job ν × Disk) Unit := do
  let (job, _) ← Step.get
  Step.ofAttempt (job.expectStage .created)
  onWorkers fun (workers, disk) => Worker.eachInTurn (Worker.run mapper) workers disk
  closeAll mapper

/-- The nodes in the order of their partitions, once the job is completed. -/
def nodes (job : Job ν) : Attempt (List ν) := do
  job.expectStage .completed
  pure (job.workers.map Worker.node)

/-- Hands the nodes to a reducer, in the order of their partitions. -/
def reduce {σ : Type} (consume : ν → Step σ Unit) (job : Job ν) : Step σ Unit := do
  let nodes ← Step.ofAttempt job.nodes
  Step.forEach consume nodes

end Job

/-- A pool of threads, for the workers of a job to run on. -/
structure ThreadPool where
  threads : Nat
  threads_pos : 0 < threads
deriving Repr

namespace ThreadPool

/-- A pool of at least one thread. -/
def new (threads : Nat) : Attempt ThreadPool :=
  if h : 0 < threads then .ok ⟨threads, h⟩ else .error .noThreads

/-- The text by which a pool is shown to those who look into the engine. -/
def describe (pool : ThreadPool) : List Char :=
  "Scheduler \x7b num_threads: ".toList ++ Digits.ofNat 10 pool.threads ++ ", .. \x7d".toList

end ThreadPool
end ExtentEngine
