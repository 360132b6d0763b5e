import ExtentEngine.Partition.Job

/-!
# Recording the calls of a job

`Mapper.recording` has every node keep record of the pieces that it is given, with the disk
that it finds and the way in which it ends.  `Job.runSeries` runs a job again and again,
whatever the runs come to.

**Results.**
* `runSeries_forget`: a job whose nodes keep record does what the job without records does.
-/

namespace ExtentEngine

/-- A piece as a node took it. -/
structure Call where
  /-- The disk that the node found. -/
  disk : Disk
  extent : Extent
  result : Attempt Unit

/-- A node with its calls, the first one in front. -/
structure Recorded (ν : Type) where
  node : ν
  calls : List Call

/-- The two ways of running a job. -/
inductive RunMode
  | sequential
  | concurrent
deriving DecidableEq, Repr

namespace Step

variable {σ τ α β : Type}

/-- A step on the images of states that does what another one does on the states. -/
def Along (f : σ → τ) (image : Step τ α) (step : Step σ α) : Prop :=
  ∀ s, image.run (f s) = ((step.run s).1, f (step.run s).2)

theorem Along.bind {f : σ → τ} {image : Step τ α} {step : Step σ α} {nextImage : α → Step τ β}
    {next : α → Step σ β} (hstep : Along f image step)
    (hnext : ∀ a, Along f (nextImage a) (next a)) :
    Along f (image >>= nextImage) (step >>= next) := by
  intro s
  simp only [run_bind, hstep s]
  cases step.run s with
  | mk result after =>
      cases result with
      | error fault => rfl
      | ok a => exact hnext a after

theorem Along.get_bind {f : σ → τ} {nextImage : τ → Step τ α} {next : σ → Step σ α}
    (hnext : ∀ s, Along f (nextImage (f s)) (next s)) :
    Along f (Step.get >>= nextImage) (Step.get >>= next) :=
  fun s => hnext s s

theorem Along.ofAttempt (f : σ → τ) (attempt : Attempt α) :
    Along f (Step.ofAttempt attempt) (Step.ofAttempt attempt) :=
  fun _ => rfl

end Step

variable {ν : Type}

/-- The mapper whose nodes keep record of their calls. -/
def Mapper.recording (mapper : Mapper ν) : Mapper (Recorded ν) where
  create id := do
    let node ← mapper.create id
    pure ⟨node, []⟩
  execute extent := fun (recorded, disk) =>
    let (result, node, after) := (mapper.execute extent).run (recorded.node, disk)
    (result, ⟨node, recorded.calls ++ [⟨disk, extent, result⟩]⟩, after)
  close := fun (recorded, disk) =>
    let (result, node, after) := mapper.close.run (recorded.node, disk)
    (result, { recorded with node }, after)

/-- A run of a job. -/
def Job.runBy (mapper : Mapper ν) : RunMode → Step (Job ν × Disk) Unit
  | .sequential => runSequential mapper
  | .concurrent => runConcurrent mapper

/-- Runs a job again and again.  Each run leaves its result, with the stage at which it found
the job. -/
def Job.runSeries (mapper : Mapper ν) :
    List RunMode → Job ν × Disk → List (JobStage × Attempt Unit) × Job ν × Disk
  | [], s => ([], s)
  | mode :: modes, s =>
    let (result, t) := (runBy mapper mode).run s
    let (results, u) := runSeries mapper modes t
    ((s.1.stage, result) :: results, u)

namespace Worker

/-- The worker without the record of its node. -/
def forget (worker : Worker (Recorded ν)) : Worker ν :=
  ⟨worker.node.node, worker.partition, worker.closed⟩

/-- The worker with a record that has no calls. -/
def recorded (worker : Worker ν) : Worker (Recorded ν) :=
  ⟨⟨worker.node, []⟩, worker.partition, worker.closed⟩

theorem runPieces_forget (mapper : Mapper ν) (pieces : List Piece) :
    Step.Along (Prod.map forget id) (runPieces mapper pieces)
      (runPieces mapper.recording pieces) := by
  induction pieces with
  | nil => exact fun _ => rfl
  | cons piece rest ih =>
      rintro ⟨worker, disk⟩
      simp only [Step.run, Prod.map, runPieces, forget, id_eq]
      cases worker.partition.load disk piece with
      | error fault => rfl
      | ok extent =>
          simp only [Mapper.recording, Step.run]
          cases mapper.execute extent (worker.node.node, disk) with
          | mk result after =>
              cases result with
              | error fault => rfl
              | ok _ => exact ih (⟨⟨after.1, _⟩, _, _⟩, after.2)

theorem run_forget (mapper : Mapper ν) :
    Step.Along (Prod.map forget id) (run mapper) (run mapper.recording) :=
  fun s => runPieces_forget mapper s.1.partition.pending s

theorem close_forget (mapper : Mapper ν) :
    Step.Along (Prod.map forget id) (close mapper) (close mapper.recording) := by
  rintro ⟨⟨node, partition, closed⟩, disk⟩
  cases closed with
  | true => rfl
  | false =>
      simp only [Step.run, Prod.map, close, forget, Bool.false_eq_true, if_false,
        Mapper.recording, id_eq]
      cases mapper.close (node.node, disk) with
      | mk result after => cases result <;> rfl

theorem eachInTurn_forget {image : Step (Worker ν × Disk) Unit}
    {step : Step (Worker (Recorded ν) × Disk) Unit}
    (hstep : Step.Along (Prod.map forget id) image step) :
    Step.Along (Prod.map (List.map forget) id) (fun s => eachInTurn image s.1 s.2)
      (fun s => eachInTurn step s.1 s.2) := by
  rintro ⟨workers, disk⟩
  simp only [Step.run, Prod.map, id_eq]
  induction workers generalizing disk with
  | nil => rfl
  | cons worker workers ih =>
      have hworker := hstep (worker, disk)
      simp only [Step.run, Prod.map, id_eq] at hworker
      simp only [List.map_cons, eachInTurn, Step.run, hworker]
      cases step (worker, disk) with
      | mk result after =>
          cases result with
          | error fault => rfl
          | ok _ => simp only [ih, List.map_cons]

theorem runEach_forget (mapper : Mapper ν) (workers : List (Worker (Recorded ν))) :
    ∀ disk, runEach mapper (workers.map forget) disk =
      ((runEach mapper.recording workers disk).1,
        Prod.map (List.map forget) id (runEach mapper.recording workers disk).2) := by
  induction workers with
  | nil => exact fun _ => rfl
  | cons worker workers ih =>
      intro disk
      have hworker := run_forget mapper (worker, disk)
      simp only [Prod.map, id_eq] at hworker ih ⊢
      simp only [List.map_cons, runEach, hworker, ih]
      cases (run mapper.recording).run (worker, disk) with
      | mk result after =>
          cases result with
          | error fault => cases fault <;> rfl
          | ok _ => rfl

end Worker

namespace Job

/-- The job without the records of its nodes. -/
def forget (job : Job (Recorded ν)) : Job ν :=
  ⟨job.strategy, job.workers.map Worker.forget, job.stage⟩

/-- The job with records that have no calls. -/
def recorded (job : Job ν) : Job (Recorded ν) :=
  ⟨job.strategy, job.workers.map Worker.recorded, job.stage⟩

@[simp] theorem forget_recorded (job : Job ν) : job.recorded.forget = job := by
  have h : Worker.forget ∘ Worker.recorded = (id : Worker ν → Worker ν) := rfl
  simp [forget, recorded, h]

/-- The nodes of a job are those with records, without the records. -/
theorem nodes_forget (job : Job (Recorded ν)) :
    job.forget.nodes = job.nodes.map (List.map Recorded.node) := by
  have hworkers : job.forget.workers.map Worker.node =
      (job.workers.map Worker.node).map Recorded.node := by
    simp only [forget, List.map_map]
    rfl
  have hstage : job.forget.stage = job.stage := rfl
  simp only [nodes, expectStage, hworkers, hstage]
  split <;> rfl

theorem onWorkers_forget {image : Step (List (Worker ν) × Disk) Unit}
    {step : Step (List (Worker (Recorded ν)) × Disk) Unit}
    (hstep : Step.Along (Prod.map (List.map Worker.forget) id) image step) :
    Step.Along (Prod.map forget id) (onWorkers image) (onWorkers step) := by
  rintro ⟨job, disk⟩
  have hworkers := hstep (job.workers, disk)
  simp only [Step.run, Prod.map, id_eq] at hworkers
  simp only [Step.run, Prod.map, onWorkers, forget, id_eq, hworkers]

theorem runAll_forget (mapper : Mapper ν) :
    Step.Along (Prod.map (List.map Worker.forget) id) (runAll mapper)
      (runAll mapper.recording) := by
  rintro ⟨workers, disk⟩
  simp only [Step.run, Prod.map, runAll, Worker.runEach_forget, id_eq]
  cases lowestFault (Worker.runEach mapper.recording workers disk).1 <;> rfl

theorem closeAll_forget (mapper : Mapper ν) :
    Step.Along (Prod.map forget id) (closeAll mapper) (closeAll mapper.recording) :=
  (onWorkers_forget (Worker.eachInTurn_forget (Worker.close_forget mapper))).bind
    fun _ _ => rfl

/-- A run whose nodes keep record does what it does without records. -/
theorem runBy_forget (mapper : Mapper ν) (mode : RunMode) :
    Step.Along (Prod.map forget id) (runBy mapper mode) (runBy mapper.recording mode) := by
  cases mode with
  | sequential =>
      refine Step.Along.get_bind fun s => (Step.Along.ofAttempt _ _).bind fun _ => ?_
      refine (onWorkers_forget ?_).bind fun _ => closeAll_forget mapper
      exact Worker.eachInTurn_forget (Worker.run_forget mapper)
  | concurrent =>
      refine Step.Along.get_bind fun s => (Step.Along.ofAttempt _ _).bind fun _ => ?_
      exact (onWorkers_forget (runAll_forget mapper)).bind fun _ => closeAll_forget mapper

/-- A series of runs whose nodes keep record does what it does without records. -/
theorem runSeries_forget (mapper : Mapper ν) (modes : List RunMode) :
    ∀ s : Job (Recorded ν) × Disk,
      runSeries mapper modes (Prod.map forget id s) =
        ((runSeries mapper.recording modes s).1,
          Prod.map forget id (runSeries mapper.recording modes s).2) := by
  induction modes with
  | nil => exact fun _ => rfl
  | cons mode modes ih =>
      intro s
      simp only [runSeries, runBy_forget mapper mode s, ih]
      rfl

end Job
end ExtentEngine
