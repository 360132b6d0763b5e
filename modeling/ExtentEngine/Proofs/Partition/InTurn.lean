import ExtentEngine.Proofs.Partition.HandedOver
import ExtentEngine.Proofs.Partition.Interleaving

/-!
# Runs one after the other

A sequential run stops at the first failure, and a concurrent one goes on with the other
workers.  In private this makes no difference to what is reported: the workers of lower
partitions succeed in both, and the failure of the lowest partition is the first one.

**Results.**
* `Worker.each_of_eachInTurn` and `Worker.each_of_runAll`: what both ways of running come to.
* `Job.outcome_of_runSequential` and `Job.outcome_of_runConcurrent`: the same for a job.
* `Job.Outcome.agree`: of a job there is one outcome.
-/

namespace ExtentEngine

variable {ν : Type}

namespace Worker

variable {mapper : Mapper ν} {step : Step (Worker ν × Disk) Unit} {disk : Disk}
  {worker : Worker ν} {workers : List (Worker ν)} {fault : Fault}

/-- Whether a step fails for a worker, and with this fault for the one of the lowest partition
among those for which it fails. -/
def LowestFailure (step : Step (Worker ν × Disk) Unit) (disk : Disk) (workers : List (Worker ν))
    (fault : Fault) : Prop :=
  ∃ worker ∈ workers, (step.run (worker, disk)).1 = .error fault ∧
    ∀ other ∈ workers, other.partition.id < worker.partition.id →
      (step.run (other, disk)).1 = .ok ()

theorem LowestFailure.head (horder : InOrder (worker :: workers))
    (hfault : (step.run (worker, disk)).1 = .error fault) :
    LowestFailure step disk (worker :: workers) fault := by
  refine ⟨worker, List.mem_cons_self, hfault, fun other hother hlt => ?_⟩
  rcases List.mem_cons.1 hother with rfl | hother
  · exact absurd hlt (Nat.lt_irrefl _)
  · have hgt := (List.pairwise_cons.1 horder).1 other hother
    exact absurd hlt (Nat.lt_asymm hgt)

theorem LowestFailure.cons (hok : (step.run (worker, disk)).1 = .ok ())
    (h : LowestFailure step disk workers fault) :
    LowestFailure step disk (worker :: workers) fault := by
  obtain ⟨failing, hmem, hfault, hlower⟩ := h
  refine ⟨failing, List.mem_cons_of_mem _ hmem, hfault, ?_⟩
  exact List.forall_mem_cons.2 ⟨fun _ => hok, hlower⟩

/-- Of the workers that fail only one is the lowest. -/
theorem LowestFailure.unique {fault' : Fault} (horder : InOrder workers)
    (h : LowestFailure step disk workers fault) (h' : LowestFailure step disk workers fault') :
    fault = fault' := by
  obtain ⟨worker, hmem, hfault, hlower⟩ := h
  obtain ⟨worker', hmem', hfault', hlower'⟩ := h'
  have hle : worker'.partition.id ≤ worker.partition.id := by
    by_contra hlt
    rw [hlower' worker hmem (Nat.not_le.1 hlt)] at hfault
    cases hfault
  have hge : worker.partition.id ≤ worker'.partition.id := by
    by_contra hlt
    rw [hlower worker' hmem' (Nat.not_le.1 hlt)] at hfault'
    cases hfault'
  have hnodup : (workers.map fun worker => worker.partition.id).Nodup :=
    List.pairwise_map.2 (horder.imp Nat.ne_of_lt)
  obtain rfl := List.inj_on_of_nodup_map hnodup hmem hmem' (Nat.le_antisymm hge hle)
  rw [hfault] at hfault'
  cases hfault'
  rfl

theorem LowestFailure.not_all (h : LowestFailure step disk workers fault) :
    ¬∀ worker ∈ workers, (step.run (worker, disk)).1 = .ok () := by
  obtain ⟨worker, hmem, hfault, -⟩ := h
  intro hall
  rw [hall worker hmem] at hfault
  cases hfault

/-- What a step of every worker comes to: it succeeds for all of them, or the failure of the
lowest partition is reported. -/
inductive Each (step : Step (Worker ν × Disk) Unit) (disk : Disk) (workers : List (Worker ν)) :
    Attempt Unit × List (Worker ν) × Disk → Prop
  | done (h : ∀ worker ∈ workers, (step.run (worker, disk)).1 = .ok ()) :
      Each step disk workers
        (.ok (), workers.map fun worker => (step.run (worker, disk)).2.1, disk)
  | failed {fault : Fault} (h : LowestFailure step disk workers fault)
      (after : List (Worker ν) × Disk) : Each step disk workers (.error fault, after)

/-- A worker that succeeds leaves the outcome to the others. -/
theorem Each.cons {after : Worker ν} {run : Attempt Unit × List (Worker ν) × Disk}
    (hworker : step.run (worker, disk) = (.ok (), after, disk)) (h : Each step disk workers run) :
    Each step disk (worker :: workers) (run.1, after :: run.2.1, run.2.2) := by
  have hok : (step.run (worker, disk)).1 = .ok () := by rw [hworker]
  obtain rfl : (step.run (worker, disk)).2.1 = after := by rw [hworker]
  cases h with
  | done h => exact .done (List.forall_mem_cons.2 ⟨hok, h⟩)
  | failed h after => exact .failed (h.cons hok) _

theorem each_of_eachInTurn (hidle : ∀ worker, (step.run (worker, disk)).2.2 = disk)
    (horder : InOrder workers) : Each step disk workers (eachInTurn step workers disk) := by
  induction workers with
  | nil => exact .done (List.forall_mem_nil _)
  | cons worker workers ih =>
      have hdisk := hidle worker
      rcases hrun : step.run (worker, disk) with ⟨result, after, diskAfter⟩
      rw [hrun] at hdisk
      obtain rfl : diskAfter = disk := hdisk
      simp only [eachInTurn, hrun]
      cases result with
      | error fault => exact .failed (.head horder (by rw [hrun])) _
      | ok _ => exact Each.cons hrun (ih (List.pairwise_cons.1 horder).2)

/-- The failure that is reported first by the lowest partition. -/
theorem head_faults (hprivate : mapper.Private) (horder : InOrder workers) :
    match (workers.flatMap (faults mapper disk)).head? with
    | none => ∀ worker ∈ workers, ((run mapper).run (worker, disk)).1 = .ok ()
    | some entry => LowestFailure (run mapper) disk workers entry.2 := by
  induction workers with
  | nil => exact List.forall_mem_nil _
  | cons worker workers ih =>
      have hrest := ih (List.pairwise_cons.1 horder).2
      rw [List.flatMap_cons, faults_eq hprivate]
      cases hresult : ((run mapper).run (worker, disk)).1 with
      | error fault => exact .head horder hresult
      | ok _ =>
          rw [List.nil_append]
          cases hhead : (workers.flatMap (faults mapper disk)).head? with
          | none =>
              rw [hhead] at hrest
              exact List.forall_mem_cons.2 ⟨hresult, hrest⟩
          | some entry =>
              rw [hhead] at hrest
              exact LowestFailure.cons hresult hrest

theorem each_of_runAll (hprivate : mapper.Private) (horder : InOrder workers) (disk : Disk) :
    Each (run mapper) disk workers ((Job.runAll mapper).run (workers, disk)) := by
  have hhead := @head_faults ν mapper disk workers hprivate horder
  have hlowest := lowestFault_of_increasing (faults_increasing hprivate horder disk)
  simp only [Step.run, Job.runAll, runEach_eq hprivate, hlowest]
  cases hfirst : (workers.flatMap (faults mapper disk)).head? with
  | none =>
      rw [hfirst] at hhead
      exact .done hhead
  | some entry =>
      rw [hfirst] at hhead
      exact .failed hhead _

/-- What closing leaves as it was. -/
theorem idle_close (hprivate : mapper.Private) (worker : Worker ν) (disk : Disk) :
    ((close mapper).run (worker, disk)).2.2 = disk := by
  have hidle := hprivate.close worker.node disk
  simp only [Step.run, close] at hidle ⊢
  split
  · rfl
  · rcases hclose : mapper.close (worker.node, disk) with ⟨result, node, diskAfter⟩
    rw [hclose] at hidle
    cases result <;> exact hidle

end Worker

namespace Job

open Worker

variable {mapper : Mapper ν} {disk : Disk} {job : Job ν}

/-- How a job fails: a worker fails to run, or all run and a node fails to close.  Either way
the failure of the lowest partition counts. -/
inductive Fails (mapper : Mapper ν) (disk : Disk) (job : Job ν) (fault : Fault) : Prop
  | running (h : LowestFailure (run mapper) disk job.workers fault)
  | closing (hrun : ∀ worker ∈ job.workers, ((run mapper).run (worker, disk)).1 = .ok ())
      (h : LowestFailure (close mapper) disk (job.workers.map (ran mapper disk)) fault)

/-- What a run of a job comes to. -/
inductive Outcome (mapper : Mapper ν) (disk : Disk) (job : Job ν) :
    Attempt Unit × Job ν × Disk → Prop
  | completed (hrun : ∀ worker ∈ job.workers, ((run mapper).run (worker, disk)).1 = .ok ())
      (hclose : ∀ worker ∈ job.workers.map (ran mapper disk),
        ((close mapper).run (worker, disk)).1 = .ok ()) :
      Outcome mapper disk job (.ok (), ⟨job.strategy, (job.workers.map (ran mapper disk)).map
        fun worker => ((close mapper).run (worker, disk)).2.1, .completed⟩, disk)
  | failed {fault : Fault} (h : Fails mapper disk job fault) (after : Job ν × Disk) :
      Outcome mapper disk job (.error fault, after)

/-- Runs leave the workers in the order of their partitions. -/
theorem inOrder_ran (hprivate : mapper.Private) {workers : List (Worker ν)}
    (horder : InOrder workers) (disk : Disk) : InOrder (workers.map (ran mapper disk)) := by
  refine List.pairwise_map.2 (horder.imp fun {worker other} hlt => ?_)
  rw [ran, ran, (contained_run hprivate worker disk).id, (contained_run hprivate other disk).id]
  exact hlt

theorem outcome_of_each (hprivate : mapper.Private) (horder : InOrder job.workers)
    {step : Step (List (Worker ν) × Disk) Unit}
    (heach : Each (run mapper) disk job.workers (step.run (job.workers, disk))) :
    Outcome mapper disk job ((onWorkers step >>= fun _ => closeAll mapper).run (job, disk)) := by
  rw [Step.run_bind, run_onWorkers]
  generalize step.run (job.workers, disk) = running at heach ⊢
  cases heach with
  | failed h after => exact .failed (.running h) _
  | done hrun =>
      have hclosed := each_of_eachInTurn (fun worker => idle_close hprivate worker disk)
        (inOrder_ran hprivate horder disk)
      have hran : (fun worker => ((run mapper).run (worker, disk)).2.1) = ran mapper disk := rfl
      simp only [run_closeAll, hran]
      generalize eachInTurn (close mapper) _ disk = closing at hclosed
      cases hclosed with
      | done hclose => exact .completed hrun hclose
      | failed h after => exact .failed (.closing hrun h) _

theorem outcome_of_runConcurrent (hprivate : mapper.Private) (hcreated : job.stage = .created)
    (horder : InOrder job.workers) (disk : Disk) :
    Outcome mapper disk job ((runConcurrent mapper).run (job, disk)) := by
  have houtcome := outcome_of_each hprivate horder (each_of_runAll hprivate horder disk)
  simpa only [runConcurrent, Step.run_bind, Step.run_get, Step.run_ofAttempt, expectStage,
    hcreated, if_true] using houtcome

theorem outcome_of_runSequential (hprivate : mapper.Private) (hcreated : job.stage = .created)
    (horder : InOrder job.workers) (disk : Disk) :
    Outcome mapper disk job ((runSequential mapper).run (job, disk)) := by
  have heach : Each (run mapper) disk job.workers
      (eachInTurn (run mapper) job.workers disk) :=
    each_of_eachInTurn (fun worker => (contained_run hprivate worker disk).idle) horder
  have houtcome := @outcome_of_each ν mapper disk job hprivate horder
    (fun s => eachInTurn (run mapper) s.1 s.2) heach
  simpa only [runSequential, Step.run_bind, Step.run_get, Step.run_ofAttempt, expectStage,
    hcreated, if_true] using houtcome

theorem Fails.unique {fault fault' : Fault} (hprivate : mapper.Private)
    (horder : InOrder job.workers) (h : Fails mapper disk job fault)
    (h' : Fails mapper disk job fault') : fault = fault' := by
  cases h with
  | running h =>
      cases h' with
      | running h' => exact h.unique horder h'
      | closing hrun' _ => exact absurd hrun' h.not_all
  | closing hrun h =>
      cases h' with
      | running h' => exact absurd hrun h'.not_all
      | closing _ h' => exact h.unique (inOrder_ran hprivate horder disk) h'

theorem Fails.not_completed {fault : Fault} (h : Fails mapper disk job fault)
    (hrun : ∀ worker ∈ job.workers, ((run mapper).run (worker, disk)).1 = .ok ()) :
    ¬∀ worker ∈ job.workers.map (ran mapper disk),
      ((close mapper).run (worker, disk)).1 = .ok () := by
  cases h with
  | running h => exact absurd hrun h.not_all
  | closing _ h => exact h.not_all

/-- All runs of a job report the same, and if they succeed they leave the same. -/
theorem Outcome.agree {first second : Attempt Unit × Job ν × Disk} (hprivate : mapper.Private)
    (horder : InOrder job.workers) (h : Outcome mapper disk job first)
    (h' : Outcome mapper disk job second) :
    first.1 = second.1 ∧ (first.1 = .ok () → first = second) := by
  cases h with
  | completed hrun hclose =>
      cases h' with
      | completed _ _ => exact ⟨rfl, fun _ => rfl⟩
      | failed hfails after => exact absurd hclose (hfails.not_completed hrun)
  | failed hfails after =>
      cases h' with
      | completed hrun hclose => exact absurd hclose (hfails.not_completed hrun)
      | failed hfails' after' =>
          obtain rfl := hfails.unique hprivate horder hfails'
          exact ⟨rfl, fun hok => by cases hok⟩

end Job
end ExtentEngine
