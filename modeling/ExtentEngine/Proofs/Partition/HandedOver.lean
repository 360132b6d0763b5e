import ExtentEngine.Proofs.Attempt
import ExtentEngine.Proofs.Lists
import ExtentEngine.Proofs.Partition.Coverage
import ExtentEngine.Proofs.Partition.Recording

/-!
# What a job hands over

A piece is handed out before the node sees it, and a run that failed may be repeated.  So the
repetition leaves out the pieces on which nodes failed before, and the nodes of a completed
job have been given every piece once, with or without success.

**Results.**
* `Worker.ran_of_runPieces` and `Job.ran_of_runBy`: what a run makes of a worker and of a job.
* `Job.series_of_runSeries`: what a series of runs makes of a job.
* `Job.calls_of_nodes`: the nodes that a job hands over were given the assigned pieces, each
  of them once, and no call failed if no run did.
* `Job.exists_failed_call_of_nodes`: after a failed run a job may hand over nodes with a failed
  call.
-/

namespace ExtentEngine

variable {ν : Type}

namespace Partition

/-- Whether a call was given a piece of the partition. -/
def Delivers (partition : Partition) (piece : Piece) (call : Call) : Prop :=
  partition.load call.disk piece = .ok call.extent

/-- Whether the pieces of the partition can be loaded from all disks of a kind. -/
def Loadable (kind : Disk → Prop) (partition : Partition) : Prop :=
  ∀ piece ∈ partition.assigned, ∀ disk, kind disk →
    ∃ extent, partition.load disk piece = .ok extent

end Partition

/-- Whether nodes leave a disk of a kind a disk of that kind, and can be closed on it. -/
structure Mapper.Keeps (kind : Disk → Prop) (mapper : Mapper ν) : Prop where
  execute : ∀ extent node disk, kind disk → kind ((mapper.execute extent).run (node, disk)).2.2
  close : ∀ node disk, kind disk → kind (mapper.close.run (node, disk)).2.2
  closes : ∀ node disk, kind disk → (mapper.close.run (node, disk)).1 = .ok ()

namespace Worker

/-- The calls of the worker's node are the pieces that were handed out. -/
def Tracks (worker : Worker (Recorded ν)) : Prop :=
  ∃ done, worker.partition.assigned = done ++ worker.partition.pending ∧
    List.Forall₂ worker.partition.Delivers done worker.node.calls

/-- Whether all calls of the worker's node succeeded. -/
def Succeeded (worker : Worker (Recorded ν)) : Prop :=
  ∀ call ∈ worker.node.calls, call.result = .ok ()

/-- What happens to a worker in the course of a job. -/
structure Moved (before after : Worker (Recorded ν)) : Prop where
  partition : after.partition = { before.partition with pending := after.partition.pending }
  tracks : before.Tracks → after.Tracks
  calls : before.node.calls <+: after.node.calls

theorem Moved.refl (worker : Worker (Recorded ν)) : Moved worker worker :=
  ⟨rfl, id, List.prefix_rfl⟩

theorem Moved.trans {first middle last : Worker (Recorded ν)} (hfirst : Moved first middle)
    (hlast : Moved middle last) : Moved first last where
  partition := by
    rw [hlast.partition, hfirst.partition]
  tracks := hlast.tracks ∘ hfirst.tracks
  calls := hfirst.calls.trans hlast.calls

/-- A failed call is not forgotten. -/
theorem Moved.succeeded {before after : Worker (Recorded ν)} (h : Moved before after)
    (hafter : after.Succeeded) : before.Succeeded :=
  fun call hcall => hafter call (h.calls.subset hcall)

theorem Moved.loadable {kind : Disk → Prop} {before after : Worker (Recorded ν)}
    (h : Moved before after) (hbefore : before.partition.Loadable kind) :
    after.partition.Loadable kind := by
  rw [h.partition]
  exact hbefore

/-- The next piece and the call that it leads to. -/
theorem moved_of_call {worker : Worker (Recorded ν)} {piece : Piece} {rest : List Piece}
    (hpending : worker.partition.pending = piece :: rest) (call : Call) (node : ν)
    (hcall : worker.partition.Delivers piece call) :
    Moved worker ⟨⟨node, worker.node.calls ++ [call]⟩,
      { worker.partition with pending := rest }, worker.closed⟩ where
  partition := rfl
  tracks := by
    rintro ⟨done, hassigned, hdone⟩
    refine ⟨done ++ [piece], ?_, ?_⟩
    · rw [hassigned, hpending, List.append_assoc]
      rfl
    · exact List.rel_append hdone (.cons hcall .nil)
  calls := List.prefix_append _ _

/-- What a run makes of a worker and the disk. -/
structure Ran (mapper : Mapper ν) (before : Worker (Recorded ν) × Disk)
    (run : Attempt Unit × Worker (Recorded ν) × Disk) : Prop where
  moved : Moved before.1 run.2.1
  of_ok : run.1 = .ok () →
    run.2.1.partition.pending = [] ∧ (before.1.Succeeded → run.2.1.Succeeded)
  of_keeps : ∀ kind, mapper.Keeps kind → kind before.2 → before.1.partition.Loadable kind →
    kind run.2.2 ∧ (run.1 ≠ .ok () → ¬run.2.1.Succeeded)

theorem ran_of_runPieces (mapper : Mapper ν) (pieces : List Piece) :
    ∀ (worker : Worker (Recorded ν)) (disk : Disk), worker.partition.pending = pieces →
      pieces ⊆ worker.partition.assigned →
      Ran mapper (worker, disk) ((runPieces mapper.recording pieces).run (worker, disk)) := by
  induction pieces with
  | nil =>
      intro worker disk hpending _
      refine ⟨.refl worker, fun _ => ⟨hpending, id⟩, fun kind _ hkind _ => ⟨hkind, ?_⟩⟩
      exact fun hne => absurd rfl hne
  | cons piece rest ih =>
      intro worker disk hpending hassigned
      cases hload : worker.partition.load disk piece with
      | error fault =>
          simp only [Step.run, runPieces, hload]
          refine ⟨.refl worker, fun hok => (by cases hok), fun kind _ hkind hloadable => ?_⟩
          obtain ⟨extent, hextent⟩ := hloadable piece (hassigned List.mem_cons_self) disk hkind
          rw [hload] at hextent
          cases hextent
      | ok extent =>
          rcases hexecute : (mapper.execute extent).run (worker.node.node, disk) with
            ⟨outcome, node, diskAfter⟩
          have hcall : (mapper.recording.execute extent).run (worker.node, disk) =
              (outcome, ⟨node, worker.node.calls ++ [⟨disk, extent, outcome⟩]⟩, diskAfter) := by
            simp only [Mapper.recording, Step.run] at hexecute ⊢
            rw [hexecute]
          have hkept : ∀ kind, mapper.Keeps kind → kind disk → kind diskAfter := by
            intro kind hkeeps hkind
            have hafter := hkeeps.execute extent worker.node.node disk hkind
            rwa [hexecute] at hafter
          have hmoved := moved_of_call hpending ⟨disk, extent, outcome⟩ node hload
          cases outcome with
          | error fault =>
              simp only [Step.run, runPieces, hload] at hcall ⊢
              rw [hcall]
              refine ⟨hmoved, fun hok => (by cases hok), fun kind hkeeps hkind _ => ?_⟩
              refine ⟨hkept kind hkeeps hkind, fun _ hsucceeded => ?_⟩
              have hfailed := hsucceeded ⟨disk, extent, .error fault⟩ (by simp)
              cases hfailed
          | ok _ =>
              have hran := ih ⟨⟨node, worker.node.calls ++ [⟨disk, extent, .ok ()⟩]⟩,
                { worker.partition with pending := rest }, worker.closed⟩ diskAfter rfl
                fun p hp => hassigned (List.mem_cons_of_mem _ hp)
              simp only [Step.run, runPieces, hload] at hcall hran ⊢
              rw [hcall]
              refine ⟨hmoved.trans hran.moved, fun hok => ?_, fun kind hkeeps hkind hloadable => ?_⟩
              · refine ⟨(hran.of_ok hok).1, fun hbefore => (hran.of_ok hok).2 ?_⟩
                intro call hmem
                rcases List.mem_append.1 hmem with hold | hnew
                · exact hbefore call hold
                · rw [List.mem_singleton.1 hnew]
              · exact hran.of_keeps kind hkeeps (hkept kind hkeeps hkind) hloadable

theorem ran_of_run (mapper : Mapper ν) {worker : Worker (Recorded ν)} (disk : Disk)
    (htracks : worker.Tracks) :
    Ran mapper (worker, disk) ((run mapper.recording).run (worker, disk)) := by
  refine ran_of_runPieces mapper _ worker disk rfl ?_
  obtain ⟨done, hassigned, -⟩ := htracks
  rw [hassigned]
  exact List.subset_append_right done _

/-- What closing makes of a worker and the disk. -/
structure Closed (mapper : Mapper ν) (before : Worker (Recorded ν) × Disk)
    (run : Attempt Unit × Worker (Recorded ν) × Disk) : Prop where
  partition : run.2.1.partition = before.1.partition
  calls : run.2.1.node.calls = before.1.node.calls
  of_keeps : ∀ kind, mapper.Keeps kind → kind before.2 → kind run.2.2 ∧ run.1 = .ok ()

theorem closed_of_close (mapper : Mapper ν) (worker : Worker (Recorded ν)) (disk : Disk) :
    Closed mapper (worker, disk) ((close mapper.recording).run (worker, disk)) := by
  obtain ⟨node, partition, closed⟩ := worker
  cases closed with
  | true => exact ⟨rfl, rfl, fun _ _ hkind => ⟨hkind, rfl⟩⟩
  | false =>
      have hkept : ∀ kind, mapper.Keeps kind → kind disk →
          kind (mapper.close (node.node, disk)).2.2 ∧
            (mapper.close (node.node, disk)).1 = .ok () :=
        fun kind hkeeps hkind =>
          ⟨hkeeps.close node.node disk hkind, hkeeps.closes node.node disk hkind⟩
      simp only [Step.run, close, Bool.false_eq_true, if_false, Mapper.recording]
      revert hkept
      cases mapper.close (node.node, disk) with
      | mk outcome state =>
          cases outcome with
          | error fault => exact fun hkept => ⟨rfl, rfl, hkept⟩
          | ok _ => exact fun hkept => ⟨rfl, rfl, hkept⟩

/-- What a run makes of all workers and the disk. -/
structure AllRan (mapper : Mapper ν) (before : List (Worker (Recorded ν)) × Disk)
    (run : Attempt Unit × List (Worker (Recorded ν)) × Disk) : Prop where
  moved : List.Forall₂ Moved before.1 run.2.1
  of_ok : run.1 = .ok () → (∀ worker ∈ run.2.1, worker.partition.pending = []) ∧
    ((∀ worker ∈ before.1, worker.Succeeded) → ∀ worker ∈ run.2.1, worker.Succeeded)
  of_keeps : ∀ kind, mapper.Keeps kind → kind before.2 →
    (∀ worker ∈ before.1, worker.partition.Loadable kind) →
      kind run.2.2 ∧ (run.1 ≠ .ok () → ∃ worker ∈ run.2.1, ¬worker.Succeeded)

theorem AllRan.nil (mapper : Mapper ν) (disk : Disk) :
    AllRan mapper ([], disk) (.ok (), [], disk) :=
  ⟨.nil, fun _ => ⟨nofun, fun _ => nofun⟩, fun _ _ hkind _ => ⟨hkind, fun hne => absurd rfl hne⟩⟩

/-- A worker that succeeds leaves the outcome to the others. -/
theorem AllRan.cons {mapper : Mapper ν} {worker after : Worker (Recorded ν)}
    {workers : List (Worker (Recorded ν))} {disk diskAfter : Disk}
    {run : Attempt Unit × List (Worker (Recorded ν)) × Disk}
    (hran : Ran mapper (worker, disk) (.ok (), after, diskAfter))
    (hrest : AllRan mapper (workers, diskAfter) run) :
    AllRan mapper (worker :: workers, disk) (run.1, after :: run.2.1, run.2.2) where
  moved := .cons hran.moved hrest.moved
  of_ok hok := by
    obtain ⟨hpending, hsucceeded⟩ := hran.of_ok rfl
    obtain ⟨hpendings, hsucceededs⟩ := hrest.of_ok hok
    refine ⟨List.forall_mem_cons.2 ⟨hpending, hpendings⟩, fun hbefore => ?_⟩
    obtain ⟨hworker, hworkers⟩ := List.forall_mem_cons.1 hbefore
    exact List.forall_mem_cons.2 ⟨hsucceeded hworker, hsucceededs hworkers⟩
  of_keeps kind hkeeps hkind hloadable := by
    obtain ⟨hworker, hworkers⟩ := List.forall_mem_cons.1 hloadable
    have hkept := (hran.of_keeps kind hkeeps hkind hworker).1
    obtain ⟨hkindAfter, hfailed⟩ := hrest.of_keeps kind hkeeps hkept hworkers
    refine ⟨hkindAfter, fun hne => ?_⟩
    obtain ⟨other, hother, hcalls⟩ := hfailed hne
    exact ⟨other, List.mem_cons_of_mem _ hother, hcalls⟩

/-- A worker that fails makes the run fail, whatever becomes of the others. -/
theorem AllRan.cons_error {mapper : Mapper ν} {worker after : Worker (Recorded ν)}
    {workers others : List (Worker (Recorded ν))} {disk diskAfter last : Disk}
    {fault reported : Fault}
    (hran : Ran mapper (worker, disk) (.error fault, after, diskAfter))
    (hmoved : List.Forall₂ Moved workers others)
    (hkept : ∀ kind, mapper.Keeps kind → kind diskAfter →
      (∀ worker ∈ workers, worker.partition.Loadable kind) → kind last) :
    AllRan mapper (worker :: workers, disk) (.error reported, after :: others, last) where
  moved := .cons hran.moved hmoved
  of_ok hok := by cases hok
  of_keeps kind hkeeps hkind hloadable := by
    obtain ⟨hworker, hworkers⟩ := List.forall_mem_cons.1 hloadable
    obtain ⟨hkindAfter, hfailed⟩ := hran.of_keeps kind hkeeps hkind hworker
    refine ⟨hkept kind hkeeps hkindAfter hworkers, fun _ => ?_⟩
    exact ⟨after, List.mem_cons_self, hfailed fun hok => by cases hok⟩

theorem allRan_of_eachInTurn (mapper : Mapper ν) (workers : List (Worker (Recorded ν))) :
    ∀ disk, (∀ worker ∈ workers, worker.Tracks) →
      AllRan mapper (workers, disk) (eachInTurn (run mapper.recording) workers disk) := by
  induction workers with
  | nil => exact fun disk _ => AllRan.nil mapper disk
  | cons worker workers ih =>
      intro disk htracks
      obtain ⟨hworker, hworkers⟩ := List.forall_mem_cons.1 htracks
      have hran := ran_of_run mapper disk hworker
      rcases hrun : (run mapper.recording).run (worker, disk) with ⟨result, after, diskAfter⟩
      rw [hrun] at hran
      simp only [eachInTurn, hrun]
      cases result with
      | error fault =>
          refine AllRan.cons_error hran ?_ fun _ _ hkind _ => hkind
          exact List.forall₂_same.2 fun other _ => Moved.refl other
      | ok _ => exact AllRan.cons hran (ih diskAfter hworkers)

/-- Running every worker fails exactly if failures are delivered. -/
theorem allRan_of_runEach (mapper : Mapper ν) (workers : List (Worker (Recorded ν))) :
    ∀ disk, (∀ worker ∈ workers, worker.Tracks) → ∀ result : Attempt Unit,
      (result = .ok () ↔ (runEach mapper.recording workers disk).1 = []) →
      AllRan mapper (workers, disk) (result, (runEach mapper.recording workers disk).2) := by
  induction workers with
  | nil =>
      intro disk _ result hresult
      rw [hresult.2 rfl]
      exact AllRan.nil mapper disk
  | cons worker workers ih =>
      intro disk htracks result hresult
      obtain ⟨hworker, hworkers⟩ := List.forall_mem_cons.1 htracks
      have hran := ran_of_run mapper disk hworker
      rcases hrun : (run mapper.recording).run (worker, disk) with ⟨outcome, after, diskAfter⟩
      rw [hrun] at hran
      simp only [runEach, hrun] at hresult ⊢
      cases outcome with
      | error fault =>
          have hrest : ∃ other, AllRan mapper (workers, diskAfter)
              (other, (runEach mapper.recording workers diskAfter).2) := by
            by_cases hnil : (runEach mapper.recording workers diskAfter).1 = []
            · exact ⟨_, ih diskAfter hworkers (.ok ()) (iff_of_true rfl hnil)⟩
            · exact ⟨_, ih diskAfter hworkers (.error fault) (iff_of_false (by simp) hnil)⟩
          obtain ⟨other, hrest⟩ := hrest
          cases result with
          | error reported =>
              exact AllRan.cons_error hran hrest.moved fun kind hkeeps hkind hloadable =>
                (hrest.of_keeps kind hkeeps hkind hloadable).1
          | ok _ => exact absurd (hresult.1 rfl) (List.cons_ne_nil _ _)
      | ok _ => exact AllRan.cons hran (ih diskAfter hworkers result hresult)

/-- What closing makes of all workers and the disk. -/
structure AllClosed (mapper : Mapper ν) (before : List (Worker (Recorded ν)) × Disk)
    (run : Attempt Unit × List (Worker (Recorded ν)) × Disk) : Prop where
  workers : List.Forall₂ (fun worker worker' =>
    worker'.partition = worker.partition ∧ worker'.node.calls = worker.node.calls) before.1 run.2.1
  of_keeps : ∀ kind, mapper.Keeps kind → kind before.2 → kind run.2.2 ∧ run.1 = .ok ()

theorem allClosed_of_eachInTurn (mapper : Mapper ν) (workers : List (Worker (Recorded ν))) :
    ∀ disk, AllClosed mapper (workers, disk)
      (eachInTurn (close mapper.recording) workers disk) := by
  induction workers with
  | nil => exact fun disk => ⟨.nil, fun _ _ hkind => ⟨hkind, rfl⟩⟩
  | cons worker workers ih =>
      intro disk
      have hclosed := closed_of_close mapper worker disk
      rcases hclose : (close mapper.recording).run (worker, disk) with ⟨result, after, diskAfter⟩
      rw [hclose] at hclosed
      simp only [eachInTurn, hclose]
      cases result with
      | error fault =>
          refine ⟨.cons ⟨hclosed.partition, hclosed.calls⟩ ?_, hclosed.of_keeps⟩
          exact List.forall₂_same.2 fun other _ => ⟨rfl, rfl⟩
      | ok _ =>
          have hrest := ih diskAfter
          refine ⟨.cons ⟨hclosed.partition, hclosed.calls⟩ hrest.workers, ?_⟩
          intro kind hkeeps hkind
          exact hrest.of_keeps kind hkeeps (hclosed.of_keeps kind hkeeps hkind).1

/-- Closing leaves alone what was handed out and what came of it. -/
theorem moved_of_same {worker worker' : Worker (Recorded ν)}
    (hpartition : worker'.partition = worker.partition)
    (hcalls : worker'.node.calls = worker.node.calls) : Moved worker worker' where
  partition := by rw [hpartition]
  tracks := by
    rintro ⟨done, hassigned, hdone⟩
    exact ⟨done, by rw [hpartition, hassigned], by rwa [hpartition, hcalls]⟩
  calls := hcalls ▸ List.prefix_rfl

theorem moved_trans {first middle last : List (Worker (Recorded ν))}
    (hfirst : List.Forall₂ Moved first middle) (hlast : List.Forall₂ Moved middle last) :
    List.Forall₂ Moved first last :=
  forall₂_trans hfirst hlast fun _ _ _ _ _ _ => Moved.trans

/-- Closing the workers changes nothing about what a run made of them. -/
theorem AllRan.closed {mapper : Mapper ν} {workers ran closed : List (Worker (Recorded ν))}
    {disk middle last : Disk} {outcome : Attempt Unit}
    (hran : AllRan mapper (workers, disk) (.ok (), ran, middle))
    (hclosed : AllClosed mapper (ran, middle) (outcome, closed, last)) :
    AllRan mapper (workers, disk) (outcome, closed, last) where
  moved := moved_trans hran.moved (hclosed.workers.imp fun _ _ h => moved_of_same h.1 h.2)
  of_ok _ := by
    obtain ⟨hpending, hsucceeded⟩ := hran.of_ok rfl
    refine ⟨fun worker hworker => ?_, fun hbefore worker hworker => ?_⟩
    · obtain ⟨other, hother, hpartition, -⟩ := exists_of_mem_right hclosed.workers hworker
      rw [hpartition]
      exact hpending other hother
    · obtain ⟨other, hother, -, hcalls⟩ := exists_of_mem_right hclosed.workers hworker
      rw [Succeeded, hcalls]
      exact hsucceeded hbefore other hother
  of_keeps kind hkeeps hkind hloadable := by
    have hkindMiddle := (hran.of_keeps kind hkeeps hkind hloadable).1
    obtain ⟨hkindLast, hok⟩ := hclosed.of_keeps kind hkeeps hkindMiddle
    exact ⟨hkindLast, fun hne => absurd hok hne⟩

end Worker

theorem lowestFault_eq_none_iff {faults : List (Nat × Fault)} :
    lowestFault faults = none ↔ faults = [] := by
  cases faults with
  | nil => exact iff_of_true rfl rfl
  | cons entry faults =>
      obtain ⟨id, fault⟩ := entry
      refine iff_of_false ?_ (List.cons_ne_nil _ _)
      rw [lowestFault]
      split
      · split <;> exact Option.some_ne_none _
      · exact Option.some_ne_none _

namespace Job

open Worker

/-- What a run makes of a job that was not completed before, and of the disk. -/
structure Ran (mapper : Mapper ν) (before : Job (Recorded ν) × Disk)
    (run : Attempt Unit × Job (Recorded ν) × Disk) : Prop where
  moved : List.Forall₂ Moved before.1.workers run.2.1.workers
  of_ok : run.1 = .ok () → run.2.1.stage = .completed ∧
    (∀ worker ∈ run.2.1.workers, worker.partition.pending = []) ∧
    ((∀ worker ∈ before.1.workers, worker.Succeeded) →
      ∀ worker ∈ run.2.1.workers, worker.Succeeded)
  of_error : run.1 ≠ .ok () → run.2.1.stage = .created
  of_keeps : ∀ kind, mapper.Keeps kind → kind before.2 →
    (∀ worker ∈ before.1.workers, worker.partition.Loadable kind) →
      kind run.2.2 ∧ (run.1 ≠ .ok () → ∃ worker ∈ run.2.1.workers, ¬worker.Succeeded)

theorem allRan_of_runAll (mapper : Mapper ν) {workers : List (Worker (Recorded ν))} (disk : Disk)
    (htracks : ∀ worker ∈ workers, worker.Tracks) :
    AllRan mapper (workers, disk) ((runAll mapper.recording).run (workers, disk)) := by
  have hran := allRan_of_runEach mapper workers disk htracks
  simp only [Step.run, runAll]
  cases hlowest : lowestFault (runEach mapper.recording workers disk).1 with
  | none => exact hran (.ok ()) (iff_of_true rfl (lowestFault_eq_none_iff.1 hlowest))
  | some entry =>
      refine hran (.error entry.2) (iff_of_false (by simp) fun hnil => ?_)
      rw [lowestFault_eq_none_iff.2 hnil] at hlowest
      cases hlowest

theorem run_onWorkers (step : Step (List (Worker ν) × Disk) Unit) (job : Job ν) (disk : Disk) :
    (onWorkers step).run (job, disk) =
      ((step.run (job.workers, disk)).1,
        { job with workers := (step.run (job.workers, disk)).2.1 },
        (step.run (job.workers, disk)).2.2) := rfl

theorem run_closeAll (mapper : Mapper ν) (job : Job ν) (disk : Disk) :
    (closeAll mapper).run (job, disk) =
      match eachInTurn (close mapper) job.workers disk with
      | (.ok (), workers, disk) => (.ok (), { job with workers, stage := .completed }, disk)
      | (.error fault, workers, disk) => (.error fault, { job with workers }, disk) := by
  simp only [closeAll, Step.run_bind]
  simp only [Step.run, onWorkers, Step.modify]
  cases eachInTurn (close mapper) job.workers disk with
  | mk result state => cases result <;> rfl

/-- All workers run, and then they are closed. -/
theorem ran_of_allRan {mapper : Mapper ν} {job : Job (Recorded ν)} {disk : Disk}
    (hcreated : job.stage = .created)
    (step : Step (List (Worker (Recorded ν)) × Disk) Unit)
    (hran : AllRan mapper (job.workers, disk) (step.run (job.workers, disk))) :
    Ran mapper (job, disk)
      ((onWorkers step >>= fun _ => closeAll mapper.recording).run (job, disk)) := by
  rcases hstep : step.run (job.workers, disk) with ⟨result, workers, middle⟩
  rw [hstep] at hran
  cases result with
  | error fault =>
      have hrun : (onWorkers step >>= fun _ => closeAll mapper.recording).run (job, disk) =
          (.error fault, { job with workers }, middle) := by
        simp only [Step.run_bind, run_onWorkers, hstep]
      rw [hrun]
      exact ⟨hran.moved, nofun, fun _ => hcreated, hran.of_keeps⟩
  | ok _ =>
      have hclosed := allClosed_of_eachInTurn mapper workers middle
      rcases hclose : eachInTurn (close mapper.recording) workers middle with
        ⟨outcome, closed, last⟩
      rw [hclose] at hclosed
      have hall := hran.closed hclosed
      cases outcome with
      | error fault =>
          have hrun : (onWorkers step >>= fun _ => closeAll mapper.recording).run (job, disk) =
              (.error fault, { job with workers := closed }, last) := by
            simp only [Step.run_bind, run_onWorkers, hstep, run_closeAll, hclose]
          rw [hrun]
          exact ⟨hall.moved, nofun, fun _ => hcreated, hall.of_keeps⟩
      | ok _ =>
          have hrun : (onWorkers step >>= fun _ => closeAll mapper.recording).run (job, disk) =
              (.ok (), { job with workers := closed, stage := .completed }, last) := by
            simp only [Step.run_bind, run_onWorkers, hstep, run_closeAll, hclose]
          rw [hrun]
          exact ⟨hall.moved, fun _ => ⟨rfl, hall.of_ok rfl⟩, fun hne => absurd rfl hne,
            hall.of_keeps⟩

/-- Workers keep track of their calls. -/
theorem Ran.tracks {mapper : Mapper ν} {before after : Job (Recorded ν)} {disk last : Disk}
    {result : Attempt Unit} (h : Ran mapper (before, disk) (result, after, last))
    (htracks : ∀ worker ∈ before.workers, worker.Tracks) :
    ∀ worker ∈ after.workers, worker.Tracks := by
  intro worker hworker
  obtain ⟨other, hother, hmoved⟩ := exists_of_mem_right h.moved hworker
  exact hmoved.tracks (htracks other hother)

/-- Nothing is left to be handed out once the job is completed. -/
theorem Ran.pending {mapper : Mapper ν} {before after : Job (Recorded ν)} {disk last : Disk}
    {result : Attempt Unit} (h : Ran mapper (before, disk) (result, after, last))
    (hcompleted : after.stage = .completed) :
    ∀ worker ∈ after.workers, worker.partition.pending = [] := by
  by_cases hok : result = .ok ()
  · exact (h.of_ok hok).2.1
  · have hcreated : after.stage = .created := h.of_error hok
    rw [hcreated] at hcompleted
    cases hcompleted

theorem ran_of_runBy (mapper : Mapper ν) (mode : RunMode) {job : Job (Recorded ν)} (disk : Disk)
    (hcreated : job.stage = .created) (htracks : ∀ worker ∈ job.workers, worker.Tracks) :
    Ran mapper (job, disk) ((runBy mapper.recording mode).run (job, disk)) := by
  cases mode with
  | sequential =>
      have hran := ran_of_allRan hcreated
        (fun (workers, disk) => eachInTurn (run mapper.recording) workers disk)
        (allRan_of_eachInTurn mapper job.workers disk htracks)
      simpa only [runBy, runSequential, Step.run_bind, Step.run_get, Step.run_ofAttempt,
        expectStage, hcreated, if_true] using hran
  | concurrent =>
      have hran := ran_of_allRan hcreated _ (allRan_of_runAll mapper disk htracks)
      simpa only [runBy, runConcurrent, Step.run_bind, Step.run_get, Step.run_ofAttempt,
        expectStage, hcreated, if_true] using hran

/-- A completed job cannot be run. -/
theorem runBy_of_completed (mapper : Mapper ν) (mode : RunMode) {job : Job ν} (disk : Disk)
    (hcompleted : job.stage = .completed) :
    (runBy mapper mode).run (job, disk) =
      (.error (.jobStage .created .completed), job, disk) := by
  cases mode <;>
    simp [runBy, runSequential, runConcurrent, expectStage, hcompleted]

/-- Whether no run of a job failed, apart from those that found it completed. -/
def NoRunFailed (results : List (JobStage × Attempt Unit)) : Prop :=
  ∀ entry ∈ results, entry.1 = .created → entry.2 = .ok ()

/-- What a series of runs makes of a job. -/
structure Series (mapper : Mapper ν) (before : Job (Recorded ν) × Disk)
    (series : List (JobStage × Attempt Unit) × Job (Recorded ν) × Disk) : Prop where
  moved : List.Forall₂ Moved before.1.workers series.2.1.workers
  of_completed : series.2.1.stage = .completed →
    ∀ worker ∈ series.2.1.workers, worker.partition.pending = []
  of_noRunFailed : NoRunFailed series.1 → (∀ worker ∈ before.1.workers, worker.Succeeded) →
    ∀ worker ∈ series.2.1.workers, worker.Succeeded
  of_keeps : ∀ kind, mapper.Keeps kind → kind before.2 →
    (∀ worker ∈ before.1.workers, worker.partition.Loadable kind) →
      (∀ worker ∈ series.2.1.workers, worker.Succeeded) → NoRunFailed series.1

/-- A run that finds the job completed leaves it as it is. -/
theorem Series.cons_completed {mapper : Mapper ν} {before : Job (Recorded ν) × Disk}
    {series : List (JobStage × Attempt Unit) × Job (Recorded ν) × Disk}
    (h : Series mapper before series) (result : Attempt Unit) :
    Series mapper before ((.completed, result) :: series.1, series.2) where
  moved := h.moved
  of_completed := h.of_completed
  of_noRunFailed hnone := h.of_noRunFailed (List.forall_mem_cons.1 hnone).2
  of_keeps kind hkeeps hkind hloadable hsucceeded :=
    List.forall_mem_cons.2 ⟨nofun, h.of_keeps kind hkeeps hkind hloadable hsucceeded⟩

/-- A run of a job that was not completed comes before the others. -/
theorem Series.cons {mapper : Mapper ν} {job middle : Job (Recorded ν)} {disk diskMiddle : Disk}
    {result : Attempt Unit} {series : List (JobStage × Attempt Unit) × Job (Recorded ν) × Disk}
    (hran : Ran mapper (job, disk) (result, middle, diskMiddle))
    (hrest : Series mapper (middle, diskMiddle) series) :
    Series mapper (job, disk) ((.created, result) :: series.1, series.2) where
  moved := moved_trans hran.moved hrest.moved
  of_completed := hrest.of_completed
  of_noRunFailed hnone hsucceeded := by
    obtain ⟨hfirst, hothers⟩ := List.forall_mem_cons.1 hnone
    exact hrest.of_noRunFailed hothers ((hran.of_ok (hfirst rfl)).2.2 hsucceeded)
  of_keeps kind hkeeps hkind hloadable hsucceeded := by
    obtain ⟨hkindMiddle, hfailed⟩ := hran.of_keeps kind hkeeps hkind hloadable
    have hloadableMiddle : ∀ worker ∈ middle.workers, worker.partition.Loadable kind := by
      intro worker hworker
      obtain ⟨other, hother, hmoved⟩ := exists_of_mem_right hran.moved hworker
      exact hmoved.loadable (hloadable other hother)
    refine List.forall_mem_cons.2 ⟨fun _ => ?_, ?_⟩
    · by_contra hne
      obtain ⟨worker, hworker, hcalls⟩ := hfailed hne
      obtain ⟨last, hlast, hmoved⟩ := exists_of_mem_left hrest.moved hworker
      exact hcalls (hmoved.succeeded (hsucceeded last hlast))
    · exact hrest.of_keeps kind hkeeps hkindMiddle hloadableMiddle hsucceeded

/-- Runs repeat themselves on a job whose workers track their calls. -/
theorem series_of_runSeries (mapper : Mapper ν) (modes : List RunMode) :
    ∀ (job : Job (Recorded ν)) (disk : Disk), (∀ worker ∈ job.workers, worker.Tracks) →
      (job.stage = .completed → ∀ worker ∈ job.workers, worker.partition.pending = []) →
      Series mapper (job, disk) (runSeries mapper.recording modes (job, disk)) := by
  induction modes with
  | nil =>
      intro job disk _ hpending
      refine ⟨List.forall₂_same.2 fun worker _ => Moved.refl worker, hpending, ?_, ?_⟩
      · exact fun _ hsucceeded => hsucceeded
      · exact fun _ _ _ _ _ => List.forall_mem_nil _
  | cons mode modes ih =>
      intro job disk htracks hpending
      rcases hrun : (runBy mapper.recording mode).run (job, disk) with ⟨result, middle, diskMiddle⟩
      simp only [runSeries, hrun]
      cases hstage : job.stage with
      | completed =>
          rw [runBy_of_completed _ mode disk hstage] at hrun
          cases hrun
          exact (ih job disk htracks hpending).cons_completed _
      | created =>
          have hran := ran_of_runBy mapper mode disk hstage htracks
          rw [hrun] at hran
          exact .cons hran (ih middle diskMiddle (hran.tracks htracks) hran.pending)

end Job

/-- Nothing of a new partition was handed out. -/
theorem Partitioner.pending_of_new {disk : Disk} {dataset : Dataset} {n : Nat}
    {partitioner : Partitioner} (h : Partitioner.new disk dataset n = .ok partitioner) :
    ∀ partition ∈ partitioner.partitions, partition.pending = partition.assigned := by
  rcases new_cases h with ⟨-, -, extent, -, hpartitions⟩ | ⟨-, rfl⟩
  · rw [hpartitions]
    exact List.forall_mem_map.2 fun _ _ => rfl
  · exact List.forall_mem_map.2 fun _ _ => rfl

namespace Job

open Worker

/-- At first a job has a worker with a fresh node for each partition. -/
theorem workers_of_new {mapper : Mapper ν} {disk : Disk} {dataset : Dataset} {n : Nat}
    {partitioner : Partitioner} {job : Job ν}
    (hsplit : Partitioner.new disk dataset n = .ok partitioner)
    (hnew : new mapper disk dataset n = .ok job) :
    job.stage = .created ∧ List.Forall₂ (fun partition worker =>
      worker.partition = partition ∧ mapper.create partition.id = .ok worker.node)
        partitioner.partitions job.workers := by
  obtain ⟨partitioner', hsplit', hworkers⟩ := Attempt.bind_eq_ok.1 hnew
  rw [hsplit] at hsplit'
  cases hsplit'
  obtain ⟨workers, hmap, hjob⟩ := Attempt.bind_eq_ok.1 hworkers
  cases hjob
  refine ⟨rfl, (Attempt.mapM_eq_ok.1 hmap).imp fun partition worker hworker => ?_⟩
  obtain ⟨node, hnode, hpure⟩ := Attempt.bind_eq_ok.1 hworker
  cases hpure
  exact ⟨rfl, hnode⟩

theorem fresh_of_new {mapper : Mapper ν} {disk : Disk} {dataset : Dataset} {n : Nat}
    {partitioner : Partitioner} {job : Job ν}
    (hsplit : Partitioner.new disk dataset n = .ok partitioner)
    (hnew : new mapper disk dataset n = .ok job) (worker : Worker (Recorded ν))
    (hworker : worker ∈ job.recorded.workers) :
    worker.partition ∈ partitioner.partitions ∧ worker.Tracks ∧ worker.Succeeded := by
  obtain ⟨other, hother, rfl⟩ := List.mem_map.1 hworker
  obtain ⟨partition, hpartition, hsame, -⟩ :=
    exists_of_mem_right (workers_of_new hsplit hnew).2 hother
  have hpending := Partitioner.pending_of_new hsplit partition hpartition
  rw [← hsame] at hpartition hpending
  exact ⟨hpartition, ⟨[], hpending.symm, .nil⟩, nofun⟩

/-- The nodes that a job hands over were given the assigned pieces, each of them once.  They
all succeeded if no run failed, and if pieces can always be loaded and nodes always be closed
they succeeded only then. -/
theorem calls_of_nodes (mapper : Mapper ν) {disk disk' : Disk} {dataset : Dataset} {n : Nat}
    {partitioner : Partitioner} (hsplit : Partitioner.new disk dataset n = .ok partitioner)
    {job : Job ν} (hnew : new mapper disk dataset n = .ok job) (modes : List RunMode)
    {nodes : List ν} (hnodes : (runSeries mapper modes (job, disk')).2.1.nodes = .ok nodes) :
    ∃ records, (runSeries mapper.recording modes (job.recorded, disk')).2.1.nodes = .ok records ∧
      records.map Recorded.node = nodes ∧
      List.Forall₂ (fun partition record => List.Forall₂ partition.Delivers partition.assigned
        record.calls) partitioner.partitions records ∧
      (NoRunFailed (runSeries mapper modes (job, disk')).1 →
        ∀ record ∈ records, ∀ call ∈ record.calls, call.result = .ok ()) ∧
      (∀ kind, mapper.Keeps kind → kind disk' →
        (∀ partition ∈ partitioner.partitions, partition.Loadable kind) →
          (∀ record ∈ records, ∀ call ∈ record.calls, call.result = .ok ()) →
            NoRunFailed (runSeries mapper modes (job, disk')).1) := by
  obtain ⟨hcreated, hworkers⟩ := workers_of_new hsplit hnew
  have hfresh := fresh_of_new hsplit hnew
  have hseries := series_of_runSeries mapper modes job.recorded disk'
    (fun worker hworker => (hfresh worker hworker).2.1)
    (fun hcompleted => nomatch hcreated.symm.trans hcompleted)
  have hforget := runSeries_forget mapper modes (job.recorded, disk')
  simp only [Prod.map, forget_recorded, id_eq] at hforget
  rw [hforget] at hnodes ⊢
  generalize runSeries mapper.recording modes (job.recorded, disk') = series at hseries hnodes ⊢
  rw [nodes_forget] at hnodes
  obtain ⟨records, hrecords, hmap⟩ := Attempt.map_eq_ok.1 hnodes
  refine ⟨records, hrecords, hmap, ?_⟩
  obtain ⟨_, hexpect, hpure⟩ := Attempt.bind_eq_ok.1 hrecords
  cases hpure
  have hpending : ∀ worker ∈ series.2.1.workers, worker.partition.pending = [] := by
    refine hseries.of_completed ?_
    by_contra hstage
    rw [expectStage, if_neg hstage] at hexpect
    cases hexpect
  refine ⟨?_, fun hnone => ?_, fun kind hkeeps hkind hloadable hcalls => ?_⟩
  · have hrecorded : List.Forall₂ (fun partition (worker : Worker (Recorded ν)) =>
        worker.partition = partition) partitioner.partitions job.recorded.workers :=
      List.forall₂_map_right_iff.2 (hworkers.imp fun _ _ h => h.1)
    refine List.forall₂_map_right_iff.2 (forall₂_trans hrecorded hseries.moved ?_)
    rintro partition - worker hworker worker' hworker' rfl hmoved
    obtain ⟨done, hassigned, hdone⟩ := hmoved.tracks (hfresh worker hworker).2.1
    rw [hpending worker' hworker', List.append_nil, hmoved.partition] at hassigned
    rw [hmoved.partition] at hdone
    rw [show worker.partition.assigned = done from hassigned]
    exact hdone
  · refine List.forall_mem_map.2 ?_
    exact hseries.of_noRunFailed hnone fun worker hworker => (hfresh worker hworker).2.2
  · refine hseries.of_keeps kind hkeeps hkind ?_ ?_
    · exact fun worker hworker => hloadable _ (hfresh worker hworker).1
    · exact fun worker hworker => hcalls worker.node (List.mem_map_of_mem hworker)

/-- Nodes that collect records and fail on one that they refuse. -/
def collecting (refused : Record) : Mapper (List Record) where
  create _ := .ok []
  execute extent := fun (records, disk) =>
    if refused ∈ extent then (.error (.reported (.new "bad record")), records, disk)
    else (.ok (), records ++ extent, disk)
  close := pure ()

/-- A dataset with two records in an extent each. -/
def twoExtents : Dataset :=
  ⟨[⟨"n", .int64, true⟩], 1, Nat.one_pos, [.memory [[.int 1]], .memory [[.int 2]]], none, none⟩

theorem calls_of_repeated_run : ∃ records,
    (runSeries (collecting [.int 1]).recording [.sequential, .concurrent]
      (⟨.byExtents, [⟨⟨[], []⟩, ⟨0, 2, .byExtents, twoExtents, [.whole 0, .whole 1],
        [.whole 0, .whole 1]⟩, false⟩], .created⟩, .empty)).2.1.nodes = .ok records ∧
    List.Forall₂ (fun partition record => List.Forall₂ partition.Delivers partition.assigned
      record.calls) (Partitioner.byExtents twoExtents 1).partitions records := by
  obtain ⟨records, hrecords, -, hcalls, -⟩ := calls_of_nodes (collecting [.int 1])
    (show Partitioner.new .empty twoExtents 1 = .ok (Partitioner.byExtents twoExtents 1) from rfl)
    rfl [.sequential, .concurrent] rfl
  exact ⟨records, hrecords, hcalls⟩

/-- A job that is run again after a failure may hand over a node with a failed call. -/
theorem exists_failed_call_of_nodes : ∃ job records,
    new (collecting [.int 1]) .empty twoExtents 1 = .ok job ∧
    (runSeries (collecting [.int 1]) [.sequential, .sequential] (job, .empty)).1 =
      [(.created, .error (.reported (.new "bad record"))), (.created, .ok ())] ∧
    (runSeries (collecting [.int 1]).recording [.sequential, .sequential]
      (job.recorded, .empty)).2.1.nodes = .ok records ∧
    ∃ record ∈ records, ∃ call ∈ record.calls, call.result ≠ .ok () :=
  ⟨_, _, rfl, rfl, rfl, _, List.mem_cons_self, _, List.mem_cons_self, nofun⟩

end Job
end ExtentEngine
