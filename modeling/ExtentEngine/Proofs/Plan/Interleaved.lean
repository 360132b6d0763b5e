import ExtentEngine.Proofs.Partition.Interleaving
import ExtentEngine.Proofs.Plan.Agreement

/-!
# Aggregating side by side

The workers of a plan may take their steps in any order.  What their files are called depends on
that order, and so does which of them meets a file that cannot be written, but the rows in their
tables do not: a step of one worker leaves the tables of the others as they are.

**Results.**
* `Progress.step`: what a step of a worker preserves.
* `Shares.follow`: what any schedule preserves.
* `runScheduled_spec`: what the workers make of their partitions.
* `executeInterleaved_agrees`: under every schedule a plan delivers what it delivers with one table.
-/

namespace ExtentEngine

open SpillingTable Family

namespace AggregationPlan

open Share

/-- How far a worker has come with its part of the input, and the table that has the rows of what is
done.  The table of a worker that failed does not count. -/
inductive Progress (plan : AggregationPlan) (input : Dataset) (extents : List Extent)
    (reported : Prop) : Task AggregationNode → List Extent → List Member → Prop
  | running {worker : Worker AggregationNode} {done todo : List Extent}
      (htaken : plan.Takes done.flatten) (hcovers : worker.partition.Covers input extents todo)
      (hcount : worker.node.rowsRead = (plan.passing done.flatten).length) :
      Progress plan input extents reported ⟨worker, .running⟩ (done ++ todo)
        [(worker.node.table, plan.passing done.flatten)]
  | finished {worker : Worker AggregationNode} {chunk : List Extent}
      (htaken : plan.Takes chunk.flatten)
      (hcount : worker.node.rowsRead = (plan.passing chunk.flatten).length) :
      Progress plan input extents reported ⟨worker, .finished⟩ chunk
        [(worker.node.table, plan.passing chunk.flatten)]
  | failed {worker : Worker AggregationNode} {chunk : List Extent} {fault : Fault}
      (hfails : plan.FailsFor chunk.flatten fault) :
      Progress plan input extents reported ⟨worker, .failed fault⟩ chunk []
  | gone {worker : Worker AggregationNode} {chunk : List Extent} (h : reported) :
      Progress plan input extents reported ⟨worker, .finished⟩ chunk []

/-- What the rows of a part of the input have to be for exact aggregation. -/
structure Exact (plan : AggregationPlan) (chunk : List Extent) : Prop where
  aggregates : ∀ aggregate ∈ plan.grouping.aggregates, aggregate.isExact = true
  floatFree : ∀ record ∈ chunk.flatten, plan.grouping.FloatFree record
  length : chunk.flatten.length ≤ Grouping.mostRows

/-- What a step makes of a worker, of the failures and of the disk. -/
structure Progresses (plan : AggregationPlan) (input : Dataset) (extents : List Extent)
    (reported : Prop) (chunk : List Extent) (others : List Member) (disk : Disk)
    (after : Task AggregationNode × List (Nat × Fault) × Disk) (members' : List Member) :
    Prop where
  progress : plan.Progress input extents (reported ∨ after.2.1 ≠ []) after.1 chunk members'
  sound : Sound plan.grouping (members' ++ others) after.2.2
  fails : ∀ entry ∈ after.2.1, plan.FailsFor chunk.flatten entry.2
  frame : Disk.Frame (fun _ => False) disk after.2.2

variable {plan : AggregationPlan} {input : Dataset} {extents chunk : List Extent}
  {chunks : List (List Extent)} {maxGroups : Nat} {namer : Namer} {disk : Disk}
  {task : Task AggregationNode} {members others : List Member} {reported reported' : Prop}

theorem Progress.mono (h : plan.Progress input extents reported task chunk members)
    (himp : reported → reported') : plan.Progress input extents reported' task chunk members := by
  cases h with
  | running htaken hcovers hcount => exact .running htaken hcovers hcount
  | finished htaken hcount => exact .finished htaken hcount
  | failed hfails => exact .failed hfails
  | gone h => exact .gone (himp h)

/-- A worker takes its next piece, unless none is left. -/
theorem progresses_running {worker : Worker AggregationNode} {done todo : List Extent}
    (hexact : plan.Exact (done ++ todo)) (hinput : input.Readable disk extents)
    (htaken : plan.Takes done.flatten) (hcovers : worker.partition.Covers input extents todo)
    (hcount : worker.node.rowsRead = (plan.passing done.flatten).length)
    (h : Sound plan.grouping ((worker.node.table, plan.passing done.flatten) :: others) disk) :
    ∃ members', plan.Progresses input extents reported (done ++ todo) others disk
      ((⟨worker, .running⟩ : Task AggregationNode).step (plan.mapper maxGroups namer) disk)
      members' := by
  obtain ⟨hdataset, hpieces⟩ := hcovers
  cases hpending : worker.partition.pending with
  | nil =>
      rw [hpending] at hpieces
      cases hpieces
      simp only [Task.step, hpending, List.append_nil]
      exact ⟨_, .finished htaken hcount, h, List.forall_mem_nil _, .refl _ _⟩
  | cons piece rest =>
      rw [hpending] at hpieces
      cases hpieces with
      | @cons _ extent _ todo hpiece hrest =>
          have hload : worker.partition.load disk piece = .ok extent :=
            hpiece.load (hdataset ▸ hinput.loads)
          obtain ⟨haggregates, hfloat, hlength⟩ := hexact
          rw [List.append_cons, List.flatten_append, List.flatten_append, List.flatten_cons,
            List.flatten_nil, List.append_nil] at hfloat hlength
          have hextent := (List.forall_mem_append.1 (List.forall_mem_append.1 hfloat).1).2
          simp only [List.length_append] at hlength
          have hle := plan.length_passing_le done.flatten
          have hframe := AggregationNode.frame_takeAll plan.filter extent worker.node disk
          simp only [Task.step, hpending, hload]
          rcases AggregationNode.takeAll_spec haggregates hextent h (by omega) with
            ⟨htaken', node, after, hrun, hread, hsound⟩ | ⟨fault, hfault, hfails⟩
          · have hexecute : ((plan.mapper maxGroups namer).execute extent).run (worker.node, disk) =
                (.ok (), node, after) := hrun
            have hpassing : plan.passing (done ++ [extent]).flatten =
                plan.passing done.flatten ++ plan.passing extent := by
              rw [List.flatten_concat, passing_append]
            rw [hrun] at hframe
            rw [← hpassing] at hsound
            rw [hexecute, List.append_cons]
            refine ⟨_, .running ?_ ⟨hdataset, hrest⟩ ?_, hsound, List.forall_mem_nil _, hframe⟩
            · rw [List.flatten_concat]
              exact takes_append.2 ⟨htaken, htaken'⟩
            · rw [hpassing, List.length_append, ← hcount]
              exact hread
          · -- Some rows of the piece may be in the table, which does not count from now on.
            rcases hrun : (Step.forEach (AggregationNode.take plan.filter) extent).run
              (worker.node, disk) with ⟨result, node, after⟩
            have hexecute : ((plan.mapper maxGroups namer).execute extent).run (worker.node, disk) =
                (result, node, after) := hrun
            rw [hrun] at hfault hframe
            cases hfault
            rw [hexecute]
            refine ⟨[], .failed (hfails.mono fun htakes => ?_), h.tail.frame hframe,
              List.forall_mem_nil _, hframe⟩
            exact htakes.subset (List.sublist_flatten_of_mem
              (List.mem_append_right _ List.mem_cons_self)).subset

/-- What a step of a worker makes of its table, and of those of the others. -/
theorem Progress.step (h : plan.Progress input extents reported task chunk members)
    (hexact : plan.Exact chunk) (hinput : input.Readable disk extents)
    (hsound : Sound plan.grouping (members ++ others) disk) :
    ∃ members', plan.Progresses input extents reported chunk others disk
      (task.step (plan.mapper maxGroups namer) disk) members' := by
  cases h with
  | running htaken hcovers hcount =>
      exact progresses_running hexact hinput htaken hcovers hcount hsound
  | finished htaken hcount =>
      exact ⟨_, .finished htaken hcount, hsound, List.forall_mem_nil _, .refl _ _⟩
  | @failed worker _ fault hfails =>
      refine ⟨[], .gone (Or.inr (List.cons_ne_nil _ _)), hsound,
        List.forall_mem_singleton.2 (hfails.imp_left fun hfile => ?_), .refl _ _⟩
      rw [Worker.isFileFailure_reportedFault]
      exact hfile
  | gone h => exact ⟨[], .gone (Or.inl h), hsound, List.forall_mem_nil _, .refl _ _⟩

/-- Workers with their parts of the input, some of whose rows are in their tables. -/
structure Shares (plan : AggregationPlan) (input : Dataset) (extents : List Extent)
    (crew : Crew AggregationNode) (shares : List (List Extent × List Member)) : Prop where
  progress : List.Forall₂ (fun task share =>
    plan.Progress input extents (crew.faults ≠ []) task share.1 share.2) crew.tasks shares
  sound : Sound plan.grouping (shares.flatMap Prod.snd) crew.disk
  readable : input.Readable crew.disk extents
  fails : ∀ entry ∈ crew.faults, ∃ chunk ∈ shares.map Prod.fst,
    plan.FailsFor chunk.flatten entry.2

variable {crew : Crew AggregationNode} {shares : List (List Extent × List Member)}

/-- Whichever worker takes a step, all of them keep to their parts of the input. -/
theorem Shares.tick (h : plan.Shares input extents crew shares)
    (hexact : ∀ chunk ∈ shares.map Prod.fst, plan.Exact chunk) (index : Nat) :
    ∃ shares', shares'.map Prod.fst = shares.map Prod.fst ∧
      plan.Shares input extents (crew.tick (plan.mapper maxGroups namer) index) shares' := by
  cases htask : crew.tasks[index]? with
  | none =>
      rw [Crew.tick, htask]
      exact ⟨shares, rfl, h⟩
  | some task =>
      obtain ⟨before, behind, htasks, hset⟩ := Crew.exists_set htask
        (task.step (plan.mapper maxGroups namer) crew.disk).1
      have hprogress := h.progress
      rw [htasks] at hprogress
      obtain ⟨first, ⟨chunk, members⟩, last, rfl, hbefore, htask', hbehind⟩ :=
        exists_opposite hprogress
      -- The table of the worker is moved to the front, where its step is about.
      have hperm (members : List Member) :
          ((first ++ (chunk, members) :: last).flatMap Prod.snd).Perm
            (members ++ (first ++ last).flatMap Prod.snd) := by
        simp only [List.flatMap_append, List.flatMap_cons]
        exact List.perm_append_comm_assoc _ _ _
      have hchunk : chunk ∈ (first ++ (chunk, members) :: last).map Prod.fst :=
        List.mem_map_of_mem (List.mem_append_right _ List.mem_cons_self)
      obtain ⟨members', hstep⟩ := htask'.step (hexact chunk hchunk) h.readable
        (h.sound.perm (hperm members))
      have hchunks : (first ++ (chunk, members') :: last).map Prod.fst =
          (first ++ (chunk, members) :: last).map Prod.fst := by
        simp only [List.map_append, List.map_cons]
      refine ⟨first ++ (chunk, members') :: last, hchunks, ?_⟩
      rw [Crew.tick_eq htask, hset]
      refine ⟨?_, hstep.sound.perm (hperm members').symm,
        h.readable.frame hstep.frame fun _ _ => id, ?_⟩
      · have hreported : crew.faults ++ (task.step (plan.mapper maxGroups namer) crew.disk).2.1 ≠
            [] ↔ crew.faults ≠ [] ∨ (task.step (plan.mapper maxGroups namer) crew.disk).2.1 ≠ [] :=
          by rw [Ne, List.append_eq_nil_iff, not_and_or]
        simp only [hreported]
        exact List.rel_append (hbefore.imp fun _ _ h => h.mono Or.inl)
          (.cons hstep.progress (hbehind.imp fun _ _ h => h.mono Or.inl))
      · rw [hchunks]
        refine List.forall_mem_append.2 ⟨h.fails, fun entry hentry => ?_⟩
        exact ⟨chunk, hchunk, hstep.fails entry hentry⟩

/-- Whatever the order of the steps, workers keep to their parts of the input. -/
theorem Shares.follow (h : plan.Shares input extents crew shares)
    (hexact : ∀ chunk ∈ shares.map Prod.fst, plan.Exact chunk) (schedule : List Nat) :
    ∃ shares', shares'.map Prod.fst = shares.map Prod.fst ∧
      plan.Shares input extents (crew.follow (plan.mapper maxGroups namer) schedule) shares' := by
  induction schedule generalizing crew shares with
  | nil => exact ⟨shares, rfl, h⟩
  | cons index schedule ih =>
      obtain ⟨shares', hsame, hshares⟩ := h.tick hexact index
      obtain ⟨shares'', hsame', hshares'⟩ := ih hshares (hsame ▸ hexact)
      exact ⟨shares'', hsame'.trans hsame, hshares'⟩

section Start

variable {workers : List (Worker AggregationNode)}

theorem exists_progress_start (hbegins : List.Forall₂ (Worker.Begins input extents) workers chunks)
    (plan : AggregationPlan) :
    ∃ shares, shares.map Prod.fst = chunks ∧
      List.Forall₂ (fun task share => plan.Progress input extents reported task share.1 share.2)
        (workers.map fun worker => ⟨worker, .running⟩) shares ∧
      shares.flatMap Prod.snd = emptyTables workers := by
  induction hbegins with
  | nil => exact ⟨[], rfl, .nil, rfl⟩
  | @cons worker chunk workers chunks hworker _ ih =>
      obtain ⟨shares, hchunks, hprogress, hmembers⟩ := ih
      have hfirst : plan.Progress input extents reported ⟨worker, .running⟩ ([] ++ chunk)
          [(worker.node.table, plan.passing ([] : List Extent).flatten)] :=
        .running plan.takes_nil hworker.covers hworker.rowsRead
      exact ⟨(chunk, [(worker.node.table, [])]) :: shares, congrArg (chunk :: ·) hchunks,
        .cons hfirst hprogress, congrArg ((worker.node.table, []) :: ·) hmembers⟩

variable {job : Job AggregationNode}

/-- Workers that have not begun have no rows in their tables. -/
theorem Opens.exists_shares (hopens : plan.Opens maxGroups namer input extents job chunks)
    (hinput : input.Readable disk extents) :
    ∃ shares, shares.map Prod.fst = chunks ∧
      plan.Shares input extents (Crew.start job.workers disk) shares := by
  obtain ⟨shares, hchunks, hprogress, hmembers⟩ := exists_progress_start hopens.begins plan
  have hsound := sound_emptyTables disk hopens.creates
  rw [List.append_nil, ← hmembers] at hsound
  exact ⟨shares, hchunks, hprogress, hsound, hinput, List.forall_mem_nil _⟩

end Start

/-- Workers that are finished without a failure have the rows of their parts of the input. -/
theorem hold_of_finished {tasks : List (Task AggregationNode)} (hnot : ¬reported)
    (h : List.Forall₂ (fun task share =>
      plan.Progress input extents reported task share.1 share.2) tasks shares)
    (hfinished : ∀ task ∈ tasks, task.phase = .finished) :
    plan.Takes (shares.map Prod.fst).flatten.flatten ∧
      ∃ held : List Share, held.map Prod.fst = tasks.map Task.worker ∧
        (∀ share ∈ held, share.1.node.rowsRead = share.2.length) ∧
        (held.map Prod.snd).flatten = plan.passing (shares.map Prod.fst).flatten.flatten ∧
        held.map member = shares.flatMap Prod.snd := by
  induction h with
  | nil => exact ⟨plan.takes_nil, [], rfl, List.forall_mem_nil _, rfl, rfl⟩
  | @cons task share tasks shares hfirst _ ih =>
      obtain ⟨hphase, hphases⟩ := List.forall_mem_cons.1 hfinished
      obtain ⟨htaken, held, hworkers, hcounts, hrows, hmembers⟩ := ih hphases
      obtain ⟨chunk, members⟩ := share
      have hfirst : plan.Progress input extents reported task chunk members := hfirst
      cases hfirst with
      | running => cases hphase
      | failed => cases hphase
      | gone h => exact absurd h hnot
      | @finished worker _ htakes hcount =>
          rw [List.map_cons, List.flatten_cons, List.flatten_append, passing_append]
          refine ⟨takes_append.2 ⟨htakes, htaken⟩, (worker, plan.passing chunk.flatten) :: held,
            congrArg (worker :: ·) hworkers, List.forall_mem_cons.2 ⟨hcount, hcounts⟩,
            congrArg (plan.passing chunk.flatten ++ ·) hrows, ?_⟩
          rw [List.map_cons, List.flatMap_cons, hmembers]
          rfl

section Execute

variable {maxGroups' partitions : Nat} {namer' : Namer} {schedule : List Nat}
  {job : Job AggregationNode}

/-- Workers who take their steps in any order hold the rows between them once all of them are
finished, or fail. -/
theorem runScheduled_spec
    (hexact : ∀ aggregate ∈ plan.grouping.aggregates, aggregate.isExact = true)
    (hinput : input.Readable disk extents)
    (hfloat : ∀ record ∈ extents.flatten, plan.grouping.FloatFree record)
    (hlength : extents.flatten.length ≤ Grouping.mostRows)
    (hopens : plan.Opens maxGroups namer input extents job chunks)
    (hexhausts : job.Exhausts (plan.mapper maxGroups namer) disk schedule) :
    plan.Fills extents.flatten
      ((Job.runScheduled (plan.mapper maxGroups namer) schedule).run (job.workers, disk)) := by
  have hpart : ∀ chunk ∈ chunks, chunk.flatten.Sublist extents.flatten := by
    intro chunk hchunk
    rw [← hopens.flatten]
    exact (List.sublist_flatten_of_mem hchunk).flatten
  have hchunks : ∀ chunk ∈ chunks, plan.Exact chunk := fun chunk hchunk =>
    ⟨hexact, fun record hrecord => hfloat record ((hpart chunk hchunk).subset hrecord),
      (hpart chunk hchunk).length_le.trans hlength⟩
  obtain ⟨shares, rfl, hstart⟩ := hopens.exists_shares hinput
  obtain ⟨shares', hsame, hshares⟩ := hstart.follow hchunks schedule
  have hfinished : ((Crew.start job.workers disk).follow (plan.mapper maxGroups namer)
    schedule).Finished := hexhausts
  simp only [Step.run, Job.runScheduled]
  generalize (Crew.start job.workers disk).follow (plan.mapper maxGroups namer) schedule = crew
    at hshares hfinished ⊢
  cases hfault : crew.fault? with
  | some fault =>
      obtain ⟨entry, hentry, rfl⟩ := Crew.exists_of_fault? hfault
      obtain ⟨chunk, hchunk, hfails⟩ := hshares.fails entry hentry
      rw [hsame] at hchunk
      exact Or.inr ⟨entry.2, rfl,
        hfails.mono fun htakes => htakes.subset (hpart chunk hchunk).subset⟩
  | none =>
      have hnone := Crew.faults_eq_nil hfault
      obtain ⟨htaken, held, hworkers, hcounts, hrows, hmembers⟩ :=
        hold_of_finished (fun hne => hne hnone) hshares.progress hfinished
      rw [hsame, hopens.flatten] at htaken hrows
      have hsound : Sound plan.grouping (held.map member ++ []) crew.disk := by
        rw [hmembers, List.append_nil]
        exact hshares.sound
      refine Or.inl ⟨htaken, held, crew.disk, ?_, hcounts, hrows, hsound⟩
      rw [hworkers]

theorem runs_runInterleaved (plan : AggregationPlan) (maxGroups : Nat) (namer : Namer)
    (schedule : List Nat) :
    plan.Runs maxGroups namer (Job.runScheduled (plan.mapper maxGroups namer) schedule)
      (Job.runInterleaved (plan.mapper maxGroups namer) schedule) := by
  intro job disk hstage
  simp only [Job.runInterleaved, Step.run_bind, Step.run_get, Step.run_ofAttempt, Job.expectStage,
    hstage, if_true]

/-- The workers of a plan may take their steps in any order: under every schedule that lets them
finish the plan succeeds if it does with one table, and delivers the same counts and the same
records in some order. -/
theorem executeInterleaved_agrees
    (hexact : ∀ aggregate ∈ plan.grouping.aggregates, aggregate.isExact = true)
    (hinput : input.Readable disk extents)
    (hfloat : ∀ record ∈ extents.flatten, plan.grouping.FloatFree record)
    (hlength : extents.flatten.length < 2 ^ 63) (hpartitions : 0 < partitions)
    (hpos : 0 < maxGroups) (hpos' : 0 < maxGroups')
    (hexhausts : ∀ job, plan.openJob partitions maxGroups' namer' input disk = .ok job →
      job.Exhausts (plan.mapper maxGroups' namer') disk schedule)
    (hfiles : FilesWork (plan.execute maxGroups namer input disk).1.result)
    (hfiles' : FilesWork
      (plan.executeInterleaved schedule partitions maxGroups' namer' input disk).1.result) :
    ((∃ counts, (plan.executeInterleaved schedule partitions maxGroups' namer' input
        disk).1.result = .ok counts) ↔
      ∃ counts, (plan.execute maxGroups namer input disk).1.result = .ok counts) ∧
    ∀ counts counts',
      (plan.executeInterleaved schedule partitions maxGroups' namer' input disk).1.result =
        .ok counts →
      (plan.execute maxGroups namer input disk).1.result = .ok counts' →
      counts = counts' ∧
        (plan.executeInterleaved schedule partitions maxGroups' namer' input disk).1.rows.Perm
          (plan.execute maxGroups namer input disk).1.rows := by
  have hmost : extents.flatten.length ≤ Grouping.mostRows := Nat.le_sub_one_of_lt hlength
  have hserial : plan.Conforms input.schema extents.flatten
      (plan.execute maxGroups namer input disk).1 :=
    conforms_execute hexact hinput hfloat hmost hpos hfiles
  have hinterleaved : plan.Conforms input.schema extents.flatten
      (plan.executeInterleaved schedule partitions maxGroups' namer' input disk).1 :=
    conforms_executeJob (runs_runInterleaved plan maxGroups' namer' schedule) hinput hmost
      hpartitions hpos' (fun job _ hopen hopens =>
        runScheduled_spec hexact hinput hfloat hmost hopens (hexhausts job hopen)) hfiles'
  exact ⟨hinterleaved.ok_iff.trans hserial.ok_iff.symm,
    fun _ _ hok hok' => hinterleaved.agree hserial hok hok'⟩

/-- The second worker takes its piece before the first one. -/
theorem executeInterleaved_agrees_small :
    (smallPlan.executeInterleaved [1, 0, 1, 0] 2 1 (.inDirectory "/tmp") smallInput
        .empty).1.result = .ok ⟨3, 2⟩ ∧
      (smallPlan.executeInterleaved [1, 0, 1, 0] 2 1 (.inDirectory "/tmp") smallInput
        .empty).1.rows.Perm
        (smallPlan.execute 8 (.inDirectory "/tmp") smallInput .empty).1.rows := by
  have hserial : (smallPlan.execute 8 (.inDirectory "/tmp") smallInput .empty).1.result =
      .ok ⟨3, 2⟩ := by
    decide +kernel
  have hresult : (smallPlan.executeInterleaved [1, 0, 1, 0] 2 1 (.inDirectory "/tmp") smallInput
      .empty).1.result = .ok ⟨3, 2⟩ := by
    decide +kernel
  have hfinished : ∀ job ∈ (smallPlan.openJob 2 1 (.inDirectory "/tmp") smallInput
      .empty).toOption, ∀ task ∈ ((Crew.start job.workers .empty).follow
        (smallPlan.mapper 1 (.inDirectory "/tmp")) [1, 0, 1, 0]).tasks, task.phase = .finished := by
    decide +kernel
  obtain ⟨-, hagrees⟩ := @executeInterleaved_agrees smallPlan smallInput _ 8 (.inDirectory "/tmp")
    .empty 1 2 (.inDirectory "/tmp") [1, 0, 1, 0] (by decide) readable_smallInput
    floatFree_smallInput (by decide) Nat.two_pos (by decide) Nat.one_pos
    (fun job hopen => hfinished job (by rw [hopen]; rfl)) (hserial ▸ filesWork_ok _)
    (hresult ▸ filesWork_ok _)
  exact ⟨hresult, (hagrees _ _ hresult hserial).2⟩

end Execute

end AggregationPlan
end ExtentEngine
