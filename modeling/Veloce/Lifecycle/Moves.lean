import Veloce.Lifecycle.Records

/-! What one critical section, or one turn of a pass, can do to the record of a job. -/

namespace Veloce

open Collections

/-- The record shows that the job was dispatched. -/
def JobInfo.Attached (job : JobInfo) : Prop :=
  job.startTime ≠ none ∨ job.assignedWorkers ≠ [] ∨ job.status.terminal = true

/-- The events that take a record out of the table. -/
inductive Event.Removes (leader : Leader) (jobId : JobId) (job : JobInfo) : Event → Prop where
  | failed {report : Report} (error : String) (now : Nat) (about : report.jobId = jobId) :
      Removes leader jobId job (.jobError report error now)
  | killed {report : Report} (now : Nat) (about : report.jobId = jobId) :
      Removes leader jobId job (.jobKilled report now)
  | finished {index : Nat} {report : Report} {exitCode : Int} {logFiles : HashMap WorkerId WorkerLogFiles}
      (stdoutId stderrId : Option String) (now : Nat)
      (task : leader.tasks[index]? = some (.finishing report exitCode logFiles)) (about : report.jobId = jobId) :
      Removes leader jobId job (.finishDone index stdoutId stderrId now)
  | canceled (caller : Caller) (now : Nat) : Removes leader jobId job (.cancel caller jobId now)
  | expired (order : IterOrder ControllerContext.TimeoutSite) (now : Nat) (attached : job.Attached)
      (unfinished : job.status.terminal = false) : Removes leader jobId job (.checkTimeouts order now)
  | pruned (retentionSeconds now : Nat) (finished : job.status.terminal = true) :
      Removes leader jobId job (.prune retentionSeconds now)

inductive Move (leader : Leader) (jobId : JobId) : Event → Option JobInfo → Option JobInfo → Prop where
  | kept {event : Event} {before after : Option JobInfo}
      (same : after.map JobInfo.core = before.map JobInfo.core) : Move leader jobId event before after
  | submitted {before : Option JobInfo} (submission : Submission) (nextJobId : Nat)
      (id : submission.job.id = jobId) :
      Move leader jobId (.submit submission nextJobId) before (some submission.job)
  | evicted {job : JobInfo} (running : job.status = .running) :
      Move leader jobId (.preempt jobId) (some job) (some job.requeued)
  | claimed {job after : JobInfo} {report : Report} (about : report.jobId = jobId)
      (same : after.core = (job.id, .running, job.assignedWorkers, job.startTime)) :
      Move leader jobId (.jobStarted report) (some job) (some after)
  | reaped {job : JobInfo} (order : IterOrder Unit) {workerId : WorkerId} (active : List JobId) (now : Nat)
      (running : job.runsOn workerId = true) :
      Move leader jobId (.reconcile order workerId active now) (some job)
        (some (job.finalized (.failed "Process exited or failed to start") now))
  | removed {event : Event} {job : JobInfo} (removes : event.Removes leader jobId job) :
      Move leader jobId event (some job) none

inductive TurnMove (victims : List JobId) (turnOf jobId : JobId) : Option JobInfo → Option JobInfo → Prop where
  | kept {before after : Option JobInfo} (same : after.map JobInfo.core = before.map JobInfo.core) :
      TurnMove victims turnOf jobId before after
  | evicted {job after : JobInfo} (victim : jobId ∈ victims) (running : job.status = .running)
      (same : after.core = job.requeued.core) : TurnMove victims turnOf jobId (some job) (some after)
  | started {job after : JobInfo} (turn : jobId = turnOf) (pending : job.status = .pending)
      (running : after.status = .running) (assigned : after.assignedWorkers ≠ []) :
      TurnMove victims turnOf jobId (some job) (some after)

theorem TurnMove.found_back {victims : List JobId} {turnOf jobId : JobId} {before : Option JobInfo} {job' : JobInfo}
    (move : TurnMove victims turnOf jobId before (some job')) : ∃ job, before = some job := by
  cases move with
  | kept same =>
    obtain ⟨job, stands, _⟩ := Option.map_eq_some_iff.mp same.symm
    exact ⟨job, stands⟩
  | evicted _ _ _ => exact ⟨_, rfl⟩
  | started _ _ _ _ => exact ⟨_, rfl⟩

theorem turn_move {input : PassInput} {turn : Nat} {pass next : PassState} {turnOf : JobId}
    (outcome : TurnOutcome input turn pass turnOf next) (jobId : JobId) :
    TurnMove (turnVictims input turn pass turnOf) turnOf jobId (pass.state.jobs.get? jobId)
      (next.state.jobs.get? jobId) := by
  cases outcome with
  | skip _ _ => exact .kept rfl
  | wait _ _ _ reworded _ => exact .kept (reworded.core jobId)
  | @start job placement cleared started found pending chosen reworded placed starts =>
    by_cases own : jobId = turnOf
    · subst own
      obtain ⟨stored, found', status, _⟩ := reworded.pending found pending
      obtain ⟨workers, _, _, opens⟩ := start_opens starts found' status
      rw [found, opens.opened]
      exact .started rfl pending rfl (placeJob_ok placed).nonempty
    · rw [startJob_others starts own]
      have core := reworded.core jobId
      cases found' : cleared.jobs.get? jobId with
      | none =>
        refine .kept ?_
        rw [← core, found']
        simp
      | some middle =>
        obtain ⟨before, present, same⟩ := reworded.found_back found'
        have equal := unworded_core same
        rw [present]
        split
        · rename_i victim
          have listed : jobId ∈ turnVictims input turn pass turnOf := by
            rw [turnVictims, chosen]
            exact victim
          by_cases running : middle.status = .running
          · have was : before.status = .running := (congrArg (·.2.1) equal).symm.trans running
            rw [Option.map_some, JobInfo.evicted, if_pos running]
            exact .evicted listed was (congrArg (fun core => (core.1, JobStatus.pending, [], none)) equal)
          · rw [Option.map_some, JobInfo.evicted, if_neg running]
            exact .kept (congrArg some equal)
        · exact .kept (congrArg some equal)

private theorem move_removed {leader : Leader} {event : Event} {jobId target : JobId} {before after : Option JobInfo}
    (table : after = if jobId = target then none else before)
    (removes : ∀ job, jobId = target → event.Removes leader jobId job) : Move leader jobId event before after := by
  subst table
  split
  · rename_i same
    cases before with
    | none => exact .kept rfl
    | some job => exact .removed (removes job same)
  · exact .kept rfl

private theorem checkTimeouts_record {ctx : ControllerContext} (sound : Sound ctx.state)
    (order : IterOrder ControllerContext.TimeoutSite) (now : Nat) (jobId : JobId) :
    (ControllerContext.checkTimeouts order ctx now).state.jobs.get? jobId = ctx.state.jobs.get? jobId ∨
      (ControllerContext.checkTimeouts order ctx now).state.jobs.get? jobId = none ∧
        ∃ job, ctx.state.jobs.get? jobId = some job ∧ job.Attached ∧ job.status.terminal = false := by
  let Dispatched (jobId : JobId) : Prop :=
    ∃ job, ctx.state.jobs.get? jobId = some job ∧ job.Attached ∧ job.status.terminal = false
  let Inv (due : List JobId) (now' : ControllerContext) : Prop :=
    Sound now'.state ∧ (∀ jobId ∈ due, Dispatched jobId) ∧
      ∀ jobId, now'.state.jobs.get? jobId = ctx.state.jobs.get? jobId ∨
        now'.state.jobs.get? jobId = none ∧ Dispatched jobId
  have removal (middle after : ControllerContext) (failed : JobId) (rest : List JobId)
      (valid : Inv (failed :: rest) middle) (retires : Retires middle.state after.state failed) :
      Inv rest after := by
    refine ⟨valid.1.retires retires, fun jobId member => valid.2.1 jobId (List.mem_cons_of_mem _ member), ?_⟩
    intro jobId
    rw [retires.get? jobId]
    split
    · rename_i same
      exact .inr ⟨rfl, same ▸ valid.2.1 failed List.mem_cons_self⟩
    · exact valid.2.2 jobId
  have ends : Inv [] (ControllerContext.checkTimeouts order ctx now) := by
    have whole : ∀ jobId, ctx.state.jobs.get? jobId = ctx.state.jobs.get? jobId ∨
        ctx.state.jobs.get? jobId = none ∧ Dispatched jobId := fun jobId => .inl rfl
    refine ControllerContext.checkTimeouts_invariant Inv ?_ ?_ ?_ ?_ ?_
    · exact fun _ => ⟨sound, fun _ member => absurd member List.not_mem_nil, whole⟩
    · refine ⟨sound, fun jobId member => ?_, whole⟩
      obtain ⟨job, found, exceeded⟩ := ControllerContext.mem_timedOutJobs.mp member
      simp only [ControllerContext.walltimeExceeded, Bool.and_eq_true, decide_eq_true_eq] at exceeded
      obtain ⟨⟨running, _⟩, elapsed⟩ := exceeded
      refine ⟨job, found, .inl fun unstarted => ?_, by rw [running]; rfl⟩
      rw [unstarted] at elapsed
      cases elapsed
    · intro middle failed rest valid
      exact removal middle _ failed rest valid (timeoutJob_retires middle failed now)
    · intro middle workerId valid
      refine ⟨valid.1.removeWorker workerId, fun jobId member => ?_, valid.2.2⟩
      obtain ⟨worker, present, listed⟩ := ControllerContext.mem_orphans.mp member
      obtain ⟨job, found, node, unfinished⟩ := valid.1.listed workerId worker present jobId listed
      rcases valid.2.2 jobId with same | ⟨gone, _⟩
      · exact ⟨job, same ▸ found, .inr (.inl (List.ne_nil_of_mem node)), unfinished⟩
      · rw [gone] at found
        cases found
    · intro middle failed rest valid
      exact removal middle _ failed rest valid (failOrphan_retires middle failed now)
  exact ends.2.2 jobId

section Handlers

variable {leader : Leader} (jobId : JobId)

private theorem submit_move (submission : Submission) (nextJobId : Nat) :
    Move leader jobId (.submit submission nextJobId) (leader.ctx.state.jobs.get? jobId)
      ((leader.ctx.state.acceptSubmission submission nextJobId).jobs.get? jobId) := by
  unfold GlobalState.acceptSubmission
  split
  · rw [HashMap.get?_insert]
    split
    · rename_i same
      exact .submitted submission nextJobId same.symm
    · exact .kept rfl
  · exact .kept rfl

private theorem preempt_move (target : JobId) :
    Move leader jobId (.preempt target) (leader.ctx.state.jobs.get? jobId)
      ((leader.ctx.state.preemptJob target).jobs.get? jobId) := by
  rw [GlobalState.get?_preemptJob]
  split
  · rename_i same
    subst same
    cases leader.ctx.state.jobs.get? jobId with
    | none => exact .kept rfl
    | some job =>
      by_cases running : job.status = .running
      · rw [Option.map_some, JobInfo.evicted, if_pos running]
        exact .evicted running
      · rw [Option.map_some, JobInfo.evicted, if_neg running]
        exact .kept rfl
  · exact .kept rfl

private theorem reconcile_move (order : IterOrder Unit) (workerId : WorkerId) (active : List JobId) (now : Nat) :
    Move leader jobId (.reconcile order workerId active now) (leader.ctx.state.jobs.get? jobId)
      ((leader.ctx.reconcileMissingWorkerJobs order workerId active now).state.jobs.get? jobId) := by
  rw [(leader.ctx.reconcile_spec order workerId active now jobId).1]
  split
  · rename_i late
    obtain ⟨job, found, running⟩ := ControllerContext.overdue_running _ _ _ _ late
    rw [found, Option.map_some]
    exact .reaped order active now running
  · exact .kept rfl

private theorem jobStarted_move (report : Report) :
    Move leader jobId (.jobStarted report) (leader.ctx.state.jobs.get? jobId)
      ((leader.ctx.state.jobStarted report.jobId).jobs.get? jobId) := by
  rw [GlobalState.jobStarted, HashMap.get?_modify]
  split
  · rename_i same
    subst same
    cases leader.ctx.state.jobs.get? report.jobId with
    | none => exact .kept rfl
    | some job => exact .claimed rfl rfl
  · exact .kept rfl

private theorem checkTimeouts_move (sound : Sound leader.ctx.state) (order : IterOrder ControllerContext.TimeoutSite)
    (now : Nat) :
    Move leader jobId (.checkTimeouts order now) (leader.ctx.state.jobs.get? jobId)
      ((ControllerContext.checkTimeouts order leader.ctx now).state.jobs.get? jobId) := by
  rcases checkTimeouts_record sound order now jobId with same | ⟨gone, job, found, attached, unfinished⟩
  · exact .kept (congrArg _ same)
  · rw [found, gone]
    exact .removed (.expired order now attached unfinished)

private theorem prune_move (retentionSeconds now : Nat) :
    Move leader jobId (.prune retentionSeconds now) (leader.ctx.state.jobs.get? jobId)
      ((leader.ctx.pruneJobs retentionSeconds now).state.jobs.get? jobId) := by
  unfold ControllerContext.pruneJobs
  split
  · rw [HashMap.get?_retain]
    cases leader.ctx.state.jobs.get? jobId with
    | none => exact .kept rfl
    | some job =>
      by_cases finished : ControllerContext.prunable job retentionSeconds now = true
      · have terminal : job.status.terminal = true := by
          simp only [ControllerContext.prunable, Bool.and_eq_true] at finished
          exact finished.1
        simp only [Option.filter_some, finished, Bool.not_true, Bool.false_eq_true, ↓reduceIte]
        exact .removed (.pruned retentionSeconds now terminal)
      · simp only [Option.filter_some, finished, Bool.not_false, ↓reduceIte]
        exact .kept rfl
  · exact .kept rfl

end Handlers

/-- Every section other than a pass moves each record in one of these ways. -/
theorem apply_move {leader next : Leader} {event : Event} (sound : Sound leader.ctx.state)
    (taken : leader.apply event = some next) (other : ∀ input, event ≠ .schedule input) (jobId : JobId) :
    Move leader jobId event (leader.ctx.state.jobs.get? jobId) (next.ctx.state.jobs.get? jobId) := by
  cases event with
  | submit submission nextJobId => cases taken; exact submit_move jobId submission nextJobId
  | register registration now => cases taken; exact .kept rfl
  | endWriter _ _ | disconnect _ _ _ => cases taken; exact .kept rfl
  | schedule input => exact absurd rfl (other input)
  | preempt target => cases taken; exact preempt_move jobId target
  | reconcile order workerId active now => cases taken; exact reconcile_move jobId order workerId active now
  | jobStarted report => cases taken; exact jobStarted_move jobId report
  | jobDone report exitCode =>
    rw [Leader.apply_jobDone] at taken
    cases taken
    exact .kept rfl
  | mergeDone index =>
    obtain ⟨tasks, same⟩ := Leader.mergeDone_tasks taken
    subst same
    exact .kept rfl
  | finishDone index stdoutId stderrId now =>
    obtain ⟨report, exitCode, logFiles, task, same⟩ := Leader.finishDone_cases taken
    subst same
    exact move_removed ((jobDoneFinish_retires _ _ _ _ _ _ _).get? jobId) fun job same =>
      .finished stdoutId stderrId now task same.symm
  | jobError report error now =>
    cases taken
    exact move_removed ((jobError_retires _ _ _ _).get? jobId) fun job same => .failed error now same.symm
  | jobKilled report now =>
    cases taken
    exact move_removed ((jobKilled_retires _ _ _).get? jobId) fun job same => .killed now same.symm
  | cancel caller target now =>
    rcases Leader.cancel_cases taken with ⟨ctx, canceled, same⟩ | same
    · subst same
      exact move_removed ((cancelJob_retires _ _ _ canceled).get? jobId) fun job same => same ▸ .canceled caller now
    · subst same
      exact .kept rfl
  | checkTimeouts order now => cases taken; exact checkTimeouts_move jobId sound order now
  | prune retentionSeconds now => cases taken; exact prune_move jobId retentionSeconds now

end Veloce
