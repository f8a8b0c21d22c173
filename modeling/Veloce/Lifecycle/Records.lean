import Veloce.Ledger.Pass
import Veloce.Ledger.Rebuild
import Veloce.Ledger.Retire
import Veloce.Lifecycle.Leader
import Veloce.Lifecycle.Reaping

/-! What holds of the records and handles of a leader whatever its workers report:
a Pending job holds nothing, and a handle lists only unfinished jobs of the table
that are assigned to its worker. -/

namespace Veloce

open Collections

structure Sound (state : GlobalState) : Prop where
  keyed : Keyed state.jobs
  unstarted : ∀ jobId job, state.jobs.get? jobId = some job → job.status = .pending →
    job.assignedWorkers = [] ∧ job.startTime = none
  listed : ∀ workerId worker, state.workers.get? workerId = some worker → ∀ jobId ∈ worker.assignedJobs,
    ∃ job, state.jobs.get? jobId = some job ∧ workerId ∈ job.assignedWorkers ∧ job.status.terminal = false

section Conclusion

variable {leader next : Leader} {event : Event}

/-- The messages about the end of a job, and the steps of their handlers. -/
def Event.concludes : Event → Bool
  | .jobDone .. | .mergeDone _ | .finishDone .. | .jobError .. | .jobKilled .. | .cancel .. => true
  | _ => false

theorem apply_concludes (taken : leader.apply event = some next) (concludes : event.concludes = true) :
    (next.ctx.state.jobs = leader.ctx.state.jobs ∧ next.ctx.state.workers = leader.ctx.state.workers) ∨
      ∃ jobId, Retires leader.ctx.state next.ctx.state jobId := by
  cases event with
  | jobDone report exitCode =>
    rw [Leader.apply_jobDone] at taken
    cases taken
    exact .inl ⟨rfl, rfl⟩
  | mergeDone index =>
    obtain ⟨tasks, same⟩ := Leader.mergeDone_tasks taken
    subst same
    exact .inl ⟨rfl, rfl⟩
  | finishDone index stdoutId stderrId now =>
    obtain ⟨report, exitCode, logFiles, _, same⟩ := Leader.finishDone_cases taken
    subst same
    exact .inr ⟨report.jobId, jobDoneFinish_retires _ _ _ _ _ _ _⟩
  | jobError report error now =>
    cases taken
    exact .inr ⟨report.jobId, jobError_retires _ _ _ _⟩
  | jobKilled report now =>
    cases taken
    exact .inr ⟨report.jobId, jobKilled_retires _ _ _⟩
  | cancel caller target now =>
    rcases Leader.cancel_cases taken with ⟨ctx, canceled, same⟩ | same
    · subst same
      exact .inr ⟨target, cancelJob_retires _ _ _ canceled⟩
    · subst same
      exact .inl ⟨rfl, rfl⟩
  | _ => cases concludes

end Conclusion

/-- The parts of a record that tell where a job stands. -/
def JobInfo.core (job : JobInfo) : JobId × JobStatus × List WorkerId × Option Nat :=
  (job.id, job.status, job.assignedWorkers, job.startTime)

/-- Two tables whose records stand alike. -/
def SameCore (jobs jobs' : HashMap JobId JobInfo) : Prop :=
  ∀ jobId, (jobs'.get? jobId).map JobInfo.core = (jobs.get? jobId).map JobInfo.core

theorem SameCore.refl (jobs : HashMap JobId JobInfo) : SameCore jobs jobs := fun _ => rfl

theorem SameCore.found_back {jobs jobs' : HashMap JobId JobInfo} (same : SameCore jobs jobs') {jobId : JobId}
    {job' : JobInfo} (found : jobs'.get? jobId = some job') :
    ∃ job, jobs.get? jobId = some job ∧ job'.id = job.id ∧ job'.status = job.status ∧
      job'.assignedWorkers = job.assignedWorkers ∧ job'.startTime = job.startTime := by
  have table := same jobId
  rw [found, Option.map_some] at table
  obtain ⟨job, stored, equal⟩ := Option.map_eq_some_iff.mp table.symm
  simp only [JobInfo.core, Prod.mk.injEq] at equal
  exact ⟨job, stored, equal.1.symm, equal.2.1.symm, equal.2.2.1.symm, equal.2.2.2.symm⟩

theorem SameCore.symm {jobs jobs' : HashMap JobId JobInfo} (same : SameCore jobs jobs') : SameCore jobs' jobs :=
  fun jobId => (same jobId).symm

theorem unworded_core {job job' : JobInfo} (same : job'.unworded = job.unworded) : job'.core = job.core := by
  have whole := congrArg JobInfo.core same
  exact whole

theorem Reworded.core {state state' : GlobalState} (reworded : Reworded state state') :
    SameCore state.jobs state'.jobs :=
  reworded.map fun _ => rfl

variable {state state' : GlobalState} {jobId : JobId}

theorem Sound.same (valid : Sound state) (jobs : SameCore state.jobs state'.jobs)
    (workers : state'.workers = state.workers) : Sound state' where
  keyed other job' found := by
    obtain ⟨job, stored, same, _⟩ := jobs.found_back found
    exact same.trans (valid.keyed other job stored)
  unstarted other job' found pending := by
    obtain ⟨job, stored, _, status, assigned, start⟩ := jobs.found_back found
    rw [assigned, start]
    exact valid.unstarted other job stored (status ▸ pending)
  listed workerId worker found other member := by
    rw [workers] at found
    obtain ⟨job, stored, node, unfinished⟩ := valid.listed workerId worker found other member
    obtain ⟨job', stored', _, status, assigned, _⟩ := jobs.symm.found_back stored
    exact ⟨job', stored', assigned ▸ node, status ▸ unfinished⟩

theorem Sound.reworded (valid : Sound state) (reworded : Reworded state state') : Sound state' :=
  valid.same reworded.core reworded.workers

/-- A job is released on its workers while its record is finished, requeued or removed. -/
theorem Sound.close (valid : Sound state)
    (workers : state'.workers = (state.releaseJobResourcesInternal jobId).workers)
    (others : ∀ other, other ≠ jobId → state'.jobs.get? other = state.jobs.get? other)
    (record : ∀ job, state'.jobs.get? jobId = some job → job.id = jobId ∧
      (job.status = .pending → job.assignedWorkers = [] ∧ job.startTime = none)) : Sound state' where
  keyed other job found := by
    by_cases same : other = jobId
    · subst same
      exact (record job found).1
    · rw [others other same] at found
      exact valid.keyed other job found
  unstarted other job found pending := by
    by_cases same : other = jobId
    · subst same
      exact (record job found).2 pending
    · rw [others other same] at found
      exact valid.unstarted other job found pending
  listed workerId worker found other member := by
    rw [workers, GlobalState.workers_release] at found
    have kept : other ≠ jobId ∧ ∃ before, state.workers.get? workerId = some before ∧
        other ∈ before.assignedJobs := by
      cases stored : state.jobs.get? jobId with
      | none =>
        simp only [stored] at found
        refine ⟨?_, worker, found, member⟩
        intro same
        obtain ⟨job, there, _⟩ := valid.listed workerId worker found other member
        rw [same, stored] at there
        cases there
      | some job =>
        simp only [stored] at found
        split at found
        · obtain ⟨before, present, released⟩ := Option.map_eq_some_iff.mp found
          subst released
          obtain ⟨different, listed⟩ := WorkerHandle.mem_releaseJob.mp member
          exact ⟨different, before, present, listed⟩
        · rename_i elsewhere
          refine ⟨?_, worker, found, member⟩
          intro same
          subst same
          obtain ⟨job', there, node, _⟩ := valid.listed workerId worker found other member
          cases stored.symm.trans there
          exact elsewhere node
    obtain ⟨different, before, present, listed⟩ := kept
    rw [others other different]
    exact valid.listed workerId before present other listed

theorem Sound.finalize (valid : Sound state) {newStatus : JobStatus} (ends : newStatus.terminal = true)
    (now : Nat) : Sound (state.finalizeJob jobId newStatus now).1 := by
  rw [GlobalState.finalizeJob_eq]
  refine valid.close rfl (fun other different => ?_) fun job found => ?_
  · simp only [HashMap.get?_modify, different, ↓reduceIte]
  · simp only [HashMap.get?_modify, ↓reduceIte] at found
    obtain ⟨before, stored, same⟩ := Option.map_eq_some_iff.mp found
    subst same
    refine ⟨valid.keyed jobId before stored, fun pending => ?_⟩
    have same : newStatus = .pending := pending
    subst same
    cases ends

theorem Sound.retires (valid : Sound state) (retires : Retires state state' jobId) : Sound state' := by
  refine valid.close retires.workers retires.others fun job found => ?_
  rw [retires.gone] at found
  cases found

theorem Sound.preempt (valid : Sound state) (jobId : JobId) : Sound (state.preemptJob jobId) := by
  rcases state.preemptJob_cases jobId with ⟨_, _, _, same⟩ | same
  · rw [same]
    refine valid.close rfl (fun other different => ?_) fun job' found' => ?_
    · simp only [HashMap.get?_modify, different, ↓reduceIte]
    · simp only [HashMap.get?_modify, ↓reduceIte] at found'
      obtain ⟨before, stored, same⟩ := Option.map_eq_some_iff.mp found'
      subst same
      exact ⟨valid.keyed jobId before stored, fun _ => ⟨rfl, rfl⟩⟩
  · rw [same]
    exact valid

theorem Sound.evict (evictions : List JobId) (valid : Sound state) : Sound (state.evictJobs evictions) :=
  GlobalState.evictJobs_invariant Sound evictions valid fun _ jobId before => before.preempt jobId

theorem Sound.unlisted (valid : Sound state) {job : JobInfo} (found : state.jobs.get? jobId = some job)
    (pending : job.status = .pending) {workerId : WorkerId} {worker : WorkerHandle}
    (present : state.workers.get? workerId = some worker) : jobId ∉ worker.assignedJobs := by
  intro member
  obtain ⟨job', found', node, _⟩ := valid.listed workerId worker present jobId member
  cases found.symm.trans found'
  rw [(valid.unstarted jobId job found pending).1] at node
  cases node

theorem Sound.start (valid : Sound state) {input : PassInput} {job stored : JobInfo} {placement : Placement}
    (distinct : placement.nodes.Nodup) (starts : startJob input state job placement = some state')
    (found : state.jobs.get? job.id = some stored) (pending : stored.status = .pending) : Sound state' := by
  have evicted := valid.evict placement.evictions
  have kept : (state.evictJobs placement.evictions).jobs.get? job.id = some stored := by
    rw [GlobalState.get?_evictJobs, found]
    simp [JobInfo.evicted, pending]
  obtain ⟨workers, allocated, same, opens⟩ := start_opens starts found pending
  refine ⟨(startJob_descends starts).keyed valid.keyed, ?_, ?_⟩
  · intro other job' found' waits
    by_cases equal : other = job.id
    · subst equal
      cases opens.opened.symm.trans found'
      cases waits
    · rw [opens.others other equal] at found'
      exact evicted.unstarted other job' found' waits
  · intro workerId worker present other member
    rw [same] at present
    obtain ⟨outside, inside⟩ := get?_allocateNodes distinct allocated workerId
    by_cases node : workerId ∈ placement.nodes
    · replace inside := inside node
      split at inside
      · rename_i before there
        obtain ⟨updated, drained, after⟩ := inside
        cases present.symm.trans after
        rw [(allocateJob_eq drained).2, HashSet.mem_insert] at member
        rcases member with equal | old
        · rw [equal]
          exact ⟨_, opens.opened, node, rfl⟩
        · have different : other ≠ job.id := fun equal =>
            evicted.unlisted kept pending there (equal ▸ old)
          rw [opens.others other different]
          exact evicted.listed workerId before there other old
      · rw [present] at inside
        cases inside
    · rw [outside node] at present
      have different : other ≠ job.id := fun equal => evicted.unlisted kept pending present (equal ▸ member)
      rw [opens.others other different]
      exact evicted.listed workerId worker present other member

theorem Sound.turn {input : PassInput} {turn : Nat} {pass next : PassState} (valid : Sound pass.state)
    (outcome : TurnOutcome input turn pass jobId next) : Sound next.state := by
  cases outcome with
  | skip _ _ => exact valid
  | wait _ _ _ reworded _ => exact valid.reworded reworded
  | start found pending _ reworded placed starts =>
    obtain ⟨stored, found', status, _⟩ := reworded.pending found pending
    exact (valid.reworded reworded).start (placeJob_ok placed).distinct starts found' status

theorem Sound.schedule (valid : Sound state) {input : PassInput} (ran : scheduleJobs input state = some state') :
    Sound state' := by
  obtain ⟨pass, turns, same⟩ := Option.map_eq_some_iff.mp ran
  have ends : Sound pass.state := by
    refine passTurns_invariant (fun _ pass => Sound pass.state) ?_ _ ?_ turns
    · intro jobId rest pass next valid taken
      exact valid.turn (passTurn_outcome taken)
    · exact valid.same (.refl _) rfl
  subst same
  exact ends.same (.refl _) rfl

theorem Sound.submit (valid : Sound state) (submission : Submission) (nextJobId : Nat)
    (fresh : state.jobs.get? submission.job.id = none) :
    Sound (state.acceptSubmission submission nextJobId) := by
  unfold GlobalState.acceptSubmission
  split
  · refine ⟨?_, ?_, ?_⟩
    · intro other job found
      simp only [HashMap.get?_insert] at found
      split at found
      · rename_i same
        cases found
        exact same.symm
      · exact valid.keyed other job found
    · intro other job found pending
      simp only [HashMap.get?_insert] at found
      split at found
      · cases found
        exact ⟨submission.unassigned, submission.unstarted⟩
      · exact valid.unstarted other job found pending
    · intro workerId worker present other member
      obtain ⟨job, found, rest⟩ := valid.listed workerId worker present other member
      have different : other ≠ submission.job.id := by
        intro same
        rw [same, fresh] at found
        cases found
      refine ⟨job, ?_, rest⟩
      simp only [HashMap.get?_insert, different, ↓reduceIte, found]
  · exact valid

theorem Sound.register (valid : Sound state) (registration : Registration) (now : Nat) :
    Sound (state.registerWorker registration now) := by
  refine ⟨valid.keyed, valid.unstarted, ?_⟩
  intro workerId worker present other member
  simp only [GlobalState.registerWorker, HashMap.get?_insert] at present
  split at present
  · rename_i same
    cases present
    obtain ⟨job, found, runs⟩ := (rebuild_assigned valid.keyed other).mp member
    obtain ⟨running, node⟩ := runsOn_iff.mp runs
    exact ⟨job, found, same ▸ node, by rw [running]; rfl⟩
  · exact valid.listed workerId worker present other member

theorem Sound.relink (valid : Sound state) (workerId : WorkerId) {update : WorkerHandle → WorkerHandle}
    (keeps : ∀ worker, (update worker).assignedJobs = worker.assignedJobs) :
    Sound { state with workers := state.workers.modify workerId update } := by
  refine ⟨valid.keyed, valid.unstarted, ?_⟩
  intro other worker present jobId member
  rw [HashMap.get?_modify] at present
  split at present
  · rename_i same
    obtain ⟨before, found, updated⟩ := Option.map_eq_some_iff.mp present
    subst updated
    exact valid.listed other before (same ▸ found) jobId (keeps before ▸ member)
  · exact valid.listed other worker present jobId member

theorem Sound.jobStarted (valid : Sound state) (jobId : JobId) : Sound (state.jobStarted jobId) := by
  have record (other : JobId) (job' : JobInfo) (found : (state.jobStarted jobId).jobs.get? other = some job') :
      ∃ job, state.jobs.get? other = some job ∧ job'.id = job.id ∧ job'.assignedWorkers = job.assignedWorkers ∧
        (job' = job ∨ job'.status = .running) := by
    simp only [GlobalState.jobStarted, HashMap.get?_modify] at found
    split at found
    · rename_i same
      obtain ⟨job, stored, updated⟩ := Option.map_eq_some_iff.mp found
      subst updated
      exact ⟨job, same ▸ stored, rfl, rfl, .inr rfl⟩
    · exact ⟨job', found, rfl, rfl, .inl rfl⟩
  refine ⟨?_, ?_, ?_⟩
  · intro other job' found
    obtain ⟨job, stored, same, _⟩ := record other job' found
    exact same.trans (valid.keyed other job stored)
  · intro other job' found pending
    obtain ⟨job, stored, _, _, same | running⟩ := record other job' found
    · exact same ▸ valid.unstarted other job stored (same ▸ pending)
    · rw [running] at pending
      cases pending
  · intro workerId worker present other member
    obtain ⟨job, stored, node, unfinished⟩ := valid.listed workerId worker present other member
    simp only [GlobalState.jobStarted, HashMap.get?_modify]
    split
    · rename_i same
      subst same
      exact ⟨_, Option.map_eq_some_iff.mpr ⟨job, stored, rfl⟩, node, rfl⟩
    · exact ⟨job, stored, node, unfinished⟩

theorem Sound.removeWorker (valid : Sound state) (workerId : WorkerId) :
    Sound { state with workers := state.workers.remove workerId } := by
  refine ⟨valid.keyed, valid.unstarted, ?_⟩
  intro other worker present
  simp only [HashMap.get?_remove] at present
  split at present
  · cases present
  · exact valid.listed other worker present

theorem Sound.prune {ctx : ControllerContext} (valid : Sound ctx.state) (retentionSeconds now : Nat) :
    Sound (ctx.pruneJobs retentionSeconds now).state := by
  unfold ControllerContext.pruneJobs
  split
  · have kept (jobId : JobId) (job : JobInfo) (found : (ctx.state.jobs.retain fun _ job =>
        !ControllerContext.prunable job retentionSeconds now).get? jobId = some job) :
        ctx.state.jobs.get? jobId = some job := by
      rw [HashMap.get?_retain, Option.filter_eq_some_iff] at found
      exact found.1
    refine ⟨fun jobId job found => valid.keyed jobId job (kept jobId job found),
      fun jobId job found => valid.unstarted jobId job (kept jobId job found), ?_⟩
    intro workerId worker present jobId member
    obtain ⟨job, found, node, unfinished⟩ := valid.listed workerId worker present jobId member
    refine ⟨job, ?_, node, unfinished⟩
    simp only [HashMap.get?_retain, found, Option.filter_some, ControllerContext.prunable, unfinished,
      Bool.false_and, Bool.not_false, ↓reduceIte]
  · exact valid

section Sections

variable {ctx : ControllerContext}

theorem Sound.checkTimeouts (valid : Sound ctx.state) (order : IterOrder ControllerContext.TimeoutSite)
    (now : Nat) : Sound (ControllerContext.checkTimeouts order ctx now).state :=
  ControllerContext.checkTimeouts_invariant (fun _ ctx => Sound ctx.state) (fun _ => valid) valid
    (fun ctx jobId _ valid => valid.retires (timeoutJob_retires ctx jobId now))
    (fun _ workerId valid => valid.removeWorker workerId)
    (fun ctx jobId _ valid => valid.retires (failOrphan_retires ctx jobId now))

theorem Sound.reap (valid : Sound ctx.state) (jobId : JobId) (now : Nat) :
    Sound (ctx.reapJob now jobId).state := valid.finalize rfl now

theorem Sound.reconcile (valid : Sound ctx.state) (order : IterOrder Unit) (workerId : WorkerId)
    (active : List JobId) (now : Nat) :
    Sound (ctx.reconcileMissingWorkerJobs order workerId active now).state :=
  ControllerContext.reconcile_invariant order workerId active (fun after => Sound after.state) (fun _ => valid)
    fun _ jobId before => before.reap jobId now

end Sections

end Veloce
