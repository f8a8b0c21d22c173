import Veloce.Ledger.Range
import Veloce.Lifecycle.Shifts

/-! The handles of a leader match its table whatever its workers report of their
resources: nothing in this agreement speaks about resources. -/

namespace Veloce

open Collections

structure Matched (state : GlobalState) : Prop where
  apart : TableApart state.jobs
  agrees : Agrees HandleMatches state

/-- Every record holds what it held: the ledgers cannot tell it apart from the
earlier one, or neither of them runs. -/
def SameHolders (jobs jobs' : HashMap JobId JobInfo) : Prop := ∀ jobId,
  (jobs'.get? jobId).map JobInfo.footprint = (jobs.get? jobId).map JobInfo.footprint ∨
    (∀ job, jobs.get? jobId = some job → job.status ≠ .running) ∧
    ∀ job', jobs'.get? jobId = some job' → job'.status ≠ .running

/-- Two handles with the same units: everything of a ledger but resources and memory. -/
structure SameUnits (worker worker' : WorkerHandle) : Prop where
  assignedJobs : worker'.assignedJobs = worker.assignedJobs
  availableCoreIds : worker'.availableCoreIds = worker.availableCoreIds
  jobCoreAssignments : worker'.jobCoreAssignments = worker.jobCoreAssignments
  availableGresIds : worker'.availableGresIds = worker.availableGresIds
  jobGresAssignments : worker'.jobGresAssignments = worker.jobGresAssignments

variable {jobs jobs' : HashMap JobId JobInfo} {workerId : WorkerId} {worker worker' : WorkerHandle}
  {jobId : JobId} {job : JobInfo} {state state' : GlobalState}

theorem SameUnits.refl (worker : WorkerHandle) : SameUnits worker worker := ⟨rfl, rfl, rfl, rfl, rfl⟩

section Holders

theorem SameHolders.refl (jobs : HashMap JobId JobInfo) : SameHolders jobs jobs := fun _ => .inl rfl

theorem sameHolders_footprint (same : SameFootprint jobs jobs') : SameHolders jobs jobs' :=
  fun jobId => .inl (same jobId)

theorem SameHolders.sameOn (same : SameHolders jobs jobs') (workerId : WorkerId) : SameOn jobs jobs' workerId := by
  intro jobId
  refine (same jobId).imp_right fun ⟨before, after⟩ => ⟨fun job found => ?_, fun job found => ?_⟩
  · exact runsOn_of_not_running (before job found) workerId
  · exact runsOn_of_not_running (after job found) workerId

theorem HandleMatches.units (valid : HandleMatches jobs workerId worker) (same : SameUnits worker worker') :
    HandleMatches jobs workerId worker' := by
  obtain ⟨⟨assigned, cores, apart⟩, gres, gresApart⟩ := valid
  obtain ⟨jobsEq, free, taken, freeG, takenG⟩ := same
  refine ⟨⟨?_, ?_, ?_⟩, ?_, ?_⟩
  all_goals simp only [Lists, WorkerHandle.freeGres, jobsEq, free, taken, freeG, takenG]
  all_goals assumption

theorem HandleMatches.rebuild {resources : Resources} (keyed : Keyed jobs) (apart : TableApart jobs)
    (rebuilt : Rebuilt (rebuildWorkerAllocations workerId resources jobs) worker) :
    HandleMatches jobs workerId worker where
  toHandleOk := HandleOk.rebuild keyed (apart.cores workerId) rebuilt
  gres jobId := by
    rw [rebuilt.jobGresAssignments]
    exact rebuild_gres_map keyed jobId
  gresApart name := by
    have free : worker.freeGres name = (rebuildWorkerAllocations workerId resources jobs).freeGres name := by
      rw [WorkerHandle.freeGres, rebuilt.availableGresIds]
      rfl
    rw [free]
    apply (apart.gres workerId name).fewer (fun _ _ taken => taken)
    · refine (Pool.range_ascending (resources.gresCount name)).sublist ?_
      rw [← freeGres_idle]
      exact RebuiltWorkerAllocations.gres_fold_sublist _ name _
    · intro unit member
      exact ((mem_rebuild_gres keyed name unit).mp member).2

theorem TableApart.fewer (apart : TableApart jobs)
    (cores : ∀ workerId jobId units, heldCores jobs' workerId jobId = some units → heldCores jobs workerId jobId = some units)
    (gres : ∀ workerId name jobId units, heldGresIds jobs' workerId name jobId = some units →
      heldGresIds jobs workerId name jobId = some units) : TableApart jobs' where
  cores workerId := (apart.cores workerId).holders (cores workerId)
  gres workerId name := (apart.gres workerId name).holders (gres workerId name)

end Holders

namespace Matched

theorem same (valid : Matched state) (jobs : SameHolders state.jobs state'.jobs)
    (units : ∀ workerId worker', state'.workers.get? workerId = some worker' →
      ∃ worker, state.workers.get? workerId = some worker ∧ SameUnits worker worker') : Matched state' where
  apart := valid.apart.fewer (fun workerId jobId _ taken => ((jobs.sameOn workerId).cores jobId).symm.trans taken)
    fun workerId name jobId _ taken => ((jobs.sameOn workerId).gresIds name jobId).symm.trans taken
  agrees workerId worker' found := by
    obtain ⟨worker, present, same⟩ := units workerId worker' found
    exact ((valid.agrees workerId worker present).keep (jobs.sameOn workerId)).units same

theorem table (valid : Matched state) (jobs : SameHolders state.jobs state'.jobs)
    (workers : state'.workers = state.workers) : Matched state' :=
  valid.same jobs fun _ worker found => ⟨worker, workers ▸ found, .refl worker⟩

theorem handles (valid : Matched state) (jobs : state'.jobs = state.jobs)
    (units : ∀ workerId worker', state'.workers.get? workerId = some worker' →
      ∃ worker, state.workers.get? workerId = some worker ∧ SameUnits worker worker') : Matched state' :=
  valid.same (jobs ▸ .refl _) units

theorem modify (valid : Matched state) (workerId : WorkerId) {update : WorkerHandle → WorkerHandle}
    (keeps : ∀ worker, SameUnits worker (update worker)) :
    Matched { state with workers := state.workers.modify workerId update } := by
  refine valid.handles rfl fun other worker' found => ?_
  rw [HashMap.get?_modify] at found
  split at found
  · rename_i same
    obtain ⟨worker, stored, updated⟩ := Option.map_eq_some_iff.mp found
    exact ⟨worker, same ▸ stored, updated ▸ keeps worker⟩
  · exact ⟨worker', found, .refl worker'⟩

theorem close (valid : Matched state) (workers : state'.workers = (state.releaseJobResourcesInternal jobId).workers)
    (closes : Closes state.jobs state'.jobs jobId) : Matched state' where
  apart := by
    refine valid.apart.fewer (fun workerId other units taken => ?_) fun workerId name other units taken => ?_
    · rw [heldCores, closes.held_eq] at taken
      split at taken
      · cases taken
      · exact taken
    · rw [closes.heldGresIds_eq] at taken
      split at taken
      · cases taken
      · exact taken
  agrees := valid.agrees.release handleMatches_rule workers closes

theorem retires (valid : Matched state) (retires : Retires state state' jobId) : Matched state' :=
  valid.close retires.workers retires.closes

theorem preempt (valid : Matched state) (jobId : JobId) : Matched (state.preemptJob jobId) := by
  rcases state.preemptJob_cases jobId with ⟨_, _, _, same⟩ | same
  · rw [same]
    exact valid.close rfl (closes_modify fun _ _ => by simp [JobInfo.requeued])
  · rw [same]
    exact valid

theorem evict (evictions : List JobId) (valid : Matched state) : Matched (state.evictJobs evictions) :=
  GlobalState.evictJobs_invariant Matched evictions valid fun _ jobId before => before.preempt jobId

variable {ctx : ControllerContext}

theorem reconcile (valid : Matched ctx.state) (order : IterOrder Unit) (workerId : WorkerId) (active : List JobId)
    (now : Nat) : Matched (ctx.reconcileMissingWorkerJobs order workerId active now).state := by
  refine ControllerContext.reconcile_invariant order workerId active (fun ctx => Matched ctx.state)
    (fun _ => valid) fun ctx jobId valid => ?_
  rw [ControllerContext.reapJob_state]
  exact valid.close rfl (closes_modify fun _ _ => by simp [JobInfo.finalized])

theorem prune (valid : Matched ctx.state) (retentionSeconds now : Nat) :
    Matched (ctx.pruneJobs retentionSeconds now).state := by
  unfold ControllerContext.pruneJobs
  split
  · refine valid.table (fun jobId => ?_) rfl
    simp only [HashMap.get?_retain]
    cases stored : ctx.state.jobs.get? jobId with
    | none => exact .inl rfl
    | some job =>
      by_cases finished : ControllerContext.prunable job retentionSeconds now = true
      · have ended : job.status ≠ .running := by
          simp only [ControllerContext.prunable, Bool.and_eq_true] at finished
          intro running
          rw [running] at finished
          cases finished.1
        refine .inr ⟨fun other same => Option.some.inj same ▸ ended, fun other kept => ?_⟩
        rw [Option.filter_some] at kept
        simp [finished] at kept
      · exact .inl (by simp [finished])
  · exact valid

theorem jobStarted (valid : Matched state) (confirms : ∀ job, state.jobs.get? jobId = some job → job.status = .running) :
    Matched (state.jobStarted jobId) := by
  refine valid.table (fun other => .inl ?_) rfl
  simp only [GlobalState.jobStarted, HashMap.get?_modify]
  split
  · rename_i same
    subst same
    cases stored : state.jobs.get? other with
    | none => rfl
    | some job => simp [JobInfo.footprint, confirms job stored]
  · rfl

theorem register (valid : Matched state) (keyed : Keyed state.jobs) (registration : Registration) (now : Nat) :
    Matched (state.registerWorker registration now) where
  apart := valid.apart
  agrees workerId worker found := by
    simp only [GlobalState.registerWorker, HashMap.get?_insert] at found
    split at found
    · rename_i same
      cases found
      rw [same]
      exact .rebuild keyed valid.apart (handle_rebuilt registration (.direct .live) now _)
    · exact valid.agrees workerId worker found

theorem start (valid : Matched state) {input : PassInput} {turn : Nat} {job stored : JobInfo} {placement : Placement}
    (placed : placeJob input turn state job = some (some placement))
    (starts : startJob input state job placement = some state') (found : state.jobs.get? job.id = some stored)
    (pending : stored.status = .pending) (memory : stored.reqMemory = job.reqMemory) : Matched state' := by
  have ok := placeJob_ok placed
  have evicted := valid.evict placement.evictions
  obtain ⟨workers, allocated, same, opens⟩ := start_opens starts found pending
  have agrees := valid.agrees.start handleMatches_rule ok.distinct starts found pending memory fun _ _ _ _ => trivial
  refine ⟨⟨fun workerId => ?_, fun workerId name => ?_⟩, agrees⟩
  · by_cases member : workerId ∈ placement.nodes
    · obtain ⟨worker, present, _⟩ := startJob_node ok starts member
      exact (agrees workerId worker present).apart.holders fun _ _ taken => taken
    · exact (evicted.apart.cores workerId).congr (opens.sameOn member).cores
  · by_cases member : workerId ∈ placement.nodes
    · obtain ⟨worker, present, _⟩ := startJob_node ok starts member
      exact ((agrees workerId worker present).gresApart name).holders fun _ _ taken => taken
    · exact (evicted.apart.gres workerId name).congr ((opens.sameOn member).gresIds name)

theorem schedule (valid : Matched state) {input : PassInput} (ran : scheduleJobs input state = some state') :
    Matched state' := by
  obtain ⟨pass, turns, same⟩ := Option.map_eq_some_iff.mp ran
  have ends : Matched pass.state := by
    refine passTurns_invariant (fun _ pass => Matched pass.state) ?_ _ (valid.table (.refl _) rfl) turns
    intro jobId rest pass next valid taken
    have reword {state' : GlobalState} (reworded : Reworded pass.state state') : Matched state' :=
      valid.table (sameHolders_footprint reworded.footprint) reworded.workers
    cases passTurn_outcome taken with
    | skip _ _ => exact valid
    | wait _ _ _ reworded _ => exact reword reworded
    | start found pending _ reworded placed starts =>
      obtain ⟨stored, found', status, memory⟩ := reworded.pending found pending
      exact (reword reworded).start placed starts found' status memory
  subst same
  exact ends.table (.refl _) rfl

theorem checkTimeouts (valid : Matched ctx.state) (order : IterOrder ControllerContext.TimeoutSite) (now : Nat) :
    Matched (ControllerContext.checkTimeouts order ctx now).state := by
  refine ControllerContext.checkTimeouts_invariant (fun _ ctx => Matched ctx.state) (fun _ => valid) valid
    (fun ctx jobId _ valid => valid.retires (timeoutJob_retires ctx jobId now)) (fun ctx workerId valid => ?_)
    (fun ctx jobId _ valid => valid.retires (failOrphan_retires ctx jobId now))
  refine valid.handles rfl fun other worker found => ⟨worker, ?_, .refl worker⟩
  rw [HashMap.get?_remove] at found
  split at found
  · cases found
  · exact found

theorem apply {leader next : Leader} {event : Event} (valid : Matched leader.ctx.state)
    (keyed : Keyed leader.ctx.state.jobs)
    (confirms : ∀ report, event = .jobStarted report →
      ∀ job, leader.ctx.state.jobs.get? report.jobId = some job → job.status = .running)
    (other : ∀ submission nextJobId, event ≠ .submit submission nextJobId)
    (taken : leader.apply event = some next) : Matched next.ctx.state := by
  cases event with
  | submit submission nextJobId => exact absurd rfl (other submission nextJobId)
  | register registration now => cases taken; exact valid.register keyed registration now
  | endWriter workerId connectionId =>
    cases taken
    refine valid.modify workerId fun worker => ?_
    split <;> exact ⟨rfl, rfl, rfl, rfl, rfl⟩
  | disconnect workerId connectionId now =>
    cases taken
    refine valid.modify workerId fun worker => ?_
    split <;> exact ⟨rfl, rfl, rfl, rfl, rfl⟩
  | schedule input =>
    obtain ⟨final, ran, same⟩ := Option.map_eq_some_iff.mp taken
    subst same
    exact valid.schedule ran
  | preempt jobId => cases taken; exact valid.preempt jobId
  | reconcile order workerId active now => cases taken; exact valid.reconcile order workerId active now
  | jobStarted report => cases taken; exact valid.jobStarted (confirms report rfl)
  | jobDone _ _ | mergeDone _ | finishDone _ _ _ _ | jobError _ _ _ | jobKilled _ _ | cancel _ _ _ =>
    rcases apply_concludes taken rfl with ⟨jobs, workers⟩ | ⟨target, retires⟩
    · exact valid.table (jobs ▸ .refl _) workers
    · exact valid.retires retires
  | checkTimeouts order now => cases taken; exact valid.checkTimeouts order now
  | prune retentionSeconds now => cases taken; exact valid.prune retentionSeconds now

end Matched

end Veloce
