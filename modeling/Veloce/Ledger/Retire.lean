import Veloce.Handlers.Client
import Veloce.Handlers.Worker
import Veloce.Ledger.State

/-! The sections that end a job. -/

namespace Veloce

open Collections

theorem handle_rebuilt (registration : Registration) (routing : WorkerRouting) (now : Nat)
    (rebuilt : RebuiltWorkerAllocations) : Rebuilt rebuilt (registration.handle routing now rebuilt) :=
  ⟨rfl, rfl, rfl, rfl, rfl, rfl⟩

structure Retires (state state' : GlobalState) (jobId : JobId) : Prop where
  workers : state'.workers = (state.releaseJobResourcesInternal jobId).workers
  gone : state'.jobs.get? jobId = none
  others : ∀ other, other ≠ jobId → state'.jobs.get? other = state.jobs.get? other

variable {state state' : GlobalState} {jobId : JobId}

theorem Retires.get? (retires : Retires state state' jobId) (other : JobId) :
    state'.jobs.get? other = if other = jobId then none else state.jobs.get? other := by
  split
  · rename_i same
    rw [same, retires.gone]
  · rename_i different
    exact retires.others other different

theorem Retires.closes (retires : Retires state state' jobId) :
    Closes state.jobs state'.jobs jobId where
  closed job found := by
    rw [retires.gone] at found
    cases found
  others := retires.others

theorem Retires.descends (retires : Retires state state' jobId) :
    Descends state.jobs state'.jobs := by
  intro other job' found
  rw [retires.get? other] at found
  split at found
  · cases found
  · exact ⟨job', found, rfl⟩

theorem releaseJob_footprint {job job' : JobInfo} (same : job'.footprint = job.footprint)
    (worker : WorkerHandle) (workerId : WorkerId) (jobId : JobId) :
    worker.releaseJob workerId jobId job' = worker.releaseJob workerId jobId job := by
  simp only [JobInfo.footprint, Prod.mk.injEq] at same
  simp only [WorkerHandle.releaseJob, WorkerHandle.releasedCores, WorkerHandle.recoveredGresIds, same.2.2.1,
    same.2.2.2.1, same.2.2.2.2]

theorem release_footprint {state touched : GlobalState} (workers : touched.workers = state.workers)
    (same : (touched.jobs.get? jobId).map JobInfo.footprint = (state.jobs.get? jobId).map JobInfo.footprint) :
    (touched.releaseJobResourcesInternal jobId).workers = (state.releaseJobResourcesInternal jobId).workers := by
  unfold GlobalState.releaseJobResourcesInternal
  cases found : state.jobs.get? jobId with
  | none =>
    rw [found, Option.map_none, Option.map_eq_none_iff] at same
    simp only [same, workers]
  | some job =>
    rw [found, Option.map_some] at same
    obtain ⟨job', stored, equal⟩ := Option.map_eq_some_iff.mp same
    have assigned : job'.assignedWorkers = job.assignedWorkers := congrArg (·.2.1) equal
    simp only [stored, workers, assigned, releaseJob_footprint equal]

/-- Before it ends a job, a section may touch the job's record where the ledgers
do not look. -/
structure Touches (state touched : GlobalState) (jobId : JobId) : Prop where
  workers : touched.workers = state.workers
  record : (touched.jobs.get? jobId).map JobInfo.footprint = (state.jobs.get? jobId).map JobInfo.footprint
  others : ∀ other, other ≠ jobId → touched.jobs.get? other = state.jobs.get? other

theorem touches_notifyHead (state : GlobalState) (jobId : JobId) (msg : Message) :
    Touches state (state.notifyHead jobId msg) jobId := by
  rw [GlobalState.notifyHead_eq]
  exact ⟨rfl, rfl, fun _ _ => rfl⟩

theorem touches_modify (state : GlobalState) (jobId : JobId) {update : JobInfo → JobInfo}
    (keeps : ∀ job, (update job).footprint = job.footprint) :
    Touches state { state with jobs := state.jobs.modify jobId update } jobId where
  workers := rfl
  record := sameFootprint_modify state.jobs jobId keeps jobId
  others other different := by simp only [HashMap.get?_modify, different, ↓reduceIte]

theorem Touches.retire {touched : ControllerContext} (touches : Touches state touched.state jobId)
    (newStatus : JobStatus) (now : Nat) :
    Retires state (touched.retire jobId newStatus now).1.state jobId := by
  have table : (touched.retire jobId newStatus now).1.state = { (touched.state.finalizeJob jobId newStatus now).1 with
    jobs := (touched.state.finalizeJob jobId newStatus now).1.jobs.remove jobId } := rfl
  rw [table, GlobalState.finalizeJob_eq]
  refine ⟨release_footprint touches.workers touches.record, HashMap.get?_remove_self _ _, ?_⟩
  intro other different
  simp only [HashMap.get?_remove, HashMap.get?_modify, different, ↓reduceIte, touches.others other different]

theorem Agrees.retires {Valid : HashMap JobId JobInfo → WorkerId → WorkerHandle → Prop}
    {Room : WorkerHandle → JobInfo → Prop} (rule : LedgerRule Valid Room) (agrees : Agrees Valid state)
    (retires : Retires state state' jobId) : Agrees Valid state' :=
  agrees.release rule retires.workers retires.closes

theorem retire_state (ctx : ControllerContext) (jobId : JobId) (newStatus : JobStatus) (now : Nat) :
    (ctx.retire jobId newStatus now).1.state = { (ctx.state.finalizeJob jobId newStatus now).1 with
      jobs := (ctx.state.finalizeJob jobId newStatus now).1.jobs.remove jobId } := rfl

theorem retire_frame (ctx : ControllerContext) (jobId : JobId) (newStatus : JobStatus) (now : Nat) :
    (ctx.retire jobId newStatus now).1.state = { ctx.state with
      workers := (ctx.retire jobId newStatus now).1.state.workers
      jobs := (ctx.retire jobId newStatus now).1.state.jobs
      usageTracker := (ctx.retire jobId newStatus now).1.state.usageTracker } := by
  rw [retire_state, GlobalState.finalizeJob_eq]

theorem retire_role (ctx : ControllerContext) (jobId : JobId) (newStatus : JobStatus) (now : Nat) :
    (ctx.retire jobId newStatus now).1.state.role = ctx.state.role := by rw [retire_frame]

theorem retire_peers (ctx : ControllerContext) (jobId : JobId) (newStatus : JobStatus) (now : Nat) :
    (ctx.retire jobId newStatus now).1.state.peers = ctx.state.peers := by rw [retire_frame]

theorem retire_outbox (ctx : ControllerContext) (jobId : JobId) (newStatus : JobStatus) (now : Nat) :
    (ctx.retire jobId newStatus now).1.state.outbox = ctx.state.outbox := by rw [retire_frame]

theorem retire_tracking (ctx : ControllerContext) (jobId : JobId) (newStatus : JobStatus) (now : Nat) :
    (ctx.retire jobId newStatus now).1.state.multinodeJobTracking = ctx.state.multinodeJobTracking := by
  rw [retire_frame]

theorem retire_recorded (ctx : ControllerContext) (jobId : JobId) (newStatus : JobStatus) (now : Nat) :
    (ctx.retire jobId newStatus now).1.recorded = ctx.recorded ++
      ((ctx.state.jobs.get? jobId).map fun job => jobToUsage (job.finalized newStatus now)).toList := by
  have table : (ctx.retire jobId newStatus now).1.recorded = ctx.recorded ++
    (((ctx.state.finalizeJob jobId newStatus now).1.jobs.get? jobId).map jobToUsage).toList := rfl
  rw [table, GlobalState.finalizeJob_eq]
  simp only [HashMap.get?_modify, ↓reduceIte, Option.map_map]
  rfl

section Sections

variable (ctx : ControllerContext) (jobId : JobId) (now : Nat)

theorem timeoutJob_retires : Retires ctx.state (ctx.timeoutJob jobId now).state jobId := by
  unfold ControllerContext.timeoutJob
  exact Touches.retire (touches_notifyHead _ _ _) _ now

theorem failOrphan_retires : Retires ctx.state (ctx.failOrphan jobId now).state jobId := by
  have touches : Touches ctx.state { ctx.state with
      jobs := ctx.state.jobs.modify jobId fun job => { job with currentMemoryUsage := 0 } } jobId :=
    touches_modify ctx.state jobId fun _ => rfl
  unfold ControllerContext.failOrphan
  exact Touches.retire touches _ now

theorem jobKilled_retires : Retires ctx.state (ctx.jobKilled jobId now).state jobId :=
  Touches.retire ⟨rfl, rfl, fun _ _ => rfl⟩ .killed now

/-- The record with the log files that the job's workers have reported so far. -/
def ControllerContext.trackedLogs (job : JobInfo) : JobInfo :=
  match ctx.state.multinodeJobTracking.workerLogFiles.get? jobId with
  | some logFiles => if logFiles.isEmpty then job else { job with workerLogFiles := logFiles }
  | none => job

theorem trackedLogs_keeps (job : JobInfo) :
    (ctx.trackedLogs jobId job).id = job.id ∧ (ctx.trackedLogs jobId job).footprint = job.footprint := by
  unfold ControllerContext.trackedLogs
  split
  · split <;> exact ⟨rfl, rfl⟩
  · exact ⟨rfl, rfl⟩

/-- JobError retires the job with the log files that are known. -/
theorem jobError_eq (error : String) : ∃ logged : HashMap JobId JobInfo,
    (∀ other, logged.get? other = if other = jobId then (ctx.state.jobs.get? jobId).map (ctx.trackedLogs jobId)
      else ctx.state.jobs.get? other) ∧
    ∀ retired, retired = (({ ctx.forgetMissing jobId with state := { ctx.state with jobs := logged } }).retire jobId
        (.failed error) now).1 →
      ctx.jobError jobId error now = { retired with state := { retired.state with
        multinodeJobTracking := retired.state.multinodeJobTracking.cleanupJobTracking jobId } }.countFailed jobId := by
  refine ⟨_, fun other => ?_, fun retired same => same ▸ rfl⟩
  have unchanged (table : HashMap JobId JobInfo) :
      table.get? other = if other = jobId then (table.get? jobId).map fun job => job else table.get? other := by
    split
    · rename_i own
      rw [own, Option.map_id_fun', id_eq]
    · rfl
  cases stored : ctx.state.multinodeJobTracking.workerLogFiles.get? jobId with
  | none =>
    have plain : ctx.trackedLogs jobId = fun job => job := by
      funext job
      simp only [ControllerContext.trackedLogs, stored]
    rw [plain]
    exact unchanged ctx.state.jobs
  | some logFiles =>
    dsimp only
    by_cases empty : logFiles.isEmpty = true
    · have plain : ctx.trackedLogs jobId = fun job => job := by
        funext job
        simp only [ControllerContext.trackedLogs, stored, empty, ↓reduceIte]
      rw [plain, if_pos empty]
      exact unchanged ctx.state.jobs
    · have logs : ctx.trackedLogs jobId = fun job => { job with workerLogFiles := logFiles } := by
        funext job
        simp only [ControllerContext.trackedLogs, stored, empty, Bool.false_eq_true, ↓reduceIte]
      rw [logs, if_neg empty]
      exact HashMap.get?_modify _ _ _ _

theorem jobError_retires (error : String) : Retires ctx.state (ctx.jobError jobId error now).state jobId := by
  obtain ⟨logged, table, same⟩ := jobError_eq ctx jobId now error
  have touches : Touches ctx.state { ctx.state with jobs := logged } jobId := by
    refine ⟨rfl, ?_, fun other different => (table other).trans (if_neg different)⟩
    rw [(table jobId).trans (if_pos rfl), Option.map_map]
    exact congrArg (Option.map · _) (funext fun job => (trackedLogs_keeps ctx jobId job).2)
  have retires : Retires ctx.state (({ ctx.forgetMissing jobId with
    state := { ctx.state with jobs := logged } }).retire jobId (.failed error) now).1.state jobId := touches.retire _ now
  rw [same _ rfl]
  exact ⟨retires.workers, retires.gone, retires.others⟩

theorem jobDoneFinish_retires (exitCode : Int) (logFiles : HashMap WorkerId WorkerLogFiles)
    (stdoutId stderrId : Option String) :
    Retires ctx.state (ctx.jobDoneFinish jobId exitCode logFiles stdoutId stderrId now).state jobId := by
  let logged : GlobalState := { ctx.state with
    jobs := ctx.state.jobs.modify jobId (ctx.loggedJob jobId logFiles stdoutId stderrId) }
  have touches : Touches ctx.state logged jobId := touches_modify ctx.state jobId fun _ => rfl
  have retires : Retires ctx.state (({ ctx with state := logged }).retire jobId (.completed exitCode) now).1.state
    jobId := touches.retire _ now
  exact ⟨retires.workers, retires.gone, retires.others⟩

theorem cancelJob_retires {ctx' : ControllerContext} {caller : Caller}
    (canceled : ctx.cancelJob caller jobId now = .ok ctx') : Retires ctx.state ctx'.state jobId := by
  obtain ⟨_, _, same⟩ := ControllerContext.cancelJob_cases canceled
  subst same
  exact Touches.retire (touches_notifyHead _ _ _) _ now

end Sections

end Veloce
