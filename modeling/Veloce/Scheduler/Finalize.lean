import Veloce.Collections.IterOrder
import Veloce.Collections.Pool
import Veloce.Controller.State

/-! Job finalization, preemption, timeouts and the release of a job's resources. -/

namespace Veloce

open Collections

/-- The cores to recover: the handle's assignment, else the job's own record. -/
def WorkerHandle.releasedCores (worker : WorkerHandle) (workerId : WorkerId) (jobId : JobId)
    (job : JobInfo) : List Nat :=
  match worker.jobCoreAssignments.get? jobId with
  | some cores => cores
  | none => job.allocatedCores.getD workerId []

/-- The free GRES ids with those of the job recovered. -/
def WorkerHandle.recoveredGresIds (worker : WorkerHandle) (workerId : WorkerId) (jobId : JobId)
    (job : JobInfo) : HashMap String (List Nat) :=
  match (worker.jobGresAssignments.get? jobId).or (job.allocatedGres.get? workerId) with
  | some jobGres => jobGres.updateEntries (fun name ids available =>
      some (Pool.reclaim (asU32 (worker.resources.gres.getD name 0)) (available.getD []) ids))
      worker.availableGresIds
  | none => worker.availableGresIds

/-- Give a job's cores, memory and GRES back on one worker. A worker that does
not list the job is left alone; one that becomes idle is reset to its resources. -/
def WorkerHandle.releaseJob (worker : WorkerHandle) (workerId : WorkerId) (jobId : JobId)
    (job : JobInfo) : WorkerHandle :=
  if jobId ∈ worker.assignedJobs then
    let assignedJobs := worker.assignedJobs.remove jobId
    { worker with
      assignedJobs := assignedJobs
      allocatedMemory := worker.allocatedMemory - job.reqMemory
      availableCoreIds :=
        if assignedJobs.isEmpty then List.range worker.resources.cpuCores
        else Pool.reclaim worker.resources.cpuCores worker.availableCoreIds
          (worker.releasedCores workerId jobId job)
      jobCoreAssignments := worker.jobCoreAssignments.remove jobId
      availableGresIds :=
        if assignedJobs.isEmpty then worker.resources.gresIds
        else worker.recoveredGresIds workerId jobId job
      jobGresAssignments := worker.jobGresAssignments.remove jobId }
  else worker

theorem WorkerHandle.releaseJob_of_notMem {worker : WorkerHandle} {workerId : WorkerId} {jobId : JobId}
    {job : JobInfo} (absent : jobId ∉ worker.assignedJobs) :
    worker.releaseJob workerId jobId job = worker := if_neg absent

theorem WorkerHandle.mem_releaseJob {worker : WorkerHandle} {workerId : WorkerId} {jobId other : JobId}
    {job : JobInfo} : other ∈ (worker.releaseJob workerId jobId job).assignedJobs ↔
      other ≠ jobId ∧ other ∈ worker.assignedJobs := by
  unfold WorkerHandle.releaseJob
  split
  · exact HashSet.mem_remove
  · rename_i absent
    constructor
    · intro member
      exact ⟨fun same => absent (same ▸ member), member⟩
    · exact And.right

theorem WorkerHandle.releaseJob_settled (worker : WorkerHandle) (workerId : WorkerId) (jobId : JobId)
    (job : JobInfo) : (worker.releaseJob workerId jobId job).releaseJob workerId jobId job =
      worker.releaseJob workerId jobId job :=
  releaseJob_of_notMem fun member => (mem_releaseJob.mp member).1 rfl

@[simp] theorem WorkerHandle.releaseJob_resources (worker : WorkerHandle) (workerId : WorkerId)
    (jobId : JobId) (job : JobInfo) : (worker.releaseJob workerId jobId job).resources = worker.resources := by
  unfold WorkerHandle.releaseJob
  split <;> rfl

/-- The record `finalize_job` leaves in the table. -/
def JobInfo.finalized (job : JobInfo) (newStatus : JobStatus) (now : Nat) : JobInfo :=
  { job with status := newStatus, currentMemoryUsage := 0, endTime := some now, reason := none }

/-- The record `preempt_job` leaves in the table. -/
def JobInfo.requeued (job : JobInfo) : JobInfo :=
  { job with
    status := .pending
    startTime := none
    assignedWorkers := []
    allocatedCores := ∅
    allocatedGres := ∅
    currentMemoryUsage := 0
    reason := some "Preempted by higher priority job" }

namespace GlobalState

def releaseJobResourcesInternal (state : GlobalState) (jobId : JobId) : GlobalState :=
  match state.jobs.get? jobId with
  | some job =>
    { state with
      workers := job.assignedWorkers.foldl
        (fun workers workerId => workers.modify workerId (·.releaseJob workerId jobId job)) state.workers }
  | none => state

/-- Charge the user of a Running job for the cores it held since its start. -/
def accrueUsage (state : GlobalState) (jobId : JobId) (now : Nat) : GlobalState :=
  match state.jobs.get? jobId with
  | some job =>
    match job.status, job.startTime with
    | .running, some startTime =>
      let elapsed := now - startTime
      let coresUsed := job.reqNodes.toFloat * job.reqCores.toFloat
      { state with usageTracker := state.usageTracker.accrue job.userId (elapsed.toFloat * coresUsed) }
    | _, _ => state
  | none => state

def notifyHead (state : GlobalState) (jobId : JobId) (msg : Message) : GlobalState :=
  match (state.jobs.get? jobId).bind (·.assignedWorkers.head?) with
  | some workerId => state.trySend workerId msg
  | none => state

def finalizeJob (state : GlobalState) (jobId : JobId) (newStatus : JobStatus) (now : Nat) :
    GlobalState × List String :=
  let filesToDelete := match state.jobs.get? jobId with
    | some job => job.inputs.map FileHandle.fileId
    | none => []
  let released := (state.accrueUsage jobId now).releaseJobResourcesInternal jobId
  ({ released with jobs := released.jobs.modify jobId (·.finalized newStatus now) }, filesToDelete)

def preemptJob (state : GlobalState) (jobId : JobId) : GlobalState :=
  match state.jobs.get? jobId with
  | some job =>
    if job.status = .running then
      let released := (state.notifyHead jobId (.preemptJob jobId)).releaseJobResourcesInternal jobId
      { released with
        jobs := released.jobs.modify jobId JobInfo.requeued
        queue := if jobId ∈ released.queue then released.queue else released.queue ++ [jobId] }
    else state
  | none => state

/-- The handle of a worker after the release of a job. -/
theorem workers_release (state : GlobalState) (jobId : JobId) (workerId : WorkerId) :
    (state.releaseJobResourcesInternal jobId).workers.get? workerId =
      match state.jobs.get? jobId with
      | some job =>
        if workerId ∈ job.assignedWorkers then
          (state.workers.get? workerId).map (·.releaseJob workerId jobId job)
        else state.workers.get? workerId
      | none => state.workers.get? workerId := by
  unfold releaseJobResourcesInternal
  cases found : state.jobs.get? jobId with
  | none => rfl
  | some job =>
    exact HashMap.get?_foldl_modify
      (fun workerId (worker : WorkerHandle) => worker.releaseJob workerId jobId job)
      (fun workerId worker => worker.releaseJob_settled workerId jobId job) _ _ _

theorem accrueUsage_eq (state : GlobalState) (jobId : JobId) (now : Nat) :
    state.accrueUsage jobId now =
      { state with usageTracker := (state.accrueUsage jobId now).usageTracker } := by
  unfold accrueUsage
  split
  · split <;> rfl
  · rfl

theorem trySend_outbox (state : GlobalState) (workerId : WorkerId) (msg : Message) :
    state.trySend workerId msg = { state with outbox := (state.trySend workerId msg).outbox } := by
  rw [trySend_eq]
  split <;> rfl

theorem notifyHead_eq (state : GlobalState) (jobId : JobId) (msg : Message) :
    state.notifyHead jobId msg = { state with outbox := (state.notifyHead jobId msg).outbox } := by
  unfold notifyHead
  split
  · exact trySend_outbox _ _ _
  · rfl

theorem finalizeJob_eq (state : GlobalState) (jobId : JobId) (newStatus : JobStatus) (now : Nat) :
    (state.finalizeJob jobId newStatus now).1 = { state with
      workers := (state.releaseJobResourcesInternal jobId).workers
      jobs := state.jobs.modify jobId (·.finalized newStatus now)
      usageTracker := (state.accrueUsage jobId now).usageTracker } := by
  unfold finalizeJob
  rw [accrueUsage_eq]
  unfold releaseJobResourcesInternal
  cases state.jobs.get? jobId <;> rfl

theorem preemptJob_of_running {state : GlobalState} {jobId : JobId} {job : JobInfo}
    (found : state.jobs.get? jobId = some job) (running : job.status = .running) :
    state.preemptJob jobId = { state with
      workers := (state.releaseJobResourcesInternal jobId).workers
      jobs := state.jobs.modify jobId JobInfo.requeued
      queue := if jobId ∈ state.queue then state.queue else state.queue ++ [jobId]
      outbox := (state.notifyHead jobId (.preemptJob jobId)).outbox } := by
  unfold preemptJob
  rw [notifyHead_eq]
  simp only [found, running, ↓reduceIte]
  unfold releaseJobResourcesInternal
  simp only [found]

theorem preemptJob_of_not_running {state : GlobalState} {jobId : JobId}
    (idle : ∀ job, state.jobs.get? jobId = some job → job.status ≠ .running) :
    state.preemptJob jobId = state := by
  unfold preemptJob
  split
  · rename_i job found
    exact if_neg (idle job found)
  · rfl

/-- A Running job is requeued; any other preemption has no effect. -/
theorem preemptJob_cases (state : GlobalState) (jobId : JobId) :
    (∃ job, state.jobs.get? jobId = some job ∧ job.status = .running ∧ state.preemptJob jobId = { state with
      workers := (state.releaseJobResourcesInternal jobId).workers
      jobs := state.jobs.modify jobId JobInfo.requeued
      queue := if jobId ∈ state.queue then state.queue else state.queue ++ [jobId]
      outbox := (state.notifyHead jobId (.preemptJob jobId)).outbox }) ∨ state.preemptJob jobId = state := by
  by_cases running : ∃ job, state.jobs.get? jobId = some job ∧ job.status = .running
  · obtain ⟨job, found, running⟩ := running
    exact .inl ⟨job, found, running, preemptJob_of_running found running⟩
  · exact .inr (preemptJob_of_not_running fun job found same => running ⟨job, found, same⟩)

end GlobalState

namespace ControllerContext

def forgetMissing (ctx : ControllerContext) (jobId : JobId) : ControllerContext :=
  { ctx with missingJobs := ctx.missingJobs.remove jobId }

def countFailed (ctx : ControllerContext) (jobId : JobId) : ControllerContext :=
  { ctx with failed := ctx.failed ++ [jobId] }

def countCompleted (ctx : ControllerContext) (jobId : JobId) : ControllerContext :=
  { ctx with completed := ctx.completed ++ [jobId] }

/-- The tail shared by the terminal handlers: finalize the job, take it out of
the table, and hand the record of the removed job to the accounting store. -/
def retire (ctx : ControllerContext) (jobId : JobId) (newStatus : JobStatus) (now : Nat) :
    ControllerContext × List String :=
  let (state, files) := ctx.state.finalizeJob jobId newStatus now
  let jobClone := state.jobs.get? jobId
  ({ ctx with
      state := { state with jobs := state.jobs.remove jobId }
      recorded := ctx.recorded ++ (jobClone.map jobToUsage).toList },
    files)

/-- The iterations over unordered collections in `check_timeouts`. -/
inductive TimeoutSite where
  | jobs
  | workers
  | assigned (workerId : WorkerId)

def walltimeExceeded (job : JobInfo) (now : Nat) : Bool :=
  job.status = .running && job.walltime > 0 &&
    match job.startTime with
    | some start => now - start > job.walltime
    | none => false

def timeoutJob (ctx : ControllerContext) (jobId : JobId) (now : Nat) : ControllerContext :=
  let notified := { ctx with state := ctx.state.notifyHead jobId (.terminateJob jobId) }
  ((notified.forgetMissing jobId).retire jobId (.failed "Timeout") now).1.countFailed jobId

def workerExpired (worker : WorkerHandle) (now : Nat) : Bool :=
  !worker.connected && now - worker.lastSeen > 60

/-- Fail one job of a worker that did not come back. -/
def failOrphan (ctx : ControllerContext) (jobId : JobId) (now : Nat) : ControllerContext :=
  let reset := { ctx with state := { ctx.state with
    jobs := ctx.state.jobs.modify jobId fun job => { job with currentMemoryUsage := 0 } } }
  ((reset.forgetMissing jobId).retire jobId (.failed "Worker timeout") now).1.countFailed jobId

/-- Remove a dead worker and fail the jobs assigned to it. -/
def expireWorker (order : IterOrder TimeoutSite) (now : Nat) (ctx : ControllerContext)
    (workerId : WorkerId) : ControllerContext :=
  let jobsToFail := match ctx.state.workers.get? workerId with
    | some worker => order.shuffle (.assigned workerId) worker.assignedJobs.elems
    | none => []
  let removed := { ctx with state := { ctx.state with workers := ctx.state.workers.remove workerId } }
  jobsToFail.foldl (fun ctx jobId => ctx.failOrphan jobId now) removed

def timedOutJobs (order : IterOrder TimeoutSite) (state : GlobalState) (now : Nat) : List JobId :=
  ((order.shuffle .jobs state.jobs.toList).filter fun entry => walltimeExceeded entry.2 now).map Prod.fst

def deadWorkers (order : IterOrder TimeoutSite) (state : GlobalState) (now : Nat) : List WorkerId :=
  ((order.shuffle .workers state.workers.toList).filter fun entry => workerExpired entry.2 now).map Prod.fst

def checkTimeouts (order : IterOrder TimeoutSite) (ctx : ControllerContext) (now : Nat) :
    ControllerContext :=
  if ctx.state.role = .leader then
    let walled := (timedOutJobs order ctx.state now).foldl (fun ctx jobId => ctx.timeoutJob jobId now) ctx
    (deadWorkers order walled.state now).foldl (expireWorker order now) walled
  else ctx

def orphans (order : IterOrder TimeoutSite) (ctx : ControllerContext) (workerId : WorkerId) : List JobId :=
  match ctx.state.workers.get? workerId with
  | some worker => order.shuffle (.assigned workerId) worker.assignedJobs.elems
  | none => []

variable {order : IterOrder TimeoutSite}

theorem mem_orphans {ctx : ControllerContext} {workerId : WorkerId} {jobId : JobId} :
    jobId ∈ orphans order ctx workerId ↔
      ∃ worker, ctx.state.workers.get? workerId = some worker ∧ jobId ∈ worker.assignedJobs := by
  unfold orphans
  cases ctx.state.workers.get? workerId with
  | none => simp
  | some worker => simp [HashSet.mem_def]

theorem orphans_nodup (order : IterOrder TimeoutSite) (ctx : ControllerContext) (workerId : WorkerId) :
    (orphans order ctx workerId).Nodup := by
  unfold orphans
  split
  · rename_i worker _
    exact IterOrder.shuffle_nodup worker.assignedJobs.nodup
  · exact List.nodup_nil

theorem mem_timedOutJobs {state : GlobalState} {now : Nat} {jobId : JobId} :
    jobId ∈ timedOutJobs order state now ↔
      ∃ job, state.jobs.get? jobId = some job ∧ walltimeExceeded job now = true := by
  simp only [timedOutJobs, List.mem_map, List.mem_filter, IterOrder.mem_shuffle]
  constructor
  · rintro ⟨⟨name, job⟩, ⟨entry, exceeded⟩, same⟩
    cases same
    exact ⟨job, HashMap.mem_toList.mp entry, exceeded⟩
  · rintro ⟨job, found, exceeded⟩
    exact ⟨(jobId, job), ⟨HashMap.mem_toList.mpr found, exceeded⟩, rfl⟩

theorem timedOutJobs_nodup (order : IterOrder TimeoutSite) (state : GlobalState) (now : Nat) :
    (timedOutJobs order state now).Nodup :=
  (IterOrder.shuffle_map_nodup state.jobs.toList_keys_nodup).sublist (List.filter_sublist.map Prod.fst)

/-- The invariant rule of the timeouts. The invariant may speak about the jobs
that are still to be failed. -/
theorem checkTimeouts_invariant (Inv : List JobId → ControllerContext → Prop)
    {ctx : ControllerContext} {now : Nat} (follower : ctx.state.role ≠ .leader → Inv [] ctx)
    (begins : Inv (timedOutJobs order ctx.state now) ctx)
    (walled : ∀ ctx jobId rest, Inv (jobId :: rest) ctx → Inv rest (ctx.timeoutJob jobId now))
    (removed : ∀ ctx workerId, Inv [] ctx → Inv (orphans order ctx workerId)
      { ctx with state := { ctx.state with workers := ctx.state.workers.remove workerId } })
    (orphaned : ∀ ctx jobId rest, Inv (jobId :: rest) ctx → Inv rest (ctx.failOrphan jobId now)) :
    Inv [] (checkTimeouts order ctx now) := by
  have timeouts : ∀ (jobs : List JobId) (ctx : ControllerContext), Inv jobs ctx →
      Inv [] (jobs.foldl (fun ctx jobId => ctx.timeoutJob jobId now) ctx) := by
    intro jobs
    induction jobs with
    | nil => intro ctx valid; exact valid
    | cons jobId rest ih => intro ctx valid; exact ih _ (walled ctx jobId rest valid)
  have failures : ∀ (jobs : List JobId) (ctx : ControllerContext), Inv jobs ctx →
      Inv [] (jobs.foldl (fun ctx jobId => ctx.failOrphan jobId now) ctx) := by
    intro jobs
    induction jobs with
    | nil => intro ctx valid; exact valid
    | cons jobId rest ih => intro ctx valid; exact ih _ (orphaned ctx jobId rest valid)
  have expiries : ∀ (dead : List WorkerId) (ctx : ControllerContext), Inv [] ctx →
      Inv [] (dead.foldl (expireWorker order now) ctx) := by
    intro dead
    induction dead with
    | nil => intro ctx valid; exact valid
    | cons workerId rest ih => intro ctx valid; exact ih _ (failures _ _ (removed ctx workerId valid))
  unfold checkTimeouts
  split
  · exact expiries _ _ (timeouts _ _ begins)
  · rename_i waits
    exact follower waits

/-- Whether a finished job has been kept long enough. -/
def prunable (job : JobInfo) (retentionSeconds now : Nat) : Bool :=
  job.status.terminal &&
    match job.endTime with
    | some endTime => now - endTime > retentionSeconds
    | none => now - job.queuedTime > addU64 retentionSeconds 86400

def pruneJobs (ctx : ControllerContext) (retentionSeconds now : Nat) : ControllerContext :=
  if ctx.state.role = .leader then
    { ctx with state := { ctx.state with
      jobs := ctx.state.jobs.retain fun _ job => !prunable job retentionSeconds now } }
  else ctx

end ControllerContext

end Veloce
