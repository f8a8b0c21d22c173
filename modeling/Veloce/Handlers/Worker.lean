import Veloce.Controller.JobLogs
import Veloce.Scheduler.Finalize

/-! The worker connection: registration, heartbeat reaping, and the handlers of the job messages a
worker sends. -/

namespace Veloce

open Collections

/-- What a worker announces when it connects. -/
structure Registration where
  workerId : WorkerId
  addr : String
  hostname : String
  resources : Resources
  features : Nat
  connectionId : Nat

def Registration.handle (registration : Registration) (routing : WorkerRouting) (now : Nat)
    (rebuilt : RebuiltWorkerAllocations) : WorkerHandle where
  addr := registration.addr
  hostname := registration.hostname
  resources := registration.resources
  routing := routing
  assignedJobs := rebuilt.assignedJobs
  allocatedMemory := rebuilt.allocatedMemory
  connectionId := registration.connectionId
  availableCoreIds := rebuilt.availableCoreIds
  jobCoreAssignments := rebuilt.jobCoreAssignments
  availableGresIds := rebuilt.availableGresIds
  jobGresAssignments := rebuilt.jobGresAssignments
  connected := true
  lastSeen := now
  cgroupEnabled := registration.resources.cgroupEnabled
  draining := false
  features := registration.features

def sampleResources : Resources where
  cpuCores := 4
  totalMemory := 4294967296
  cpuModel := "cpu"
  arch := "x86_64"
  gres := HashMap.ofList [("gpu", 2)]
  cgroupEnabled := false

def sampleRegistration (workerId : WorkerId) : Registration where
  workerId := workerId
  addr := workerId
  hostname := workerId
  resources := sampleResources
  features := 0
  connectionId := 1

namespace GlobalState

/-- Register a worker over its own connection; a known worker gets a new handle. -/
def registerWorker (state : GlobalState) (registration : Registration) (now : Nat) : GlobalState :=
  let rebuilt := rebuildWorkerAllocations registration.workerId registration.resources state.jobs
  { state with
    workers := state.workers.insert registration.workerId (registration.handle (.direct .live) now rebuilt) }

/-- The writer task of a connection ends, with the reader or at the first message that it cannot
send, and nothing else is told. -/
def endWriter (state : GlobalState) (workerId : WorkerId) (connectionId : Nat) : GlobalState :=
  { state with workers := state.workers.modify workerId fun worker =>
      if worker.connectionId = connectionId then { worker with routing := .direct .closed } else worker }

/-- The end of a connection, whose writer task is ended first. A handle that a newer connection
replaced is kept. -/
def disconnectWorker (state : GlobalState) (workerId : WorkerId) (connectionId now : Nat) : GlobalState :=
  { state with workers := state.workers.modify workerId fun worker =>
      if worker.connectionId = connectionId then
        { worker with routing := .direct .closed, connected := false, lastSeen := now }
      else worker }

/-- A worker reports a started process: the status is written unconditionally. -/
def jobStarted (state : GlobalState) (jobId : JobId) : GlobalState :=
  let cgroupActive := match (state.jobs.get? jobId).bind (·.assignedWorkers.head?) with
    | some workerId => ((state.workers.get? workerId).map (·.cgroupEnabled)).getD false
    | none => false
  { state with jobs := state.jobs.modify jobId fun job =>
      { job with status := .running, cgroupActive := cgroupActive } }

end GlobalState

namespace ControllerContext

def missingFrom (job : JobInfo) (workerId : WorkerId) (active : List JobId) (jobId : JobId) (now : Nat) :
    Bool :=
  job.runsOn workerId && jobId ∉ active &&
    match job.startTime with
    | some start => now - start > 5
    | none => true

/-- One round of the loop over the job table: note when a job was first missing,
and list it for reaping after more than ten seconds. -/
def noteMissing (workerId : WorkerId) (active : List JobId) (now : Nat)
    (noted : HashMap JobId Nat × List JobId) (entry : JobId × JobInfo) : HashMap JobId Nat × List JobId :=
  if missingFrom entry.2 workerId active entry.1 now then
    let firstSeenMissing := noted.1.getD entry.1 now
    (noted.1.insert entry.1 firstSeenMissing,
      if now - firstSeenMissing > 10 then noted.2 ++ [entry.1] else noted.2)
  else if entry.2.runsOn workerId && entry.1 ∈ active then (noted.1.remove entry.1, noted.2)
  else noted

def reapJob (now : Nat) (ctx : ControllerContext) (jobId : JobId) : ControllerContext :=
  { ctx.forgetMissing jobId with
    state := (ctx.state.finalizeJob jobId (.failed "Process exited or failed to start") now).1 }

/-- Reap the Running jobs of a worker that are missing from its heartbeats. -/
def reconcileMissingWorkerJobs (order : IterOrder Unit) (ctx : ControllerContext) (workerId : WorkerId)
    (active : List JobId) (now : Nat) : ControllerContext :=
  let (missingJobs, jobsToReap) := (order.shuffle () ctx.state.jobs.toList).foldl
    (noteMissing workerId active now) (ctx.missingJobs, [])
  jobsToReap.foldl (reapJob now) { ctx with missingJobs := missingJobs }

/-- First section of JobDone: mark the worker and compare the marks with the
expected number. The result tells whether the handler goes on. -/
def jobDoneMark (ctx : ControllerContext) (workerId : WorkerId) (jobId : JobId) : ControllerContext × Bool :=
  let (tracking, doneCount) := ctx.state.multinodeJobTracking.markWorkerDone jobId workerId
  let marked := { ctx.forgetMissing jobId with state := { ctx.state with multinodeJobTracking := tracking } }
  match ctx.state.jobs.get? jobId with
  | none => (marked, false)
  | some job =>
    if job.status ≠ .running then (marked, false)
    else (marked, decide (tracking.expectedDoneWorkers jobId job ≤ doneCount))

theorem jobDoneMark_ctx (ctx : ControllerContext) (workerId : WorkerId) (jobId : JobId) :
    (ctx.jobDoneMark workerId jobId).1 = { ctx.forgetMissing jobId with state := { ctx.state with
      multinodeJobTracking := (ctx.state.multinodeJobTracking.markWorkerDone jobId workerId).1 } } := by
  simp only [jobDoneMark]
  split
  · rfl
  · split <;> rfl

theorem jobDoneMark_finalizes {ctx : ControllerContext} {workerId : WorkerId} {jobId : JobId} :
    (ctx.jobDoneMark workerId jobId).2 = true ↔ ∃ job, ctx.state.jobs.get? jobId = some job ∧
      job.status = .running ∧
      (ctx.state.multinodeJobTracking.markWorkerDone jobId workerId).1.expectedDoneWorkers jobId job ≤
        (ctx.state.multinodeJobTracking.markWorkerDone jobId workerId).2 := by
  simp only [jobDoneMark]
  cases ctx.state.jobs.get? jobId with
  | none => simp
  | some job =>
    by_cases running : job.status = .running
    · simp [running]
    · simp [running]

def jobDoneSnapshot (ctx : ControllerContext) (jobId : JobId) : Option (HashMap WorkerId WorkerLogFiles) :=
  match ctx.state.jobs.get? jobId with
  | some _ => some (ctx.state.multinodeJobTracking.workerLogFiles.getD jobId ∅)
  | none => none

/-- The log files to store: those reported meanwhile before those of the snapshot. -/
def freshLogs (ctx : ControllerContext) (jobId : JobId) (logFiles : HashMap WorkerId WorkerLogFiles) :
    Option (HashMap WorkerId WorkerLogFiles) :=
  ((ctx.state.multinodeJobTracking.workerLogFiles.get? jobId).filter fun files => !files.isEmpty).or
    (if logFiles.isEmpty then none else some logFiles)

def loggedJob (ctx : ControllerContext) (jobId : JobId) (logFiles : HashMap WorkerId WorkerLogFiles)
    (stdoutId stderrId : Option String) (job : JobInfo) : JobInfo :=
  { job with
    stdoutFileId := stdoutId.or job.stdoutFileId
    stderrFileId := stderrId.or job.stderrFileId
    workerLogFiles := (ctx.freshLogs jobId logFiles).getD job.workerLogFiles }

/-- Third section, after the logs are merged: the job is finalized whatever
happened to it since the first section. -/
def jobDoneFinish (ctx : ControllerContext) (jobId : JobId) (exitCode : Int)
    (logFiles : HashMap WorkerId WorkerLogFiles) (stdoutId stderrId : Option String) (now : Nat) :
    ControllerContext :=
  let logged := { ctx with state := { ctx.state with
    jobs := ctx.state.jobs.modify jobId (ctx.loggedJob jobId logFiles stdoutId stderrId) } }
  let retired := (logged.retire jobId (.completed exitCode) now).1
  { retired with state := { retired.state with
      multinodeJobTracking := retired.state.multinodeJobTracking.cleanupJobTracking jobId } }.countCompleted jobId

def jobError (ctx : ControllerContext) (jobId : JobId) (error : String) (now : Nat) : ControllerContext :=
  let logged := { ctx.forgetMissing jobId with state := { ctx.state with
    jobs := match ctx.state.multinodeJobTracking.workerLogFiles.get? jobId with
      | some logFiles =>
        if logFiles.isEmpty then ctx.state.jobs
        else ctx.state.jobs.modify jobId fun job => { job with workerLogFiles := logFiles }
      | none => ctx.state.jobs } }
  let retired := (logged.retire jobId (.failed error) now).1
  { retired with state := { retired.state with
      multinodeJobTracking := retired.state.multinodeJobTracking.cleanupJobTracking jobId } }.countFailed jobId

/-- The reply to TerminateJob and to PreemptJob alike. -/
def jobKilled (ctx : ControllerContext) (jobId : JobId) (now : Nat) : ControllerContext :=
  ((ctx.forgetMissing jobId).retire jobId .killed now).1.countFailed jobId

end ControllerContext

end Veloce
