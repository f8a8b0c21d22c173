import Veloce.Handlers.Worker

/-! Worker heartbeats. -/

namespace Veloce

open Collections

structure JobStats where
  jobId : JobId
  memoryUsageBytes : Nat
  isIdle : Bool
  idleDuration : Nat
  cgroupActive : Bool

/-- What the workers of each job last reported (memory in use, idle), and since when
the job has been idle on all of them. -/
structure Telemetry where
  jobWorkerStats : HashMap JobId (HashMap WorkerId (Nat × Bool)) := ∅
  globalIdleStart : HashMap JobId Nat := ∅

def Telemetry.syncActiveState (telemetry : Telemetry) (jobs : HashMap JobId JobInfo) : Telemetry where
  jobWorkerStats := telemetry.jobWorkerStats.retain fun jobId _ => jobs.contains jobId
  globalIdleStart := telemetry.globalIdleStart.retain fun jobId _ => jobs.contains jobId

def QosLevel.abovePreemptible : QosLevel → Bool
  | .background | .preemptible => false
  | .production | .interactive => true

namespace JobInfo

def totalMemoryUsage (job : JobInfo) (stats : HashMap WorkerId (Nat × Bool)) : Nat :=
  job.assignedWorkers.foldl (fun total workerId =>
    match stats.get? workerId with
    | some report => addU64 total report.1
    | none => total) 0

def globallyIdle (job : JobInfo) (stats : HashMap WorkerId (Nat × Bool)) : Bool :=
  job.assignedWorkers.all fun workerId =>
    match stats.get? workerId with
    | some report => report.2
    | none => false

/-- The idle flag and duration, given since when the job is known to be idle. -/
def withIdleness (job : JobInfo) (idle : Bool) (idleStart : Option Nat) (now : Nat) : JobInfo :=
  if idle then
    if job.isIdle then { job with idleDuration := (idleStart.map (now - ·)).getD job.idleDuration }
    else { job with isIdle := true, idleDuration := 0 }
  else { job with isIdle := false, idleDuration := 0 }

/-- A job that has been idle for too long becomes preemptible. -/
def degradeQos (job : JobInfo) (idleTimeout : Nat) : JobInfo :=
  if job.isIdle && decide (idleTimeout ≤ job.idleDuration) && job.qos.abovePreemptible then
    { job with qos := .preemptible }
  else job

end JobInfo

def recordJobStats (workerId : WorkerId) (idleTimeout now : Nat)
    (view : Telemetry × HashMap JobId JobInfo) (stats : JobStats) : Telemetry × HashMap JobId JobInfo :=
  let reports := (view.1.jobWorkerStats.getD stats.jobId ∅).insert workerId (stats.memoryUsageBytes, stats.isIdle)
  let telemetry := { view.1 with jobWorkerStats := view.1.jobWorkerStats.insert stats.jobId reports }
  match view.2.get? stats.jobId with
  | none => (telemetry, view.2)
  | some job =>
    let idle := job.globallyIdle reports
    ({ telemetry with globalIdleStart :=
        if idle then
          if job.isIdle then telemetry.globalIdleStart else telemetry.globalIdleStart.insert job.id now
        else telemetry.globalIdleStart.remove job.id },
      view.2.modify stats.jobId fun job =>
        ({ job with
          currentMemoryUsage := job.totalMemoryUsage reports
          cgroupActive := stats.cgroupActive }.withIdleness idle
            (telemetry.globalIdleStart.get? job.id) now).degradeQos idleTimeout)

def copyJobStats (jobs : HashMap JobId JobInfo) (stats : JobStats) : HashMap JobId JobInfo :=
  jobs.modify stats.jobId fun job =>
    { job with
      currentMemoryUsage := stats.memoryUsageBytes
      isIdle := stats.isIdle
      idleDuration := stats.idleDuration
      cgroupActive := stats.cgroupActive }

/-- The heartbeat of a worker as its own controller takes it. -/
structure Pulse where
  workerId : WorkerId
  resources : Resources
  jobStats : List JobStats

def Pulse.activeJobIds (pulse : Pulse) : List JobId := pulse.jobStats.map JobStats.jobId

/-- The resources of a heartbeat replace those of the handle; its ledger stays. -/
def GlobalState.refreshWorker (state : GlobalState) (pulse : Pulse) (now : Nat) : GlobalState :=
  { state with workers := state.workers.modify pulse.workerId fun worker =>
      { worker with resources := pulse.resources, lastSeen := now } }

namespace ControllerContext

def hearWorker (ctx : ControllerContext) (order : IterOrder Unit) (pulse : Pulse) (now : Nat) : ControllerContext :=
  { ctx with state := ctx.state.refreshWorker pulse now }.reconcileMissingWorkerJobs order pulse.workerId
    pulse.activeJobIds now

/-- A heartbeat over a connection that a newer one replaced is ignored. -/
def directHeartbeat (ctx : ControllerContext) (telemetry : Telemetry) (order : IterOrder Unit) (pulse : Pulse)
    (connectionId idleTimeout now : Nat) : ControllerContext × Telemetry :=
  if (ctx.state.workers.get? pulse.workerId).map WorkerHandle.connectionId = some connectionId then
    let heard := ctx.hearWorker order pulse now
    let view := pulse.jobStats.foldl (recordJobStats pulse.workerId idleTimeout now) (telemetry, heard.state.jobs)
    ({ heard with state := { heard.state with jobs := view.2 } }, view.1)
  else (ctx, telemetry)

def gatewayHeartbeat (order : IterOrder Unit) (now : Nat) (ctx : ControllerContext) (pulse : Pulse) :
    ControllerContext :=
  if ctx.state.workers.contains pulse.workerId then
    let heard := ctx.hearWorker order pulse now
    { heard with state := { heard.state with jobs := pulse.jobStats.foldl copyJobStats heard.state.jobs } }
  else ctx

end ControllerContext

end Veloce
