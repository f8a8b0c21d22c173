import Veloce.Controller.AccountingStore
import Veloce.Controller.JobLogs
import Veloce.Handlers.Submission

/-! ReportJobUsage, and the part of a scheduling pass that reads the accounting store. -/

namespace Veloce

open Collections

/-- The record of the job with what the worker measured, and with the worker's status. -/
def mergeUsageReportWithJob (usage : JobUsage) (job : JobInfo) : JobUsage :=
  let merged := jobToUsage job
  { merged with
    status := usage.status
    exitCode := usage.exitCode
    endTime := usage.endTime.or job.endTime
    cpuTimeMs := usage.cpuTimeMs
    maxMemoryBytes := usage.maxMemoryBytes
    cgroupActive := usage.cgroupActive
    stdoutFileId := usage.stdoutFileId.or job.stdoutFileId
    stderrFileId := usage.stderrFileId.or job.stderrFileId
    workdirFileId := usage.workdirFileId.or job.workdirFileId
    workerLogFiles := if usage.workerLogFiles.isEmpty then merged.workerLogFiles else usage.workerLogFiles
    outputArtifacts := if usage.outputArtifacts.isEmpty then merged.outputArtifacts else usage.outputArtifacts
    assignedWorkers := if merged.assignedWorkers.isEmpty then usage.assignedWorkers else merged.assignedWorkers }

/-- What a usage report changes in the record of its job. -/
def JobInfo.withUsage (job : JobInfo) (usage : JobUsage) (multinode : Bool)
    (trackedLogs : HashMap WorkerId WorkerLogFiles) : JobInfo :=
  { job with
    cgroupActive := usage.cgroupActive
    stdoutFileId := if multinode then job.stdoutFileId else usage.stdoutFileId
    stderrFileId := if multinode then job.stderrFileId else usage.stderrFileId
    workdirFileId := usage.workdirFileId
    outputArtifacts := usage.outputArtifacts
    workerLogFiles := if trackedLogs.isEmpty then job.workerLogFiles else trackedLogs }

/-- The handler of ReportJobUsage: the context and the record handed to `record_job`. -/
def ControllerContext.reportJobUsage (ctx : ControllerContext) (workerId : WorkerId) (usage : JobUsage) :
    ControllerContext × JobUsage :=
  let tracking := ctx.state.multinodeJobTracking.recordWorkerLogFiles usage.jobId workerId
    usage.stdoutFileId usage.stderrFileId
  let trackedLogs := tracking.workerLogFiles.getD usage.jobId ∅
  let logged (record : JobUsage) : JobUsage :=
    if trackedLogs.isEmpty then record else { record with workerLogFiles := trackedLogs }
  match ctx.state.jobs.get? usage.jobId with
  | some job =>
    let multinode := tracking.expectedDoneWorkers usage.jobId job > 1
    let updated := job.withUsage usage multinode trackedLogs
    ({ ctx with state := { ctx.state with
        multinodeJobTracking := tracking
        jobs := ctx.state.jobs.modify usage.jobId (·.withUsage usage multinode trackedLogs) } },
      logged (mergeUsageReportWithJob usage updated))
  | none => ({ ctx with state := { ctx.state with multinodeJobTracking := tracking } }, logged usage)

/-- The parents of the queue's Pending jobs that are not in the table. -/
def GlobalState.neededIds (state : GlobalState) : HashSet JobId :=
  let waiting := (state.queue.filterMap state.jobs.get?).filter (·.status = .pending)
  .ofList ((waiting.flatMap JobInfo.parents).filter fun parentId => !state.jobs.contains parentId)

/-- A scheduling pass between its two critical sections: the parents that it still has to
look up, and the statuses that it found. -/
structure PassLookup where
  neededIds : HashSet JobId
  dbCache : HashMap JobId JobStatus := ∅

def PassLookup.note (pass : PassLookup) (parentId : JobId) (answer : Option JobStatus) : PassLookup where
  neededIds := pass.neededIds.remove parentId
  dbCache := match answer with
    | some status => pass.dbCache.insert parentId status
    | none => pass.dbCache

end Veloce
