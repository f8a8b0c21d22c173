import Veloce.Handlers.Client

/-! What clients are told of jobs: the list of all jobs, and the history. -/

namespace Veloce

open Collections

inductive JobStateFilter where
  | pending
  | running
  | completed
  | failed
  | killed

def JobStateFilter.passes : JobStateFilter → JobStatus → Bool
  | .pending, .pending => true
  | .running, .running => true
  | .completed, .completed _ => true
  | .failed, .failed _ => true
  | .killed, .killed => true
  | _, _ => false

def Caller.isViewerOnly (caller : Caller) : Bool :=
  "viewer" ∈ caller.roles && !("admin" ∈ caller.roles || "operator" ∈ caller.roles || "submitter" ∈ caller.roles)

/-- A row of the history as the list shows it; the arguments are in the command line. -/
def JobUsage.listed (h : JobUsage) : JobInfo where
  containerAsset := none
  id := h.jobId
  jobName := h.jobName
  jobComment := h.jobComment
  binary := h.commandLine
  args := []
  status := h.status
  reqNodes := h.reqNodes
  reqCores := h.reqCores
  reqMemory := h.reqMemory
  assignedWorkers := h.assignedWorkers
  startTime := h.startTime
  userId := h.userId
  queuedTime := h.submissionTime
  endTime := h.endTime
  arrayId := h.arrayId
  arrayTaskId := h.arrayTaskId
  gresReq := h.gresReq
  stdoutFileId := h.stdoutFileId
  stderrFileId := h.stderrFileId
  workdirFileId := h.workdirFileId
  workerLogFiles := h.workerLogFiles
  outputArtifacts := h.outputArtifacts
  waitForLicenses := h.waitForLicenses
  estimatedWalltime := h.estimatedWalltime
  priorityOffset := h.priorityOffset
  dependencies := h.dependencies
  dependencySpecs := h.dependencySpecs
  qos := h.qos

/-- `Message::ListJobs`, with the answer of the accounting store; a failed query has no rows. -/
def handleListJobs (jobs : HashMap JobId JobInfo) (history : List JobUsage) (caller : Caller)
    (stateFilter : Option JobStateFilter) : List JobInfo :=
  let list := jobs.values
  let historical := history.filter fun h => h.jobId ∉ list.map (·.id)
  (list ++ historical.map JobUsage.listed).filter fun job =>
    !(caller.isViewerOnly && job.userId ≠ caller.clientId) && stateFilter.all (·.passes job.status)

/-- `Message::GetJobHistory` for one job. -/
def handleGetJobHistory (history : List JobUsage) (caller : Caller) : Except String (List JobUsage) :=
  let history := history.map fun usage => { usage with secret := "" }
  if caller.isViewerOnly then
    let filtered := history.filter (·.userId = caller.clientId)
    if filtered.isEmpty then .error "Permission denied: unauthorized operation" else .ok filtered
  else .ok history

theorem mem_handleListJobs {jobs : HashMap JobId JobInfo} {history : List JobUsage} {caller : Caller} {job : JobInfo} :
    job ∈ handleListJobs jobs history caller none ↔
      ((∃ jobId, jobs.get? jobId = some job) ∨ ∃ row ∈ history,
        (∀ jobId record, jobs.get? jobId = some record → record.id ≠ row.jobId) ∧ row.listed = job) ∧
      (caller.isViewerOnly = true → job.userId = caller.clientId) := by
  have absent (row : JobUsage) : row.jobId ∉ jobs.values.map (·.id) ↔
      ∀ jobId record, jobs.get? jobId = some record → record.id ≠ row.jobId := by
    simp only [List.mem_map, HashMap.mem_values, not_exists, not_and]
    constructor
    · intro none jobId record found
      exact none record ⟨jobId, found⟩
    · intro none record ⟨jobId, found⟩
      exact none jobId record found
  rw [handleListJobs, List.mem_filter, List.mem_append, HashMap.mem_values, List.mem_map]
  simp only [List.mem_filter, decide_eq_true_eq, absent, and_assoc]
  refine and_congr_right fun _ => ?_
  cases caller.isViewerOnly <;> simp

end Veloce
