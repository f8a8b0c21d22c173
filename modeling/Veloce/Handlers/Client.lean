import Veloce.Scheduler.Finalize

/-! Client requests that change the job table: submission and cancellation. -/

namespace Veloce

open Collections

structure Submission where
  job : JobInfo
  pending : job.status = .pending
  unassigned : job.assignedWorkers = []
  unallocated : job.allocatedCores = ∅ ∧ job.allocatedGres = ∅
  unstarted : job.startTime = none

/-- A job that fills every node it gets. -/
def sampleSubmission (jobId : JobId) (qos : QosLevel) (reqNodes : Nat) (binary : String) : Submission where
  job := { id := jobId, binary, reqNodes, reqCores := 4, reqMemory := 100, userId := "user", qos }
  pending := rfl
  unassigned := rfl
  unallocated := ⟨rfl, rfl⟩
  unstarted := rfl

def sampleLeader : ControllerContext := { state := { role := .leader } }

structure Caller where
  clientId : String
  roles : List String

/-- A caller that may only touch its own jobs. -/
def Caller.isSubmitterOnly (caller : Caller) : Bool :=
  "submitter" ∈ caller.roles && !("admin" ∈ caller.roles || "operator" ∈ caller.roles)

/-- One job of a batch of `submission_processor`; a follower drops it. -/
def GlobalState.acceptSubmission (state : GlobalState) (submission : Submission) (nextJobId : Nat) :
    GlobalState :=
  if state.role = .leader then
    { state with
      nextJobId := nextJobId
      jobs := state.jobs.insert submission.job.id submission.job
      queue := state.queue ++ [submission.job.id] }
  else state

namespace ControllerContext

/-- Cancel a job of the table: only the head node is told. -/
def cancelJob (ctx : ControllerContext) (caller : Caller) (jobId : JobId) (now : Nat) :
    Except String ControllerContext :=
  match ctx.state.jobs.get? jobId with
  | some job =>
    if caller.isSubmitterOnly && job.userId != caller.clientId then
      .error "Permission denied: unauthorized operation"
    else
      let notified := { ctx with state := ctx.state.notifyHead jobId (.terminateJob jobId) }
      .ok (((notified.forgetMissing jobId).retire jobId .killed now).1.countFailed jobId)
  | none => .error s!"Job {jobId} not found"

theorem cancelJob_cases {ctx ctx' : ControllerContext} {caller : Caller} {jobId : JobId} {now : Nat}
    (canceled : ctx.cancelJob caller jobId now = .ok ctx') :
    ∃ job, ctx.state.jobs.get? jobId = some job ∧
      ctx' = (((({ ctx with state := ctx.state.notifyHead jobId (.terminateJob jobId) }).forgetMissing jobId).retire
        jobId .killed now).1.countFailed jobId) := by
  unfold cancelJob at canceled
  split at canceled
  · rename_i job found
    split at canceled
    · cases canceled
    · cases canceled
      exact ⟨job, found, rfl⟩
  · cases canceled

end ControllerContext

end Veloce
