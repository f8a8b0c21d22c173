import Mathlib.Data.List.Sort
import Veloce.Collections.IterOrder
import Veloce.Scheduler.Pass

/-! Steps inside the allocation of a Running job. The board holds the fields of the global
state that belong to steps; the tasks that wait for a step are known by numbers. -/

namespace Veloce

open Collections

abbrev StepId := Nat

/-- The job and the number of a step. -/
abbrev StepKey := JobId × StepId

/-- Addition of two `u32` values in a release build. -/
def addU32 (left right : Nat) : Nat := (left + right) % 2 ^ 32

inductive StepStatus where
  | pending
  | running
  | completed (code : Int)
  | failed (error : String)
  | killed
deriving DecidableEq, Repr

def StepStatus.ended : StepStatus → Bool
  | .completed _ | .failed _ | .killed => true
  | .pending | .running => false

structure StepInfo where
  stepId : StepId
  parentJobId : JobId
  binary : String
  args : List String
  status : StepStatus
  reqNodes : Nat
  reqCores : Nat
  ntasks : Nat
  assignedWorkers : List WorkerId
  isIdle : Bool
  idleDuration : Nat
  inputs : List FileHandle
  envVars : List (String × String)
deriving DecidableEq

/-- The launch order of a step on one worker. -/
structure RunStep where
  parentJobId : JobId
  stepId : StepId
  binary : String
  args : List String
  nodeList : List String
  assignedCores : Option (List Nat)
  workingDirectory : String
  userId : String
  assignedRanks : List Nat
  totalRanks : Nat
  inputs : List FileHandle
  allocatedGres : HashMap String (List Nat)
  gresReq : HashMap String Nat
  secret : String
  controllerUrl : String
  envVars : List (String × String)

def RunStep.key (order : RunStep) : StepKey := (order.parentJobId, order.stepId)

abbrev StepChunk := Bool × List UInt8

/-- `outputs` are the unread messages of each channel whose receiver is alive, `notified` the
codes sent to waiters, and `outbox` the orders handed to routes, each in the order of the calls. -/
structure StepBoard where
  steps : HashMap StepKey StepInfo := ∅
  nextStepId : StepId := 1
  stepWaiters : HashMap StepKey (List Nat) := ∅
  stepOutputWaiters : HashMap StepKey (List Nat) := ∅
  outputs : HashMap Nat (List StepChunk) := ∅
  notified : List (Nat × Int) := []
  outbox : List (WorkerId × RunStep) := []

structure StepRequest where
  parentJobId : JobId
  binary : String
  args : List String := []
  reqNodes : Nat
  reqCores : Nat
  ntasks : Nat
  inputs : List FileHandle := []
  envVars : List (String × String) := []

def StepRequest.info (request : StepRequest) (stepId : StepId) : StepInfo where
  stepId := stepId
  parentJobId := request.parentJobId
  binary := request.binary
  args := request.args
  status := .pending
  reqNodes := request.reqNodes
  reqCores := request.reqCores
  ntasks := request.ntasks
  assignedWorkers := []
  isIdle := false
  idleDuration := 0
  inputs := request.inputs
  envVars := request.envVars

/-- Steps reach the controller under another name than jobs do. -/
def GlobalState.stepControllerUrl (state : GlobalState) : String := s!"https://localhost:{state.apiPort}"

namespace StepBoard

def submitStep (state : GlobalState) (board : StepBoard) (request : StepRequest) :
    Except String (StepId × StepBoard) :=
  match state.jobs.get? request.parentJobId with
  | none => .error "Parent job not found"
  | some job =>
    if job.status ≠ .running then .error "Parent job is not running"
    else if job.assignedWorkers.isEmpty then .error "Parent job has no assigned workers"
    else
      let stepId := board.nextStepId
      .ok (stepId, { board with
        nextStepId := addU32 stepId 1
        steps := board.steps.insert (request.parentJobId, stepId) (request.info stepId) })

/-- The steps of a job that wait, in the order of their submission. -/
def pendingSteps (board : StepBoard) (jobId : JobId) : List (StepId × StepInfo) :=
  ((board.steps.toList.filter fun entry => entry.1.1 = jobId && entry.2.status = .pending).map
    fun entry => (entry.1.2, entry.2)).insertionSort fun left right => left.1 ≤ right.1

/-- The cores of the Running steps of a job. -/
def coresUsed (board : StepBoard) (jobId : JobId) : Nat :=
  ((board.steps.toList.filter fun entry => entry.1.1 = jobId && entry.2.status = .running).map
    fun entry => entry.2.reqCores).foldl addU32 0

/-- The waiting steps that fit beside the cores in use. -/
def pickSteps (cores : Nat) : Nat → List (StepId × StepInfo) → List (StepId × StepInfo)
  | _, [] => []
  | used, step :: rest =>
    if addU32 used step.2.reqCores ≤ cores then step :: pickSteps cores (addU32 used step.2.reqCores) rest
    else pickSteps cores used rest

/-- The steps of one job to dispatch; none unless the job is Running. -/
def jobSteps (state : GlobalState) (board : StepBoard) (jobId : JobId) : List StepKey :=
  match state.jobs.get? jobId with
  | some job =>
    if job.status ≠ .running then []
    else (pickSteps job.reqCores (board.coresUsed jobId) (board.pendingSteps jobId)).map fun step => (jobId, step.1)
  | none => []

def waitingJobs (board : StepBoard) : List JobId :=
  ((board.steps.toList.filter fun entry => entry.2.status = .pending).map fun entry => entry.1.1).dedup

/-- How many ranks the worker at a place gets: the first ones get one more while some
remain. The number of workers and their places are cast to `u32`. -/
def rankShare (ntasks workers index : Nat) : Nat :=
  let ranksPerWorker := if 0 < asU32 workers then ntasks / asU32 workers else ntasks
  let remainder := if 0 < asU32 workers then ntasks % asU32 workers else 0
  ranksPerWorker + if asU32 index < remainder then 1 else 0

/-- The ranks of each worker, counted up over all of them. -/
def rankShares (ntasks workers : Nat) : List (List Nat) :=
  (List.range workers).map fun index =>
    (List.range (rankShare ntasks workers index)).map fun offset =>
      asU32 (((List.range index).map (rankShare ntasks workers)).sum + offset)

/-- The order for one of the workers of a step. -/
def runMessage (state : GlobalState) (job : JobInfo) (key : StepKey) (step : StepInfo) (workers : List WorkerId)
    (ranks : List Nat) : RunStep where
  parentJobId := key.1
  stepId := key.2
  binary := step.binary
  args := step.args
  nodeList := workers.filterMap fun workerId => (state.workers.get? workerId).map WorkerHandle.addr
  assignedCores := none
  workingDirectory := job.workingDirectory
  userId := job.userId
  assignedRanks := ranks
  totalRanks := step.ntasks
  inputs := step.inputs
  allocatedGres := ∅
  gresReq := ∅
  secret := job.secret
  controllerUrl := state.stepControllerUrl
  envVars := step.envVars

/-- The orders that find a route; a failed send is ignored. -/
def runMessages (state : GlobalState) (job : JobInfo) (key : StepKey) (step : StepInfo) : List (WorkerId × RunStep) :=
  let workers := job.assignedWorkers.take step.reqNodes
  ((workers.zip (rankShares step.ntasks workers.length)).filter fun target => state.routable target.1).map fun target =>
    (target.1, runMessage state job key step workers target.2)

def performStepDispatch (state : GlobalState) (board : StepBoard) (key : StepKey) : Except String StepBoard :=
  match state.jobs.get? key.1, board.steps.get? key with
  | none, _ => .error "Parent job not found"
  | some _, none => .error "Step not found"
  | some job, some step =>
    .ok { board with
      steps := board.steps.insert key { step with
        assignedWorkers := job.assignedWorkers.take step.reqNodes
        status := .running }
      outbox := board.outbox ++ runMessages state job key step }

/-- Dispatch one of the steps that were picked; an error is only logged. -/
def dispatchStep (state : GlobalState) (board : StepBoard) (key : StepKey) : StepBoard :=
  match board.performStepDispatch state key with
  | .ok dispatched => dispatched
  | .error _ => board

def scheduleSteps (order : IterOrder Unit) (state : GlobalState) (board : StepBoard) : StepBoard :=
  let toDispatch := (order.shuffle () board.waitingJobs).flatMap (jobSteps state board)
  toDispatch.foldl (dispatchStep state) board

end StepBoard

end Veloce
