import Veloce.Handlers.Submission
import Veloce.Handlers.Worker
import Veloce.Scheduler.Steps

/-! Step messages of workers, and the launch of a step by a job itself. -/

namespace Veloce

open Collections

inductive StepMessage where
  | stepStarted (key : StepKey)
  | stepDone (key : StepKey) (exitCode : Int)
  | stepError (key : StepKey) (error : String)
  | stepOutput (key : StepKey) (isStderr : Bool) (data : List UInt8)

namespace StepBoard

def setStatus (board : StepBoard) (key : StepKey) (status : StepStatus) : StepBoard :=
  { board with steps := board.steps.modify key fun step => { step with status := status } }

/-- Take the waiters of a step out of the table, tell each of them the code, and let go of
the senders for its output. -/
def notify (board : StepBoard) (key : StepKey) (code : Int) : StepBoard :=
  { board with
    notified := board.notified ++ (board.stepWaiters.getD key []).map fun waiter => (waiter, code)
    stepWaiters := board.stepWaiters.remove key
    stepOutputWaiters := board.stepOutputWaiters.remove key }

def push (outputs : HashMap Nat (List StepChunk)) (waiter : Nat) (chunk : StepChunk) : HashMap Nat (List StepChunk) :=
  outputs.modify waiter (· ++ [chunk])

/-- Send a chunk to all receivers, and forget those that are gone. -/
def forward (board : StepBoard) (key : StepKey) (chunk : StepChunk) : StepBoard :=
  match board.stepOutputWaiters.get? key with
  | some waiters =>
    { board with
      outputs := waiters.foldl (fun outputs waiter => push outputs waiter chunk) board.outputs
      stepOutputWaiters := board.stepOutputWaiters.insert key (waiters.filter fun waiter => board.outputs.contains waiter) }
  | none => board

def handle (board : StepBoard) : StepMessage → StepBoard
  | .stepStarted key => board.setStatus key .running
  | .stepDone key exitCode => (board.setStatus key (.completed exitCode)).notify key exitCode
  | .stepError key error => (board.setStatus key (.failed error)).notify key (-1)
  | .stepOutput key isStderr data => board.forward key (isStderr, data)

end StepBoard

structure LaunchRequest where
  jobId : JobId
  secret : String
  hostname : String
  binary : String
  args : List String
  workingDirectory : String

def trimWhitespace (text : String) : String :=
  String.ofList (((text.toList.dropWhile isWhitespace).reverse.dropWhile isWhitespace).reverse)

/-- The text names the worker by its id, its host name or its address. -/
def WorkerHandle.answersTo (worker : WorkerHandle) (workerId : WorkerId) (hostname : String) : Bool :=
  workerId = hostname || worker.hostname = hostname || worker.addr = hostname

def LaunchRequest.order (request : LaunchRequest) (job : JobInfo) (stepId : StepId) (apiPort : Option Nat) : RunStep where
  parentJobId := job.id
  stepId := stepId
  binary := trimWhitespace request.binary
  args := request.args.map trimWhitespace
  nodeList := [request.hostname]
  assignedCores := none
  workingDirectory := request.workingDirectory
  userId := job.userId
  assignedRanks := [0]
  totalRanks := 1
  inputs := []
  allocatedGres := ∅
  gresReq := ∅
  secret := job.secret
  controllerUrl := s!"https://localhost:{apiPort.getD 8080}"
  envVars := job.envVars

structure Launched where
  workerId : WorkerId
  waiter : Nat
deriving DecidableEq

namespace StepBoard

/-- Draw a step id, and register a waiter and an output channel for it. -/
def registerLaunch (board : StepBoard) (jobId : JobId) (waiter : Nat) : StepBoard :=
  let key := (jobId, board.nextStepId)
  { board with
    nextStepId := addU32 board.nextStepId 1
    stepWaiters := board.stepWaiters.insert key (board.stepWaiters.getD key [] ++ [waiter])
    stepOutputWaiters := board.stepOutputWaiters.insert key (board.stepOutputWaiters.getD key [] ++ [waiter])
    outputs := board.outputs.insert waiter [] }

/-- A StateSync replaces the records and the counter, and leaves the waiters. -/
def stateSync (board : StepBoard) (steps : HashMap StepKey StepInfo) (nextStepId : StepId) : StepBoard :=
  { board with steps, nextStepId }

/-- The first worker of the table that answers to the text. -/
def targetWorker (order : IterOrder Unit) (state : GlobalState) (hostname : String) : Option (WorkerId × WorkerHandle) :=
  (order.shuffle () state.workers.toList).find? fun entry => entry.2.answersTo entry.1 hostname

/-- A launch under a number that no task has yet. The board changes even where the order finds
no route; only an answer without an error is an accepted launch. -/
def apiInternalLaunch (order : IterOrder Unit) (apiPort : Option Nat) (waiter : Nat) (state : GlobalState)
    (board : StepBoard) (request : LaunchRequest) : StepBoard × Except (Nat × String) Launched :=
  match (state.jobs.get? request.jobId).filter fun job => job.secret = request.secret with
  | none => (board, .error (401, "Invalid Job ID or Secret"))
  | some job =>
    match targetWorker order state request.hostname with
    | none => (board, .error (404, "Target worker not found"))
    | some (workerId, worker) =>
      if worker.connected then
        let registered := board.registerLaunch job.id waiter
        if state.routable workerId then
          ({ registered with outbox := registered.outbox ++ [(workerId, request.order job board.nextStepId apiPort)] },
            .ok { workerId, waiter })
        else (registered, .error (500, "Worker communication failure"))
      else (board, .error (404, "Target worker disconnected"))

def Receives (before after : StepBoard) (workerId : WorkerId) : Prop :=
  ∃ order, after.outbox = before.outbox ++ [(workerId, order)]

section Allocation

variable {order : IterOrder Unit} {apiPort : Option Nat} {waiter : Nat} {state : GlobalState} {board : StepBoard}
  {request : LaunchRequest}

theorem apiInternalLaunch_ok {launched : Launched}
    (accepted : (apiInternalLaunch order apiPort waiter state board request).2 = .ok launched) :
    ∃ job worker, state.jobs.get? request.jobId = some job ∧ job.secret = request.secret ∧
      targetWorker order state request.hostname = some (launched.workerId, worker) ∧ worker.connected = true ∧
      state.routable launched.workerId = true ∧
      (apiInternalLaunch order apiPort waiter state board request).1 = { board.registerLaunch job.id waiter with
        outbox := board.outbox ++ [(launched.workerId, request.order job board.nextStepId apiPort)] } := by
  unfold apiInternalLaunch at accepted ⊢
  split at accepted
  · cases accepted
  · rename_i job authenticated
    obtain ⟨found, secret⟩ := Option.filter_eq_some_iff.mp authenticated
    split at accepted
    · cases accepted
    · rename_i workerId worker target
      split at accepted
      · rename_i connected
        simp only at accepted
        split at accepted
        · rename_i routable
          cases accepted
          refine ⟨job, worker, found, of_decide_eq_true secret, target, connected, routable, ?_⟩
          simp [connected, routable, registerLaunch]
        · cases accepted
      · cases accepted

/-- A worker that answers to the text, is connected and has a route gets the order of a launch
with a valid secret, if the table is searched in the right order. -/
theorem exists_launch {job : JobInfo} {workerId : WorkerId} {worker : WorkerHandle} (apiPort : Option Nat) (waiter : Nat)
    (board : StepBoard) (found : state.jobs.get? request.jobId = some job) (secret : job.secret = request.secret)
    (present : state.workers.get? workerId = some worker) (answers : worker.answersTo workerId request.hostname = true)
    (connected : worker.connected = true) (routable : state.routable workerId = true) :
    ∃ order, (apiInternalLaunch order apiPort waiter state board request).2 = .ok { workerId, waiter } := by
  obtain ⟨order, rest, first⟩ := IterOrder.exists_shuffle_cons () (HashMap.mem_toList.mpr present)
  have target : targetWorker order state request.hostname = some (workerId, worker) := by
    simp [targetWorker, first, answers]
  have authenticated : (state.jobs.get? request.jobId).filter (fun job => job.secret = request.secret) = some job :=
    Option.filter_eq_some_iff.mpr ⟨found, decide_eq_true secret⟩
  exact ⟨order, by simp [apiInternalLaunch, authenticated, target, connected, routable]⟩

/-- Every accepted launch goes to a worker of the job while the job is Running exactly if this
is so for all workers that it may find: those that answer to the text of the request, are
connected and have a route. The search does not look at the job. -/
theorem launch_in_allocation_iff (apiPort : Option Nat) (waiter : Nat) (state : GlobalState) (board : StepBoard)
    (request : LaunchRequest) :
    (∀ order launched, (apiInternalLaunch order apiPort waiter state board request).2 = .ok launched →
      ∃ workerId job, board.Receives (apiInternalLaunch order apiPort waiter state board request).1 workerId ∧
        state.jobs.get? request.jobId = some job ∧ job.status = .running ∧ workerId ∈ job.assignedWorkers) ↔
    ∀ job ∈ state.jobs.get? request.jobId, job.secret = request.secret →
      ∀ workerId, ∀ worker ∈ state.workers.get? workerId, worker.answersTo workerId request.hostname = true →
        worker.connected = true → state.routable workerId = true →
        job.status = .running ∧ workerId ∈ job.assignedWorkers := by
  constructor
  · intro inside job found secret workerId worker present answers connected routable
    obtain ⟨order, accepted⟩ := exists_launch apiPort waiter board found secret present answers connected routable
    obtain ⟨receiver, job', ⟨msg, outbox⟩, found', running, assigned⟩ := inside order _ accepted
    obtain ⟨_, _, _, _, _, _, _, launched⟩ := apiInternalLaunch_ok accepted
    obtain ⟨same, _⟩ : receiver = workerId ∧ _ := by simpa [launched] using outbox.symm
    rw [found] at found'
    cases found'
    exact ⟨running, same ▸ assigned⟩
  · intro inside order launched accepted
    obtain ⟨job, worker, found, secret, target, connected, routable, after⟩ := apiInternalLaunch_ok accepted
    have present := HashMap.mem_toList.mp (IterOrder.mem_shuffle.mp (List.mem_of_find?_eq_some target))
    have answers : worker.answersTo launched.workerId request.hostname = true := by
      simpa using List.find?_some target
    obtain ⟨running, assigned⟩ := inside job found secret _ worker present answers connected routable
    exact ⟨launched.workerId, job, ⟨_, congrArg StepBoard.outbox after⟩, found, running, assigned⟩

def runsOnNodes (workers : List WorkerId) : GlobalState :=
  let registered := (({ role := .leader } : GlobalState).registerWorker (sampleRegistration "a") 100).registerWorker
    (sampleRegistration "b") 100
  { registered with
    jobs := (∅ : HashMap JobId JobInfo).insert 1 { (sampleSubmission 1 .production 1 "sh").job with
      status := .running, assignedWorkers := workers, startTime := some 100, secret := "s" } }

def sampleLaunch (hostname : String) : LaunchRequest :=
  { jobId := 1, secret := "s", hostname, binary := "sh", args := [], workingDirectory := "/scratch" }

/-- The job launches a step on the other worker by naming it. -/
theorem launch_leaves_allocation : ∃ (state : GlobalState) (request : LaunchRequest) (launched : Launched) (job : JobInfo),
    (apiInternalLaunch .stored none 0 state {} request).2 = .ok launched ∧
    StepBoard.Receives {} (apiInternalLaunch .stored none 0 state {} request).1 "b" ∧
    state.jobs.get? request.jobId = some job ∧ "b" ∉ job.assignedWorkers := by
  let request := sampleLaunch "b"
  have accepted : (apiInternalLaunch .stored none 0 (runsOnNodes ["a"]) {} request).2 =
      .ok { workerId := "b", waiter := 0 } := by
    decide +kernel
  obtain ⟨job, worker, found, _, _, _, _, after⟩ := apiInternalLaunch_ok accepted
  refine ⟨runsOnNodes ["a"], request, _, job, accepted, ⟨_, congrArg StepBoard.outbox after⟩, found, ?_⟩
  have assigned : ((runsOnNodes ["a"]).jobs.get? request.jobId).map JobInfo.assignedWorkers = some ["a"] := by decide +kernel
  rw [found, Option.map_some, Option.some.injEq] at assigned
  rw [assigned]
  decide

end Allocation

end StepBoard

end Veloce
