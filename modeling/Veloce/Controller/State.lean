import Veloce.Common.Types

/-! The controller's in-memory state: worker handles with their core, memory and GRES ledgers, the
job table and the queue, and the message routes to workers. -/

namespace Veloce

open Collections

inductive Channel where
  | live
  | closed
deriving DecidableEq, Repr

inductive WorkerRouting where
  | direct (channel : Channel)
  | gateway (peerId : String)
deriving DecidableEq, Repr

/-- `addr` is the text of the worker's socket address. Steps and launches only read its IP, and
there the text stands for `addr.ip()`. -/
structure WorkerHandle where
  addr : String
  hostname : String
  resources : Resources
  routing : WorkerRouting
  assignedJobs : HashSet JobId
  allocatedMemory : Nat
  connectionId : Nat
  availableCoreIds : List Nat
  jobCoreAssignments : HashMap JobId (List Nat)
  availableGresIds : HashMap String (List Nat)
  jobGresAssignments : HashMap JobId (HashMap String (List Nat))
  connected : Bool
  lastSeen : Nat
  cgroupEnabled : Bool
  draining : Bool
  features : Nat

structure RebuiltWorkerAllocations where
  assignedJobs : HashSet JobId
  allocatedMemory : Nat
  availableCoreIds : List Nat
  jobCoreAssignments : HashMap JobId (List Nat)
  availableGresIds : HashMap String (List Nat)
  jobGresAssignments : HashMap JobId (HashMap String (List Nat))

/-- All ids of every GRES kind: `0..count as u32`. -/
def Resources.gresIds (resources : Resources) : HashMap String (List Nat) :=
  resources.gres.updateEntries (fun _ count _ => some (List.range (asU32 count))) ∅

def JobInfo.runsOn (job : JobInfo) (workerId : WorkerId) : Bool :=
  job.status = .running ∧ workerId ∈ job.assignedWorkers

def RebuiltWorkerAllocations.adopt (workerId : WorkerId) (rebuilt : RebuiltWorkerAllocations)
    (job : JobInfo) : RebuiltWorkerAllocations :=
  if job.runsOn workerId then
    { assignedJobs := rebuilt.assignedJobs.insert job.id
      allocatedMemory := rebuilt.allocatedMemory + job.reqMemory
      availableCoreIds := match job.allocatedCores.get? workerId with
        | some cores => rebuilt.availableCoreIds.filter (· ∉ cores)
        | none => rebuilt.availableCoreIds
      jobCoreAssignments := match job.allocatedCores.get? workerId with
        | some cores => rebuilt.jobCoreAssignments.insert job.id cores
        | none => rebuilt.jobCoreAssignments
      availableGresIds := match job.allocatedGres.get? workerId with
        | some gres => gres.updateEntries
            (fun _ ids available => available.map (·.filter (· ∉ ids))) rebuilt.availableGresIds
        | none => rebuilt.availableGresIds
      jobGresAssignments := match job.allocatedGres.get? workerId with
        | some gres => rebuilt.jobGresAssignments.insert job.id gres
        | none => rebuilt.jobGresAssignments }
  else rebuilt

def RebuiltWorkerAllocations.idle (resources : Resources) : RebuiltWorkerAllocations where
  assignedJobs := ∅
  allocatedMemory := 0
  availableCoreIds := List.range resources.cpuCores
  jobCoreAssignments := ∅
  availableGresIds := resources.gresIds
  jobGresAssignments := ∅

def rebuildWorkerAllocations (workerId : WorkerId) (resources : Resources)
    (jobs : HashMap JobId JobInfo) : RebuiltWorkerAllocations :=
  jobs.values.foldl (.adopt workerId) (.idle resources)

inductive ControllerRole where
  | leader
  | follower
deriving DecidableEq, Repr

structure MultinodeJobTracking where
  dispatchedWorkers : HashMap JobId (List WorkerId) := ∅
  workerLogFiles : HashMap JobId (HashMap WorkerId WorkerLogFiles) := ∅
  doneWorkers : HashMap JobId (HashSet WorkerId) := ∅

structure GlobalState where
  workers : HashMap WorkerId WorkerHandle := ∅
  jobs : HashMap JobId JobInfo := ∅
  queue : List JobId := []
  nextJobId : Nat := 1
  usageTracker : UsageTracker := {}
  role : ControllerRole := .follower
  leaderId : Option String := none
  peers : HashMap String Channel := ∅
  multinodeJobTracking : MultinodeJobTracking := {}
  apiPort : Nat := 8080
  reservations : HashMap String Reservation := ∅
  outbox : List (WorkerId × Message) := []

/-- The shared context of the handlers. `completed` and `failed` name the job of
every increment of `completed_jobs` and `failed_jobs`; `recorded` lists the
records handed to `record_job`. -/
structure ControllerContext where
  state : GlobalState := {}
  missingJobs : HashMap JobId Nat := ∅
  completed : List JobId := []
  failed : List JobId := []
  recorded : List JobUsage := []

def ControllerContext.completedJobs (ctx : ControllerContext) : Nat := ctx.completed.length

def ControllerContext.failedJobs (ctx : ControllerContext) : Nat := ctx.failed.length

namespace GlobalState

def hand (state : GlobalState) (workerId : WorkerId) (msg : Message) : GlobalState :=
  { state with outbox := state.outbox ++ [(workerId, msg)] }

/-- A full channel accepts the message through a spawned task, so only a closed
channel and a missing route are errors. -/
def sendToWorker (state : GlobalState) (workerId : WorkerId) (msg : Message) :
    Except String GlobalState :=
  match (state.workers.get? workerId).map WorkerHandle.routing with
  | some (.direct .live) => .ok (state.hand workerId msg)
  | some (.direct .closed) => .error "Worker channel closed"
  | some (.gateway peerId) =>
    match state.peers.get? peerId with
    | some .live => .ok (state.hand workerId msg)
    | some .closed => .error "Peer channel closed"
    | none => .error s!"Worker {workerId} not found or routing path unavailable"
  | none => .error s!"Worker {workerId} not found or routing path unavailable"

def trySend (state : GlobalState) (workerId : WorkerId) (msg : Message) : GlobalState :=
  match state.sendToWorker workerId msg with
  | .ok sent => sent
  | .error _ => state

/-- Whether a message for the worker finds a route. -/
def routable (state : GlobalState) (workerId : WorkerId) : Bool :=
  match (state.workers.get? workerId).map WorkerHandle.routing with
  | some (.direct channel) => channel = .live
  | some (.gateway peerId) => state.peers.get? peerId = some .live
  | none => false

theorem trySend_eq (state : GlobalState) (workerId : WorkerId) (msg : Message) :
    state.trySend workerId msg = if state.routable workerId then state.hand workerId msg else state := by
  unfold trySend sendToWorker routable
  cases (state.workers.get? workerId).map WorkerHandle.routing with
  | none => rfl
  | some routing =>
    cases routing with
    | direct channel => cases channel <;> rfl
    | gateway peerId =>
      cases found : state.peers.get? peerId with
      | none => simp [found]
      | some channel => cases channel <;> simp [found]

end GlobalState

end Veloce
