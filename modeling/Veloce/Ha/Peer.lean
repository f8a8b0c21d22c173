import Veloce.Handlers.Heartbeat

/-! The connection to a peer controller: leadership heartbeats, state snapshots and the workers
that a follower passes on to the leader as their gateway. -/

namespace Veloce

open Collections

structure PersistedState where
  jobs : HashMap JobId JobInfo := ∅
  queue : List JobId := []
  nextJobId : Nat := 1
  usageTracker : UsageTracker := {}
  reservations : HashMap String Reservation := ∅

/-- A worker as its gateway announces it. -/
structure WorkerNotice where
  workerId : WorkerId
  hostname : String
  resources : Resources
  features : Option Nat
  ipAddress : Option String

inductive PeerMessage where
  | heartbeat (leaderId : String)
  | stateSync (newState : PersistedState)
  | registerWorker (notice : WorkerNotice)
  | deregisterWorker (workerId : WorkerId)
  | batchWorkerHeartbeats (updates : List Pulse)

/-- The messages of one section, each with the peer it goes to. -/
abbrev Posted := List (String × PeerMessage)

def isOctet (digits : List Char) : Bool :=
  digits.all Char.isDigit && (digits.length = 1 || (digits.length ≤ 3 && !digits.isEmpty && digits.head? ≠ some '0')) &&
    digits.foldl (fun value digit => value * 10 + (digit.toNat - '0'.toNat)) 0 ≤ 255

def isIpv4 (text : String) : Bool :=
  let parts := text.toList.splitOn '.'
  parts.length = 4 && parts.all isOctet

/-- The address that `"ip:port"` parses to: bare IPv6 addresses and host names do not. -/
def parsedIp (text : String) : String := if isIpv4 text then text else "127.0.0.1"

def WorkerRouting.isDirect : WorkerRouting → Bool
  | .direct _ => true
  | .gateway _ => false

def WorkerHandle.notice (workerId : WorkerId) (worker : WorkerHandle) : WorkerNotice where
  workerId := workerId
  hostname := worker.hostname
  resources := worker.resources
  features := some worker.features
  ipAddress := some worker.addr

def Registration.notice (registration : Registration) : WorkerNotice where
  workerId := registration.workerId
  hostname := registration.hostname
  resources := registration.resources
  features := some registration.features
  ipAddress := some registration.addr

namespace GlobalState

def persisted (state : GlobalState) : PersistedState where
  jobs := state.jobs
  queue := state.queue
  nextJobId := state.nextJobId
  usageTracker := state.usageTracker
  reservations := state.reservations

/-- `try_send` on the channel of a peer; a closed channel refuses. -/
def post (state : GlobalState) (peerId : String) (msg : PeerMessage) : Posted :=
  if state.peers.get? peerId = some .live then [(peerId, msg)] else []

def broadcast (state : GlobalState) (msg : PeerMessage) : Posted :=
  state.peers.keys.flatMap fun peerId => state.post peerId msg

/-- Only a leader saves: the snapshot goes to the peers and into the state file. -/
def saveState (state : GlobalState) : Option PersistedState × Posted :=
  if state.role = .leader then (some state.persisted, state.broadcast (.stateSync state.persisted))
  else (none, [])

/-- The peer that a follower forwards to: the leader, or the only peer there is. -/
def getLeaderPeer (state : GlobalState) : Option String :=
  match state.leaderId with
  | some leaderId => if state.peers.contains leaderId then some leaderId else none
  | none => match state.peers.keys with
    | [peerId] => some peerId
    | _ => none

def tellLeader (state : GlobalState) (msg : PeerMessage) : Posted :=
  if state.role = .follower then
    match state.getLeaderPeer with
    | some peerId => state.post peerId msg
    | none => state.broadcast msg
  else []

def directWorkers (state : GlobalState) : List PeerMessage :=
  (state.workers.toList.filter (·.2.routing.isDirect)).map fun entry =>
    .registerWorker (entry.2.notice entry.1)

def retainDirect (state : GlobalState) : GlobalState :=
  { state with workers := state.workers.retain fun _ worker => worker.routing.isDirect }

def connectPeer (state : GlobalState) (controllerId : String) : GlobalState × Posted :=
  let connected := { state with peers := state.peers.insert controllerId .live }
  (connected, match state.role with
    | .follower => state.directWorkers.map (controllerId, ·)
    | .leader => [(controllerId, .stateSync state.persisted)])

/-- The end of a connection that was not replaced. -/
def disconnectPeer (state : GlobalState) (controllerId : String) : GlobalState :=
  { state with peers := state.peers.remove controllerId }

/-- A leadership heartbeat from the peer. A leader yields to a lower id and ignores
higher ones; a follower keeps only its direct workers. -/
def receiveHeartbeat (state : GlobalState) (myId peerId leaderId : String) : GlobalState × Posted :=
  if leaderId = myId then (state, [])
  else
    let known := { state with leaderId := some leaderId }
    match state.role with
    | .leader =>
      if leaderId < myId then
        let yielded := { known.retainDirect with role := .follower }
        (yielded, state.directWorkers.map (peerId, ·))
      else (known, [])
    | .follower =>
      let followed := known.retainDirect
      (followed, if state.leaderId = some leaderId then []
        else followed.directWorkers.flatMap fun msg => followed.post leaderId msg)

def receiveStateSync (state : GlobalState) (newState : PersistedState) : GlobalState :=
  { state with
    jobs := newState.jobs
    queue := newState.queue
    nextJobId := newState.nextJobId
    usageTracker := newState.usageTracker
    reservations := newState.reservations }

/-- The handle of a worker behind a gateway; a known one keeps its connection number. -/
def gatewayHandle (state : GlobalState) (peerId peerHost : String) (notice : WorkerNotice) (now : Nat) :
    WorkerHandle :=
  let rebuilt := rebuildWorkerAllocations notice.workerId notice.resources state.jobs
  { addr := parsedIp (notice.ipAddress.getD peerHost)
    hostname := notice.hostname
    resources := notice.resources
    routing := .gateway peerId
    assignedJobs := rebuilt.assignedJobs
    allocatedMemory := rebuilt.allocatedMemory
    connectionId := ((state.workers.get? notice.workerId).map WorkerHandle.connectionId).getD 0
    availableCoreIds := rebuilt.availableCoreIds
    jobCoreAssignments := rebuilt.jobCoreAssignments
    availableGresIds := rebuilt.availableGresIds
    jobGresAssignments := rebuilt.jobGresAssignments
    connected := true
    lastSeen := now
    cgroupEnabled := notice.resources.cgroupEnabled
    draining := false
    features := notice.features.getD 0 }

def registerGatewayWorker (state : GlobalState) (peerId peerHost : String) (notice : WorkerNotice) (now : Nat) :
    GlobalState :=
  if state.role = .leader then
    { state with workers := state.workers.insert notice.workerId (state.gatewayHandle peerId peerHost notice now) }
  else state

def deregisterWorker (state : GlobalState) (workerId : WorkerId) : GlobalState :=
  if state.role = .leader then { state with workers := state.workers.remove workerId } else state

/-- A follower that has not heard of a leader for five seconds takes over. -/
def promote (state : GlobalState) : GlobalState × Posted :=
  let promoted := { state with role := .leader }
  (promoted, promoted.broadcast (.stateSync promoted.persisted))

end GlobalState

def unknownWorker (now : Nat) : WorkerHandle where
  addr := "0.0.0.0"
  hostname := "unknown"
  resources := ⟨0, 0, "unknown", "unknown", ∅, false⟩
  routing := .direct .closed
  assignedJobs := ∅
  allocatedMemory := 0
  connectionId := 0
  availableCoreIds := []
  jobCoreAssignments := ∅
  availableGresIds := ∅
  jobGresAssignments := ∅
  connected := false
  lastSeen := now
  cgroupEnabled := false
  draining := false
  features := 0

/-- Enter a Running job of the state file into the handle of one of its workers. -/
def reconstitute (now : Nat) (jobId : JobId) (job : JobInfo) (workers : HashMap WorkerId WorkerHandle)
    (workerId : WorkerId) : HashMap WorkerId WorkerHandle :=
  let worker := workers.getD workerId (unknownWorker now)
  workers.insert workerId { worker with
    assignedJobs := worker.assignedJobs.insert jobId
    allocatedMemory := min (worker.allocatedMemory + job.reqMemory) (2 ^ 64 - 1) }

def reconstitutedWorkers (now : Nat) (jobs : HashMap JobId JobInfo) : HashMap WorkerId WorkerHandle :=
  jobs.toList.foldl (fun workers entry =>
    if entry.2.status = .running then
      entry.2.assignedWorkers.foldl (reconstitute now entry.1 entry.2) workers
    else workers) ∅

def syncedJobId (nextJobId maxDbId : Nat) : Nat := if nextJobId ≤ maxDbId then maxDbId + 1 else nextJobId

/-- The state of a controller that has just started; without configured peers it
leads at once. -/
def initialState (loaded : Option PersistedState) (standalone : Bool) (maxDbId apiPort now : Nat) : GlobalState :=
  let role := if standalone then .leader else .follower
  match loaded with
  | none => { role := role, apiPort := apiPort, nextJobId := syncedJobId 1 maxDbId }
  | some file =>
    { workers := reconstitutedWorkers now file.jobs
      jobs := file.jobs
      queue := file.queue
      nextJobId := syncedJobId file.nextJobId maxDbId
      usageTracker := file.usageTracker
      reservations := file.reservations
      role := role
      apiPort := apiPort }

end Veloce
