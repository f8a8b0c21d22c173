import Veloce.Ha.Peer
import Veloce.Handlers.Submission
import Veloce.Lifecycle.Leader

/-! Any number of controllers that are connected as peers. -/

namespace Veloce

open Collections

/-- One controller process and its state file. -/
structure Controller where
  ctx : ControllerContext := {}
  tasks : List DoneTask := []
  desk : Desk := {}
  telemetry : Telemetry := {}
  lastHeartbeat : Nat := 0
  file : Option PersistedState := none

structure Envelope where
  source : String
  target : String
  msg : PeerMessage

structure Cluster where
  controllers : HashMap String Controller := ∅
  wire : List Envelope := []
  history : History := {}

/-- A heartbeat of a directly connected worker, as its controller receives it. -/
structure HeardPulse where
  pulse : Pulse
  order : IterOrder Unit := .stored
  connectionId : Nat
  idleTimeout : Nat := 600
  /-- A follower passes on one heartbeat in five seconds. -/
  forwards : Bool := true
  now : Nat

/-- What can happen at one controller. -/
inductive ControllerEvent where
  | act (event : Event)
  | desk (event : DeskEvent)
  | hear (heard : HeardPulse)
  | drain (workerId : WorkerId)
  | reserve (reservations : HashMap String Reservation)
  | syncActiveState
  | connect (peerId : String)
  | hangUp (peerId : String)
  | beat (peerId : String)
  | promote (now : Nat)
  | receive (source peerHost : String) (order : IterOrder Unit) (now : Nat) (msg : PeerMessage)
  | restart (file : Option PersistedState) (standalone : Bool) (maxDbId now : Nat)

inductive ClusterEvent where
  | on (id : String) (event : ControllerEvent)
  | deliver (index : Nat) (peerHost : String) (order : IterOrder Unit) (now : Nat)
  | lose (index : Nat)
  | restart (id source : String) (standalone : Bool) (maxDbId now : Nat)

/-- Messages and state files come from the cluster. -/
def ControllerEvent.isLocal : ControllerEvent → Bool
  | .receive .. | .restart .. => false
  | _ => true

namespace Controller

def state (controller : Controller) : GlobalState := controller.ctx.state

def leads (controller : Controller) : Bool := controller.state.role = .leader

def withState (controller : Controller) (state : GlobalState) : Controller :=
  { controller with ctx := { controller.ctx with state := state } }

def leader (controller : Controller) (history : History) : Leader where
  ctx := controller.ctx
  tasks := controller.tasks
  history := history

/-- What a follower tells the leader about its workers. -/
def announces (controller : Controller) : Event → Posted
  | .register registration _ => controller.state.tellLeader (.registerWorker registration.notice)
  | .disconnect workerId connectionId _ =>
    if (controller.state.workers.get? workerId).map WorkerHandle.connectionId = some connectionId then
      controller.state.tellLeader (.deregisterWorker workerId)
    else []
  | _ => []

def save (controller : Controller) : Controller × Posted :=
  let (file, sent) := controller.state.saveState
  ({ controller with file := file.or controller.file }, sent)

/-- A section of the controller itself; only a leader runs a pass, and saves after it.
Submissions come through the desk. -/
def act (controller : Controller) (event : Event) (history : History) :
    Option (Controller × Posted × History) :=
  ((controller.leader history).apply event).bind fun next =>
    let moved := { controller with ctx := next.ctx, tasks := next.tasks }
    match event with
    | .schedule _ =>
      if controller.leads then
        let (saved, sent) := moved.save
        some (saved, sent, next.history)
      else none
    | .submit .. => none
    | _ => some (moved, controller.announces event, next.history)

def serve (controller : Controller) (event : DeskEvent) : Option Controller :=
  (event.apply controller.state controller.desk).map fun (state, desk) =>
    { controller.withState state with desk := desk }

def hear (controller : Controller) (heard : HeardPulse) : Controller × Posted :=
  if controller.leads then
    let (ctx, telemetry) := controller.ctx.directHeartbeat controller.telemetry heard.order heard.pulse
      heard.connectionId heard.idleTimeout heard.now
    ({ controller with ctx := ctx, telemetry := telemetry }, [])
  else
    (controller.withState (controller.state.refreshWorker heard.pulse heard.now),
      match controller.state.getLeaderPeer with
      | some peerId =>
        if heard.forwards && controller.state.workers.contains heard.pulse.workerId then
          controller.state.post peerId (.batchWorkerHeartbeats [heard.pulse])
        else []
      | none => [])

/-- A message of the peer `source`. -/
def receive (controller : Controller) (myId source peerHost : String) (order : IterOrder Unit) (now : Nat) :
    PeerMessage → Controller × Posted
  | .heartbeat leaderId =>
    let (state, sent) := controller.state.receiveHeartbeat myId source leaderId
    ({ controller.withState state with lastHeartbeat := now }, sent)
  | .stateSync newState =>
    ({ controller.withState (controller.state.receiveStateSync newState) with lastHeartbeat := now } : Controller).save
  | .registerWorker notice =>
    (controller.withState (controller.state.registerGatewayWorker source peerHost notice now), [])
  | .deregisterWorker workerId => (controller.withState (controller.state.deregisterWorker workerId), [])
  | .batchWorkerHeartbeats updates =>
    if controller.leads then
      ({ controller with ctx := updates.foldl (ControllerContext.gatewayHeartbeat order now) controller.ctx }, [])
    else (controller, [])

/-- The process starts again with what a state file holds. -/
def restart (controller : Controller) (file : Option PersistedState) (standalone : Bool) (maxDbId now : Nat) :
    Controller where
  ctx := { state := initialState file standalone maxDbId controller.state.apiPort now }
  desk := { nextJobId := (initialState file standalone maxDbId controller.state.apiPort now).nextJobId }
  lastHeartbeat := now
  file := controller.file

def step (id : String) (event : ControllerEvent) (history : History) (controller : Controller) :
    Option (Controller × Posted × History) :=
  match event with
  | .act event => controller.act event history
  | .desk event => (controller.serve event).map (·, [], history)
  | .hear heard =>
    let (next, sent) := controller.hear heard
    some (next, sent, history)
  | .drain workerId =>
    some (controller.withState { controller.state with
      workers := controller.state.workers.modify workerId fun worker => { worker with draining := true } },
      [], history)
  | .reserve reservations =>
    let (next, sent) := (controller.withState { controller.state with reservations := reservations }).save
    some (next, sent, history)
  | .syncActiveState =>
    some ({ controller with telemetry := controller.telemetry.syncActiveState controller.state.jobs }, [], history)
  | .connect peerId =>
    let (state, sent) := controller.state.connectPeer peerId
    some (controller.withState state, sent, history)
  | .hangUp peerId => some (controller.withState (controller.state.disconnectPeer peerId), [], history)
  | .beat peerId =>
    if controller.leads then some (controller, controller.state.post peerId (.heartbeat id), history) else none
  | .promote now =>
    if !controller.leads && now - controller.lastHeartbeat > 5 then
      let (state, sent) := controller.state.promote
      some (controller.withState state, sent, history)
    else none
  | .receive source peerHost order now msg =>
    let (next, sent) := controller.receive id source peerHost order now msg
    some (next, sent, history)
  | .restart file standalone maxDbId now => some (controller.restart file standalone maxDbId now, [], history)

structure Fresh (controller : Controller) : Prop where
  workers : controller.state.workers = ∅
  jobs : controller.state.jobs = ∅
  tracking : controller.state.multinodeJobTracking = {}
  tasks : controller.tasks = []
  desk : controller.desk.tasks = [] ∧ controller.desk.channel = [] ∧ controller.desk.answered = []
  file : controller.file = none

end Controller

namespace Cluster

/-- Where an event happens, what it is there, and what is left on the way. -/
def resolve (cluster : Cluster) : ClusterEvent → Option (String × ControllerEvent × List Envelope)
  | .on id event => if event.isLocal then some (id, event, cluster.wire) else none
  | .deliver index peerHost order now => cluster.wire[index]?.map fun envelope =>
      (envelope.target, .receive envelope.source peerHost order now envelope.msg, cluster.wire.eraseIdx index)
  | .lose _ => none
  | .restart id source standalone maxDbId now =>
    some (id, .restart ((cluster.controllers.get? source).bind Controller.file) standalone maxDbId now, cluster.wire)

/-- One controller takes a step. -/
def move (cluster : Cluster) (id : String) (event : ControllerEvent) (wire : List Envelope) : Option Cluster :=
  (cluster.controllers.get? id).bind fun controller =>
    (controller.step id event cluster.history).map fun (next, sent, history) => {
      controllers := cluster.controllers.insert id next
      wire := wire ++ sent.map fun entry => ⟨id, entry.1, entry.2⟩
      history := history }

def apply (event : ClusterEvent) (cluster : Cluster) : Option Cluster :=
  match event with
  | .lose index => some { cluster with wire := cluster.wire.eraseIdx index }
  | event => (cluster.resolve event).bind fun (id, event, wire) => cluster.move id event wire

/-- New controllers in any role, and nothing on the way. -/
structure Fresh (cluster : Cluster) : Prop where
  controllers : ∀ id controller, cluster.controllers.get? id = some controller → controller.Fresh
  wire : cluster.wire = []
  history : cluster.history = {}

end Cluster

section Sample

def sampleRequest (request : SubmitRequest := .submit { binary := "sh", reqCores := 4, reqMemory := 100 }) :
    List DeskEvent :=
  [.accept {} ⟨"user", ["admin"]⟩ request, .check 0, .send 0, .answer 0, .process 1]

def sampleCluster : Cluster where
  controllers := HashMap.ofList [("a", { ctx := sampleLeader }), ("b", {})]

def sampleConnect : List ClusterEvent := [.on "a" (.connect "b"), .on "b" (.connect "a")]

/-- The worker `w1` is connected to the follower `b` before the leader `a` starts a job on it. -/
def gatewayRun : List ClusterEvent :=
  [.on "b" (.act (.register (sampleRegistration "w1") 10))] ++ sampleConnect ++
    [.deliver 1 "b" .stored 20] ++ sampleRequest.map (fun event => .on "a" (.desk event)) ++
    [.on "a" (.act (.schedule { now := 100 }))]

/-- The snapshot reaches `b`, the worker registers again, and `b` takes over. -/
def takeoverRun : List ClusterEvent :=
  gatewayRun ++ [.deliver 1 "a" .stored 101, .on "b" (.act (.register (sampleRegistration "w1") 110)),
    .on "b" (.promote 200)]

theorem sampleCluster_fresh : sampleCluster.Fresh where
  controllers id controller found := by
    simp only [sampleCluster, HashMap.ofList, List.foldl_cons, List.foldl_nil, HashMap.get?_insert] at found
    split at found
    · cases found
      exact ⟨rfl, rfl, rfl, rfl, ⟨rfl, rfl, rfl⟩, rfl⟩
    · split at found
      · cases found
        exact ⟨rfl, rfl, rfl, rfl, ⟨rfl, rfl, rfl⟩, rfl⟩
      · cases found
  wire := rfl
  history := rfl

end Sample

end Veloce
