import Mathlib.Data.List.ReduceOption
import Veloce.Collections.Custody
import Veloce.Collections.Mpsc
import Veloce.Collections.Run
import Veloce.Ha.Peer

/-! The way of the messages between a leader and a worker that is connected to a follower.
The follower reads the worker's messages and forwards them to the leader it knows; the leader
sends to the worker through the follower, which passes the messages on to the channel of the
worker's connection. The channels are bounded, and the other messages in them are `none`. -/

namespace Veloce

open Collections

variable {U D : Type}

/-- A worker behind a gateway. The messages of either direction are numbered; each lies in one
of the places named for its direction, in the order it passes through them. -/
structure Relay (U D : Type) where
  workerId : WorkerId
  leaderName : String
  followerName : String
  leader : GlobalState
  follower : GlobalState
  sentUp : List (Nat × U) := []
  stream : List (Nat × U) := []
  toLeader : Mpsc (Option (Nat × U)) := { permits := 100 }
  upWire : List (Option (Nat × U)) := []
  handled : List (Nat × U) := []
  sentDown : List (Nat × D) := []
  toGateway : Mpsc (Option (Nat × D)) := { permits := 100 }
  downWire : List (Option (Nat × D)) := []
  toWorker : Mpsc (Option (Nat × D)) := { permits := 1024 }
  delivered : List (Nat × D) := []

/-- What else happens to a channel: a message that is given up if there is no room, one that is
left to a task then, and the polls of the tasks. -/
inductive Traffic where
  | offer
  | send
  | poll (index : Nat)
  | resume (index : Nat)

def Traffic.apply {α : Type} (channel : Mpsc (Option α)) : Traffic → Option (Mpsc (Option α))
  | .offer => some ((channel.trySend none).getD channel)
  | .send => some (channel.sendOrSpawn none)
  | .poll index => channel.poll index
  | .resume index => channel.resume index

/-- The steps of the three parties. Whatever else a controller does to its state is one of
`leaderState` and `followerState`. -/
inductive RelayEvent (U D : Type) where
  | leaderState (state : GlobalState)
  | followerState (state : GlobalState)
  | workerSends (msg : U)
  | followerReads
  | pumpUp
  | leaderReads
  | leaderSends (msg : D)
  | pumpDown
  | gatewayReads
  | workerReceives
  | trafficUp (traffic : Traffic)
  | trafficDown (traffic : Traffic)
  | trafficWorker (traffic : Traffic)

namespace Relay

def connected (workerId : WorkerId) (leaderName followerName : String) (leader follower : GlobalState) :
    Relay U D where
  workerId := workerId
  leaderName := leaderName
  followerName := followerName
  leader := leader
  follower := follower

/-- Whether `get_leader_peer_tx` of the follower is the channel to the leader. -/
def knowsLeader (relay : Relay U D) : Bool :=
  relay.follower.getLeaderPeer = some relay.leaderName &&
    relay.follower.peers.get? relay.leaderName = some .live

/-- Whether `send_to_worker` of the leader takes the channel to the follower. -/
def routed (relay : Relay U D) : Bool :=
  (relay.leader.workers.get? relay.workerId).map WorkerHandle.routing = some (.gateway relay.followerName) &&
    relay.leader.peers.get? relay.followerName = some .live

/-- Whether the follower has the channel of the worker's connection. -/
def attached (relay : Relay U D) : Bool :=
  (relay.follower.workers.get? relay.workerId).map WorkerHandle.routing = some (.direct .live)

/-- `handle_worker` after it read a message that is no heartbeat: a follower forwards it if it
can, and a controller that leads handles it itself. -/
def forwardFromWorker (relay : Relay U D) (msg : Nat × U) : Relay U D :=
  match relay.follower.role with
  | .follower =>
    if relay.knowsLeader then
      { relay with toLeader := (relay.toLeader.trySend (some msg)).getD relay.toLeader }
    else relay
  | .leader => { relay with handled := relay.handled ++ [msg] }

/-- `handle_peer` of the leader at a ForwardFromWorker. -/
def handleForwarded (relay : Relay U D) (msg : Nat × U) : Relay U D :=
  if relay.leader.role = .leader then { relay with handled := relay.handled ++ [msg] } else relay

/-- `handle_peer` of the follower at a ForwardToWorker. -/
def forwardToWorker (relay : Relay U D) (msg : Nat × D) : Relay U D :=
  if relay.attached then
    { relay with toWorker := (relay.toWorker.trySend (some msg)).getD relay.toWorker }
  else relay

/-- A connection whose worker is no longer in the map is closed and reads no more. A send
without a route is refused. -/
def apply (event : RelayEvent U D) (relay : Relay U D) : Option (Relay U D) :=
  match event with
  | .leaderState state => some { relay with leader := state }
  | .followerState state => some { relay with follower := state }
  | .workerSends msg =>
    let numbered := (relay.sentUp.length, msg)
    some { relay with sentUp := relay.sentUp ++ [numbered], stream := relay.stream ++ [numbered] }
  | .followerReads =>
    match relay.stream with
    | msg :: rest =>
      if relay.follower.workers.contains relay.workerId then
        some ({ relay with stream := rest }.forwardFromWorker msg)
      else none
    | [] => none
  | .pumpUp => relay.toLeader.recv.map fun taken =>
    { relay with toLeader := taken.2, upWire := relay.upWire ++ [taken.1] }
  | .leaderReads =>
    match relay.upWire with
    | some msg :: rest => some ({ relay with upWire := rest }.handleForwarded msg)
    | none :: rest => some { relay with upWire := rest }
    | [] => none
  | .leaderSends msg =>
    let numbered := (relay.sentDown.length, msg)
    if relay.routed then
      some { relay with
        sentDown := relay.sentDown ++ [numbered]
        toGateway := relay.toGateway.sendOrSpawn (some numbered) }
    else some relay
  | .pumpDown => relay.toGateway.recv.map fun taken =>
    { relay with toGateway := taken.2, downWire := relay.downWire ++ [taken.1] }
  | .gatewayReads =>
    match relay.downWire with
    | some msg :: rest => some ({ relay with downWire := rest }.forwardToWorker msg)
    | none :: rest => some { relay with downWire := rest }
    | [] => none
  | .workerReceives => relay.toWorker.recv.map fun taken =>
    { relay with toWorker := taken.2, delivered := relay.delivered ++ taken.1.toList }
  | .trafficUp traffic => (traffic.apply relay.toLeader).map fun channel => { relay with toLeader := channel }
  | .trafficDown traffic => (traffic.apply relay.toGateway).map fun channel => { relay with toGateway := channel }
  | .trafficWorker traffic => (traffic.apply relay.toWorker).map fun channel => { relay with toWorker := channel }

/-- The worker's messages that the leader handled or that are still queued. -/
def heldUp (relay : Relay U D) : List (Nat × U) :=
  relay.handled ++ relay.upWire.reduceOption ++ relay.toLeader.held.reduceOption ++ relay.stream

/-- The leader's messages that reached the worker's channel or are still queued. -/
def heldDown (relay : Relay U D) : List (Nat × D) :=
  relay.delivered ++ relay.toWorker.held.reduceOption ++ relay.downWire.reduceOption ++
    relay.toGateway.held.reduceOption

def KeptUp (relay : Relay U D) : Prop := relay.sentUp ⊆ relay.heldUp

def KeptDown (relay : Relay U D) : Prop := relay.sentDown ⊆ relay.heldDown

/-- No message is lost, in either direction. -/
def Kept (relay : Relay U D) : Prop := relay.KeptUp ∧ relay.KeptDown

/-- A message that is read can go on. -/
def Forwards (relay : Relay U D) : RelayEvent U D → Prop
  | .followerReads => relay.follower.role = .follower → relay.knowsLeader ∧ 0 < relay.toLeader.permits
  | .leaderReads => relay.upWire.head?.join.isSome → relay.leader.role = .leader
  | .gatewayReads => relay.downWire.head?.join.isSome → relay.attached ∧ 0 < relay.toWorker.permits
  | _ => True

end Relay

theorem Traffic.held_apply {α : Type} {channel next : Mpsc (Option α)} {traffic : Traffic}
    (taken : traffic.apply channel = some next) : next.held.reduceOption.Perm channel.held.reduceOption := by
  cases traffic with
  | offer =>
    cases taken
    cases sent : channel.trySend none with
    | none => exact .refl _
    | some next => exact (Mpsc.held_trySend sent).filterMap id
  | send =>
    cases taken
    exact (channel.held_sendOrSpawn none).filterMap id
  | poll index => exact (Mpsc.held_poll taken).filterMap id
  | resume index => exact (Mpsc.held_resume taken).filterMap id

theorem perm_recv {α : Type} {channel next : Mpsc (Option α)} {msg : Option α}
    (received : channel.recv = some (msg, next)) :
    (msg.toList ++ next.held.reduceOption).Perm channel.held.reduceOption := by
  have leaves := ((Mpsc.held_recv received).filterMap id).symm
  cases msg with
  | none => exact leaves
  | some content => exact leaves

namespace Relay

/-- Each direction keeps account of its messages. -/
structure Accounted (relay : Relay U D) : Prop where
  up : Custody relay.sentUp relay.heldUp
  down : Custody relay.sentDown relay.heldDown

section Step

variable {relay next : Relay U D}

variable {Passes : Prop}

theorem Accounted.stepUp (valid : relay.Accounted)
    (step : Custody next.sentUp next.heldUp ∧ (next.KeptUp ↔ relay.KeptUp ∧ Passes))
    (sent : next.sentDown = relay.sentDown) (held : next.heldDown = relay.heldDown) :
    next.Accounted ∧ (next.Kept ↔ relay.Kept ∧ Passes) := by
  refine ⟨⟨step.1, by rw [sent, held]; exact valid.down⟩, ?_⟩
  rw [Kept, Kept, step.2, KeptDown, sent, held, ← KeptDown]
  exact and_right_comm

theorem Accounted.stepDown (valid : relay.Accounted)
    (step : Custody next.sentDown next.heldDown ∧ (next.KeptDown ↔ relay.KeptDown ∧ Passes))
    (sent : next.sentUp = relay.sentUp) (held : next.heldUp = relay.heldUp) :
    next.Accounted ∧ (next.Kept ↔ relay.Kept ∧ Passes) := by
  refine ⟨⟨by rw [sent, held]; exact valid.up, step.1⟩, ?_⟩
  rw [Kept, Kept, step.2, KeptUp, sent, held, ← KeptUp]
  exact and_assoc.symm

theorem Accounted.passUp (valid : relay.Accounted) (next : Relay U D) (passes : Passes)
    (sent : next.sentUp = relay.sentUp) (held : next.heldUp.Perm relay.heldUp)
    (sentDown : next.sentDown = relay.sentDown) (heldDown : next.heldDown = relay.heldDown) :
    next.Accounted ∧ (next.Kept ↔ relay.Kept ∧ Passes) := by
  refine valid.stepUp ?_ sentDown heldDown
  rw [KeptUp, sent]
  obtain ⟨custody, kept⟩ := valid.up.move held
  exact ⟨custody, kept.trans (and_iff_left passes).symm⟩

theorem Accounted.passDown (valid : relay.Accounted) (next : Relay U D) (passes : Passes)
    (sent : next.sentDown = relay.sentDown) (held : next.heldDown.Perm relay.heldDown)
    (sentUp : next.sentUp = relay.sentUp) (heldUp : next.heldUp = relay.heldUp) :
    next.Accounted ∧ (next.Kept ↔ relay.Kept ∧ Passes) := by
  refine valid.stepDown ?_ sentUp heldUp
  rw [KeptDown, sent]
  obtain ⟨custody, kept⟩ := valid.down.move held
  exact ⟨custody, kept.trans (and_iff_left passes).symm⟩

theorem Accounted.dropUp (valid : relay.Accounted) (next : Relay U D) (stuck : ¬ Passes) {msg : Nat × U}
    (sent : next.sentUp = relay.sentUp) (held : relay.heldUp.Perm (msg :: next.heldUp))
    (sentDown : next.sentDown = relay.sentDown) (heldDown : next.heldDown = relay.heldDown) :
    next.Accounted ∧ (next.Kept ↔ relay.Kept ∧ Passes) := by
  refine valid.stepUp ?_ sentDown heldDown
  rw [KeptUp, sent]
  obtain ⟨custody, lost⟩ := valid.up.lose held
  exact ⟨custody, iff_of_false lost fun both => stuck both.2⟩

theorem Accounted.dropDown (valid : relay.Accounted) (next : Relay U D) (stuck : ¬ Passes) {msg : Nat × D}
    (sent : next.sentDown = relay.sentDown) (held : relay.heldDown.Perm (msg :: next.heldDown))
    (sentUp : next.sentUp = relay.sentUp) (heldUp : next.heldUp = relay.heldUp) :
    next.Accounted ∧ (next.Kept ↔ relay.Kept ∧ Passes) := by
  refine valid.stepDown ?_ sentUp heldUp
  rw [KeptDown, sent]
  obtain ⟨custody, lost⟩ := valid.down.lose held
  exact ⟨custody, iff_of_false lost fun both => stuck both.2⟩

end Step

section Places

variable (relay : Relay U D)

/-- The follower's reader keeps the message exactly if it can pass it on. -/
theorem forwardFromWorker_cases (msg : Nat × U) :
    (relay.Forwards .followerReads ∧ (relay.forwardFromWorker msg).heldUp.Perm (msg :: relay.heldUp) ∧
        (relay.forwardFromWorker msg).sentUp = relay.sentUp ∧
        (relay.forwardFromWorker msg).sentDown = relay.sentDown ∧
        (relay.forwardFromWorker msg).heldDown = relay.heldDown) ∨
      ¬ relay.Forwards .followerReads ∧ relay.forwardFromWorker msg = relay := by
  unfold forwardFromWorker Forwards
  cases role : relay.follower.role with
  | leader =>
    refine .inl ⟨fun follows => (by cases follows), ?_, rfl, rfl, rfl⟩
    simp only [heldUp, List.append_assoc, List.singleton_append]
    exact List.perm_middle
  | follower =>
    by_cases known : relay.knowsLeader
    · rw [if_pos known]
      cases sent : relay.toLeader.trySend (some msg) with
      | some channel =>
        refine .inl ⟨fun _ => ⟨known, Mpsc.room_of_trySend sent⟩, ?_, rfl, rfl, rfl⟩
        have queued := (Mpsc.held_trySend sent).filterMap id
        exact ((queued.append_left _).append_right _).trans (List.perm_middle.append_right _)
      | none => exact .inr ⟨fun forwards => Mpsc.full_of_trySend sent (forwards rfl).2, rfl⟩
    · rw [if_neg known]
      exact .inr ⟨fun forwards => known (forwards rfl).1, rfl⟩

theorem handleForwarded_cases (msg : Nat × U) :
    (relay.leader.role = .leader ∧ (relay.handleForwarded msg).heldUp.Perm (msg :: relay.heldUp) ∧
        (relay.handleForwarded msg).sentUp = relay.sentUp ∧
        (relay.handleForwarded msg).sentDown = relay.sentDown ∧
        (relay.handleForwarded msg).heldDown = relay.heldDown) ∨
      relay.leader.role ≠ .leader ∧ relay.handleForwarded msg = relay := by
  unfold handleForwarded
  split
  · rename_i leads
    refine .inl ⟨leads, ?_, rfl, rfl, rfl⟩
    simp only [heldUp, List.append_assoc, List.singleton_append]
    exact List.perm_middle
  · rename_i follows
    exact .inr ⟨follows, rfl⟩

theorem forwardToWorker_cases (msg : Nat × D) :
    ((relay.attached ∧ 0 < relay.toWorker.permits) ∧ (relay.forwardToWorker msg).heldDown.Perm (msg :: relay.heldDown) ∧
        (relay.forwardToWorker msg).sentDown = relay.sentDown ∧
        (relay.forwardToWorker msg).sentUp = relay.sentUp ∧
        (relay.forwardToWorker msg).heldUp = relay.heldUp) ∨
      ¬ (relay.attached ∧ 0 < relay.toWorker.permits) ∧ relay.forwardToWorker msg = relay := by
  unfold forwardToWorker
  by_cases here : relay.attached
  · rw [if_pos here]
    cases sent : relay.toWorker.trySend (some msg) with
    | some channel =>
      refine .inl ⟨⟨here, Mpsc.room_of_trySend sent⟩, ?_, rfl, rfl, rfl⟩
      have queued := (Mpsc.held_trySend sent).filterMap id
      exact (((queued.append_left _).trans List.perm_middle).append_right _).append_right _
    | none => exact .inr ⟨fun forwards => Mpsc.full_of_trySend sent forwards.2, rfl⟩
  · rw [if_neg here]
    exact .inr ⟨fun forwards => here forwards.1, rfl⟩

end Places

section Step

variable {relay next : Relay U D}

theorem Accounted.followerReads (valid : relay.Accounted) (taken : relay.apply .followerReads = some next) :
    next.Accounted ∧ (next.Kept ↔ relay.Kept ∧ relay.Forwards .followerReads) := by
  simp only [apply] at taken
  split at taken
  · rename_i msg rest reads
    split at taken
    · cases taken
      have leaves : relay.heldUp.Perm (msg :: { relay with stream := rest }.heldUp) := by
        rw [heldUp, reads]
        exact List.perm_middle
      rcases forwardFromWorker_cases { relay with stream := rest } msg with ⟨passes, held, sent, down⟩ | ⟨stuck, same⟩
      · exact valid.passUp _ passes sent (held.trans leaves.symm) down.1 down.2
      · rw [same]
        exact valid.dropUp _ stuck rfl leaves rfl rfl
    · cases taken
  · cases taken

theorem Accounted.leaderReads (valid : relay.Accounted) (taken : relay.apply .leaderReads = some next) :
    next.Accounted ∧ (next.Kept ↔ relay.Kept ∧ relay.Forwards .leaderReads) := by
  simp only [apply] at taken
  split at taken
  · rename_i msg rest reads
    cases taken
    have leaves : relay.heldUp.Perm (msg :: { relay with upWire := rest }.heldUp) := by
      simp only [heldUp, reads, List.reduceOption_cons_of_some, List.append_assoc, List.cons_append]
      exact List.perm_middle
    have passes_iff : relay.Forwards .leaderReads ↔ relay.leader.role = .leader := by simp [Forwards, reads]
    rw [passes_iff]
    rcases handleForwarded_cases { relay with upWire := rest } msg with ⟨leads, held, sent, down⟩ | ⟨follows, same⟩
    · exact valid.passUp _ leads sent (held.trans leaves.symm) down.1 down.2
    · rw [same]
      exact valid.dropUp _ follows rfl leaves rfl rfl
  · rename_i rest reads
    cases taken
    refine valid.passUp _ (by simp [Forwards, reads]) rfl ?_ rfl rfl
    rw [heldUp, heldUp, reads]
    exact .refl _
  · cases taken

theorem Accounted.gatewayReads (valid : relay.Accounted) (taken : relay.apply .gatewayReads = some next) :
    next.Accounted ∧ (next.Kept ↔ relay.Kept ∧ relay.Forwards .gatewayReads) := by
  simp only [apply] at taken
  split at taken
  · rename_i msg rest reads
    cases taken
    have leaves : relay.heldDown.Perm (msg :: { relay with downWire := rest }.heldDown) := by
      simp only [heldDown, reads, List.reduceOption_cons_of_some, List.append_assoc, List.cons_append]
      rw [← List.append_assoc, ← List.append_assoc]
      exact List.perm_middle
    have passes_iff : relay.Forwards .gatewayReads ↔ relay.attached ∧ 0 < relay.toWorker.permits := by
      simp [Forwards, reads]
    rw [passes_iff]
    rcases forwardToWorker_cases { relay with downWire := rest } msg with ⟨passes, held, sent, up⟩ | ⟨stuck, same⟩
    · exact valid.passDown _ passes sent (held.trans leaves.symm) up.1 up.2
    · rw [same]
      exact valid.dropDown _ stuck rfl leaves rfl rfl
  · rename_i rest reads
    cases taken
    refine valid.passDown _ (by simp [Forwards, reads]) rfl ?_ rfl rfl
    rw [heldDown, heldDown, reads]
    exact .refl _
  · cases taken

/-- A step keeps account of all messages, and none is lost exactly if none was and the step
can pass its message on. -/
theorem Accounted.step (valid : relay.Accounted) {event : RelayEvent U D} (taken : relay.apply event = some next) :
    next.Accounted ∧ (next.Kept ↔ relay.Kept ∧ relay.Forwards event) := by
  cases event with
  | leaderState state =>
    cases taken
    exact valid.passUp _ trivial rfl (.refl _) rfl rfl
  | followerState state =>
    cases taken
    exact valid.passUp _ trivial rfl (.refl _) rfl rfl
  | workerSends msg =>
    cases taken
    refine valid.stepUp ?_ rfl rfl
    obtain ⟨custody, kept⟩ := valid.up.send msg (List.perm_append_singleton _ relay.heldUp)
    rw [heldUp, List.append_assoc] at custody kept
    exact ⟨custody, kept.trans (and_iff_left trivial).symm⟩
  | followerReads => exact valid.followerReads taken
  | pumpUp =>
    obtain ⟨⟨msg, channel⟩, received, same⟩ := Option.map_eq_some_iff.mp taken
    subst same
    refine valid.passUp _ trivial rfl ?_ rfl rfl
    simp only [heldUp, List.reduceOption_append, List.reduceOption_singleton, List.append_assoc]
    rw [← List.append_assoc msg.toList]
    exact (((perm_recv received).append_right _).append_left _).append_left _
  | leaderReads => exact valid.leaderReads taken
  | leaderSends msg =>
    simp only [apply] at taken
    split at taken
    · cases taken
      refine valid.stepDown ?_ rfl rfl
      have queued := (relay.toGateway.held_sendOrSpawn (some (relay.sentDown.length, msg))).filterMap id
      obtain ⟨custody, kept⟩ := valid.down.send msg ((queued.append_left _).trans List.perm_middle)
      exact ⟨custody, kept.trans (and_iff_left trivial).symm⟩
    · cases taken
      exact valid.passUp _ trivial rfl (.refl _) rfl rfl
  | pumpDown =>
    obtain ⟨⟨msg, channel⟩, received, same⟩ := Option.map_eq_some_iff.mp taken
    subst same
    refine valid.passDown _ trivial rfl ?_ rfl rfl
    simp only [heldDown, List.reduceOption_append, List.reduceOption_singleton, List.append_assoc]
    exact (((perm_recv received).append_left _).append_left _).append_left _
  | gatewayReads => exact valid.gatewayReads taken
  | workerReceives =>
    obtain ⟨⟨msg, channel⟩, received, same⟩ := Option.map_eq_some_iff.mp taken
    subst same
    refine valid.passDown _ trivial rfl ?_ rfl rfl
    simp only [heldDown, List.append_assoc]
    rw [← List.append_assoc msg.toList]
    exact ((perm_recv received).append_right _).append_left _
  | trafficUp traffic =>
    obtain ⟨channel, passed, same⟩ := Option.map_eq_some_iff.mp taken
    subst same
    refine valid.passUp _ trivial rfl ?_ rfl rfl
    exact ((Traffic.held_apply passed).append_left _).append_right _
  | trafficDown traffic =>
    obtain ⟨channel, passed, same⟩ := Option.map_eq_some_iff.mp taken
    subst same
    refine valid.passDown _ trivial rfl ?_ rfl rfl
    exact (Traffic.held_apply passed).append_left _
  | trafficWorker traffic =>
    obtain ⟨channel, passed, same⟩ := Option.map_eq_some_iff.mp taken
    subst same
    refine valid.passDown _ trivial rfl ?_ rfl rfl
    exact (((Traffic.held_apply passed).append_left _).append_right _).append_right _

end Step

instance (relay : Relay U D) : (event : RelayEvent U D) → Decidable (relay.Forwards event)
  | .followerReads => inferInstanceAs (Decidable (_ = _ → _ ∧ _))
  | .leaderReads => inferInstanceAs (Decidable (_ → _ = _))
  | .gatewayReads => inferInstanceAs (Decidable (_ → _ ∧ _))
  | .leaderState _ | .followerState _ | .workerSends _ | .pumpUp | .leaderSends _ | .pumpDown | .workerReceives
  | .trafficUp _ | .trafficDown _ | .trafficWorker _ => isTrue trivial

end Relay

/-- In every run of a leader, a follower and a worker connected to it that starts with new
connections, no message was lost exactly if each was read in a state in which it could go on:
by a follower that knows the leader and has room in its channel, by a controller that leads,
and by a gateway with room in the channel of the worker. -/
theorem forwarding_loses_nothing_iff {workerId : WorkerId} {leaderName followerName : String}
    {leader follower : GlobalState} {events : List (RelayEvent U D)} {final : Relay U D}
    (ran : runLabels Relay.apply events (.connected workerId leaderName followerName leader follower) = some final) :
    final.Kept ↔ AllowedRun Relay.Forwards Relay.apply events
      (.connected workerId leaderName followerName leader follower) := by
  have start : (Relay.connected workerId leaderName followerName leader follower : Relay U D).Accounted := ⟨.nil, .nil⟩
  refine (runLabels_iff (fun valid taken => valid.step taken) start ran).trans ?_
  exact and_iff_right ⟨List.nil_subset _, List.nil_subset _⟩

def relayLeader : GlobalState :=
  GlobalState.registerGatewayWorker
    { role := .leader, peers := HashMap.insert ∅ "b" .live } "b" "10.0.0.2" (sampleRegistration "w").notice 0

def relayFollower : GlobalState where
  role := .follower
  leaderId := some "a"
  peers := HashMap.insert ∅ "a" .live
  workers := HashMap.insert ∅ "w"
    ((sampleRegistration "w").handle (.direct .live) 0 (rebuildWorkerAllocations "w" sampleResources ∅))

/-- A job is sent to the worker, and the worker reports its end. -/
theorem forwarding_loses_nothing_iff_room : ∃ final : Relay Message Message,
    runLabels Relay.apply [.leaderSends (.terminateJob 1), .pumpDown, .gatewayReads, .workerReceives,
      .workerSends (.jobDone 1 0), .followerReads, .pumpUp, .leaderReads]
      (.connected "w" "a" "b" relayLeader relayFollower) = some final ∧ final.Kept := by
  obtain ⟨final, ran⟩ : ∃ final : Relay Message Message,
      runLabels Relay.apply [.leaderSends (.terminateJob 1), .pumpDown, .gatewayReads, .workerReceives,
        .workerSends (.jobDone 1 0), .followerReads, .pumpUp, .leaderReads]
        (.connected "w" "a" "b" relayLeader relayFollower) = some final := ⟨_, rfl⟩
  exact ⟨final, ran, (forwarding_loses_nothing_iff ran).mpr (by decide +kernel)⟩

theorem run_offers : ∀ (count : Nat) (relay : Relay U D), count ≤ relay.toLeader.permits →
    runLabels Relay.apply (List.replicate count (.trafficUp .offer)) relay = some { relay with
      toLeader := { relay.toLeader with
        permits := relay.toLeader.permits - count
        queue := relay.toLeader.queue ++ List.replicate count none } } := by
  intro count
  induction count with
  | zero =>
    intro relay _
    simp only [List.replicate_zero, List.append_nil]
    rfl
  | succ count ih =>
    intro relay room
    have positive : 0 < relay.toLeader.permits := by omega
    have first : relay.apply (.trafficUp .offer) = some { relay with
        toLeader := { relay.toLeader with
          permits := relay.toLeader.permits - 1
          queue := relay.toLeader.queue ++ [none] } } := by
      simp only [Relay.apply, Traffic.apply, Mpsc.trySend, if_pos positive]
      rfl
    rw [List.replicate_succ, runLabels_cons, first, Option.bind_some, ih _ (Nat.le_sub_one_of_lt room)]
    simp only [List.append_assoc, List.singleton_append, List.replicate_succ, Nat.sub_sub, Nat.add_comm 1]

/-- The channel to the leader is full when the follower reads the end of a job. -/
theorem full_channel_loses_jobDone : ∃ (events : List (RelayEvent Message Message)) (final : Relay Message Message),
    runLabels Relay.apply events (.connected "w" "a" "b" relayLeader relayFollower) = some final ∧
    final.sentUp = [(0, .jobDone 1 0)] ∧ final.heldUp = [] ∧ ¬ final.Kept := by
  let final : Relay Message Message := { Relay.connected "w" "a" "b" relayLeader relayFollower with
    toLeader := { permits := 0, queue := List.replicate 100 none }
    sentUp := [(0, .jobDone 1 0)] }
  have nothing : final.heldUp = [] := by simp [Relay.heldUp, final, Relay.connected, Mpsc.held, Mpsc.outstanding]
  refine ⟨List.replicate 100 (.trafficUp .offer) ++ [.workerSends (.jobDone 1 0), .followerReads], final, ?_, rfl,
    nothing, fun kept => ?_⟩
  · rw [runLabels_append, run_offers 100 _ (Nat.le_refl _)]
    rfl
  · have held := kept.1 List.mem_cons_self
    rw [nothing] at held
    exact absurd held List.not_mem_nil

end Veloce
