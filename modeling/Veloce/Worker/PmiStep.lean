import Mathlib.Logic.Function.Basic
import Veloce.Collections.Broadcast
import Veloce.Collections.Run
import Veloce.Worker.Pmi

/-! The ranks of one step, each with a connection to the PMI server of its worker, and the
controller's tables for the step. -/

namespace Veloce

open Collections

/-- A step with its ranks on the workers it was assigned; the controller has a record of it,
unless it was launched past the scheduler. -/
structure PmiStep where
  ntasks : Nat
  tasks : 0 < ntasks
  small : ntasks < 2 ^ 32
  assignedWorkers : List WorkerId
  distinct : assignedWorkers.Nodup
  place : Nat → WorkerId
  placed : ∀ rank < ntasks, place rank ∈ assignedWorkers
  recorded : Bool

inductive PmiMessage where
  | barrierEnter (rank : Nat)
  | put (rank : Nat) (key value : String)
  | get (rank : Nat) (key : String) (requestId : Nat)
deriving DecidableEq

inductive PmiReply where
  | barrierRelease
  | getResponse (requestId : Nat) (value : Option String)
deriving DecidableEq

/-- What a connection waits for, with the request that it answers then. -/
inductive PmiWait where
  | barrier (req response : String)
  | get (req : String) (requestId : Nat) (cmd : String)
deriving DecidableEq

def PmiWait.req : PmiWait → String
  | .barrier req _ => req
  | .get req _ _ => req

def PmiWait.awaited : PmiWait → Option Nat
  | .barrier _ _ => none
  | .get _ requestId _ => some requestId

/-- One connection: the requests that the rank sent and the server has not begun, the positions
in the broadcasts, and the requests answered so far with their responses. -/
structure PmiConn where
  inbox : List String := []
  waiting : Option PmiWait := none
  barrierNext : Nat := 0
  getNext : Nat := 0
  answered : List (String × String) := []
deriving DecidableEq

/-- The requests that the server has begun, and all that the rank sent. -/
def PmiConn.begun (conn : PmiConn) : List String := conn.answered.map Prod.fst ++ (conn.waiting.map PmiWait.req).toList

def PmiConn.sent (conn : PmiConn) : List String := conn.begun ++ conn.inbox

/-- The PMI server of a worker. Messages on their way to the controller are kept with the
connection they come from; those of the controller reach the worker in any order and pass the
channel of the step before they are broadcast. -/
structure PmiServer where
  counter : Nat := 1
  outgoing : List (Nat × PmiMessage) := []
  incoming : List PmiReply := []
  channel : List PmiReply := []
  barriers : List Unit := []
  gets : List (Nat × Option String) := []

/-- What a handler of StepPMIBarrierEnter still has to do: check the rank in, clear the set, or
send the releases. -/
inductive EnterTask where
  | checkIn (origin rank : Nat)
  | clear
  | release
deriving DecidableEq

/-- `checkedIn`, `rounds` and `released` record the connections checked in, the sets cleared and
the workers that were sent a release. -/
structure PmiSystem where
  conns : Nat → PmiConn := fun _ => {}
  servers : WorkerId → PmiServer := fun _ => {}
  kvs : HashMap String String := ∅
  barrier : HashSet Nat := ∅
  handlers : List EnterTask := []
  checkedIn : List Nat := []
  rounds : Nat := 0
  released : List WorkerId := []

inductive PmiEvent where
  | send (rank : Nat) (req : String)
  | serve (rank : Nat)
  | handle (worker : WorkerId) (index : Nat)
  | go (index : Nat)
  | route (worker : WorkerId) (index : Nat)
  | forward (worker : WorkerId)
  | wake (rank : Nat)
deriving DecidableEq

def barrierCapacity : Nat := 16

/-- A hundred, rounded up to a power of two. -/
def getCapacity : Nat := 128

namespace PmiSystem

variable (step : PmiStep) (sys : PmiSystem)

def setConn (rank : Nat) (conn : PmiConn) : PmiSystem := { sys with conns := Function.update sys.conns rank conn }

def setServer (worker : WorkerId) (server : PmiServer) : PmiSystem :=
  { sys with servers := Function.update sys.servers worker server }

theorem conns_setConn (rank other : Nat) (conn : PmiConn) :
    (sys.setConn rank conn).conns other = if other = rank then conn else sys.conns other := Function.update_apply ..

@[simp] theorem conns_setConn_self (rank : Nat) (conn : PmiConn) : (sys.setConn rank conn).conns rank = conn :=
  Function.update_self ..

theorem servers_setServer (worker other : WorkerId) (server : PmiServer) :
    (sys.setServer worker server).servers other = if other = worker then server else sys.servers other :=
  Function.update_apply ..

@[simp] theorem servers_setServer_self (worker : WorkerId) (server : PmiServer) :
    (sys.setServer worker server).servers worker = server := Function.update_self ..

/-- The connection begins a request. -/
def serve (rank : Nat) : Option PmiSystem :=
  let conn := sys.conns rank
  let server := sys.servers (step.place rank)
  match conn.waiting, conn.inbox with
  | none, req :: rest =>
    match processPmiRequest req with
    | .answer response => some (sys.setConn rank { conn with inbox := rest, answered := conn.answered ++ [(req, response)] })
    | .barrier value response =>
      some ((sys.setConn rank { conn with inbox := rest, waiting := some (.barrier req response) }).setServer
        (step.place rank) { server with outgoing := server.outgoing ++ [(rank, .barrierEnter value)] })
    | .put value key stored response =>
      some ((sys.setConn rank { conn with inbox := rest, answered := conn.answered ++ [(req, response)] }).setServer
        (step.place rank) { server with outgoing := server.outgoing ++ [(rank, .put value key stored)] })
    | .get value key cmd =>
      some ((sys.setConn rank { conn with inbox := rest, waiting := some (.get req server.counter cmd) }).setServer
        (step.place rank)
        { server with
          counter := server.counter + 1
          outgoing := server.outgoing ++ [(rank, .get value key server.counter)] })
  | _, _ => none

/-- What a begun request does. -/
inductive Begins (rank : Nat) (req : String) (rest : List String) : PmiSystem → Prop where
  | answer (response : String) (action : processPmiRequest req = .answer response) :
      Begins rank req rest (sys.setConn rank
        { sys.conns rank with inbox := rest, answered := (sys.conns rank).answered ++ [(req, response)] })
  | barrier (value : Nat) (response : String) (action : processPmiRequest req = .barrier value response) :
      Begins rank req rest
        ((sys.setConn rank { sys.conns rank with inbox := rest, waiting := some (.barrier req response) }).setServer
          (step.place rank)
          { sys.servers (step.place rank) with
            outgoing := (sys.servers (step.place rank)).outgoing ++ [(rank, .barrierEnter value)] })
  | put (value : Nat) (key stored response : String) (action : processPmiRequest req = .put value key stored response) :
      Begins rank req rest
        ((sys.setConn rank
            { sys.conns rank with inbox := rest, answered := (sys.conns rank).answered ++ [(req, response)] }).setServer
          (step.place rank)
          { sys.servers (step.place rank) with
            outgoing := (sys.servers (step.place rank)).outgoing ++ [(rank, .put value key stored)] })
  | get (value : Nat) (key cmd : String) (action : processPmiRequest req = .get value key cmd) :
      Begins rank req rest
        ((sys.setConn rank
            { sys.conns rank with
              inbox := rest, waiting := some (.get req (sys.servers (step.place rank)).counter cmd) }).setServer
          (step.place rank)
          { sys.servers (step.place rank) with
            counter := (sys.servers (step.place rank)).counter + 1
            outgoing := (sys.servers (step.place rank)).outgoing ++
              [(rank, .get value key (sys.servers (step.place rank)).counter)] })

theorem serve_cases {step : PmiStep} {sys next : PmiSystem} {rank : Nat} (taken : sys.serve step rank = some next) :
    ∃ req rest, (sys.conns rank).waiting = none ∧ (sys.conns rank).inbox = req :: rest ∧
      Begins step sys rank req rest next := by
  simp only [serve] at taken
  split at taken
  · rename_i req rest idle queued
    refine ⟨req, rest, idle, queued, ?_⟩
    split at taken
    · rename_i response action
      cases taken
      exact .answer response action
    · rename_i value response action
      cases taken
      exact .barrier value response action
    · rename_i value key stored response action
      cases taken
      exact .put value key stored response action
    · rename_i value key cmd action
      cases taken
      exact .get value key cmd action
  · cases taken

def handle (worker : WorkerId) (index : Nat) : Option PmiSystem :=
  let server := sys.servers worker
  let rest := { server with outgoing := server.outgoing.eraseIdx index }
  match server.outgoing[index]? with
  | some (origin, .barrierEnter rank) =>
    let taken := sys.setServer worker rest
    some (if step.recorded then { taken with handlers := sys.handlers ++ [.checkIn origin rank] } else taken)
  | some (_, .put _ key value) => some { sys.setServer worker rest with kvs := sys.kvs.insert key value }
  | some (_, .get _ key requestId) =>
    some (sys.setServer worker { rest with incoming := server.incoming ++ [.getResponse requestId (sys.kvs.get? key)] })
  | none => none

def releaseAll (worker : WorkerId) : PmiServer :=
  let server := sys.servers worker
  if worker ∈ step.assignedWorkers then { server with incoming := server.incoming ++ [.barrierRelease] } else server

def go (index : Nat) : Option PmiSystem :=
  match sys.handlers[index]? with
  | some (.checkIn origin rank) =>
    let barrier := sys.barrier.insert rank
    some { sys with
      barrier
      checkedIn := sys.checkedIn ++ [origin]
      handlers := if asU32 barrier.len = step.ntasks then sys.handlers.set index .clear else sys.handlers.eraseIdx index }
  | some .clear => some { sys with barrier := ∅, rounds := sys.rounds + 1, handlers := sys.handlers.set index .release }
  | some .release =>
    some { sys with
      servers := sys.releaseAll step
      released := sys.released ++ step.assignedWorkers
      handlers := sys.handlers.eraseIdx index }
  | none => none

/-- The worker hands a message of the controller to the channel of the step. -/
def route (worker : WorkerId) (index : Nat) : Option PmiSystem :=
  let server := sys.servers worker
  server.incoming[index]?.map fun reply =>
    sys.setServer worker { server with incoming := server.incoming.eraseIdx index, channel := server.channel ++ [reply] }

/-- The server broadcasts the next message of the channel. -/
def forward (worker : WorkerId) : Option PmiSystem :=
  let server := sys.servers worker
  match server.channel with
  | .barrierRelease :: rest => some (sys.setServer worker { server with channel := rest, barriers := server.barriers ++ [()] })
  | .getResponse requestId value :: rest =>
    some (sys.setServer worker { server with channel := rest, gets := server.gets ++ [(requestId, value)] })
  | [] => none

/-- A waiting connection reads its broadcast; a barrier is over whatever it reads, a get only
when it reads its own response. -/
def wake (rank : Nat) : Option PmiSystem :=
  let conn := sys.conns rank
  let server := sys.servers (step.place rank)
  match conn.waiting with
  | some (.barrier req response) =>
    (Broadcast.recv barrierCapacity server.barriers conn.barrierNext).map fun received =>
      sys.setConn rank { conn with
        waiting := none, barrierNext := received.2, answered := conn.answered ++ [(req, response)] }
  | some (.get req requestId cmd) =>
    (Broadcast.recv getCapacity server.gets conn.getNext).map fun received =>
      match received.1 with
      | some (readId, value) =>
        if readId = requestId then
          sys.setConn rank { conn with
            waiting := none, getNext := received.2
            answered := conn.answered ++ [(req, pmiGetResponse cmd (value.getD "unknown"))] }
        else sys.setConn rank { conn with getNext := received.2 }
      | none => sys.setConn rank { conn with getNext := received.2 }
  | none => none

/-- What a connection does that reads its broadcast. -/
inductive Wakes (rank : Nat) : PmiSystem → Prop where
  | barrier (req response : String) (read : Option Unit) (readTo : Nat)
      (waits : (sys.conns rank).waiting = some (.barrier req response))
      (received : Broadcast.recv barrierCapacity (sys.servers (step.place rank)).barriers (sys.conns rank).barrierNext =
        some (read, readTo)) :
      Wakes rank (sys.setConn rank
        { sys.conns rank with
          waiting := none, barrierNext := readTo, answered := (sys.conns rank).answered ++ [(req, response)] })
  | response (req cmd : String) (requestId readTo : Nat) (value : Option String)
      (waits : (sys.conns rank).waiting = some (.get req requestId cmd))
      (received : Broadcast.recv getCapacity (sys.servers (step.place rank)).gets (sys.conns rank).getNext =
        some (some (requestId, value), readTo)) :
      Wakes rank (sys.setConn rank
        { sys.conns rank with
          waiting := none, getNext := readTo
          answered := (sys.conns rank).answered ++ [(req, pmiGetResponse cmd (value.getD "unknown"))] })
  | other (req cmd : String) (requestId readTo : Nat) (read : Option (Nat × Option String))
      (waits : (sys.conns rank).waiting = some (.get req requestId cmd))
      (foreign : ∀ value, read ≠ some (requestId, value))
      (received : Broadcast.recv getCapacity (sys.servers (step.place rank)).gets (sys.conns rank).getNext =
        some (read, readTo)) :
      Wakes rank (sys.setConn rank { sys.conns rank with getNext := readTo })

theorem wake_cases {step : PmiStep} {sys next : PmiSystem} {rank : Nat} (taken : sys.wake step rank = some next) :
    Wakes step sys rank next := by
  simp only [wake] at taken
  split at taken
  · rename_i req response waits
    obtain ⟨⟨read, readTo⟩, received, rfl⟩ := Option.map_eq_some_iff.mp taken
    exact .barrier req response read readTo waits received
  · rename_i req requestId cmd waits
    obtain ⟨⟨read, readTo⟩, received, same⟩ := Option.map_eq_some_iff.mp taken
    simp only at same
    split at same
    · rename_i readId value
      split at same
      · rename_i own
        subst own same
        exact .response req cmd readId readTo value waits received
      · rename_i foreign
        subst same
        refine .other req cmd requestId readTo _ waits (fun other equal => foreign ?_) received
        cases equal
        rfl
    · subst same
      exact .other req cmd requestId readTo none waits nofun received
  · cases taken

def apply (event : PmiEvent) (sys : PmiSystem) : Option PmiSystem :=
  match event with
  | .send rank req =>
    if rank < step.ntasks then
      some (sys.setConn rank { sys.conns rank with inbox := (sys.conns rank).inbox ++ [req] })
    else none
  | .serve rank => if rank < step.ntasks then sys.serve step rank else none
  | .handle worker index => sys.handle step worker index
  | .go index => sys.go step index
  | .route worker index => sys.route worker index
  | .forward worker => sys.forward worker
  | .wake rank => if rank < step.ntasks then sys.wake step rank else none

end PmiSystem

end Veloce
