import Veloce.Worker.PmiController
import Veloce.Worker.PmiDialects

/-! What the steps of a PMI system leave as it was, and the values that it never holds. -/

namespace Veloce

open Collections

def PmiServer.Replies (server : PmiServer) (requestId : Nat) (value : Option String) : Prop :=
  .getResponse requestId value ∈ server.incoming ++ server.channel ∨ (requestId, value) ∈ server.gets

def PmiEvent.sends (rank : Nat) : PmiEvent → List String
  | .send other req => if other = rank then [req] else []
  | _ => []

namespace PmiConn

variable {conn : PmiConn} {inbox : List String} {req response : String} {wait : PmiWait} {barrierNext getNext : Nat}

theorem begun_answer (idle : conn.waiting = none) :
    ({ conn with inbox, answered := conn.answered ++ [(req, response)] } : PmiConn).begun = conn.begun ++ [req] := by
  simp [begun, idle]

theorem begun_wait (idle : conn.waiting = none) :
    ({ conn with inbox, waiting := some wait } : PmiConn).begun = conn.begun ++ [wait.req] := by
  simp [begun, idle]

theorem begun_wake (waits : conn.waiting = some wait) :
    ({ conn with waiting := none, barrierNext, getNext, answered := conn.answered ++ [(wait.req, response)] } : PmiConn).begun =
      conn.begun := by
  simp [begun, waits]

end PmiConn

namespace PmiSystem

variable {step : PmiStep} {sys next : PmiSystem}

/-- What the controller does with a message of a worker. -/
inductive Handles (sys : PmiSystem) (worker : WorkerId) (index : Nat) : PmiSystem → Prop where
  | enter (origin rank : Nat) (handlers : List EnterTask)
      (found : (sys.servers worker).outgoing[index]? = some (origin, .barrierEnter rank))
      (tasks : handlers = sys.handlers ∨ handlers = sys.handlers ++ [.checkIn origin rank]) :
      Handles sys worker index { taking sys worker index with handlers }
  | put (origin rank : Nat) (key value : String)
      (found : (sys.servers worker).outgoing[index]? = some (origin, .put rank key value)) :
      Handles sys worker index { taking sys worker index with kvs := sys.kvs.insert key value }
  | get (origin rank requestId : Nat) (key : String)
      (found : (sys.servers worker).outgoing[index]? = some (origin, .get rank key requestId)) :
      Handles sys worker index (sys.setServer worker
        { sys.servers worker with
          outgoing := (sys.servers worker).outgoing.eraseIdx index
          incoming := (sys.servers worker).incoming ++ [.getResponse requestId (sys.kvs.get? key)] })

theorem handle_cases {worker : WorkerId} {index : Nat} (taken : sys.handle step worker index = some next) :
    Handles sys worker index next := by
  simp only [handle] at taken
  split at taken
  · rename_i origin rank found
    split at taken <;> cases taken
    · exact .enter origin rank _ found (.inr rfl)
    · exact .enter origin rank sys.handlers found (.inl rfl)
  · rename_i origin rank key value found
    cases taken
    exact .put origin rank key value found
  · rename_i origin rank key requestId found
    cases taken
    exact .get origin rank requestId key found
  · cases taken

/-- What the steps leave that only move the controller's messages on. -/
structure Moves (sys next : PmiSystem) : Prop where
  conns : next.conns = sys.conns
  kvs : next.kvs = sys.kvs
  outgoing : ∀ worker, (next.servers worker).outgoing = (sys.servers worker).outgoing
  counter : ∀ worker, (next.servers worker).counter = (sys.servers worker).counter
  replies : ∀ worker requestId value, (next.servers worker).Replies requestId value →
    (sys.servers worker).Replies requestId value

section Moves

variable {worker : WorkerId} {index : Nat}

theorem moves_setServer {server : PmiServer} (outgoing : server.outgoing = (sys.servers worker).outgoing)
    (counter : server.counter = (sys.servers worker).counter)
    (replies : ∀ requestId value, server.Replies requestId value → (sys.servers worker).Replies requestId value) :
    Moves sys (sys.setServer worker server) where
  conns := rfl
  kvs := rfl
  outgoing other := by
    rw [servers_setServer]
    split
    · rename_i here
      exact here ▸ outgoing
    · rfl
  counter other := by
    rw [servers_setServer]
    split
    · rename_i here
      exact here ▸ counter
    · rfl
  replies other requestId value there := by
    rw [servers_setServer] at there
    split at there
    · rename_i here
      exact here ▸ replies requestId value there
    · exact there

theorem releaseAll_eq (step : PmiStep) (sys : PmiSystem) (worker : WorkerId) : ∃ releases : List PmiReply,
    (∀ reply ∈ releases, reply = .barrierRelease) ∧ sys.releaseAll step worker =
      { sys.servers worker with incoming := (sys.servers worker).incoming ++ releases } := by
  unfold releaseAll
  split
  · exact ⟨[.barrierRelease], fun _ member => List.mem_singleton.mp member, rfl⟩
  · exact ⟨[], nofun, by rw [List.append_nil]⟩

theorem moves_go (taken : sys.go step index = some next) : Moves sys next := by
  simp only [go] at taken
  split at taken
  · cases taken
    exact ⟨rfl, rfl, fun _ => rfl, fun _ => rfl, fun _ _ _ there => there⟩
  · cases taken
    exact ⟨rfl, rfl, fun _ => rfl, fun _ => rfl, fun _ _ _ there => there⟩
  · cases taken
    refine ⟨rfl, rfl, fun worker => ?_, fun worker => ?_, fun worker requestId value there => ?_⟩
    all_goals obtain ⟨releases, all, same⟩ := sys.releaseAll_eq step worker
    · change (sys.releaseAll step worker).outgoing = _
      rw [same]
    · change (sys.releaseAll step worker).counter = _
      rw [same]
    · change (sys.releaseAll step worker).Replies requestId value at there
      rw [same] at there
      refine there.imp_left fun member => ?_
      simp only [List.mem_append] at member ⊢
      rcases member with (before | now) | later
      · exact .inl before
      · cases all _ now
      · exact .inr later
  · cases taken

theorem moves_route (taken : sys.route worker index = some next) : Moves sys next := by
  obtain ⟨reply, found, rfl⟩ := Option.map_eq_some_iff.mp taken
  refine moves_setServer rfl rfl fun requestId value there => there.imp_left fun member => ?_
  have moved := perm_eraseIdx found
  simp only [List.mem_append, moved.mem_iff, List.mem_cons] at member ⊢
  tauto

theorem moves_forward (taken : sys.forward worker = some next) : Moves sys next := by
  simp only [forward] at taken
  split at taken
  · rename_i rest queued
    cases taken
    refine moves_setServer rfl rfl fun requestId value there => there.imp_left fun member => ?_
    rw [queued]
    simp only [List.mem_append, List.mem_cons] at member ⊢
    tauto
  · rename_i answered value rest queued
    cases taken
    refine moves_setServer rfl rfl fun requestId value there => ?_
    simp only [PmiServer.Replies, queued, List.mem_append, List.mem_cons, Prod.mk.injEq,
      PmiReply.getResponse.injEq, List.not_mem_nil, or_false] at there ⊢
    tauto
  · cases taken

end Moves

section Sent

variable {event : PmiEvent} {rank : Nat}

theorem sent_setConn {conn : PmiConn} (same : conn.sent = (sys.conns rank).sent) (other : Nat) :
    ((sys.setConn rank conn).conns other).sent = (sys.conns other).sent := by
  rw [conns_setConn]
  split
  · rename_i here
    exact here ▸ same
  · rfl

theorem sent_serve (taken : sys.serve step rank = some next) (other : Nat) :
    (next.conns other).sent = (sys.conns other).sent := by
  obtain ⟨req, rest, idle, queued, begins⟩ := serve_cases taken
  have answered (response : String) : ({ sys.conns rank with
      inbox := rest
      answered := (sys.conns rank).answered ++ [(req, response)] } : PmiConn).sent = (sys.conns rank).sent := by
    rw [PmiConn.sent, PmiConn.sent, PmiConn.begun_answer idle, queued, List.append_assoc, List.singleton_append]
  have waiting {wait : PmiWait} (same : wait.req = req) :
      ({ sys.conns rank with inbox := rest, waiting := some wait } : PmiConn).sent = (sys.conns rank).sent := by
    rw [PmiConn.sent, PmiConn.sent, PmiConn.begun_wait idle, queued, same, List.append_assoc, List.singleton_append]
  cases begins with
  | answer response _ => exact sent_setConn (answered response) other
  | barrier value response _ => exact sent_setConn (waiting rfl) other
  | put value key stored response _ => exact sent_setConn (answered response) other
  | get value key cmd _ => exact sent_setConn (waiting rfl) other

theorem begun_wakes (taken : sys.wake step rank = some next) (other : Nat) :
    (next.conns other).begun = (sys.conns other).begun ∧ (next.conns other).inbox = (sys.conns other).inbox := by
  have same (conn : PmiConn) (begun : conn.begun = (sys.conns rank).begun) (inbox : conn.inbox = (sys.conns rank).inbox) :
      ((sys.setConn rank conn).conns other).begun = (sys.conns other).begun ∧
        ((sys.setConn rank conn).conns other).inbox = (sys.conns other).inbox := by
    rw [conns_setConn]
    split
    · rename_i here
      exact here ▸ ⟨begun, inbox⟩
    · exact ⟨rfl, rfl⟩
  cases wake_cases taken with
  | barrier req response read readTo waits received => exact same _ (PmiConn.begun_wake waits) rfl
  | response req cmd requestId readTo value waits received => exact same _ (PmiConn.begun_wake waits) rfl
  | other req cmd requestId readTo read waits foreign received => exact same _ rfl rfl

theorem sent_wake (taken : sys.wake step rank = some next) (other : Nat) :
    (next.conns other).sent = (sys.conns other).sent := by
  rw [PmiConn.sent, PmiConn.sent, (begun_wakes taken other).1, (begun_wakes taken other).2]

theorem conns_handle {worker : WorkerId} {index : Nat} (taken : sys.handle step worker index = some next) :
    next.conns = sys.conns := by
  cases handle_cases taken <;> rfl

/-- What a connection was sent, it was sent by an event. -/
theorem sent_apply (taken : apply step event sys = some next) (rank : Nat) :
    (next.conns rank).sent = (sys.conns rank).sent ++ event.sends rank := by
  cases event with
  | send other req =>
    simp only [apply] at taken
    split at taken
    · cases taken
      rw [conns_setConn, PmiEvent.sends]
      by_cases same : rank = other
      · subst same
        simp [PmiConn.sent, PmiConn.begun]
      · rw [if_neg same, if_neg fun here => same here.symm, List.append_nil]
    · cases taken
  | serve other =>
    obtain ⟨_, taken⟩ := Option.ite_none_right_eq_some.mp taken
    exact (sent_serve taken rank).trans (List.append_nil _).symm
  | handle worker index => exact conns_handle taken ▸ (List.append_nil _).symm
  | go index => exact (moves_go taken).conns ▸ (List.append_nil _).symm
  | route worker index => exact (moves_route taken).conns ▸ (List.append_nil _).symm
  | forward worker => exact (moves_forward taken).conns ▸ (List.append_nil _).symm
  | wake other =>
    obtain ⟨_, taken⟩ := Option.ite_none_right_eq_some.mp taken
    exact (sent_wake taken rank).trans (List.append_nil _).symm

theorem sent_run {events : List PmiEvent} {final : PmiSystem} (run : runLabels (apply step) events sys = some final)
    (rank : Nat) : (final.conns rank).sent = (sys.conns rank).sent ++ events.flatMap (PmiEvent.sends rank) := by
  induction events generalizing sys with
  | nil =>
    cases run
    rw [List.flatMap_nil, List.append_nil]
  | cons event events ih =>
    rw [runLabels_cons] at run
    obtain ⟨next, taken, later⟩ := Option.bind_eq_some_iff.mp run
    rw [ih later, sent_apply taken, List.flatMap_cons, List.append_assoc]

theorem sent_grows (taken : apply step event sys = some next) (rank : Nat) :
    (sys.conns rank).sent <+: (next.conns rank).sent := by
  rw [sent_apply taken]
  exact List.prefix_append ..

end Sent

/-- What a connection that waits answers later. -/
def PlainWait : PmiWait → Prop
  | .barrier _ response => PlainResponse response
  | .get _ _ cmd => containsText cmd "get" = true

/-- No value with a semicolon is anywhere, and no response gives a value in PMI-1. -/
structure Plain (sys : PmiSystem) : Prop where
  kvs : ∀ key value, sys.kvs.get? key = some value → ';' ∉ value.toList
  puts : ∀ worker origin rank key value, (origin, .put rank key value) ∈ (sys.servers worker).outgoing → ';' ∉ value.toList
  replies : ∀ worker requestId value, (sys.servers worker).Replies requestId (some value) → ';' ∉ value.toList
  waits : ∀ rank wait, (sys.conns rank).waiting = some wait → PlainWait wait
  answered : ∀ rank, ∀ entry ∈ (sys.conns rank).answered, PlainResponse entry.2

namespace Plain

variable {rank : Nat} {worker : WorkerId}

theorem init : Plain {} where
  kvs _ _ found := by cases found
  puts := nofun
  replies _ _ _ there := there.elim nofun nofun
  waits := nofun
  answered := nofun

theorem setConn (plain : Plain sys) {conn : PmiConn} (waits : ∀ wait, conn.waiting = some wait → PlainWait wait)
    (answered : ∀ entry ∈ conn.answered, PlainResponse entry.2) : Plain (sys.setConn rank conn) :=
  { plain with
    waits := fun other => by
      rw [conns_setConn]
      split
      · exact waits
      · exact plain.waits other
    answered := fun other => by
      rw [conns_setConn]
      split
      · exact answered
      · exact plain.answered other }

theorem setServer (plain : Plain sys) {server : PmiServer}
    (puts : ∀ origin rank key value, (origin, .put rank key value) ∈ server.outgoing → ';' ∉ value.toList)
    (replies : ∀ requestId value, server.Replies requestId (some value) → ';' ∉ value.toList) :
    Plain (sys.setServer worker server) :=
  { plain with
    puts := fun other => by
      rw [servers_setServer]
      split
      · exact puts
      · exact plain.puts other
    replies := fun other => by
      rw [servers_setServer]
      split
      · exact replies
      · exact plain.replies other }

theorem moves (plain : Plain sys) (moves : Moves sys next) : Plain next where
  kvs := moves.kvs ▸ plain.kvs
  puts worker := moves.outgoing worker ▸ plain.puts worker
  replies worker requestId value there := plain.replies worker requestId value (moves.replies worker requestId _ there)
  waits := moves.conns ▸ plain.waits
  answered := moves.conns ▸ plain.answered

theorem tell (plain : Plain sys) {msg : PmiMessage} {counter : Nat}
    (told : ∀ rank key value, msg = .put rank key value → ';' ∉ value.toList) : Plain (sys.setServer worker
      { sys.servers worker with counter, outgoing := (sys.servers worker).outgoing ++ [(rank, msg)] }) := by
  refine plain.setServer (fun origin other key value member => ?_) (plain.replies worker)
  rcases List.mem_append.mp member with before | now
  · exact plain.puts worker origin other key value before
  · cases List.mem_singleton.mp now
    exact told other key value rfl

theorem answer (plain : Plain sys) {conn : PmiConn} {entry : String × String} (idle : conn.waiting = none)
    (same : conn.answered = (sys.conns rank).answered ++ [entry]) (response : PlainResponse entry.2) :
    Plain (sys.setConn rank conn) := by
  refine plain.setConn (fun wait waits => ?_) fun other member => ?_
  · cases idle.symm.trans waits
  · rw [same] at member
    rcases List.mem_append.mp member with before | now
    · exact plain.answered rank other before
    · exact List.mem_singleton.mp now ▸ response

theorem serve (plain : Plain sys) (taken : sys.serve step rank = some next) : Plain next := by
  obtain ⟨req, rest, idle, _, begins⟩ := serve_cases taken
  have acts := plainAction_processPmiRequest req
  have answered := plain.answered rank
  cases begins with
  | answer response action =>
    rw [action] at acts
    exact plain.answer idle rfl acts
  | barrier value response action =>
    rw [action] at acts
    have began : Plain (sys.setConn rank
        { sys.conns rank with inbox := rest, waiting := some (.barrier req response) }) := by
      refine plain.setConn (fun wait waits => ?_) answered
      cases waits
      exact acts
    exact began.tell fun _ _ _ same => by cases same
  | put value key stored response action =>
    rw [action] at acts
    have began : Plain (sys.setConn rank
        { sys.conns rank with inbox := rest, answered := (sys.conns rank).answered ++ [(req, response)] }) :=
      plain.answer idle rfl acts.1
    refine began.tell fun _ _ _ same => ?_
    cases same
    exact acts.2
  | get value key cmd action =>
    rw [action] at acts
    have began : Plain (sys.setConn rank
        { sys.conns rank with
          inbox := rest, waiting := some (.get req (sys.servers (step.place rank)).counter cmd) }) := by
      refine plain.setConn (fun wait waits => ?_) answered
      cases waits
      exact acts
    exact began.tell fun _ _ _ same => by cases same

theorem take (plain : Plain sys) (worker : WorkerId) (index : Nat) : Plain (taking sys worker index) :=
  plain.setServer (fun origin rank key value member => plain.puts worker origin rank key value (List.mem_of_mem_eraseIdx member))
    (plain.replies worker)

theorem handle {index : Nat} (plain : Plain sys) (taken : sys.handle step worker index = some next) : Plain next := by
  cases handle_cases taken with
  | enter origin rank handlers found tasks => exact { plain.take worker index with }
  | put origin rank key value found =>
    refine
      { plain.take worker index with
        kvs := fun other stored there => ?_ }
    rw [HashMap.get?_insert] at there
    split at there
    · cases there
      exact plain.puts worker origin rank key value (List.mem_of_getElem? found)
    · exact plain.kvs other stored there
  | get origin rank requestId key found =>
    refine plain.setServer (fun origin rank key value member => ?_) fun otherId value there => ?_
    · exact plain.puts worker origin rank key value (List.mem_of_mem_eraseIdx member)
    · rcases there with member | there
      · simp only [List.append_assoc, List.mem_append, List.mem_singleton, PmiReply.getResponse.injEq] at member
        rcases member with before | now | later
        · exact plain.replies worker otherId value (.inl (List.mem_append_left _ before))
        · exact plain.kvs key value now.2.symm
        · exact plain.replies worker otherId value (.inl (List.mem_append_right _ later))
      · exact plain.replies worker otherId value (.inr there)

theorem wake (plain : Plain sys) (taken : sys.wake step rank = some next) : Plain next := by
  cases wake_cases taken with
  | barrier req response read readTo waits received => exact plain.answer rfl rfl (plain.waits rank _ waits)
  | response req cmd requestId readTo value waits received =>
    refine plain.answer rfl rfl ?_
    obtain ⟨present, _⟩ := Broadcast.recv_some received
    rw [pmiGetResponse_eq (plain.waits rank _ waits)]
    refine plainResponse_get ?_
    cases value with
    | none => decide
    | some value => exact plain.replies _ requestId value (.inr (List.mem_of_getElem? present))
  | other req cmd requestId readTo read waits foreign received =>
    exact plain.setConn (fun wait here => plain.waits rank wait here) (plain.answered rank)

theorem apply {event : PmiEvent} (plain : Plain sys) (taken : PmiSystem.apply step event sys = some next) : Plain next := by
  cases event with
  | send rank req =>
    obtain ⟨_, same⟩ := Option.ite_none_right_eq_some.mp taken
    cases same
    exact plain.setConn (plain.waits rank) (plain.answered rank)
  | serve rank =>
    obtain ⟨_, taken⟩ := Option.ite_none_right_eq_some.mp taken
    exact plain.serve taken
  | handle worker index => exact plain.handle taken
  | go index => exact plain.moves (moves_go taken)
  | route worker index => exact plain.moves (moves_route taken)
  | forward worker => exact plain.moves (moves_forward taken)
  | wake rank =>
    obtain ⟨_, taken⟩ := Option.ite_none_right_eq_some.mp taken
    exact plain.wake taken

end Plain

theorem plain_run {events : List PmiEvent} {final : PmiSystem} (run : runLabels (apply step) events {} = some final) :
    Plain final := runLabels_invariant (fun plain taken => plain.apply taken) Plain.init run

end PmiSystem

end Veloce
