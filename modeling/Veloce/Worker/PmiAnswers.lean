import Veloce.Worker.PmiExchange

/-! What a get is answered: the value of the last put of its key. -/

namespace Veloce

open Collections

namespace PmiSystem

variable {step : PmiStep} {sys next : PmiSystem} {requests : Nat → List String}

/-- What the reader is answered: nothing but the value, once it comes to the get. -/
structure Answering (exchange : Exchange step requests) (server : PmiServer) (conn : PmiConn) : Prop where
  asked : ∀ origin rank key requestId, (origin, .get rank key requestId) ∈ server.outgoing → requestId < server.counter
  replied : ∀ requestId value, server.Replies requestId value → requestId < server.counter
  waits : ∀ req requestId cmd, conn.waiting = some (.get req requestId cmd) → requestId < server.counter ∧
    (conn.answered.length = exchange.getAt → cmd = exchange.cmd ∧
      (∀ origin rank key, (origin, .get rank key requestId) ∈ server.outgoing → key = exchange.key) ∧
      ∀ value, server.Replies requestId value → value = some exchange.value)
  answered : ∀ entry, conn.answered[exchange.getAt]? = some entry → entry.2 = pmiGetResponse exchange.cmd exchange.value

namespace Answering

variable {exchange : Exchange step requests} {server server' : PmiServer} {conn conn' : PmiConn}

theorem init (exchange : Exchange step requests) : Answering exchange {} {} where
  asked := nofun
  replied _ _ there := there.elim nofun nofun
  waits := nofun
  answered := nofun

theorem less (answering : Answering exchange server conn) (counter : server.counter = server'.counter)
    (asked : ∀ origin rank key requestId, (origin, .get rank key requestId) ∈ server'.outgoing →
      (origin, .get rank key requestId) ∈ server.outgoing)
    (replied : ∀ requestId value, server'.Replies requestId value → server.Replies requestId value) :
    Answering exchange server' conn where
  asked origin rank key requestId member := counter ▸ answering.asked origin rank key requestId (asked _ _ _ _ member)
  replied requestId value there := counter ▸ answering.replied requestId value (replied _ _ there)
  waits req requestId cmd waits := by
    obtain ⟨old, now⟩ := answering.waits req requestId cmd waits
    refine ⟨counter ▸ old, fun turn => ?_⟩
    obtain ⟨same, keys, values⟩ := now turn
    exact ⟨same, fun origin rank key member => keys origin rank key (asked _ _ _ _ member),
      fun value there => values value (replied _ _ there)⟩
  answered := answering.answered

theorem rest (answering : Answering exchange server conn)
    (silent : ∀ req requestId cmd, conn'.waiting ≠ some (.get req requestId cmd))
    (answered : ∀ entry, conn'.answered[exchange.getAt]? = some entry →
      conn.answered[exchange.getAt]? = some entry ∨ entry.2 = pmiGetResponse exchange.cmd exchange.value) :
    Answering exchange server conn' where
  asked := answering.asked
  replied := answering.replied
  waits req requestId cmd waits := absurd waits (silent req requestId cmd)
  answered entry found := (answered entry found).elim (answering.answered entry) id

theorem answer (answering : Answering exchange server conn) {entry : String × String} (idle : conn'.waiting = none)
    (same : conn'.answered = conn.answered ++ [entry])
    (response : conn.answered.length = exchange.getAt → entry.2 = pmiGetResponse exchange.cmd exchange.value) :
    Answering exchange server conn' := by
  refine answering.rest (fun _ _ _ waits => ?_) fun other found => ?_
  · cases idle.symm.trans waits
  · rw [same, List.getElem?_append] at found
    split at found
    · exact .inl found
    · obtain ⟨bound, here⟩ := List.getElem?_eq_some_iff.mp found
      have turn : conn.answered.length = exchange.getAt := by simp at bound; omega
      exact .inr (by rw [← here, List.getElem_singleton]; exact response turn)

theorem ask (answering : Answering exchange server conn) (origin rank : Nat) (key : String) : Answering exchange
    { server with
      counter := server.counter + 1
      outgoing := server.outgoing ++ [(origin, .get rank key server.counter)] } conn where
  asked other rank key requestId member := by
    rcases List.mem_append.mp member with before | now
    · exact Nat.lt_succ_of_lt (answering.asked other rank key requestId before)
    · cases List.mem_singleton.mp now
      exact Nat.lt_succ_self _
  replied requestId value there := Nat.lt_succ_of_lt (answering.replied requestId value there)
  waits req requestId cmd waits := by
    obtain ⟨old, now⟩ := answering.waits req requestId cmd waits
    refine ⟨Nat.lt_succ_of_lt old, fun turn => ?_⟩
    obtain ⟨same, keys, values⟩ := now turn
    refine ⟨same, fun other rank key member => ?_, values⟩
    rcases List.mem_append.mp member with before | now
    · exact keys other rank key before
    · cases List.mem_singleton.mp now
      exact absurd old (Nat.lt_irrefl _)
  answered := answering.answered

theorem begin_get (answering : Answering exchange server conn) (origin rank : Nat) {req key cmd : String} {inbox : List String}
    (turn : conn.answered.length = exchange.getAt → key = exchange.key ∧ cmd = exchange.cmd) : Answering exchange
    { server with
      counter := server.counter + 1
      outgoing := server.outgoing ++ [(origin, .get rank key server.counter)] }
    { conn with inbox, waiting := some (.get req server.counter cmd) } where
  asked := (answering.ask origin rank key).asked
  replied := (answering.ask origin rank key).replied
  waits req' requestId cmd' waits := by
    cases waits
    refine ⟨Nat.lt_succ_self _, fun here => ⟨(turn here).2, fun other rank' key' member => ?_, fun value there => ?_⟩⟩
    · rcases List.mem_append.mp member with before | now
      · exact absurd (answering.asked other rank' key' _ before) (Nat.lt_irrefl _)
      · cases List.mem_singleton.mp now
        exact (turn here).1
    · exact absurd (answering.replied _ value there) (Nat.lt_irrefl _)
  answered := answering.answered

theorem reply (answering : Answering exchange server conn) {index origin rank requestId : Nat} {key : String}
    {value : Option String} (found : server.outgoing[index]? = some (origin, .get rank key requestId))
    (stored : conn.answered.length = exchange.getAt → key = exchange.key → value = some exchange.value) :
    Answering exchange
      { server with
        outgoing := server.outgoing.eraseIdx index
        incoming := server.incoming ++ [.getResponse requestId value] } conn := by
  have replies {otherId : Nat} {other : Option String} (there : PmiServer.Replies
      { server with
        outgoing := server.outgoing.eraseIdx index
        incoming := server.incoming ++ [.getResponse requestId value] } otherId other) :
      server.Replies otherId other ∨ otherId = requestId ∧ other = value := by
    simp only [PmiServer.Replies, List.append_assoc, List.mem_append, List.mem_singleton, PmiReply.getResponse.injEq] at there ⊢
    tauto
  have queued := List.mem_of_getElem? found
  refine ⟨fun other rank key otherId member => ?_, fun otherId other there => ?_, fun req otherId cmd waits => ?_,
    answering.answered⟩
  · exact answering.asked other rank key otherId (List.mem_of_mem_eraseIdx member)
  · rcases replies there with before | ⟨rfl, rfl⟩
    · exact answering.replied otherId other before
    · exact answering.asked origin rank key otherId queued
  · obtain ⟨old, now⟩ := answering.waits req otherId cmd waits
    refine ⟨old, fun turn => ?_⟩
    obtain ⟨same, keys, values⟩ := now turn
    refine ⟨same, fun other rank key member => keys other rank key (List.mem_of_mem_eraseIdx member), fun other there => ?_⟩
    rcases replies there with before | ⟨rfl, rfl⟩
    · exact values other before
    · exact stored turn (keys origin rank key queued)

end Answering

section Answers

variable {exchange : Exchange step requests}

/-- The request that the reader comes to is the get. -/
theorem turn_get (exchange : Exchange step requests) {answered rest : List String} {req : String}
    (sent : answered ++ req :: rest <+: requests exchange.reader) (turn : answered.length = exchange.getAt) :
    ∃ rank, processPmiRequest req = .get rank exchange.key exchange.cmd := by
  obtain ⟨get, rank, found, action⟩ := exchange.gets
  obtain ⟨later, whole⟩ := sent
  rw [← whole, ← turn, List.append_assoc, List.getElem?_append_right (Nat.le_refl _), Nat.sub_self] at found
  cases found
  exact ⟨rank, action⟩

def Answers (exchange : Exchange step requests) (sys : PmiSystem) : Prop :=
  Answering exchange (sys.servers (step.place exchange.reader)) (sys.conns exchange.reader)

namespace Answers

variable {rank : Nat} {worker : WorkerId}

theorem setConn {conn : PmiConn} (answers : Answers exchange sys)
    (own : rank = exchange.reader → Answering exchange (sys.servers (step.place exchange.reader)) conn) :
    Answers exchange (sys.setConn rank conn) := by
  rw [Answers, conns_setConn]
  split
  · rename_i same
    exact own same.symm
  · exact answers

theorem setServer {server : PmiServer} (answers : Answers exchange sys)
    (own : worker = step.place exchange.reader → Answering exchange server (sys.conns exchange.reader)) :
    Answers exchange (sys.setServer worker server) := by
  rw [Answers, servers_setServer]
  split
  · rename_i same
    exact own same.symm
  · exact answers

theorem moves (answers : Answers exchange sys) (moves : Moves sys next) : Answers exchange next := by
  rw [Answers, moves.conns]
  exact Answering.less answers (moves.counter _).symm (fun _ _ _ _ member => moves.outgoing _ ▸ member) (moves.replies _)

theorem tell (answers : Answers exchange sys) {msg : PmiMessage} {counter : Nat}
    (kept : counter = (sys.servers worker).counter) (other : ∀ rank key requestId, msg ≠ .get rank key requestId) :
    Answers exchange (sys.setServer worker
      { sys.servers worker with counter, outgoing := (sys.servers worker).outgoing ++ [(rank, msg)] }) := by
  refine answers.setServer fun same => ?_
  subst same
  refine Answering.less answers kept.symm (fun origin other' key requestId member => ?_) fun _ _ there => there
  rcases List.mem_append.mp member with before | now
  · exact before
  · exact absurd (Prod.mk.inj (List.mem_singleton.mp now)).2.symm (other _ _ _)

theorem serve (answers : Answers exchange sys) (within : Within step sys requests)
    (taken : sys.serve step rank = some next) : Answers exchange next := by
  obtain ⟨req, rest, idle, queued, begins⟩ := serve_cases taken
  have turn (own : rank = exchange.reader) (here : (sys.conns exchange.reader).answered.length = exchange.getAt) :
      ∃ other, processPmiRequest req = .get other exchange.key exchange.cmd := by
    subst own
    have sent := within exchange.reader exchange.reads
    rw [PmiConn.sent, PmiConn.begun, idle, queued, Option.map_none, Option.toList_none, List.append_nil] at sent
    exact turn_get exchange sent (by rw [List.length_map, here])
  cases begins with
  | answer response action =>
    refine answers.setConn fun own => Answering.answer answers idle (by rw [own]) fun here => ?_
    obtain ⟨_, gets⟩ := turn own here
    cases action.symm.trans gets
  | barrier value response action =>
    have began : Answers exchange (sys.setConn rank
        { sys.conns rank with inbox := rest, waiting := some (.barrier req response) }) :=
      answers.setConn fun own => Answering.rest answers (fun _ _ _ waits => by cases waits) fun _ found => .inl (own ▸ found)
    exact began.tell rfl fun _ _ _ same => by cases same
  | put value key stored response action =>
    have began : Answers exchange (sys.setConn rank
        { sys.conns rank with inbox := rest, answered := (sys.conns rank).answered ++ [(req, response)] }) := by
      refine answers.setConn fun own => Answering.answer answers idle (by rw [own]) fun here => ?_
      obtain ⟨_, gets⟩ := turn own here
      cases action.symm.trans gets
    exact began.tell rfl fun _ _ _ same => by cases same
  | get value key cmd action =>
    by_cases own : rank = exchange.reader
    · subst own
      rw [Answers, servers_setServer_self]
      change Answering exchange _ ((sys.setConn exchange.reader _).conns exchange.reader)
      rw [conns_setConn_self]
      refine Answering.begin_get answers _ value fun here => ?_
      obtain ⟨_, gets⟩ := turn rfl here
      cases action.symm.trans gets
      exact ⟨rfl, rfl⟩
    · have asked : Answers exchange (sys.setServer (step.place rank)
          { sys.servers (step.place rank) with
            counter := (sys.servers (step.place rank)).counter + 1
            outgoing := (sys.servers (step.place rank)).outgoing ++
              [(rank, .get value key (sys.servers (step.place rank)).counter)] }) := by
        refine answers.setServer fun same => ?_
        rw [same]
        exact Answering.ask answers rank value key
      exact asked.setConn fun same => absurd same own

theorem handle (answers : Answers exchange sys) (carried : Carried exchange sys) (within : Within step sys requests)
    (sound : Sound step sys) {index : Nat} (taken : sys.handle step worker index = some next) : Answers exchange next := by
  have took : Answers exchange (taking sys worker index) := answers.setServer fun same => by
    subst same
    exact Answering.less answers rfl (fun _ _ _ _ member => List.mem_of_mem_eraseIdx member) fun _ _ there => there
  cases handle_cases taken with
  | enter origin rank handlers found tasks => exact took
  | put origin rank key value found => exact took
  | get origin rank requestId key found =>
    refine answers.setServer fun same => ?_
    subst same
    exact Answering.reply answers found fun turn same => same ▸ carried.stored within sound turn

theorem wake (answers : Answers exchange sys) (within : Within step sys requests) (sound : Sound step sys)
    (taken : sys.wake step rank = some next) : Answers exchange next := by
  cases wake_cases taken with
  | barrier req response read readTo waits received =>
    refine answers.setConn fun own => Answering.answer answers rfl (by rw [own]) fun here => ?_
    subst own
    have sent := within exchange.reader exchange.reads
    rw [PmiConn.sent, PmiConn.begun, waits, Option.map_some, Option.toList_some, List.append_assoc, List.singleton_append]
      at sent
    obtain ⟨_, action⟩ := turn_get exchange sent (by rw [List.length_map, here])
    have enters := (sound.wired.conns exchange.reader).barrier req response waits
    simp [barrierRank, show processPmiRequest req = _ from action] at enters
  | response req cmd requestId readTo value waits received =>
    refine answers.setConn fun own => Answering.answer answers rfl (by rw [own]) fun here => ?_
    subst own
    obtain ⟨present, _⟩ := Broadcast.recv_some received
    obtain ⟨_, now⟩ := Answering.waits answers req requestId cmd waits
    obtain ⟨same, _, values⟩ := now here
    rw [same, values value (.inr (List.mem_of_getElem? present))]
    rfl
  | other req cmd requestId readTo read waits foreign received =>
    exact answers.setConn fun own => ⟨answers.asked, answers.replied, own ▸ answers.waits, own ▸ answers.answered⟩

end Answers

end Answers

/-- The messages of a worker are handled in order: its link is one stream, and the controller takes
one message after the other from it. -/
def InOrder : PmiEvent → Prop
  | .handle _ index => index = 0
  | _ => True

instance : DecidablePred InOrder
  | .handle _ _ => inferInstanceAs (Decidable (_ = _))
  | .send _ _ | .serve _ | .go _ | .route _ _ | .forward _ | .wake _ => isTrue trivial

section Runs

variable {exchange : Exchange step requests}

structure Exchanged (exchange : Exchange step requests) (sys : PmiSystem) : Prop where
  carried : Carried exchange sys
  answers : Answers exchange sys

theorem Exchanged.apply {event : PmiEvent} (exchanged : Exchanged exchange sys) (within : Within step sys requests)
    (sound : Sound step sys) (inOrder : InOrder event) (taken : PmiSystem.apply step event sys = some next) :
    Exchanged exchange next := by
  obtain ⟨carried, answers⟩ := exchanged
  cases event with
  | send rank req =>
    obtain ⟨_, same⟩ := Option.ite_none_right_eq_some.mp taken
    cases same
    refine ⟨carried.send, answers.setConn fun own => ?_⟩
    subst own
    exact ⟨answers.asked, answers.replied, answers.waits, answers.answered⟩
  | serve rank =>
    obtain ⟨_, taken⟩ := Option.ite_none_right_eq_some.mp taken
    exact ⟨carried.serve taken, answers.serve within taken⟩
  | handle worker index =>
    cases inOrder
    exact ⟨carried.handle within sound taken, answers.handle carried within sound taken⟩
  | go index => exact ⟨carried.moves (moves_go taken) (entered_go taken), answers.moves (moves_go taken)⟩
  | route worker index =>
    have entered : ∀ rank, next.entered rank = sys.entered rank := by
      obtain ⟨_, _, rfl⟩ := Option.map_eq_some_iff.mp taken
      exact fun _ => rfl
    exact ⟨carried.moves (moves_route taken) entered, answers.moves (moves_route taken)⟩
  | forward worker =>
    have entered : ∀ rank, next.entered rank = sys.entered rank := by
      simp only [PmiSystem.apply, forward] at taken
      split at taken <;> cases taken <;> exact fun _ => rfl
    exact ⟨carried.moves (moves_forward taken) entered, answers.moves (moves_forward taken)⟩
  | wake rank =>
    obtain ⟨_, taken⟩ := Option.ite_none_right_eq_some.mp taken
    exact ⟨carried.wake taken, answers.wake within sound taken⟩

/-- The response to the get is its value. -/
theorem exchange_run {events : List PmiEvent} {final : PmiSystem} (run : runLabels (apply step) events {} = some final)
    (inOrder : ∀ event ∈ events, InOrder event) (within : Within step final requests) (exchange : Exchange step requests)
    {entry : String × String} (answered : (final.conns exchange.reader).answered[exchange.getAt]? = some entry) :
    entry.2 = pmiGetResponse exchange.cmd exchange.value := by
  have kept := @runLabels_invariant_of_good _ _ (apply step) events
    (fun sys => Sound step sys ∧ (Within step sys requests → Exchanged exchange sys)) InOrder
    (fun {sys event next} valid good taken => by
      refine ⟨valid.1.apply taken, fun within => ?_⟩
      have before : Within step sys requests := fun rank small => (sent_grows taken rank).trans (within rank small)
      exact (valid.2 before).apply before valid.1 good taken)
    {} final inOrder ⟨sound_init step, fun _ => ⟨Carried.init exchange, Answering.init exchange⟩⟩ run
  exact Answering.answered (kept.2 within).answers entry answered

end Runs

end PmiSystem

end Veloce
