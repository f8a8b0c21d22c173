import Veloce.Worker.PmiController

/-! Runs of a step's ranks: barriers are safe, and when they complete. -/

namespace Veloce

open Collections

namespace PmiConn

/-- The ranks that the barrier requests of a connection name, in the order in which they were sent. -/
def barrierRanks (conn : PmiConn) : List Nat := conn.sent.filterMap barrierRank

theorem barrierRanks_eq (conn : PmiConn) : conn.barrierRanks = conn.entries ++ conn.inbox.filterMap barrierRank :=
  List.filterMap_append

theorem getElem?_barrierRanks {conn : PmiConn} {round : Nat} (begun : round < conn.entries.length) :
    conn.barrierRanks[round]? = conn.entries[round]? := by
  rw [barrierRanks_eq, List.getElem?_append_left begun]

end PmiConn

namespace PmiSystem

variable {step : PmiStep} {sys next : PmiSystem}

/-- No rank has the response to its n-th barrier request before every rank has sent its n-th one. -/
theorem barriers_safe {events : List PmiEvent} {final : PmiSystem} (run : runLabels (apply step) events {} = some final)
    (rank : Nat) {other : Nat} (member : other < step.ntasks) :
    (final.conns rank).passed ≤ (final.conns other).barrierRanks.length := by
  have safe : (final.conns rank).passed ≤ (final.conns other).entries.length := (sound_run run).valid.safe rank member
  rw [PmiConn.barrierRanks_eq, List.length_append]
  omega

/-- All messages are delivered and handled, and no connection can go on without a new request. -/
def Settled (step : PmiStep) (sys : PmiSystem) : Prop :=
  (∀ worker ∈ step.assignedWorkers, (sys.servers worker).outgoing = [] ∧ (sys.servers worker).incoming = [] ∧
    (sys.servers worker).channel = []) ∧
  sys.handlers = [] ∧
  ∀ rank < step.ntasks, (sys.serve step rank).isNone = true ∧ (sys.wake step rank).isNone = true

instance (step : PmiStep) (sys : PmiSystem) : Decidable (Settled step sys) := inferInstanceAs (Decidable (_ ∧ _ ∧ _))

/-- A connection that fell behind does not miss the response it waits for. -/
def Keeps (step : PmiStep) (sys : PmiSystem) : PmiEvent → Prop
  | .wake rank => ∀ requestId ∈ (sys.conns rank).waiting.bind PmiWait.awaited,
    ∀ entry ∈ ((sys.servers (step.place rank)).gets.take ((sys.servers (step.place rank)).gets.length - getCapacity)).drop
      (sys.conns rank).getNext, entry.1 ≠ requestId
  | _ => True

instance (step : PmiStep) (sys : PmiSystem) : (event : PmiEvent) → Decidable (Keeps step sys event)
  | .wake _ => inferInstanceAs (Decidable (∀ requestId ∈ _, ∀ entry ∈ _, _))
  | .send _ _ | .serve _ | .handle _ _ | .go _ | .route _ _ | .forward _ => isTrue trivial

/-- A response is owed to a connection: its request is on its way, or the response is on its way
back or in the part of the broadcast that the connection has not read. -/
def Owes (server : PmiServer) (rank requestId next : Nat) : Prop :=
  (∃ value key, (rank, .get value key requestId) ∈ server.outgoing) ∨
    (∃ value, .getResponse requestId value ∈ server.incoming ++ server.channel) ∨
    ∃ value, (requestId, value) ∈ server.gets.drop next

/-- Every get that was begun is answered or owed. -/
structure Asked (step : PmiStep) (sys : PmiSystem) : Prop where
  read : ∀ rank, (sys.conns rank).getNext ≤ (sys.servers (step.place rank)).gets.length
  owes : ∀ rank req requestId cmd, (sys.conns rank).waiting = some (.get req requestId cmd) →
    Owes (sys.servers (step.place rank)) rank requestId (sys.conns rank).getNext

theorem asked_init (step : PmiStep) : Asked step {} := ⟨fun _ => Nat.le_refl 0, nofun⟩

namespace Asked

variable {rank : Nat} {worker : WorkerId} {conn : PmiConn} {server : PmiServer}

theorem setConn (asked : Asked step sys) (read : conn.getNext ≤ (sys.servers (step.place rank)).gets.length)
    (owes : ∀ req requestId cmd, conn.waiting = some (.get req requestId cmd) →
      Owes (sys.servers (step.place rank)) rank requestId conn.getNext) : Asked step (sys.setConn rank conn) where
  read other := by
    rw [conns_setConn]
    split
    · rename_i same
      exact same ▸ read
    · exact asked.read other
  owes other := by
    rw [conns_setConn]
    split
    · rename_i same
      exact same ▸ owes
    · exact asked.owes other

theorem setServer (asked : Asked step sys) (more : (sys.servers worker).gets.length ≤ server.gets.length)
    (owes : ∀ rank requestId next, next ≤ (sys.servers worker).gets.length →
      Owes (sys.servers worker) rank requestId next → Owes server rank requestId next) :
    Asked step (sys.setServer worker server) where
  read other := by
    refine (asked.read other).trans ?_
    rw [servers_setServer]
    split
    · rename_i same
      exact same ▸ more
    · exact Nat.le_refl _
  owes other req requestId cmd waits := by
    have before := asked.owes other req requestId cmd waits
    rw [servers_setServer]
    split
    · rename_i same
      exact owes other requestId _ (same ▸ asked.read other) (same ▸ before)
    · exact before

theorem serve (asked : Asked step sys) (taken : sys.serve step rank = some next) : Asked step next := by
  obtain ⟨req, rest, idle, _, begins⟩ := serve_cases taken
  have read := asked.read rank
  have outgoing (msg : Nat × PmiMessage) (counter : Nat) {sys : PmiSystem} (asked : Asked step sys) :
      Asked step (sys.setServer (step.place rank)
        { sys.servers (step.place rank) with counter, outgoing := (sys.servers (step.place rank)).outgoing ++ [msg] }) :=
    asked.setServer (Nat.le_refl _) fun _ _ _ _ owes =>
      owes.imp_left fun ⟨value, key, member⟩ => ⟨value, key, List.mem_append_left _ member⟩
  have quiet {answered : List (String × String)} : Asked step (sys.setConn rank { sys.conns rank with inbox := rest, answered }) :=
    asked.setConn read fun _ _ _ waits => by cases idle.symm.trans waits
  cases begins with
  | answer response action => exact quiet
  | barrier value response action => exact outgoing (rank, .barrierEnter value) _ (asked.setConn read nofun)
  | put value key stored response action => exact outgoing (rank, .put value key stored) _ quiet
  | get value key cmd action =>
    have sent := outgoing (rank, .get value key (sys.servers (step.place rank)).counter)
      ((sys.servers (step.place rank)).counter + 1) asked
    refine sent.setConn ?_ fun _ _ _ waits => ?_
    · rw [servers_setServer_self]
      exact read
    · cases waits
      rw [servers_setServer_self]
      exact .inl ⟨value, key, List.mem_append_right _ (List.mem_singleton_self _)⟩

theorem handle {index : Nat} (asked : Asked step sys) (taken : sys.handle step worker index = some next) :
    Asked step next := by
  have took {msg : Nat × PmiMessage} (found : (sys.servers worker).outgoing[index]? = some msg) (replies : List PmiReply)
      (answered : ∀ rank value key requestId, msg = (rank, .get value key requestId) →
        ∃ stored, .getResponse requestId stored ∈ replies) :
      Asked step (sys.setServer worker
        { sys.servers worker with
          outgoing := (sys.servers worker).outgoing.eraseIdx index
          incoming := (sys.servers worker).incoming ++ replies }) := by
    refine asked.setServer (Nat.le_refl _) fun rank requestId next _ owes => ?_
    rcases owes with ⟨value, key, member⟩ | ⟨value, member⟩ | read
    · rcases List.mem_cons.mp ((perm_eraseIdx found).mem_iff.mp member) with same | left
      · obtain ⟨stored, reply⟩ := answered rank value key requestId same.symm
        exact .inr (.inl ⟨stored, List.mem_append_left _ (List.mem_append_right _ reply)⟩)
      · exact .inl ⟨value, key, left⟩
    · refine .inr (.inl ⟨value, ?_⟩)
      simp only [List.mem_append] at member ⊢
      exact member.imp_left .inl
    · exact .inr (.inr read)
  simp only [PmiSystem.handle] at taken
  split at taken
  · rename_i origin value found
    have drop := took found [] fun _ _ _ _ same => by cases same
    rw [List.append_nil] at drop
    split at taken <;> cases taken
    · exact ⟨drop.read, drop.owes⟩
    · exact drop
  · rename_i origin value key stored found
    have drop := took found [] fun _ _ _ _ same => by cases same
    rw [List.append_nil] at drop
    cases taken
    exact ⟨drop.read, drop.owes⟩
  · rename_i origin value key requestId found
    cases taken
    exact took found [_] fun _ _ _ _ same => by
      cases same
      exact ⟨_, List.mem_singleton_self _⟩
  · cases taken

theorem go {index : Nat} (asked : Asked step sys) (taken : sys.go step index = some next) : Asked step next := by
  simp only [PmiSystem.go] at taken
  split at taken
  · cases taken
    exact ⟨asked.read, asked.owes⟩
  · cases taken
    exact ⟨asked.read, asked.owes⟩
  · cases taken
    refine ⟨fun rank => ?_, fun rank req requestId cmd waits => ?_⟩
    · change _ ≤ (sys.releaseAll step _).gets.length
      unfold releaseAll
      split <;> exact asked.read rank
    · change Owes (sys.releaseAll step _) _ _ _
      have owes := asked.owes rank req requestId cmd waits
      unfold releaseAll
      split
      · refine owes.imp_right fun later => later.imp_left fun answered => ?_
        obtain ⟨value, member⟩ := answered
        refine ⟨value, ?_⟩
        simp only [List.mem_append] at member ⊢
        exact member.imp_left .inl
      · exact owes
  · cases taken

theorem route {index : Nat} (asked : Asked step sys) (taken : sys.route worker index = some next) : Asked step next := by
  obtain ⟨reply, found, rfl⟩ := Option.map_eq_some_iff.mp taken
  refine asked.setServer (Nat.le_refl _) fun rank requestId next _ owes => ?_
  refine owes.imp_right fun later => later.imp_left fun ⟨value, member⟩ => ⟨value, ?_⟩
  simp only [List.mem_append, List.mem_singleton] at member ⊢
  rcases member with incoming | channel
  · rcases List.mem_cons.mp ((perm_eraseIdx found).mem_iff.mp incoming) with same | left
    · exact .inr (.inr same)
    · exact .inl left
  · exact .inr (.inl channel)

theorem forward (asked : Asked step sys) (taken : sys.forward worker = some next) : Asked step next := by
  simp only [PmiSystem.forward] at taken
  split at taken
  · rename_i rest queued
    cases taken
    refine asked.setServer (Nat.le_refl _) fun rank requestId next _ owes => ?_
    refine owes.imp_right fun later => later.imp_left fun answered => ?_
    obtain ⟨value, member⟩ := answered
    refine ⟨value, ?_⟩
    rw [queued] at member
    simp only [List.mem_append, List.mem_cons, reduceCtorEq, false_or] at member ⊢
    exact member
  · rename_i answeredId answer rest queued
    cases taken
    refine asked.setServer ?_ fun rank requestId next inside owes => ?_
    · simp
    · have appended : ((sys.servers worker).gets ++ [(answeredId, answer)]).drop next =
          (sys.servers worker).gets.drop next ++ [(answeredId, answer)] := List.drop_append_of_le_length inside
      rcases owes with sent | ⟨value, member⟩ | ⟨value, read⟩
      · exact .inl sent
      · rw [queued] at member
        simp only [List.mem_append, List.mem_cons, PmiReply.getResponse.injEq] at member
        rcases member with incoming | ⟨rfl, rfl⟩ | channel
        · exact .inr (.inl ⟨value, List.mem_append_left _ incoming⟩)
        · refine .inr (.inr ⟨value, ?_⟩)
          rw [appended]
          exact List.mem_append_right _ (List.mem_singleton_self _)
        · exact .inr (.inl ⟨value, List.mem_append_right _ channel⟩)
      · refine .inr (.inr ⟨value, ?_⟩)
        rw [appended]
        exact List.mem_append_left _ read
  · cases taken

theorem wake (asked : Asked step sys) (keeps : Keeps step sys (.wake rank)) (taken : sys.wake step rank = some next) :
    Asked step next := by
  have read := asked.read rank
  cases wake_cases taken with
  | barrier req response received readTo waits received => exact asked.setConn read nofun
  | response req cmd requestId readTo value waits received =>
    obtain ⟨present, rfl⟩ := Broadcast.recv_some received
    exact asked.setConn (List.getElem?_eq_some_iff.mp present).1 nofun
  | other req cmd requestId readTo got waits foreign received =>
    have owes := asked.owes rank req requestId cmd waits
    have keeps := keeps requestId (by rw [waits]; rfl)
    cases got with
    | none =>
      have missed := Broadcast.recv_missed received
      have behind := missed.1
      rw [missed.2]
      have inside : (sys.servers (step.place rank)).gets.length - getCapacity ≤ (sys.servers (step.place rank)).gets.length :=
        Nat.sub_le _ _
      refine asked.setConn inside fun req' requestId' cmd' waits' => ?_
      cases waits.symm.trans waits'
      refine owes.imp_right fun later => later.imp_right fun ⟨value, member⟩ => ⟨value, ?_⟩
      have short : (sys.conns rank).getNext ≤ ((sys.servers (step.place rank)).gets.take
          ((sys.servers (step.place rank)).gets.length - getCapacity)).length := by
        rw [List.length_take]
        omega
      rw [← List.take_append_drop ((sys.servers (step.place rank)).gets.length - getCapacity)
        (sys.servers (step.place rank)).gets, List.drop_append_of_le_length short] at member
      exact (List.mem_append.mp member).resolve_left fun missed => keeps _ missed rfl
    | some entry =>
      obtain ⟨present, rfl⟩ := Broadcast.recv_some received
      refine asked.setConn (List.getElem?_eq_some_iff.mp present).1 fun req' requestId' cmd' waits' => ?_
      cases waits.symm.trans waits'
      refine owes.imp_right fun later => later.imp_right fun ⟨value, member⟩ => ⟨value, ?_⟩
      obtain ⟨bound, same⟩ := List.getElem?_eq_some_iff.mp present
      rw [List.drop_eq_getElem_cons bound, same] at member
      refine (List.mem_cons.mp member).resolve_left fun own => ?_
      exact foreign value (congrArg some own.symm)

theorem apply {event : PmiEvent} (asked : Asked step sys) (keeps : Keeps step sys event)
    (taken : PmiSystem.apply step event sys = some next) : Asked step next := by
  cases event with
  | send rank req =>
    obtain ⟨_, same⟩ := Option.ite_none_right_eq_some.mp taken
    cases same
    exact asked.setConn (asked.read rank) (asked.owes rank)
  | serve rank =>
    obtain ⟨_, taken⟩ := Option.ite_none_right_eq_some.mp taken
    exact asked.serve taken
  | handle worker index => exact asked.handle taken
  | go index => exact asked.go taken
  | route worker index => exact asked.route taken
  | forward worker => exact asked.forward taken
  | wake rank =>
    obtain ⟨_, taken⟩ := Option.ite_none_right_eq_some.mp taken
    exact asked.wake keeps taken

end Asked

theorem asked_run {events : List PmiEvent} {final : PmiSystem} (run : runLabels (apply step) events {} = some final)
    (keeps : AllowedRun (Keeps step) (apply step) events {}) : Asked step final := by
  have reached : Reach (· = {}) _ final := runLabels_reach (.start rfl) keeps run
  exact reached.invariant (Asked step) (fun _ same => by rw [same]; exact asked_init step)
    fun _ _ _ asked taken => asked.apply taken.1 taken.2

section Settled

/-- What is left when nothing can go on. -/
structure Quiet (step : PmiStep) (sys : PmiSystem) : Prop where
  outgoing : ∀ worker ∈ step.assignedWorkers, (sys.servers worker).outgoing = []
  incoming : ∀ worker ∈ step.assignedWorkers, (sys.servers worker).incoming = []
  channel : ∀ worker ∈ step.assignedWorkers, (sys.servers worker).channel = []
  handlers : sys.handlers = []
  idle : ∀ rank < step.ntasks, (sys.conns rank).waiting = none → (sys.conns rank).inbox = []
  barrier : ∀ rank < step.ntasks, ∀ req response, (sys.conns rank).waiting = some (.barrier req response) →
    (sys.servers (step.place rank)).barriers.length ≤ (sys.conns rank).barrierNext
  get : ∀ rank < step.ntasks, ∀ req requestId cmd, (sys.conns rank).waiting = some (.get req requestId cmd) →
    (sys.servers (step.place rank)).gets.length ≤ (sys.conns rank).getNext

theorem Settled.quiet (settled : Settled step sys) : Quiet step sys where
  outgoing worker assigned := (settled.1 worker assigned).1
  incoming worker assigned := (settled.1 worker assigned).2.1
  channel worker assigned := (settled.1 worker assigned).2.2
  handlers := settled.2.1
  idle rank small idle := by
    have stuck := (settled.2.2 rank small).1
    cases queued : (sys.conns rank).inbox with
    | nil => rfl
    | cons req rest => cases action : processPmiRequest req <;> simp [PmiSystem.serve, idle, queued, action] at stuck
  barrier rank small req response waits := by
    have stuck := (settled.2.2 rank small).2
    simp only [PmiSystem.wake, waits, Option.isNone_iff_eq_none, Option.map_eq_none_iff] at stuck
    exact Broadcast.le_of_recv_none stuck
  get rank small req requestId cmd waits := by
    have stuck := (settled.2.2 rank small).2
    simp only [PmiSystem.wake, waits, Option.isNone_iff_eq_none, Option.map_eq_none_iff] at stuck
    exact Broadcast.le_of_recv_none stuck

theorem Quiet.no_get (quiet : Quiet step sys) (asked : Asked step sys) {rank : Nat} (small : rank < step.ntasks)
    (req : String) (requestId : Nat) (cmd : String) : (sys.conns rank).waiting ≠ some (.get req requestId cmd) := by
  intro waits
  rcases asked.owes rank req requestId cmd waits with ⟨value, key, sent⟩ | ⟨value, back⟩ | ⟨value, unread⟩
  · rw [quiet.outgoing _ (step.placed rank small)] at sent
    exact List.not_mem_nil sent
  · rw [quiet.incoming _ (step.placed rank small), quiet.channel _ (step.placed rank small)] at back
    exact List.not_mem_nil back
  · rw [List.drop_eq_nil_of_le (quiet.get rank small req requestId cmd waits)] at unread
    exact List.not_mem_nil unread

/-- A rank with more barrier requests than there were rounds has entered the next round. -/
theorem Quiet.entered (quiet : Quiet step sys) (sound : Sound step sys) (asked : Asked step sys) {rank : Nat}
    (small : rank < step.ntasks) (more : sys.rounds < (sys.conns rank).barrierRanks.length) :
    sys.rounds < (sys.conns rank).entries.length := by
  cases waits : (sys.conns rank).waiting with
  | none =>
    rw [PmiConn.barrierRanks_eq, quiet.idle rank small waits] at more
    simpa using more
  | some wait =>
    cases wait with
    | barrier req response =>
      have read := quiet.barrier rank small req response waits
      have ok := sound.wired.conns rank
      have entered := PmiConn.length_entries_barrier ok waits
      have next := ok.next
      have delivered := sound.wired.delivered _ (step.placed rank small)
      rw [PmiServer.releases, quiet.channel _ (step.placed rank small), quiet.incoming _ (step.placed rank small),
        quiet.handlers] at delivered
      simp only [List.count_nil] at delivered
      omega
    | get req requestId cmd => exact absurd waits (quiet.no_get asked small req requestId cmd)

/-- In a round the ranks name different ranks. -/
def DistinctRanks (step : PmiStep) (sys : PmiSystem) (round : Nat) : Prop :=
  ∀ rank < step.ntasks, ∀ other < step.ntasks,
    (sys.conns rank).barrierRanks[round]? = (sys.conns other).barrierRanks[round]? → rank = other

instance (step : PmiStep) (sys : PmiSystem) (round : Nat) : Decidable (DistinctRanks step sys round) :=
  inferInstanceAs (Decidable (∀ rank < step.ntasks, ∀ other < step.ntasks, _ → _))

/-- When nothing is on its way any more, the rounds that all ranks have sent are released if and
only if the controller has a record of the step and the requests of each round name different ranks. -/
theorem barriers_complete_iff {events : List PmiEvent} {final : PmiSystem} {rounds : Nat}
    (run : runLabels (apply step) events {} = some final) (keeps : AllowedRun (Keeps step) (apply step) events {})
    (settled : Settled step final) (positive : 0 < rounds)
    (sent : ∀ rank < step.ntasks, rounds ≤ (final.conns rank).barrierRanks.length) :
    (∀ worker ∈ step.assignedWorkers, rounds ≤ final.released.count worker) ↔
      step.recorded = true ∧ ∀ round < rounds, DistinctRanks step final round := by
  have sound := sound_run run
  have asked := asked_run run keeps
  have quiet := settled.quiet
  have released {worker : WorkerId} (assigned : worker ∈ step.assignedWorkers) : final.released.count worker = final.rounds := by
    have told := sound.wired.sent worker assigned
    rw [quiet.handlers] at told
    exact told
  constructor
  · intro all
    have enough : rounds ≤ final.rounds := by
      have assigned := step.placed 0 step.tasks
      exact released assigned ▸ all _ assigned
    refine ⟨?_, fun round early rank small other small' same => ?_⟩
    · by_contra absent
      have none := (sound.wired.unrecorded (Bool.eq_false_iff.mpr absent)).2
      omega
    · have begun {party : Nat} (few : party < step.ntasks) : round < (final.conns party).entries.length := by
        have turn : final.rounds ≤ final.checkedIn.count party := (sound.valid.turn party few).1
        have taken : final.checkedIn.count party ≤ (final.conns party).entries.length := sound.valid.taken party
        omega
      rw [PmiConn.getElem?_barrierRanks (begun small), PmiConn.getElem?_barrierRanks (begun small')] at same
      refine sound.valid.apart round ?_ rank small other small' same
      change round < final.rounds + _
      omega
  · rintro ⟨recorded, distinct⟩ worker assigned
    rw [released assigned]
    by_contra few
    have full : final.cyclic.full = 0 := by
      change final.handlers.count .clear = 0
      rw [quiet.handlers]
      rfl
    have entered {rank : Nat} (small : rank < step.ntasks) : final.rounds < (final.conns rank).entries.length := by
      have all := sent rank small
      exact quiet.entered sound asked small (by omega)
    obtain ⟨rank, small, other, small', apart, same⟩ := sound.valid.blocked full fun rank small => by
      have kept := sound.wired.kept recorded rank small
      rw [outstanding, quiet.outgoing _ (step.placed rank small), quiet.handlers] at kept
      exact ⟨kept, entered small⟩
    refine apart (distinct final.rounds (by omega) rank small other small' ?_)
    rw [PmiConn.getElem?_barrierRanks (entered small), PmiConn.getElem?_barrierRanks (entered small')]
    exact same

end Settled

end PmiSystem

section Samples

def pairStep : PmiStep where
  ntasks := 2
  tasks := by decide
  small := by decide
  assignedWorkers := ["a", "b"]
  distinct := by decide
  place rank := if rank = 0 then "a" else "b"
  placed := by decide
  recorded := true

/-- Both ranks send a barrier request, and everything happens that can. -/
def pairBarrier (first second : String) : List PmiEvent :=
  [.send 0 first, .send 1 second, .serve 0, .serve 1, .handle "a" 0, .handle "b" 0, .go 0, .go 0]

/-- The set is full; it is cleared, and the ranks are released. -/
def pairReleased : List PmiEvent :=
  [.go 0, .go 0, .route "a" 0, .route "b" 0, .forward "a", .forward "b", .wake 0, .wake 1]

def pairFence : List PmiEvent := pairBarrier "cmd=kvs-fence;rank=0;" "cmd=kvs-fence;rank=1;" ++ pairReleased

namespace PmiSystem

theorem barriers_safe_pair : ∃ final, runLabels (apply pairStep) pairFence {} = some final ∧
    (final.conns 0).passed = 1 ∧ (final.conns 0).passed ≤ (final.conns 1).barrierRanks.length := by
  have facts : (runLabels (apply pairStep) pairFence {}).map (fun final => (final.conns 0).passed) = some 1 := by
    decide +kernel
  obtain ⟨final, run, passed⟩ := Option.map_eq_some_iff.mp facts
  exact ⟨final, run, passed, barriers_safe run 0 (by decide)⟩

theorem barriers_complete_iff_pair : ∃ final, runLabels (apply pairStep) pairFence {} = some final ∧
    ∀ worker ∈ pairStep.assignedWorkers, 1 ≤ final.released.count worker := by
  have facts : (runLabels (apply pairStep) pairFence {}).map (fun final => decide ((Settled pairStep final ∧
      ∀ rank < pairStep.ntasks, 1 ≤ (final.conns rank).barrierRanks.length) ∧ DistinctRanks pairStep final 0)) =
      some true := by decide +kernel
  obtain ⟨final, run, same⟩ := Option.map_eq_some_iff.mp facts
  obtain ⟨⟨settled, sent⟩, distinct⟩ := of_decide_eq_true same
  have keeps : AllowedRun (Keeps pairStep) (apply pairStep) pairFence {} := by decide +kernel
  refine ⟨final, run, (barriers_complete_iff run keeps settled (by decide) sent).mpr ⟨rfl, fun round early => ?_⟩⟩
  rw [Nat.lt_one_iff.mp early]
  exact distinct

/-- Two ranks with requests of PMI-1 count as one. -/
theorem barrier_without_ranks_hangs : ∃ final,
    runLabels (apply pairStep) (pairBarrier "cmd=barrier_in" "cmd=barrier_in") {} = some final ∧ Settled pairStep final ∧
      (∀ rank < pairStep.ntasks, 1 ≤ (final.conns rank).barrierRanks.length) ∧
      ∃ worker ∈ pairStep.assignedWorkers, ¬1 ≤ final.released.count worker := by
  have facts : (runLabels (apply pairStep) (pairBarrier "cmd=barrier_in" "cmd=barrier_in") {}).map (fun final =>
      decide (Settled pairStep final ∧ (∀ rank < pairStep.ntasks, 1 ≤ (final.conns rank).barrierRanks.length) ∧
        ∃ worker ∈ pairStep.assignedWorkers, ¬1 ≤ final.released.count worker)) = some true := by decide +kernel
  obtain ⟨final, run, same⟩ := Option.map_eq_some_iff.mp facts
  exact ⟨final, run, of_decide_eq_true same⟩

end PmiSystem

end Samples

end Veloce
