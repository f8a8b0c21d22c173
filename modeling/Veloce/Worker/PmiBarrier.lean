import Mathlib.Data.List.Perm.Basic
import Veloce.Collections.CyclicBarrier
import Veloce.Worker.PmiStep

/-! The barriers of a step: the connections, the messages and the controller's set together are
a cyclic barrier with the ranks as its parties. -/

namespace Veloce

open Collections

section Lists

variable {α : Type} {list : List α} {index : Nat} {item : α}

theorem perm_eraseIdx (found : list[index]? = some item) : list.Perm (item :: list.eraseIdx index) := by
  obtain ⟨bound, same⟩ := List.getElem?_eq_some_iff.mp found
  exact same ▸ (List.getElem_cons_eraseIdx_perm bound).symm

theorem perm_set (found : list[index]? = some item) (other : α) : (list.set index other).Perm (other :: list.eraseIdx index) :=
  List.set_perm_cons_eraseIdx (List.getElem?_eq_some_iff.mp found).1 other

end Lists

namespace PmiConn

/-- The ranks that the barrier requests of a connection name, begun ones only. -/
def entries (conn : PmiConn) : List Nat := conn.begun.filterMap barrierRank

def passed (conn : PmiConn) : Nat := conn.answered.countP fun entry => (barrierRank entry.1).isSome

/-- What a connection waits for was asked for, and it read one release for each barrier it passed. -/
structure Ok (conn : PmiConn) : Prop where
  barrier : ∀ req response, conn.waiting = some (.barrier req response) → (barrierRank req).isSome = true
  get : ∀ req requestId cmd, conn.waiting = some (.get req requestId cmd) → barrierRank req = none
  next : conn.barrierNext = conn.passed

variable {conn : PmiConn}

theorem length_entries (conn : PmiConn) : conn.entries.length =
    conn.passed + ((conn.waiting.map PmiWait.req).toList.filterMap barrierRank).length := by
  rw [entries, begun, List.filterMap_append, List.length_append, List.length_filterMap_eq_countP, List.countP_map]
  rfl

theorem length_entries_idle (idle : conn.waiting = none) : conn.entries.length = conn.passed := by
  rw [length_entries, idle]
  rfl

theorem length_entries_barrier (ok : conn.Ok) {req response : String} (waits : conn.waiting = some (.barrier req response)) :
    conn.entries.length = conn.passed + 1 := by
  obtain ⟨rank, named⟩ := Option.isSome_iff_exists.mp (ok.barrier req response waits)
  rw [length_entries, waits]
  simp [PmiWait.req, named]

end PmiConn

def isEnterOf (rank : Nat) (entry : Nat × PmiMessage) : Bool :=
  match entry with
  | (origin, .barrierEnter _) => origin = rank
  | _ => false

def isCheckInOf (rank : Nat) : EnterTask → Bool
  | .checkIn origin _ => origin = rank
  | _ => false

/-- The releases that a worker was sent, wherever they are. -/
def PmiServer.releases (server : PmiServer) : Nat :=
  server.barriers.length + server.channel.count .barrierRelease + server.incoming.count .barrierRelease

namespace PmiSystem

def outstanding (step : PmiStep) (sys : PmiSystem) (rank : Nat) : Nat :=
  (sys.servers (step.place rank)).outgoing.countP (isEnterOf rank) + sys.handlers.countP (isCheckInOf rank)

def cyclic (sys : PmiSystem) : CyclicBarrier Nat where
  entries := PmiConn.entries ∘ sys.conns
  passed := PmiConn.passed ∘ sys.conns
  checkedIn rank := sys.checkedIn.count rank
  names := sys.barrier
  full := sys.handlers.count .clear
  cleared := sys.handlers.count .release
  rounds := sys.rounds

/-- Where the entries and the releases of a step are. -/
structure Wired (step : PmiStep) (sys : PmiSystem) : Prop where
  conns : ∀ rank, (sys.conns rank).Ok
  home : ∀ worker, ∀ entry ∈ (sys.servers worker).outgoing, entry.1 < step.ntasks ∧ step.place entry.1 = worker
  tasks : ∀ origin rank, .checkIn origin rank ∈ sys.handlers → origin < step.ntasks
  owed : ∀ rank < step.ntasks, sys.checkedIn.count rank + sys.outstanding step rank ≤ (sys.conns rank).entries.length
  kept : step.recorded = true → ∀ rank < step.ntasks,
    sys.checkedIn.count rank + sys.outstanding step rank = (sys.conns rank).entries.length
  named : ∀ rank value, (rank, .barrierEnter value) ∈ (sys.servers (step.place rank)).outgoing ∨
    .checkIn rank value ∈ sys.handlers → (sys.conns rank).entries.getLast? = some value
  read : ∀ rank, (sys.conns rank).barrierNext ≤ (sys.servers (step.place rank)).barriers.length
  delivered : ∀ worker ∈ step.assignedWorkers,
    (sys.servers worker).releases + sys.handlers.count .release = sys.rounds
  sent : ∀ worker ∈ step.assignedWorkers, sys.released.count worker + sys.handlers.count .release = sys.rounds
  unrecorded : step.recorded = false → sys.handlers = [] ∧ sys.rounds = 0

variable {step : PmiStep} {sys next : PmiSystem}

theorem wired_init (step : PmiStep) : Wired step {} where
  conns _ := ⟨nofun, nofun, rfl⟩
  home := nofun
  tasks := nofun
  owed _ _ := Nat.le_refl 0
  kept _ _ _ := rfl
  named _ _ either := either.elim nofun nofun
  read _ := Nat.le_refl 0
  delivered _ _ := rfl
  sent _ _ := rfl
  unrecorded _ := ⟨rfl, rfl⟩

section Frames

theorem Wired.setConn (wired : Wired step sys) {rank : Nat} {conn : PmiConn}
    (entries : conn.entries = (sys.conns rank).entries) (ok : conn.Ok)
    (read : conn.barrierNext ≤ (sys.servers (step.place rank)).barriers.length) : Wired step (sys.setConn rank conn) := by
  have same (other : Nat) : ((sys.setConn rank conn).conns other).entries = (sys.conns other).entries := by
    rw [conns_setConn]
    split
    · rename_i here
      exact here ▸ entries
    · rfl
  refine
    { wired with
      conns := fun other => ?_
      owed := fun other small => (same other).symm ▸ wired.owed other small
      kept := fun recorded other small => (same other).symm ▸ wired.kept recorded other small
      named := fun other value either => (same other).symm ▸ wired.named other value either
      read := fun other => ?_ }
  · rw [conns_setConn]
    split
    · exact ok
    · exact wired.conns other
  · rw [conns_setConn]
    split
    · rename_i here
      exact here ▸ read
    · exact wired.read other

theorem Wired.setServer (wired : Wired step sys) {worker : WorkerId} {server : PmiServer}
    (home : ∀ entry ∈ server.outgoing, entry.1 < step.ntasks ∧ step.place entry.1 = worker)
    (counts : ∀ rank, server.outgoing.countP (isEnterOf rank) = (sys.servers worker).outgoing.countP (isEnterOf rank))
    (listed : ∀ rank value, (rank, .barrierEnter value) ∈ server.outgoing →
      (rank, .barrierEnter value) ∈ (sys.servers worker).outgoing)
    (more : (sys.servers worker).barriers.length ≤ server.barriers.length)
    (releases : server.releases = (sys.servers worker).releases) : Wired step (sys.setServer worker server) := by
  have outstanding (rank : Nat) : (sys.setServer worker server).outstanding step rank = sys.outstanding step rank := by
    unfold PmiSystem.outstanding
    rw [servers_setServer]
    split
    · rename_i here
      rw [counts, here]
      rfl
    · rfl
  refine
    { wired with
      home := fun other entry => ?_
      owed := fun rank small => outstanding rank ▸ wired.owed rank small
      kept := fun recorded rank small => outstanding rank ▸ wired.kept recorded rank small
      named := fun rank value either => wired.named rank value (either.imp_left fun member => ?_)
      read := fun rank => (wired.read rank).trans ?_
      delivered := fun other assigned => ?_ }
  · rw [servers_setServer]
    split
    · rename_i here
      exact here ▸ home entry
    · exact wired.home other entry
  · rw [servers_setServer] at member
    split at member
    · rename_i here
      exact here ▸ listed rank value member
    · exact member
  · rw [servers_setServer]
    split
    · rename_i here
      exact here ▸ more
    · exact Nat.le_refl _
  · rw [servers_setServer]
    split
    · rename_i here
      rw [releases]
      exact here ▸ wired.delivered other assigned
    · exact wired.delivered other assigned

theorem cyclic_setConn (sys : PmiSystem) {rank : Nat} {conn : PmiConn} (entries : conn.entries = (sys.conns rank).entries)
    (passed : conn.passed = (sys.conns rank).passed) : (sys.setConn rank conn).cyclic = sys.cyclic := by
  simp only [cyclic, setConn, Function.comp_update, entries, passed]
  congr
  · exact Function.update_eq_self (f := PmiConn.entries ∘ sys.conns) rank
  · exact Function.update_eq_self (f := PmiConn.passed ∘ sys.conns) rank

end Frames

structure Sound (step : PmiStep) (sys : PmiSystem) : Prop where
  wired : Wired step sys
  valid : sys.cyclic.Valid step.ntasks

theorem sound_init (step : PmiStep) : Sound step {} := ⟨wired_init step, CyclicBarrier.valid_init step.tasks⟩

namespace Sound

theorem of_same (sound : Sound step sys) (wired : Wired step next) (same : next.cyclic = sys.cyclic) : Sound step next :=
  ⟨wired, same ▸ sound.valid⟩

theorem of_step (sound : Sound step sys) (wired : Wired step next) {barrier : CyclicBarrier Nat}
    (taken : CyclicBarrier.Step step.ntasks sys.cyclic barrier) (same : next.cyclic = barrier) : Sound step next :=
  ⟨wired, same ▸ sound.valid.step step.tasks taken⟩

theorem send (sound : Sound step sys) (rank : Nat) (req : String) :
    Sound step (sys.setConn rank { sys.conns rank with inbox := (sys.conns rank).inbox ++ [req] }) := by
  have ok := sound.wired.conns rank
  exact sound.of_same (sound.wired.setConn rfl ⟨ok.barrier, ok.get, ok.next⟩ (sound.wired.read rank))
    (cyclic_setConn sys rfl rfl)

/-- A connection that waits for nothing has no entry on its way. -/
theorem outstanding_idle (sound : Sound step sys) {rank : Nat} (small : rank < step.ntasks)
    (idle : (sys.conns rank).waiting = none) : sys.outstanding step rank = 0 := by
  have entered := PmiConn.length_entries_idle idle
  have owed := sound.wired.owed rank small
  have told : (sys.conns rank).passed + _ ≤ sys.rounds := sound.valid.told rank
  have turn : sys.rounds ≤ sys.checkedIn.count rank := (sound.valid.turn rank small).1
  omega

end Sound

namespace PmiConn

variable {conn : PmiConn} {req response : String} {rest : List String}

theorem entries_answered (idle : conn.waiting = none) (none : barrierRank req = none) :
    ({ conn with inbox := rest, answered := conn.answered ++ [(req, response)] } : PmiConn).entries = conn.entries := by
  simp [PmiConn.entries, PmiConn.begun, idle, none]

theorem passed_answered (none : barrierRank req = none) :
    ({ conn with inbox := rest, answered := conn.answered ++ [(req, response)] } : PmiConn).passed = conn.passed := by
  simp [PmiConn.passed, none]

theorem ok_answered (ok : conn.Ok) (idle : conn.waiting = none) (none : barrierRank req = none) :
    ({ conn with inbox := rest, answered := conn.answered ++ [(req, response)] } : PmiConn).Ok := by
  refine ⟨fun _ _ waits => ?_, fun _ _ _ waits => ?_, ?_⟩
  · cases idle.symm.trans waits
  · cases idle.symm.trans waits
  · rw [passed_answered none]
    exact ok.next

end PmiConn

def entering (step : PmiStep) (sys : PmiSystem) (rank : Nat) (rest : List String) (req response : String) (value : Nat) :
    PmiSystem :=
  (sys.setConn rank { sys.conns rank with inbox := rest, waiting := some (.barrier req response) }).setServer
    (step.place rank)
    { sys.servers (step.place rank) with
      outgoing := (sys.servers (step.place rank)).outgoing ++ [(rank, .barrierEnter value)] }

section Enter

variable (rank : Nat) (rest : List String) (req response : String) (value : Nat)

theorem conns_entering (other : Nat) : (entering step sys rank rest req response value).conns other =
    if other = rank then { sys.conns rank with inbox := rest, waiting := some (.barrier req response) }
    else sys.conns other := Function.update_apply ..

theorem outgoing_entering (worker : WorkerId) : ((entering step sys rank rest req response value).servers worker).outgoing =
    (sys.servers worker).outgoing ++ if worker = step.place rank then [(rank, .barrierEnter value)] else [] := by
  rw [entering, servers_setServer]
  split
  · rename_i here
    rw [here]
  · simp [PmiSystem.setConn]

theorem outstanding_entering (party : Nat) : (entering step sys rank rest req response value).outstanding step party =
    sys.outstanding step party + if party = rank then 1 else 0 := by
  have handlers : (entering step sys rank rest req response value).handlers = sys.handlers := rfl
  rw [outstanding, outgoing_entering, handlers, List.countP_append, outstanding]
  by_cases same : party = rank
  · simp [same, isEnterOf]
    omega
  · have apart : rank ≠ party := fun other => same other.symm
    rw [if_neg same]
    split <;> simp [isEnterOf, apart]

theorem releases_entering (worker : WorkerId) :
    ((entering step sys rank rest req response value).servers worker).barriers = (sys.servers worker).barriers ∧
      ((entering step sys rank rest req response value).servers worker).releases = (sys.servers worker).releases := by
  rw [entering, servers_setServer]
  split
  · rename_i here
    exact here ▸ ⟨rfl, rfl⟩
  · exact ⟨rfl, rfl⟩

end Enter

namespace Sound

variable {rank : Nat} {req response : String} {rest : List String}

theorem answer (sound : Sound step sys) (idle : (sys.conns rank).waiting = none) (none : barrierRank req = none) :
    Sound step (sys.setConn rank
      { sys.conns rank with inbox := rest, answered := (sys.conns rank).answered ++ [(req, response)] }) := by
  have entries : ({ sys.conns rank with
      inbox := rest
      answered := (sys.conns rank).answered ++ [(req, response)] } : PmiConn).entries = (sys.conns rank).entries :=
    PmiConn.entries_answered idle none
  refine sound.of_same (sound.wired.setConn entries ?_ (sound.wired.read rank)) (cyclic_setConn sys entries ?_)
  · exact PmiConn.ok_answered (sound.wired.conns rank) idle none
  · exact PmiConn.passed_answered none

theorem tell (sound : Sound step sys) (small : rank < step.ntasks) {msg : PmiMessage}
    (other : ∀ party, isEnterOf party (rank, msg) = false) (counter : Nat) :
    Sound step (sys.setServer (step.place rank)
      { sys.servers (step.place rank) with
        counter
        outgoing := (sys.servers (step.place rank)).outgoing ++ [(rank, msg)] }) := by
  refine sound.of_same (sound.wired.setServer ?_ ?_ ?_ (Nat.le_refl _) rfl) rfl
  · intro entry member
    rcases List.mem_append.mp member with before | now
    · exact sound.wired.home _ entry before
    · rw [List.mem_singleton.mp now]
      exact ⟨small, rfl⟩
  · intro party
    simp [List.countP_append, other]
  · intro party value member
    rcases List.mem_append.mp member with before | now
    · exact before
    · cases List.mem_singleton.mp now
      simpa [isEnterOf] using other rank

theorem ask (sound : Sound step sys) (idle : (sys.conns rank).waiting = none) (none : barrierRank req = none)
    (requestId : Nat) (cmd : String) :
    Sound step (sys.setConn rank { sys.conns rank with inbox := rest, waiting := some (.get req requestId cmd) }) := by
  have ok := sound.wired.conns rank
  have entries : ({ sys.conns rank with inbox := rest, waiting := some (.get req requestId cmd) } : PmiConn).entries =
      (sys.conns rank).entries := by simp [PmiConn.entries, PmiConn.begun, idle, PmiWait.req, none]
  refine sound.of_same (sound.wired.setConn entries ⟨fun _ _ waits => ?_, fun _ _ _ waits => ?_, ok.next⟩
    (sound.wired.read rank)) (cyclic_setConn sys entries rfl)
  · cases waits
  · cases waits
    exact none

theorem enter (sound : Sound step sys) (small : rank < step.ntasks) (idle : (sys.conns rank).waiting = none) {value : Nat}
    (names : barrierRank req = some value) : Sound step (entering step sys rank rest req response value) := by
  have wired := sound.wired
  have ok := wired.conns rank
  have entries (other : Nat) : ((entering step sys rank rest req response value).conns other).entries =
      if other = rank then (sys.conns rank).entries ++ [value] else (sys.conns other).entries := by
    rw [conns_entering]
    split
    · simp [PmiConn.entries, PmiConn.begun, idle, PmiWait.req, names]
    · rfl
  have longer (other : Nat) : ((entering step sys rank rest req response value).conns other).entries.length =
      (sys.conns other).entries.length + if other = rank then 1 else 0 := by
    rw [entries]
    split
    · rename_i same
      simp [same]
    · rfl
  refine sound.of_step ?_ (.enter rank value small (PmiConn.length_entries_idle idle)) ?_
  · refine
      { wired with
        conns := fun other => ?_
        home := fun worker entry member => ?_
        owed := fun other few => ?_
        kept := fun recorded other few => ?_
        named := fun other named either => ?_
        read := fun other => ?_
        delivered := fun worker assigned => ?_ }
    · rw [conns_entering]
      split
      · refine ⟨fun _ _ waits => ?_, fun _ _ _ waits => ?_, ok.next⟩
        · cases waits
          exact Option.isSome_iff_exists.mpr ⟨value, names⟩
        · cases waits
      · exact wired.conns other
    · rw [outgoing_entering] at member
      rcases List.mem_append.mp member with before | now
      · exact wired.home worker entry before
      · split at now
        · rename_i here
          cases List.mem_singleton.mp now
          exact ⟨small, here.symm⟩
        · exact absurd now List.not_mem_nil
    · rw [longer, outstanding_entering, ← Nat.add_assoc]
      exact Nat.add_le_add_right (wired.owed other few) _
    · rw [longer, outstanding_entering, ← Nat.add_assoc]
      exact congrArg (· + _) (wired.kept recorded other few)
    · rw [entries]
      by_cases same : other = rank
      · subst same
        have none := sound.outstanding_idle small idle
        rw [outstanding, Nat.add_eq_zero_iff, List.countP_eq_zero, List.countP_eq_zero] at none
        rw [if_pos rfl, List.getLast?_concat]
        rcases either with sent | taken
        · rw [outgoing_entering, if_pos rfl] at sent
          rcases List.mem_append.mp sent with before | now
          · exact absurd (decide_eq_true rfl) (none.1 _ before)
          · cases List.mem_singleton.mp now
            rfl
        · exact absurd (decide_eq_true rfl) (none.2 _ taken)
      · rw [if_neg same]
        refine wired.named other named (either.imp_left fun sent => ?_)
        rw [outgoing_entering] at sent
        rcases List.mem_append.mp sent with before | now
        · exact before
        · split at now
          · cases List.mem_singleton.mp now
            exact absurd rfl same
          · exact absurd now List.not_mem_nil
    · rw [(releases_entering rank rest req response value _).1, conns_entering]
      split
      · rename_i same
        exact same ▸ wired.read rank
      · exact wired.read other
    · rw [(releases_entering rank rest req response value worker).2]
      exact wired.delivered worker assigned
  · refine CyclicBarrier.ext (funext fun other => ?_) (funext fun other => ?_) rfl rfl rfl rfl rfl
    · refine (entries other).trans ?_
      change _ = Function.update sys.cyclic.entries rank _ other
      rw [Function.update_apply]
      rfl
    · change ((entering step sys rank rest req response value).conns other).passed = (sys.conns other).passed
      rw [conns_entering]
      split
      · rename_i same
        exact same ▸ rfl
      · rfl

theorem serve (sound : Sound step sys) (small : rank < step.ntasks) (taken : sys.serve step rank = some next) :
    Sound step next := by
  obtain ⟨req, rest, idle, _, begins⟩ := serve_cases taken
  have free {action : PmiAction} (same : processPmiRequest req = action) (other : ∀ value response, action ≠ .barrier value response) :
      barrierRank req = none := by
    rw [barrierRank, same]
    cases action with
    | barrier value response => exact absurd rfl (other value response)
    | _ => rfl
  cases begins with
  | answer response action => exact sound.answer idle (free action nofun)
  | barrier value response action => exact sound.enter small idle (by rw [barrierRank, action])
  | put value key stored response action => exact (sound.answer idle (free action nofun)).tell small (fun _ => rfl) _
  | get value key cmd action => exact (sound.ask idle (free action nofun) _ cmd).tell small (fun _ => rfl) _

end Sound

end PmiSystem

end Veloce
