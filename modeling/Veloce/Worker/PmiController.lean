import Veloce.Worker.PmiBarrier

/-! The controller's side of the barriers of a step, and the way of the releases to the ranks. -/

namespace Veloce

open Collections

namespace PmiSystem

variable {step : PmiStep} {sys next : PmiSystem}

section Handle

variable {worker : WorkerId} {index origin value : Nat} {msg : PmiMessage}

theorem countP_outgoing (found : (sys.servers worker).outgoing[index]? = some (origin, msg)) (rank : Nat) :
    (sys.servers worker).outgoing.countP (isEnterOf rank) =
      ((sys.servers worker).outgoing.eraseIdx index).countP (isEnterOf rank) + if isEnterOf rank (origin, msg) then 1 else 0 := by
  rw [(perm_eraseIdx found).countP_eq, List.countP_cons]

/-- A message that is no entry is taken. -/
theorem Sound.take (sound : Sound step sys) (found : (sys.servers worker).outgoing[index]? = some (origin, msg))
    (other : ∀ rank, isEnterOf rank (origin, msg) = false) (replies : List PmiReply)
    (silent : replies.count .barrierRelease = 0) :
    Sound step (sys.setServer worker
      { sys.servers worker with
        outgoing := (sys.servers worker).outgoing.eraseIdx index
        incoming := (sys.servers worker).incoming ++ replies }) := by
  refine sound.of_same (sound.wired.setServer ?_ ?_ ?_ (Nat.le_refl _) ?_) rfl
  · exact fun entry member => sound.wired.home worker entry (List.mem_of_mem_eraseIdx member)
  · intro rank
    rw [countP_outgoing found, other]
    rfl
  · exact fun _ _ member => List.mem_of_mem_eraseIdx member
  · simp [PmiServer.releases, List.count_append, silent]

def taking (sys : PmiSystem) (worker : WorkerId) (index : Nat) : PmiSystem :=
  sys.setServer worker { sys.servers worker with outgoing := (sys.servers worker).outgoing.eraseIdx index }

theorem mem_taking {other : WorkerId} {entry : Nat × PmiMessage}
    (member : entry ∈ ((taking sys worker index).servers other).outgoing) : entry ∈ (sys.servers other).outgoing := by
  rw [taking, servers_setServer] at member
  split at member
  · rename_i here
    exact here ▸ List.mem_of_mem_eraseIdx member
  · exact member

theorem releases_taking (sys : PmiSystem) (worker other : WorkerId) (index : Nat) :
    ((taking sys worker index).servers other).barriers = (sys.servers other).barriers ∧
      ((taking sys worker index).servers other).releases = (sys.servers other).releases := by
  rw [taking, servers_setServer]
  split
  · rename_i here
    exact here ▸ ⟨rfl, rfl⟩
  · exact ⟨rfl, rfl⟩

theorem outstanding_taking (wired : Wired step sys)
    (found : (sys.servers worker).outgoing[index]? = some (origin, .barrierEnter value)) (rank : Nat) :
    (taking sys worker index).outstanding step rank + (if rank = origin then 1 else 0) = sys.outstanding step rank := by
  obtain ⟨_, here⟩ := wired.home worker _ (List.mem_of_getElem? found)
  have handlers : (taking sys worker index).handlers = sys.handlers := rfl
  have fewer := countP_outgoing found rank
  rw [outstanding, outstanding, handlers, taking, servers_setServer]
  by_cases same : rank = origin
  · subst same
    have owns : isEnterOf rank (rank, PmiMessage.barrierEnter value) = true := decide_eq_true rfl
    rw [owns] at fewer
    rw [if_pos here, if_pos rfl, here, fewer, if_pos rfl]
    simp only
    omega
  · have others : isEnterOf rank (origin, PmiMessage.barrierEnter value) = false := decide_eq_false fun other => same other.symm
    rw [others] at fewer
    rw [if_neg same, Nat.add_zero]
    split
    · rename_i at_
      rw [at_, fewer]
      rfl
    · rfl

/-- An entry reaches a controller that has a record of the step. -/
theorem Sound.lookup (sound : Sound step sys) (recorded : step.recorded = true)
    (found : (sys.servers worker).outgoing[index]? = some (origin, .barrierEnter value)) :
    Sound step { taking sys worker index with handlers := sys.handlers ++ [.checkIn origin value] } := by
  have wired := sound.wired
  obtain ⟨small, here⟩ := wired.home worker _ (List.mem_of_getElem? found)
  have outstanding (rank : Nat) : ({ taking sys worker index with
      handlers := sys.handlers ++ [.checkIn origin value] } : PmiSystem).outstanding step rank = sys.outstanding step rank := by
    rw [← outstanding_taking wired found rank]
    unfold PmiSystem.outstanding
    rw [List.countP_append]
    have owner : isCheckInOf rank (EnterTask.checkIn origin value) = decide (rank = origin) := decide_eq_decide.mpr eq_comm
    have handlers : (taking sys worker index).handlers = sys.handlers := rfl
    rw [List.countP_singleton, owner, handlers, Nat.add_assoc]
    simp only [decide_eq_true_eq]
  have counts (task : EnterTask) (other : task ≠ .checkIn origin value) :
      (sys.handlers ++ [EnterTask.checkIn origin value]).count task = sys.handlers.count task := by
    rw [List.count_append, List.count_singleton, if_neg (by simpa using fun same => other same.symm), Nat.add_zero]
  refine sound.of_same ?_ ?_
  · exact
      { conns := wired.conns
        home := fun other entry member => wired.home other entry (mem_taking member)
        tasks := fun party rank member => by
          rcases List.mem_append.mp member with before | now
          · exact wired.tasks party rank before
          · cases List.mem_singleton.mp now
            exact small
        owed := fun rank few => outstanding rank ▸ wired.owed rank few
        kept := fun _ rank few => outstanding rank ▸ wired.kept recorded rank few
        named := fun rank named either => by
          refine wired.named rank named ?_
          rcases either with sent | taken
          · exact .inl (mem_taking sent)
          · rcases List.mem_append.mp taken with before | now
            · exact .inr before
            · cases List.mem_singleton.mp now
              exact .inl (here ▸ List.mem_of_getElem? found)
        read := fun rank => (releases_taking sys worker _ index).1 ▸ wired.read rank
        delivered := fun other assigned => by
          change ((taking sys worker index).servers other).releases + (sys.handlers ++ [_]).count EnterTask.release = sys.rounds
          rw [(releases_taking sys worker other index).2, counts .release nofun]
          exact wired.delivered other assigned
        sent := fun other assigned => by
          change sys.released.count other + (sys.handlers ++ [_]).count EnterTask.release = sys.rounds
          rw [counts .release nofun]
          exact wired.sent other assigned
        unrecorded := fun absent => by
          rw [recorded] at absent
          cases absent }
  · exact CyclicBarrier.ext rfl rfl rfl rfl (counts .clear nofun) (counts .release nofun) rfl

/-- A controller without a record drops it. -/
theorem Sound.drop (sound : Sound step sys) (unrecorded : step.recorded = false)
    (found : (sys.servers worker).outgoing[index]? = some (origin, .barrierEnter value)) :
    Sound step (taking sys worker index) := by
  have wired := sound.wired
  have outstanding := outstanding_taking wired found
  refine sound.of_same ?_ rfl
  exact
    { conns := wired.conns
      home := fun other entry member => wired.home other entry (mem_taking member)
      tasks := wired.tasks
      owed := fun rank few => by
        have owed := wired.owed rank few
        rw [← outstanding rank] at owed
        change sys.checkedIn.count rank + _ ≤ _
        exact (Nat.add_le_add_left (Nat.le_add_right _ _) _).trans owed
      kept := fun recorded => by
        rw [unrecorded] at recorded
        cases recorded
      named := fun rank named either => wired.named rank named (either.imp_left mem_taking)
      read := fun rank => (releases_taking sys worker _ index).1 ▸ wired.read rank
      delivered := fun other assigned => (releases_taking sys worker other index).2 ▸ wired.delivered other assigned
      sent := wired.sent
      unrecorded := wired.unrecorded }

theorem Sound.handle (sound : Sound step sys) (taken : sys.handle step worker index = some next) : Sound step next := by
  simp only [PmiSystem.handle] at taken
  split at taken
  · rename_i origin value found
    cases taken
    cases recorded : step.recorded with
    | true => exact sound.lookup recorded found
    | false => exact sound.drop recorded found
  · rename_i origin value key stored found
    cases taken
    have took := sound.take found (fun _ => rfl) [] rfl
    rw [List.append_nil] at took
    exact ⟨{ took.wired with }, took.valid⟩
  · rename_i origin value key requestId found
    cases taken
    exact sound.take found (fun _ => rfl) [_] rfl
  · cases taken

end Handle

section Go

variable {index origin value : Nat}

/-- The entry that a handler checks in is the next one of its connection. -/
theorem Sound.next_entry (sound : Sound step sys) (found : sys.handlers[index]? = some (.checkIn origin value)) :
    origin < step.ntasks ∧ (sys.conns origin).entries[sys.checkedIn.count origin]? = some value := by
  have member := List.mem_of_getElem? found
  have small := sound.wired.tasks origin value member
  have owed := sound.wired.owed origin small
  have some : 0 < sys.handlers.countP (isCheckInOf origin) := List.countP_pos_iff.mpr ⟨_, member, decide_eq_true rfl⟩
  have waits : (sys.conns origin).entries.length ≤ (sys.conns origin).passed + 1 := (sound.valid.waits origin).2
  have told : (sys.conns origin).passed + _ ≤ sys.rounds := sound.valid.told origin
  have turn : sys.rounds ≤ sys.checkedIn.count origin := (sound.valid.turn origin small).1
  have last := sound.wired.named origin value (.inr member)
  rw [List.getLast?_eq_getElem?] at last
  rw [outstanding] at owed
  have here : (sys.conns origin).entries.length - 1 = sys.checkedIn.count origin := by omega
  exact ⟨small, here ▸ last⟩

theorem Sound.checkIn (sound : Sound step sys) (found : sys.handlers[index]? = some (.checkIn origin value))
    {handlers : List EnterTask}
    (handled : handlers = if asU32 (sys.barrier.insert value).len = step.ntasks then sys.handlers.set index .clear
      else sys.handlers.eraseIdx index) :
    Sound step { sys with barrier := sys.barrier.insert value, checkedIn := sys.checkedIn ++ [origin], handlers } := by
  have wired := sound.wired
  obtain ⟨small, entry⟩ := sound.next_entry found
  have fits : asU32 (sys.barrier.insert value).len = (sys.barrier.insert value).len :=
    Nat.mod_eq_of_lt (Nat.lt_of_le_of_lt (sound.valid.checkIn small entry).len_le step.small)
  have before := perm_eraseIdx found
  obtain ⟨signals, after, clears⟩ : ∃ signals : List EnterTask, handlers.Perm (signals ++ sys.handlers.eraseIdx index) ∧
      signals = if (sys.barrier.insert value).len = step.ntasks then [.clear] else [] := by
    rw [handled, fits]
    split
    · exact ⟨[.clear], perm_set found .clear, rfl⟩
    · exact ⟨[], .refl _, rfl⟩
  have kept {task : EnterTask} (other : task ∈ handlers) (notClear : task ≠ .clear) : task ∈ sys.handlers := by
    rcases List.mem_append.mp (after.mem_iff.mp other) with new | old
    · rw [clears] at new
      split at new
      · exact absurd (List.mem_singleton.mp new) notClear
      · exact absurd new List.not_mem_nil
    · exact List.mem_of_mem_eraseIdx old
  have releases : handlers.count .release = sys.handlers.count .release := by
    rw [after.count_eq, before.count_eq, List.count_append, clears]
    split <;> simp
  have counted (rank : Nat) : (sys.checkedIn ++ [origin]).count rank = sys.checkedIn.count rank + if rank = origin then 1 else 0 := by
    rw [List.count_append, List.count_singleton]
    by_cases same : rank = origin
    · simp [same]
    · simp [same, Ne.symm same]
  have outstanding (rank : Nat) : ({ sys with
      barrier := sys.barrier.insert value, checkedIn := sys.checkedIn ++ [origin], handlers } : PmiSystem).outstanding step rank +
      (if rank = origin then 1 else 0) = sys.outstanding step rank := by
    have owner : isCheckInOf rank (EnterTask.checkIn origin value) = decide (rank = origin) := decide_eq_decide.mpr eq_comm
    have silent : signals.countP (isCheckInOf rank) = 0 := by
      rw [clears]
      split <;> rfl
    rw [PmiSystem.outstanding, PmiSystem.outstanding, after.countP_eq, before.countP_eq, List.countP_append, List.countP_cons,
      owner, silent]
    simp only [decide_eq_true_eq]
    omega
  refine sound.of_step ?_ (.checkIn origin value small entry) ?_
  · exact
      { conns := wired.conns
        home := wired.home
        tasks := fun party rank member => wired.tasks party rank (kept member fun same => by cases same)
        owed := fun rank few => by
          have owed := wired.owed rank few
          rw [← outstanding rank] at owed
          change (sys.checkedIn ++ [origin]).count rank + _ ≤ (sys.conns rank).entries.length
          rw [counted]
          omega
        kept := fun recorded rank few => by
          have owed := wired.kept recorded rank few
          rw [← outstanding rank] at owed
          change (sys.checkedIn ++ [origin]).count rank + _ = (sys.conns rank).entries.length
          rw [counted]
          omega
        named := fun rank named either => wired.named rank named (either.imp_right fun member =>
          kept member fun same => by cases same)
        read := wired.read
        delivered := fun worker assigned => by
          rw [releases]
          exact wired.delivered worker assigned
        sent := fun worker assigned => by
          rw [releases]
          exact wired.sent worker assigned
        unrecorded := fun absent => by
          rw [(wired.unrecorded absent).1] at found
          cases found }
  · refine CyclicBarrier.ext rfl rfl (funext fun rank => ?_) rfl ?_ releases rfl
    · change (sys.checkedIn ++ [origin]).count rank = Function.update (fun rank => sys.checkedIn.count rank) origin _ rank
      rw [counted, Function.update_apply]
      split
      · rename_i same
        rw [same]
        rfl
      · rfl
    · change handlers.count .clear = if (sys.barrier.insert value).len = step.ntasks then sys.handlers.count .clear + 1
        else sys.handlers.count .clear
      rw [after.count_eq, before.count_eq, List.count_append, clears]
      split <;> simp [Nat.add_comm]

theorem Sound.clear (sound : Sound step sys) (found : sys.handlers[index]? = some .clear) :
    Sound step { sys with barrier := ∅, rounds := sys.rounds + 1, handlers := sys.handlers.set index .release } := by
  have wired := sound.wired
  have before := perm_eraseIdx found
  have after := perm_set found .release
  have counts (task : EnterTask) : (sys.handlers.set index .release).count task + (if task = .clear then 1 else 0) =
      sys.handlers.count task + if task = .release then 1 else 0 := by
    rw [after.count_eq, before.count_eq, List.count_cons, List.count_cons]
    cases task <;> simp
  have released : (sys.handlers.set index .release).count .release = sys.handlers.count .release + 1 := counts .release
  have kept {origin value : Nat} (member : .checkIn origin value ∈ sys.handlers.set index .release) :
      .checkIn origin value ∈ sys.handlers := by
    rcases List.mem_cons.mp (after.mem_iff.mp member) with same | old
    · cases same
    · exact List.mem_of_mem_eraseIdx old
  have outstanding (rank : Nat) : ({ sys with
      barrier := ∅, rounds := sys.rounds + 1, handlers := sys.handlers.set index .release } : PmiSystem).outstanding step rank =
      sys.outstanding step rank := by
    rw [PmiSystem.outstanding, PmiSystem.outstanding, after.countP_eq, before.countP_eq]
    rfl
  refine sound.of_step ?_ (.clear (List.count_pos_iff.mpr (List.mem_of_getElem? found))) ?_
  · exact
      { conns := wired.conns
        home := wired.home
        tasks := fun party rank member => wired.tasks party rank (kept member)
        owed := fun rank few => outstanding rank ▸ wired.owed rank few
        kept := fun recorded rank few => outstanding rank ▸ wired.kept recorded rank few
        named := fun rank named either => wired.named rank named (either.imp_right kept)
        read := wired.read
        delivered := fun worker assigned => by
          rw [released, ← Nat.add_assoc]
          exact congrArg (· + 1) (wired.delivered worker assigned)
        sent := fun worker assigned => by
          rw [released, ← Nat.add_assoc]
          exact congrArg (· + 1) (wired.sent worker assigned)
        unrecorded := fun absent => by
          rw [(wired.unrecorded absent).1] at found
          cases found }
  · refine CyclicBarrier.ext rfl rfl rfl rfl ?_ released rfl
    exact Nat.eq_sub_of_add_eq (counts .clear)

theorem Sound.release (sound : Sound step sys) (found : sys.handlers[index]? = some .release) :
    Sound step
      { sys with
        servers := sys.releaseAll step
        released := sys.released ++ step.assignedWorkers
        handlers := sys.handlers.eraseIdx index } := by
  have wired := sound.wired
  have before := perm_eraseIdx found
  have some : 0 < sys.handlers.count .release := List.count_pos_iff.mpr (List.mem_of_getElem? found)
  have counts (task : EnterTask) : (sys.handlers.eraseIdx index).count task =
      sys.handlers.count task - if task = .release then 1 else 0 := by
    rw [before.count_eq, List.count_cons]
    cases task <;> simp
  have server (worker : WorkerId) : (sys.releaseAll step worker).outgoing = (sys.servers worker).outgoing ∧
      (sys.releaseAll step worker).barriers = (sys.servers worker).barriers := by
    unfold releaseAll
    split
    · exact ⟨rfl, rfl⟩
    · exact ⟨rfl, rfl⟩
  have outstanding (rank : Nat) : ({ sys with
      servers := sys.releaseAll step, released := sys.released ++ step.assignedWorkers
      handlers := sys.handlers.eraseIdx index } : PmiSystem).outstanding step rank = sys.outstanding step rank := by
    rw [PmiSystem.outstanding, PmiSystem.outstanding, before.countP_eq, (server _).1]
    rfl
  refine sound.of_step ?_ (.release some) ?_
  · exact
      { conns := wired.conns
        home := fun worker entry member => wired.home worker entry ((server worker).1 ▸ member)
        tasks := fun party rank member => wired.tasks party rank (List.mem_of_mem_eraseIdx member)
        owed := fun rank few => outstanding rank ▸ wired.owed rank few
        kept := fun recorded rank few => outstanding rank ▸ wired.kept recorded rank few
        named := fun rank named either =>
          wired.named rank named (either.imp (fun member => (server _).1 ▸ member) List.mem_of_mem_eraseIdx)
        read := fun rank => (server _).2 ▸ wired.read rank
        delivered := fun worker assigned => by
          have delivered := wired.delivered worker assigned
          have one : (sys.releaseAll step worker).releases = (sys.servers worker).releases + 1 := by
            simp [releaseAll, assigned, PmiServer.releases]
            omega
          rw [counts, if_pos rfl]
          change (sys.releaseAll step worker).releases + _ = sys.rounds
          omega
        sent := fun worker assigned => by
          have sent := wired.sent worker assigned
          rw [counts, if_pos rfl, List.count_append, List.count_eq_one_of_mem step.distinct assigned]
          change _ = sys.rounds
          omega
        unrecorded := fun absent => by
          rw [(wired.unrecorded absent).1] at found
          cases found }
  · exact CyclicBarrier.ext rfl rfl rfl rfl (counts .clear) (counts .release) rfl

theorem Sound.go (sound : Sound step sys) (taken : sys.go step index = some next) : Sound step next := by
  simp only [PmiSystem.go] at taken
  split at taken
  · rename_i origin value found
    cases taken
    exact sound.checkIn found rfl
  · rename_i found
    cases taken
    exact sound.clear found
  · rename_i found
    cases taken
    exact sound.release found
  · cases taken

end Go

section Delivery

variable {worker : WorkerId} {index rank : Nat}

theorem Sound.route (sound : Sound step sys) (taken : sys.route worker index = some next) : Sound step next := by
  obtain ⟨reply, found, rfl⟩ := Option.map_eq_some_iff.mp taken
  refine sound.of_same (sound.wired.setServer (sound.wired.home worker) (fun _ => rfl) (fun _ _ => id) (Nat.le_refl _) ?_) rfl
  have counts := (perm_eraseIdx found).count_eq PmiReply.barrierRelease
  rw [List.count_cons] at counts
  simp only [PmiServer.releases, List.count_append, List.count_singleton, counts]
  omega

theorem Sound.forward (sound : Sound step sys) (taken : sys.forward worker = some next) : Sound step next := by
  simp only [PmiSystem.forward] at taken
  split at taken
  · rename_i rest queued
    cases taken
    refine sound.of_same (sound.wired.setServer (sound.wired.home worker) (fun _ => rfl) (fun _ _ => id) ?_ ?_) rfl
    · simp
    · simp only [PmiServer.releases, queued, List.length_append, List.length_singleton, List.count_cons_self]
      omega
  · rename_i requestId value rest queued
    cases taken
    refine sound.of_same (sound.wired.setServer (sound.wired.home worker) (fun _ => rfl) (fun _ _ => id) (Nat.le_refl _) ?_) rfl
    simp [PmiServer.releases, queued]
  · cases taken

/-- A connection that waits at the barrier is at most one release behind. -/
theorem Sound.near (sound : Sound step sys) (small : rank < step.ntasks) :
    (sys.servers (step.place rank)).barriers.length + sys.handlers.count .release ≤ sys.rounds ∧
      sys.rounds ≤ (sys.conns rank).barrierNext + 1 := by
  have delivered := sound.wired.delivered _ (step.placed rank small)
  have next := (sound.wired.conns rank).next
  have turn : sys.rounds ≤ sys.checkedIn.count rank := (sound.valid.turn rank small).1
  have taken : sys.checkedIn.count rank ≤ (sys.conns rank).entries.length := sound.valid.taken rank
  have waits : (sys.conns rank).entries.length ≤ (sys.conns rank).passed + 1 := (sound.valid.waits rank).2
  unfold PmiServer.releases at delivered
  omega

/-- A connection passes the barrier. -/
theorem Sound.pass (sound : Sound step sys) (small : rank < step.ntasks) {req response : String} {read : Option Unit}
    {readTo : Nat} (waits : (sys.conns rank).waiting = some (.barrier req response))
    (received : Broadcast.recv barrierCapacity (sys.servers (step.place rank)).barriers (sys.conns rank).barrierNext =
      some (read, readTo)) :
    Sound step (sys.setConn rank
      { sys.conns rank with
        waiting := none, barrierNext := readTo, answered := (sys.conns rank).answered ++ [(req, response)] }) := by
  have ok := sound.wired.conns rank
  have near := sound.near small
  have entered := PmiConn.length_entries_barrier ok waits
  have named := ok.barrier req response waits
  have backlog : (sys.servers (step.place rank)).barriers.length ≤ (sys.conns rank).barrierNext + barrierCapacity := by
    have capacity : barrierCapacity = 16 := rfl
    omega
  rw [Broadcast.recv_near backlog] at received
  obtain ⟨_, present, same⟩ := Option.map_eq_some_iff.mp received
  cases same
  have ahead := (List.getElem?_eq_some_iff.mp present).1
  have entries : ({ sys.conns rank with
      waiting := none, barrierNext := (sys.conns rank).barrierNext + 1
      answered := (sys.conns rank).answered ++ [(req, response)] } : PmiConn).entries = (sys.conns rank).entries := by
    simp [PmiConn.entries, PmiConn.begun, waits, PmiWait.req]
  have passed : ({ sys.conns rank with
      waiting := none, barrierNext := (sys.conns rank).barrierNext + 1
      answered := (sys.conns rank).answered ++ [(req, response)] } : PmiConn).passed = (sys.conns rank).passed + 1 := by
    simp [PmiConn.passed, named]
  have next := ok.next
  refine sound.of_step (sound.wired.setConn entries ⟨?_, ?_, ?_⟩ ahead) (.pass rank ?_ ?_) ?_
  · intro _ _ waits
    cases waits
  · intro _ _ _ waits
    cases waits
  · rw [passed, ← next]
  · exact Nat.lt_of_lt_of_eq (Nat.lt_succ_self _) entered.symm
  · change (sys.conns rank).passed + sys.handlers.count .release < sys.rounds
    omega
  · refine CyclicBarrier.ext (funext fun other => ?_) (funext fun other => ?_) rfl rfl rfl rfl rfl
    · change ((sys.setConn rank _).conns other).entries = (sys.conns other).entries
      rw [conns_setConn]
      split
      · rename_i same
        exact same ▸ entries
      · rfl
    · change ((sys.setConn rank _).conns other).passed =
        Function.update (PmiConn.passed ∘ sys.conns) rank ((sys.conns rank).passed + 1) other
      rw [conns_setConn, Function.update_apply]
      split
      · exact passed
      · rfl

theorem Sound.wake (sound : Sound step sys) (small : rank < step.ntasks) (taken : sys.wake step rank = some next) :
    Sound step next := by
  have ok := sound.wired.conns rank
  have read := sound.wired.read rank
  cases wake_cases taken with
  | barrier req response received readTo waits received => exact sound.pass small waits received
  | response req cmd requestId readTo value waits received =>
    have silent := ok.get req requestId cmd waits
    have entries : ({ sys.conns rank with
        waiting := none, getNext := readTo
        answered := (sys.conns rank).answered ++ [(req, pmiGetResponse cmd (value.getD "unknown"))] } : PmiConn).entries =
        (sys.conns rank).entries := by simp [PmiConn.entries, PmiConn.begun, waits, PmiWait.req]
    have passed : ({ sys.conns rank with
        waiting := none, getNext := readTo
        answered := (sys.conns rank).answered ++ [(req, pmiGetResponse cmd (value.getD "unknown"))] } : PmiConn).passed =
        (sys.conns rank).passed := by simp [PmiConn.passed, silent]
    refine sound.of_same (sound.wired.setConn entries ⟨?_, ?_, passed ▸ ok.next⟩ read) (cyclic_setConn sys entries passed)
    · intro _ _ waits
      cases waits
    · intro _ _ _ waits
      cases waits
  | other req cmd requestId readTo received waits foreign received =>
    exact sound.of_same (sound.wired.setConn rfl ⟨ok.barrier, ok.get, ok.next⟩ read) (cyclic_setConn sys rfl rfl)

end Delivery

theorem Sound.apply (sound : Sound step sys) {event : PmiEvent} (taken : PmiSystem.apply step event sys = some next) :
    Sound step next := by
  cases event with
  | send rank req =>
    obtain ⟨_, same⟩ := Option.ite_none_right_eq_some.mp taken
    cases same
    exact sound.send rank req
  | serve rank =>
    obtain ⟨small, taken⟩ := Option.ite_none_right_eq_some.mp taken
    exact sound.serve small taken
  | handle worker index => exact sound.handle taken
  | go index => exact sound.go taken
  | route worker index => exact sound.route taken
  | forward worker => exact sound.forward taken
  | wake rank =>
    obtain ⟨small, taken⟩ := Option.ite_none_right_eq_some.mp taken
    exact sound.wake small taken

theorem sound_run {events : List PmiEvent} {final : PmiSystem} (run : runLabels (apply step) events {} = some final) :
    Sound step final :=
  runLabels_invariant (fun sound taken => sound.apply taken) (sound_init step) run

end PmiSystem

end Veloce
