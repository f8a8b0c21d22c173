import Veloce.Worker.PmiStore

/-! A get after the last put of its key. -/

namespace Veloce

open Collections

/-- Where the first item comes from that is kept. -/
theorem filterMap_drop_cons {α β : Type} {keep : α → Option β} {list : List α} {first : Nat} {item : β} {rest : List β}
    (kept : (list.drop first).filterMap keep = item :: rest) : ∃ at_ source, first ≤ at_ ∧ list[at_]? = some source ∧
      keep source = some item ∧ (list.drop (at_ + 1)).filterMap keep = rest ∧
      ∀ other, first ≤ other → other < at_ → (list[other]?).bind keep = none := by
  induction list generalizing first with
  | nil =>
    rw [List.drop_nil] at kept
    cases kept
  | cons head tail ih =>
    cases first with
    | succ first =>
      obtain ⟨at_, source, above, found, keeps, later, none⟩ := ih kept
      refine ⟨at_ + 1, source, Nat.succ_le_succ above, found, keeps, later, fun other low high => ?_⟩
      obtain ⟨other, rfl⟩ := Nat.exists_eq_succ_of_ne_zero (Nat.ne_of_gt (Nat.lt_of_lt_of_le (Nat.succ_pos _) low))
      exact none other (Nat.le_of_succ_le_succ low) (Nat.lt_of_succ_lt_succ high)
    | zero =>
      rw [List.drop_zero, List.filterMap_cons] at kept
      split at kept
      · rename_i dropped
        obtain ⟨at_, source, above, found, keeps, later, none⟩ := ih (show (tail.drop 0).filterMap keep = _ from kept)
        refine ⟨at_ + 1, source, Nat.zero_le _, found, keeps, later, fun other low high => ?_⟩
        cases other with
        | zero => exact dropped
        | succ other => exact none other (Nat.zero_le _) (Nat.lt_of_succ_lt_succ high)
      · rename_i here
        cases kept
        exact ⟨0, head, Nat.le_refl 0, rfl, here, rfl, fun other _ high => absurd high (Nat.not_lt_zero other)⟩

def isBarrier (req : String) : Bool := (barrierRank req).isSome

def barriersBefore (requests : Nat → List String) (rank index : Nat) : Nat :=
  ((requests rank).take index).countP isBarrier

/-- The request at a position is over before the one at the other begins: they are of one rank, or
a barrier is between them. -/
def Before (requests : Nat → List String) (position other : Nat × Nat) : Prop :=
  position.1 = other.1 ∧ position.2 < other.2 ∨
    barriersBefore requests position.1 position.2 < barriersBefore requests other.1 other.2

/-- A get after a put and the barrier that follows it; any other put of the key is over before the
put or begins after the get. -/
structure Exchange (step : PmiStep) (requests : Nat → List String) where
  writer : Nat
  putAt : Nat
  reader : Nat
  getAt : Nat
  key : String
  value : String
  cmd : String
  writes : writer < step.ntasks
  reads : reader < step.ntasks
  puts : ∃ req rank response, (requests writer)[putAt]? = some req ∧ processPmiRequest req = .put rank key value response
  gets : ∃ req rank, (requests reader)[getAt]? = some req ∧ processPmiRequest req = .get rank key cmd
  follows : barriersBefore requests writer putAt < barriersBefore requests reader getAt
  last : ∀ rank < step.ntasks, ∀ index req other stored response, (requests rank)[index]? = some req →
    processPmiRequest req = .put other key stored response → (rank = writer ∧ index = putAt) ∨
      Before requests (rank, index) (writer, putAt) ∨ Before requests (reader, getAt) (rank, index)

theorem barriersBefore_mono (requests : Nat → List String) (rank : Nat) {index later : Nat} (le : index ≤ later) :
    barriersBefore requests rank index ≤ barriersBefore requests rank later := by
  refine List.Sublist.countP_le ?_
  rw [← Nat.min_eq_left le, ← List.take_take]
  exact List.take_sublist ..

theorem lt_of_barriersBefore_lt {requests : Nat → List String} {rank index later : Nat}
    (fewer : barriersBefore requests rank index < barriersBefore requests rank later) : index < later := by
  by_contra not
  have more := barriersBefore_mono requests rank (Nat.le_of_not_lt not)
  omega

namespace PmiConn

variable {conn : PmiConn} {index : Nat}

theorem passed_eq (conn : PmiConn) : conn.passed = (conn.answered.map Prod.fst).countP isBarrier := by
  rw [List.countP_map]
  rfl

theorem length_begun_le (conn : PmiConn) : conn.begun.length ≤ conn.answered.length + 1 := by
  cases waits : conn.waiting <;> simp [begun, waits]

end PmiConn

/-- What the controller is told of a request but for gets. -/
def pmiNotice (req : String) : Option PmiMessage :=
  match processPmiRequest req with
  | .barrier rank _ => some (.barrierEnter rank)
  | .put rank key value _ => some (.put rank key value)
  | _ => none

def noticeOf (rank : Nat) : Nat × PmiMessage → Option PmiMessage
  | (_, .get _ _ _) => none
  | (origin, msg) => if origin = rank then some msg else none

namespace PmiSystem

def noticed (step : PmiStep) (sys : PmiSystem) (rank : Nat) : List PmiMessage :=
  (sys.servers (step.place rank)).outgoing.filterMap (noticeOf rank)

def entered (sys : PmiSystem) (rank : Nat) : Nat := sys.checkedIn.count rank + sys.handlers.countP (isCheckInOf rank)

/-- The controller has handled the first requests of a connection, and the others are on their way
in order. -/
structure Lined (step : PmiStep) (sys : PmiSystem) (rank handled : Nat) : Prop where
  le : handled ≤ (sys.conns rank).begun.length
  pending : sys.noticed step rank = ((sys.conns rank).begun.drop handled).filterMap pmiNotice
  entered : sys.entered rank ≤ ((sys.conns rank).begun.take handled).countP isBarrier

variable {step : PmiStep} {sys next : PmiSystem} {requests : Nat → List String}

theorem lined_init (step : PmiStep) (rank : Nat) : Lined step {} rank 0 := ⟨Nat.le_refl 0, rfl, Nat.le_refl 0⟩

/-- Everything sent so far is the first part of what is sent in the whole run. -/
def Within (step : PmiStep) (sys : PmiSystem) (requests : Nat → List String) : Prop :=
  ∀ rank < step.ntasks, (sys.conns rank).sent <+: requests rank

section Within

variable {rank index : Nat}

theorem Within.begun (within : Within step sys requests) (small : rank < step.ntasks) :
    (sys.conns rank).begun <+: requests rank := (List.prefix_append ..).trans (within rank small)

theorem Within.take_begun (within : Within step sys requests) (small : rank < step.ntasks)
    (le : index ≤ (sys.conns rank).begun.length) :
    ((sys.conns rank).begun.take index).countP isBarrier = barriersBefore requests rank index := by
  obtain ⟨rest, whole⟩ := within.begun small
  rw [barriersBefore, ← whole, List.take_append_of_le_length le]

theorem Within.getElem? (within : Within step sys requests) (small : rank < step.ntasks) {req : String}
    (found : (sys.conns rank).begun[index]? = some req) : (requests rank)[index]? = some req := by
  obtain ⟨rest, whole⟩ := within.begun small
  rw [← whole, List.getElem?_append_left (List.getElem?_eq_some_iff.mp found).1, found]

theorem Within.barriersBefore_le (within : Within step sys requests) (small : rank < step.ntasks)
    (le : index ≤ (sys.conns rank).answered.length) :
    barriersBefore requests rank index ≤ (sys.conns rank).passed := by
  rw [← within.take_begun small (le.trans (by simp [PmiConn.begun])), PmiConn.passed_eq, PmiConn.begun,
    List.take_append_of_le_length (by simpa using le)]
  exact (List.take_sublist ..).countP_le

/-- A request that a barrier separates from one that began is handled. -/
theorem Within.handled (within : Within step sys requests) (sound : Sound step sys) (small : rank < step.ntasks)
    {other later handled : Nat} (small' : other < step.ntasks) (lined : Lined step sys rank handled)
    (before : barriersBefore requests rank index < barriersBefore requests other later)
    (began : later ≤ (sys.conns other).answered.length) : index < handled := by
  have passed := within.barriersBefore_le small' began
  have told : (sys.conns other).passed + _ ≤ sys.rounds := sound.valid.told other
  have turn : sys.rounds ≤ sys.checkedIn.count rank := (sound.valid.turn rank small).1
  have entered := lined.entered
  rw [within.take_begun small lined.le, PmiSystem.entered] at entered
  have fewer : barriersBefore requests rank index < barriersBefore requests rank handled := by omega
  exact lt_of_barriersBefore_lt fewer

end Within

section Notices

variable {rank origin index handled : Nat} {worker : WorkerId} {msg : PmiMessage} {outgoing : List (Nat × PmiMessage)}

/-- The controller has handled nothing of a connection but its notices, in order. -/
theorem Lined.advance (lined : Lined step sys rank handled) {rest : List PmiMessage}
    (first : sys.noticed step rank = msg :: rest) : ∃ at_ req, handled ≤ at_ ∧ (sys.conns rank).begun[at_]? = some req ∧
      pmiNotice req = some msg ∧ ((sys.conns rank).begun.drop (at_ + 1)).filterMap pmiNotice = rest ∧
      ∀ other, handled ≤ other → other < at_ → ((sys.conns rank).begun[other]?).bind pmiNotice = none :=
  filterMap_drop_cons (lined.pending ▸ first)

theorem noticeOf_other (other : rank ≠ origin) : noticeOf rank (origin, msg) = none := by
  cases msg with
  | get _ _ _ => rfl
  | _ => exact if_neg fun same => other same.symm

/-- What the worker's next message was to its connection. -/
theorem noticed_taking (wired : Wired step sys) (found : (sys.servers worker).outgoing[0]? = some (origin, msg)) (rank : Nat) :
    sys.noticed step rank = (noticeOf rank (origin, msg)).toList ++ (taking sys worker 0).noticed step rank := by
  obtain ⟨_, here⟩ := wired.home worker _ (List.mem_of_getElem? found)
  rw [noticed, noticed, taking, servers_setServer]
  split
  · rename_i same
    rw [same]
    cases queued : (sys.servers worker).outgoing with
    | nil =>
      rw [queued] at found
      cases found
    | cons head tail =>
      rw [queued] at found
      cases found
      rw [List.filterMap_cons]
      cases noticeOf rank (origin, msg) <;> rfl
  · rename_i apart
    have other : rank ≠ origin := fun same => apart (congrArg step.place same |>.trans here)
    rw [noticeOf_other other]
    rfl

structure Serves (step : PmiStep) (sys next : PmiSystem) (rank : Nat) (req : String) : Prop where
  idle : (sys.conns rank).waiting = none
  begun : (next.conns rank).begun = (sys.conns rank).begun ++ [req]
  answered : (sys.conns rank).answered.length ≤ (next.conns rank).answered.length
  others : ∀ other, other ≠ rank → next.conns other = sys.conns other
  noticed : ∀ other, next.noticed step other =
    sys.noticed step other ++ if other = rank then (pmiNotice req).toList else []
  entered : ∀ other, next.entered other = sys.entered other
  kvs : next.kvs = sys.kvs

theorem noticed_tell (sys : PmiSystem) (rank other : Nat) (msg : PmiMessage) (counter : Nat) :
    (sys.setServer (step.place rank)
      { sys.servers (step.place rank) with
        counter
        outgoing := (sys.servers (step.place rank)).outgoing ++ [(rank, msg)] }).noticed step other =
      sys.noticed step other ++ if other = rank then (noticeOf rank (rank, msg)).toList else [] := by
  rw [noticed, noticed, servers_setServer]
  by_cases own : other = rank
  · subst own
    rw [if_pos rfl, if_pos rfl, List.filterMap_append]
    cases noticed : noticeOf other (other, msg) <;> simp [noticed]
  · rw [if_neg own, List.append_nil]
    split
    · rename_i same
      rw [List.filterMap_append, same]
      simp [noticeOf_other own]
    · rfl

theorem serves (taken : sys.serve step rank = some next) : ∃ req rest, (sys.conns rank).inbox = req :: rest ∧
    Serves step sys next rank req := by
  obtain ⟨req, rest, idle, queued, begins⟩ := serve_cases taken
  refine ⟨req, rest, queued, ?_⟩
  have others (conn : PmiConn) (other : Nat) (apart : other ≠ rank) :
      (sys.setConn rank conn).conns other = sys.conns other := by rw [conns_setConn, if_neg apart]
  have own (conn : PmiConn) : (sys.setConn rank conn).conns rank = conn := conns_setConn_self ..
  cases begins with
  | answer response action =>
    have silent : pmiNotice req = none := by rw [pmiNotice, action]
    refine ⟨idle, ?_, ?_, others _, fun other => ?_, fun _ => rfl, rfl⟩
    · rw [own, PmiConn.begun_answer idle]
    · rw [own]
      exact (List.prefix_append ..).length_le
    · rw [silent]
      simp [noticed, setConn]
  | barrier value response action =>
    have told : pmiNotice req = noticeOf rank (rank, .barrierEnter value) := by simp [pmiNotice, action, noticeOf]
    refine ⟨idle, ?_, ?_, others _, fun other => ?_, fun _ => rfl, rfl⟩
    · change ((sys.setConn rank _).conns rank).begun = _
      rw [own, PmiConn.begun_wait idle]
      rfl
    · change _ ≤ ((sys.setConn rank _).conns rank).answered.length
      rw [own]
    · rw [told]
      exact noticed_tell (sys.setConn rank _) rank other _ _
  | put value key stored response action =>
    have told : pmiNotice req = noticeOf rank (rank, .put value key stored) := by simp [pmiNotice, action, noticeOf]
    refine ⟨idle, ?_, ?_, others _, fun other => ?_, fun _ => rfl, rfl⟩
    · change ((sys.setConn rank _).conns rank).begun = _
      rw [own, PmiConn.begun_answer idle]
    · change _ ≤ ((sys.setConn rank _).conns rank).answered.length
      rw [own]
      exact (List.prefix_append ..).length_le
    · rw [told]
      exact noticed_tell (sys.setConn rank _) rank other _ _
  | get value key cmd action =>
    have told : pmiNotice req =
        noticeOf rank (rank, .get value key (sys.servers (step.place rank)).counter) := by rw [pmiNotice, action, noticeOf]
    refine ⟨idle, ?_, ?_, others _, fun other => ?_, fun _ => rfl, rfl⟩
    · change ((sys.setConn rank _).conns rank).begun = _
      rw [own, PmiConn.begun_wait idle]
      rfl
    · change _ ≤ ((sys.setConn rank _).conns rank).answered.length
      rw [own]
    · rw [told]
      exact noticed_tell (sys.setConn rank _) rank other _ _

theorem Lined.congr (lined : Lined step sys rank handled) (begun : (next.conns rank).begun = (sys.conns rank).begun)
    (noticed : next.noticed step rank = sys.noticed step rank) (entered : next.entered rank = sys.entered rank) :
    Lined step next rank handled where
  le := begun ▸ lined.le
  pending := by rw [noticed, begun, lined.pending]
  entered := by
    rw [entered, begun]
    exact lined.entered

theorem Lined.serve (lined : Lined step sys rank handled) {other : Nat} {req : String}
    (serves : Serves step sys next other req) : Lined step next rank handled := by
  by_cases own : rank = other
  · subst own
    have noticed := serves.noticed rank
    rw [if_pos rfl] at noticed
    refine ⟨?_, ?_, ?_⟩
    · rw [serves.begun, List.length_append]
      exact lined.le.trans (Nat.le_add_right ..)
    · rw [noticed, serves.begun, List.drop_append_of_le_length lined.le, List.filterMap_append, lined.pending]
      cases notice : pmiNotice req <;> simp [notice]
    · rw [serves.entered, serves.begun, List.take_append_of_le_length lined.le]
      exact lined.entered
  · have noticed := serves.noticed rank
    rw [if_neg own, List.append_nil] at noticed
    exact lined.congr (congrArg _ (serves.others rank own)) noticed (serves.entered rank)

theorem entered_go {sys next : PmiSystem} (taken : sys.go step index = some next) (rank : Nat) :
    next.entered rank = sys.entered rank := by
  simp only [go] at taken
  split at taken
  · rename_i origin value found
    cases taken
    have before := (perm_eraseIdx found).countP_eq (isCheckInOf rank)
    have after : (if asU32 (sys.barrier.insert value).len = step.ntasks then sys.handlers.set index .clear
        else sys.handlers.eraseIdx index).countP (isCheckInOf rank) = (sys.handlers.eraseIdx index).countP (isCheckInOf rank) := by
      split
      · rw [(perm_set found .clear).countP_eq]
        rfl
      · rfl
    rw [entered, entered, after, before, List.countP_cons, List.count_append, List.count_singleton]
    have owner : isCheckInOf rank (EnterTask.checkIn origin value) = (origin == rank) := (beq_eq_decide ..).symm
    rw [owner]
    omega
  · rename_i found
    cases taken
    rw [entered, entered, (perm_set found .release).countP_eq, (perm_eraseIdx found).countP_eq]
    rfl
  · rename_i found
    cases taken
    rw [entered, entered, (perm_eraseIdx found).countP_eq]
    rfl
  · cases taken

theorem Lined.moves (lined : Lined step sys rank handled) (moves : Moves sys next)
    (entered : next.entered rank = sys.entered rank) : Lined step next rank handled :=
  lined.congr (by rw [moves.conns]) (congrArg _ (moves.outgoing _)) entered

end Notices

/-- Once the put is handled the table holds its value, up to the response to the get. -/
def Carried (exchange : Exchange step requests) (sys : PmiSystem) : Prop :=
  ∃ handled : Nat → Nat, (∀ rank < step.ntasks, Lined step sys rank (handled rank)) ∧
    (exchange.putAt < handled exchange.writer → (sys.conns exchange.reader).answered.length ≤ exchange.getAt →
      sys.kvs.get? exchange.key = some exchange.value)

namespace Carried

variable {exchange : Exchange step requests} {worker : WorkerId} {rank : Nat}

theorem init (exchange : Exchange step requests) : Carried exchange {} :=
  ⟨fun _ => 0, fun rank _ => lined_init step rank, fun late => absurd late (Nat.not_lt_zero _)⟩

theorem congr (carried : Carried exchange sys) (kvs : next.kvs = sys.kvs)
    (answered : (sys.conns exchange.reader).answered.length ≤ (next.conns exchange.reader).answered.length)
    (kept : ∀ {rank handled}, Lined step sys rank handled → Lined step next rank handled) : Carried exchange next := by
  obtain ⟨handled, lined, stored⟩ := carried
  refine ⟨handled, fun rank small => kept (lined rank small), fun late early => ?_⟩
  rw [kvs]
  exact stored late (answered.trans early)

theorem barriersBefore_get (exchange : Exchange step requests) :
    barriersBefore requests exchange.reader (exchange.getAt + 1) = barriersBefore requests exchange.reader exchange.getAt := by
  obtain ⟨req, rank, found, action⟩ := exchange.gets
  have silent : isBarrier req = false := by simp [isBarrier, barrierRank, action]
  rw [barriersBefore, List.take_add_one, found, List.countP_append, Option.toList_some, List.countP_singleton, silent]
  rfl

variable {handled : Nat → Nat} {req : String}

/-- No other put of the key is handled between the put and the response to the get. -/
theorem untouched (within : Within step sys requests) (sound : Sound step sys)
    (lined : ∀ rank < step.ntasks, Lined step sys rank (handled rank)) (small : rank < step.ntasks) {at_ : Nat}
    (above : handled rank ≤ at_) {req response stored : String} {other : Nat}
    (found : (sys.conns rank).begun[at_]? = some req)
    (action : processPmiRequest req = .put other exchange.key stored response)
    (late : exchange.putAt < handled exchange.writer)
    (early : (sys.conns exchange.reader).answered.length ≤ exchange.getAt) : False := by
  have began := (List.getElem?_eq_some_iff.mp found).1
  have length := (sys.conns rank).length_begun_le
  have writer := lined exchange.writer exchange.writes
  have reader := lined exchange.reader exchange.reads
  have length' := (sys.conns exchange.writer).length_begun_le
  have length'' := (sys.conns exchange.reader).length_begun_le
  have le := writer.le
  have le' := reader.le
  rcases exchange.last rank small at_ req other stored response (within.getElem? small found) action with
    ⟨rfl, rfl⟩ | (⟨same, before⟩ | before) | (⟨same, after⟩ | after)
  · omega
  · simp only at same before
    subst same
    omega
  · simp only at before
    have handled := within.handled sound small exchange.writes (lined rank small) before (by omega)
    omega
  · simp only at same after
    subst same
    omega
  · simp only at after
    rw [← barriersBefore_get] at after
    have handled := within.handled sound exchange.reads small reader after (by omega)
    omega

/-- A notice is handled: that of the next request of its connection that has one. -/
theorem advance (lined : ∀ rank < step.ntasks, Lined step sys rank (handled rank)) (wired : Wired step sys)
    {origin : Nat} {msg : PmiMessage} (found : (sys.servers worker).outgoing[0]? = some (origin, msg))
    (notice : noticeOf origin (origin, msg) = some msg) (conns : next.conns = sys.conns)
    (noticed : ∀ rank, next.noticed step rank = (taking sys worker 0).noticed step rank)
    (others : ∀ rank, rank ≠ origin → next.entered rank = sys.entered rank)
    (own : ∀ req, pmiNotice req = some msg → next.entered origin ≤ sys.entered origin + [req].countP isBarrier) :
    ∃ at_ req, handled origin ≤ at_ ∧ (sys.conns origin).begun[at_]? = some req ∧ pmiNotice req = some msg ∧
      (∀ other, handled origin ≤ other → other < at_ → ((sys.conns origin).begun[other]?).bind pmiNotice = none) ∧
      ∀ rank < step.ntasks, Lined step next rank (Function.update handled origin (at_ + 1) rank) := by
  have small := (wired.home worker _ (List.mem_of_getElem? found)).1
  have cut := noticed_taking wired found origin
  rw [notice, Option.toList_some, List.singleton_append] at cut
  obtain ⟨at_, req, above, here, told, later, none⟩ := (lined origin small).advance cut
  refine ⟨at_, req, above, here, told, none, fun rank few => ?_⟩
  rw [Function.update_apply]
  split
  · rename_i same
    subst same
    have before := (lined rank small).entered
    have more := own req told
    have longer : ((sys.conns rank).begun.take (at_ + 1)).countP isBarrier =
        ((sys.conns rank).begun.take at_).countP isBarrier + [req].countP isBarrier := by
      rw [List.take_add_one, here, Option.toList_some, List.countP_append]
    have mono : ((sys.conns rank).begun.take (handled rank)).countP isBarrier ≤
        ((sys.conns rank).begun.take at_).countP isBarrier := by
      refine List.Sublist.countP_le ?_
      rw [← Nat.min_eq_left above, ← List.take_take]
      exact List.take_sublist ..
    refine ⟨?_, ?_, ?_⟩
    · rw [conns]
      exact (List.getElem?_eq_some_iff.mp here).1
    · rw [noticed, conns, later]
    · rw [conns, longer]
      omega
  · rename_i apart
    have cut' := noticed_taking wired found rank
    rw [noticeOf_other apart] at cut'
    exact (lined rank few).congr (by rw [conns]) ((noticed rank).trans cut'.symm) (others rank apart)

/-- When the put is among the requests handled, it is the last of them. -/
theorem putAt_eq (exchange : Exchange step requests) (within : Within step sys requests) {handled at_ : Nat}
    (here : (sys.conns exchange.writer).begun[at_]? = some req)
    (none : ∀ other, handled ≤ other → other < at_ → ((sys.conns exchange.writer).begun[other]?).bind pmiNotice = none)
    (fresh : handled ≤ exchange.putAt) (inside : exchange.putAt < at_ + 1) :
    exchange.putAt = at_ ∧ ∃ rank, pmiNotice req = some (.put rank exchange.key exchange.value) := by
  obtain ⟨put, rank, response, found, action⟩ := exchange.puts
  have told : pmiNotice put = some (.put rank exchange.key exchange.value) := by rw [pmiNotice, action]
  have began := (List.getElem?_eq_some_iff.mp here).1
  have there : (sys.conns exchange.writer).begun[exchange.putAt]? = some put := by
    obtain ⟨rest, whole⟩ := within.begun exchange.writes
    rw [← whole, List.getElem?_append_left (by omega)] at found
    exact found
  have last : exchange.putAt = at_ := by
    by_contra apart
    have silent := none exchange.putAt fresh (by omega)
    rw [there] at silent
    cases told.symm.trans silent
  rw [last] at there
  cases here.symm.trans there
  exact ⟨last, rank, told⟩

theorem late_cases (exchange : Exchange step requests) (within : Within step sys requests) {origin at_ : Nat}
    {msg : PmiMessage} (here : (sys.conns origin).begun[at_]? = some req) (told : pmiNotice req = some msg)
    (none : ∀ other, handled origin ≤ other → other < at_ → ((sys.conns origin).begun[other]?).bind pmiNotice = none)
    (late : exchange.putAt < Function.update handled origin (at_ + 1) exchange.writer) :
    exchange.putAt < handled exchange.writer ∨ ∃ rank, msg = .put rank exchange.key exchange.value := by
  rw [Function.update_apply] at late
  split at late
  · rename_i same
    subst same
    by_cases fresh : handled exchange.writer ≤ exchange.putAt
    · obtain ⟨_, rank, told'⟩ := putAt_eq exchange within here none fresh late
      exact .inr ⟨rank, Option.some.inj (told.symm.trans told')⟩
    · exact .inl (Nat.lt_of_not_le fresh)
  · exact .inl late

theorem action_of_notice {req key value : String} (told : pmiNotice req = some (.put rank key value)) :
    ∃ response, processPmiRequest req = .put rank key value response := by
  rw [pmiNotice] at told
  split at told
  · cases told
  · rename_i rank key value response action
    cases told
    exact ⟨response, action⟩
  · cases told

theorem isBarrier_of_notice (told : pmiNotice req = some (.barrierEnter rank)) : isBarrier req = true := by
  rw [pmiNotice] at told
  split at told
  · rename_i action
    simp [isBarrier, barrierRank, action]
  · cases told
  · cases told

theorem handle (carried : Carried exchange sys) (within : Within step sys requests) (sound : Sound step sys)
    (taken : sys.handle step worker 0 = some next) : Carried exchange next := by
  have conns := conns_handle taken
  have wired := sound.wired
  obtain ⟨handled, lined, stored⟩ := carried
  cases handle_cases taken with
  | enter origin rank handlers found tasks =>
    have entered (other : Nat) : PmiSystem.entered { taking sys worker 0 with handlers } other = sys.entered other ∨
        other = origin ∧ PmiSystem.entered { taking sys worker 0 with handlers } other = sys.entered other + 1 := by
      rcases tasks with rfl | rfl
      · exact .inl rfl
      · by_cases same : origin = other
        · refine .inr ⟨same.symm, ?_⟩
          simp [PmiSystem.entered, taking, setServer, isCheckInOf, same, Nat.add_assoc]
        · exact .inl (by simp [PmiSystem.entered, taking, setServer, isCheckInOf, same])
    obtain ⟨at_, req, above, here, told, none, all⟩ := advance lined wired found (by simp [noticeOf]) conns (fun _ => rfl)
      (fun other apart => (entered other).resolve_right fun own => apart own.1) fun req told => by
        have counts : [req].countP isBarrier = 1 := List.countP_singleton .. ▸ if_pos (isBarrier_of_notice told)
        have more := entered origin
        omega
    refine ⟨_, all, fun late early => stored ?_ early⟩
    refine (late_cases exchange within here told none late).resolve_right ?_
    rintro ⟨_, same⟩
    cases same
  | put origin rank key value found =>
    obtain ⟨at_, req, above, here, told, none, all⟩ := advance lined wired found (by simp [noticeOf]) conns (fun _ => rfl)
      (fun _ _ => rfl) (fun _ _ => Nat.le_add_right ..)
    refine ⟨_, all, fun late early => ?_⟩
    have small := (wired.home worker _ (List.mem_of_getElem? found)).1
    change (sys.kvs.insert key value).get? exchange.key = some exchange.value
    rw [HashMap.get?_insert]
    have late' := late_cases exchange within here told none late
    split
    · rename_i same
      subst same
      rcases late' with before | ⟨_, now⟩
      · obtain ⟨response, action⟩ := action_of_notice told
        exact (untouched within sound lined small above here action before early).elim
      · cases now
        rfl
    · rename_i apart
      rcases late' with before | ⟨_, now⟩
      · exact stored before early
      · cases now
        exact absurd rfl apart
  | get origin rank requestId key found =>
    refine ⟨handled, fun other few => (lined other few).congr rfl ?_ rfl, stored⟩
    have cut := noticed_taking wired found other
    have silent : noticeOf other (origin, .get rank key requestId) = none := rfl
    rw [silent] at cut
    refine Eq.trans ?_ cut.symm
    rw [noticed, noticed, taking, servers_setServer, servers_setServer]
    split <;> rfl

theorem wake {rank : Nat} (carried : Carried exchange sys) (taken : sys.wake step rank = some next) : Carried exchange next := by
  have begun := begun_wakes taken
  have frame : next.servers = sys.servers ∧ next.kvs = sys.kvs ∧ next.entered = sys.entered := by
    cases wake_cases taken <;> exact ⟨rfl, rfl, rfl⟩
  have answered : (sys.conns exchange.reader).answered.length ≤ (next.conns exchange.reader).answered.length := by
    cases wake_cases taken <;> rw [conns_setConn] <;> split
    · rename_i same
      rw [same]
      exact (List.prefix_append ..).length_le
    · exact Nat.le_refl _
    · rename_i same
      rw [same]
      exact (List.prefix_append ..).length_le
    · exact Nat.le_refl _
    · rename_i same
      rw [same]
    · exact Nat.le_refl _
  refine carried.congr frame.2.1 answered fun {other _} lined => lined.congr (begun other).1 ?_ (congrFun frame.2.2 other)
  rw [noticed, noticed, frame.1]

theorem serve {rank : Nat} (carried : Carried exchange sys) (taken : sys.serve step rank = some next) :
    Carried exchange next := by
  obtain ⟨req, rest, queued, serves⟩ := serves taken
  refine carried.congr serves.kvs ?_ fun lined => lined.serve serves
  by_cases same : exchange.reader = rank
  · exact same ▸ serves.answered
  · rw [serves.others _ same]

theorem moves (carried : Carried exchange sys) (moves : Moves sys next) (entered : ∀ rank, next.entered rank = sys.entered rank) :
    Carried exchange next :=
  carried.congr moves.kvs (by rw [moves.conns]) fun lined => lined.moves moves (entered _)

theorem send (carried : Carried exchange sys) :
    Carried exchange (sys.setConn rank { sys.conns rank with inbox := (sys.conns rank).inbox ++ [req] }) := by
  have same (other : Nat) : ((sys.setConn rank { sys.conns rank with inbox := (sys.conns rank).inbox ++ [req] }).conns other).begun =
      (sys.conns other).begun ∧ ((sys.setConn rank
        { sys.conns rank with inbox := (sys.conns rank).inbox ++ [req] }).conns other).answered = (sys.conns other).answered := by
    rw [conns_setConn]
    split
    · rename_i here
      exact here ▸ ⟨rfl, rfl⟩
    · exact ⟨rfl, rfl⟩
  exact carried.congr rfl (by rw [(same _).2]) fun lined => lined.congr (same _).1 rfl rfl

theorem stored (carried : Carried exchange sys) (within : Within step sys requests) (sound : Sound step sys)
    (asked : (sys.conns exchange.reader).answered.length = exchange.getAt) :
    sys.kvs.get? exchange.key = some exchange.value := by
  obtain ⟨handled, lined, stored⟩ := carried
  refine stored ?_ (Nat.le_of_eq asked)
  exact within.handled sound exchange.writes exchange.reads (lined _ exchange.writes) exchange.follows (Nat.le_of_eq asked.symm)

end Carried

end PmiSystem

end Veloce
