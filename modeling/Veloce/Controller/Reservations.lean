import Veloce.Collections.Calendar
import Veloce.Collections.Run
import Veloce.Handlers.Desk
import Veloce.Scheduler.Starts

/-! Reservations. -/

namespace Veloce

open Collections

structure CreateReservationRequest where
  nodes : HashSet String
  startTime : Nat
  endTime : Nat
  owner : String

def checkOverlap (reservations : HashMap String Reservation) (nodes : HashSet String) (startTime endTime : Nat)
    (excludeId : Option String) : Bool :=
  reservations.toList.any fun (id, reservation) =>
    excludeId ≠ some id && (startTime < reservation.endTime && reservation.startTime < endTime) &&
      nodes.elems.any (· ∈ reservation.nodes)

/-- The time is proper and not over, the nodes are known, and no reservation overlaps. -/
structure CreateReservationRequest.InOrder (payload : CreateReservationRequest) (now : Nat) (state : GlobalState) :
    Prop where
  proper : payload.startTime < payload.endTime
  future : now < payload.endTime
  filled : ∃ node, node ∈ payload.nodes
  known : ∀ node ∈ payload.nodes, state.workers.contains node = true
  free : checkOverlap state.reservations payload.nodes payload.startTime payload.endTime none = false

def CreateReservationRequest.reservation (request : CreateReservationRequest) (reservationId : String) : Reservation where
  id := reservationId
  nodes := request.nodes
  startTime := request.startTime
  endTime := request.endTime
  owner := request.owner

def apiCreateReservation (principal : AuthenticatedPrincipal) (payload : CreateReservationRequest)
    (reservationId : String) (now : Nat) (state : GlobalState) : Except String GlobalState := do
  if !principal.isAdminOrOperator then .error "Forbidden: insufficient role"
  else
    let owner ← principal.resolveUserId payload.owner
    let payload := { payload with owner := owner }
    if payload.startTime ≥ payload.endTime then .error "Start time must be before end time"
    else if payload.endTime ≤ now then .error "End time must be in the future"
    else if payload.nodes.isEmpty then .error "Reservation must include at least one node"
    else
      match payload.nodes.elems.find? fun node => !state.workers.contains node with
      | some node => .error s!"Node {node} does not exist"
      | none =>
        if checkOverlap state.reservations payload.nodes payload.startTime payload.endTime none then
          .error "Requested nodes are already reserved during this time window"
        else .ok { state with
          reservations := state.reservations.insert reservationId (payload.reservation reservationId) }

def createReservation (payload : CreateReservationRequest) (reservationId : String) (now : Nat) (state : GlobalState) :
    Except String GlobalState :=
  if payload.startTime ≥ payload.endTime then .error "Start time must be before end time"
  else if payload.endTime ≤ now then .error "End time must be in the future"
  else if payload.nodes.isEmpty then .error "Reservation must include at least one node"
  else if payload.nodes.elems.any fun node => !state.workers.contains node then
    .error "One or more requested nodes do not exist"
  else if checkOverlap state.reservations payload.nodes payload.startTime payload.endTime none then
    .error "Requested nodes are already reserved during this time window"
  else .ok { state with
    reservations := state.reservations.insert reservationId (payload.reservation reservationId) }

def deleteReservation (id : String) (state : GlobalState) : Except String GlobalState :=
  if state.reservations.contains id then .ok { state with reservations := state.reservations.remove id }
  else .error "Reservation not found"

/-- The REST handler answers an unknown id without a text. -/
def apiDeleteReservation (principal : AuthenticatedPrincipal) (id : String) (state : GlobalState) :
    Except String GlobalState :=
  if !principal.isAdminOrOperator then .error "Forbidden: insufficient role"
  else if state.reservations.contains id then .ok { state with reservations := state.reservations.remove id }
  else .error ""

/-- What can happen at a leader, with the id and the time that a handler takes. Whatever
else it does leaves the reservations alone. -/
inductive ReservationEvent where
  | apiCreate (principal : AuthenticatedPrincipal) (payload : CreateReservationRequest) (reservationId : String)
      (now : Nat)
  | create (payload : CreateReservationRequest) (reservationId : String) (now : Nat)
  | apiDelete (principal : AuthenticatedPrincipal) (id : String)
  | delete (id : String)
  | schedule (input : PassInput)
  | other (rest : GlobalState)

namespace ReservationEvent

/-- `none` if a pass panics; a refused request changes nothing. -/
def apply (event : ReservationEvent) (state : GlobalState) : Option GlobalState :=
  match event with
  | .apiCreate principal payload reservationId now =>
    some ((apiCreateReservation principal payload reservationId now state).toOption.getD state)
  | .create payload reservationId now => some ((createReservation payload reservationId now state).toOption.getD state)
  | .apiDelete principal id => some ((apiDeleteReservation principal id state).toOption.getD state)
  | .delete id => some ((deleteReservation id state).toOption.getD state)
  | .schedule input => scheduleJobs input state
  | .other rest => some { rest with reservations := state.reservations }

/-- The id of `Uuid::new_v4` is not in use. -/
def Fresh (state : GlobalState) : ReservationEvent → Prop
  | .apiCreate _ _ reservationId _ | .create _ reservationId _ => state.reservations.get? reservationId = none
  | _ => True

def request : ReservationEvent → Option (CreateReservationRequest × String)
  | .apiCreate _ payload reservationId _ | .create payload reservationId _ => some (payload, reservationId)
  | _ => none

/-- The caller of the REST handler may reserve for the owner, and the request is in order. -/
def Passes (state : GlobalState) : ReservationEvent → Prop
  | .apiCreate principal payload _ now => principal.isAdminOrOperator = true ∧
      (principal.resolveUserId payload.owner).isOk = true ∧ payload.InOrder now state
  | .create payload _ now => payload.InOrder now state
  | _ => False

def Step (state : GlobalState) (event : ReservationEvent) (next : GlobalState) : Prop :=
  event.apply state = some next

end ReservationEvent

def Reservation.booking (reservation : Reservation) : Booking String Nat where
  resources := { node | node ∈ reservation.nodes }
  start := reservation.startTime
  finish := reservation.endTime

def GlobalState.calendar (state : GlobalState) (id : String) : Option (Booking String Nat) :=
  (state.reservations.get? id).map Reservation.booking

section Overlap

variable {state next : GlobalState} {payload : CreateReservationRequest} {reservationId : String}

/-- The check finds every conflict. -/
theorem checkOverlap_eq_false_iff :
    checkOverlap state.reservations payload.nodes payload.startTime payload.endTime none = false ↔
      ∀ id booking, state.calendar id = some booking →
        ¬ (payload.reservation reservationId).booking.Conflicts booking := by
  simp only [checkOverlap, List.any_eq_false, Bool.and_eq_true, decide_eq_true_eq, GlobalState.calendar,
    Option.map_eq_some_iff]
  constructor
  · rintro free id booking ⟨reservation, found, rfl⟩ conflicts
    obtain ⟨node, mine, theirs⟩ := conflicts.shares
    refine free (id, reservation) (HashMap.mem_toList.mpr found) ⟨⟨by simp, conflicts.before, conflicts.after⟩, ?_⟩
    have shared : node ∈ reservation.nodes := theirs
    exact List.any_eq_true.mpr ⟨node, mine, decide_eq_true shared⟩
  · rintro free ⟨id, reservation⟩ listed ⟨⟨_, before, after⟩, shares⟩
    obtain ⟨node, mine, theirs⟩ := List.any_eq_true.mp shares
    have shared : node ∈ reservation.nodes := of_decide_eq_true theirs
    exact free id reservation.booking ⟨reservation, HashMap.mem_toList.mp listed, rfl⟩
      ⟨⟨node, mine, shared⟩, before, after⟩

/-- So it tells whether a time is disjoint from those of the reservations that share a node. -/
theorem checkOverlap_disjoint_iff
    (valid : ∀ id booking, state.calendar id = some booking → booking.start < booking.finish)
    (proper : payload.startTime < payload.endTime) :
    checkOverlap state.reservations payload.nodes payload.startTime payload.endTime none = false ↔
      ∀ id reservation node, state.reservations.get? id = some reservation → node ∈ payload.nodes →
        node ∈ reservation.nodes →
          Disjoint (Set.Ico payload.startTime payload.endTime) (Set.Ico reservation.startTime reservation.endTime) := by
  rw [@checkOverlap_eq_false_iff state payload ""]
  have disjoint {id : String} {booking : Booking String Nat} (found : state.calendar id = some booking) :=
    @Booking.disjoint_span_iff _ _ _ (payload.reservation "").booking booking proper (valid id booking found)
  constructor
  · intro free id reservation node found mine theirs
    have booked : state.calendar id = some reservation.booking := Option.map_eq_some_iff.mpr ⟨reservation, found, rfl⟩
    exact (disjoint booked).mpr fun meets => free id _ booked ⟨⟨node, mine, theirs⟩, meets.1, meets.2⟩
  · intro apart id booking booked conflicts
    obtain ⟨reservation, found, rfl⟩ := Option.map_eq_some_iff.mp booked
    obtain ⟨node, mine, theirs⟩ := conflicts.shares
    exact (disjoint booked).mp (apart id reservation node found mine theirs) ⟨conflicts.before, conflicts.after⟩

def Books (state : GlobalState) (payload : CreateReservationRequest) (reservationId : String) (next : GlobalState) :
    Prop :=
  ∃ owner, next = { state with
    reservations := state.reservations.insert reservationId ({ payload with owner := owner }.reservation reservationId) }

theorem filled_iff {nodes : HashSet String} : nodes.isEmpty = false ↔ ∃ node, node ∈ nodes := by
  rw [← Bool.not_eq_true, HashSet.isEmpty_iff, not_forall_not]

theorem createReservation_cases (payload : CreateReservationRequest) (reservationId : String) (now : Nat)
    (state : GlobalState) :
    payload.InOrder now state ∧
        (∃ next, createReservation payload reservationId now state = .ok next ∧ Books state payload reservationId next) ∨
      ¬ payload.InOrder now state ∧ ∃ reason, createReservation payload reservationId now state = .error reason := by
  unfold createReservation
  split
  · rename_i late
    exact .inr ⟨fun order => absurd order.proper (Nat.not_lt.mpr late), _, rfl⟩
  · rename_i proper
    split
    · rename_i past
      exact .inr ⟨fun order => absurd order.future (Nat.not_lt.mpr past), _, rfl⟩
    · rename_i future
      split
      · rename_i empty
        exact .inr ⟨fun order => by simp [filled_iff.mpr order.filled] at empty, _, rfl⟩
      · rename_i filled
        split
        · rename_i unknown
          obtain ⟨node, member, missing⟩ := List.any_eq_true.mp unknown
          exact .inr ⟨fun order => by simp [order.known node member] at missing, _, rfl⟩
        · rename_i known
          split
          · rename_i overlaps
            exact .inr ⟨fun order => by simp [order.free] at overlaps, _, rfl⟩
          · rename_i free
            refine .inl ⟨⟨Nat.lt_of_not_le proper, Nat.lt_of_not_le future, ?_, ?_, ?_⟩, _, rfl, payload.owner, rfl⟩
            · exact filled_iff.mp (Bool.eq_false_iff.mpr filled)
            · intro node member
              by_contra missing
              exact known (List.any_eq_true.mpr ⟨node, member, by simp [missing]⟩)
            · exact Bool.eq_false_iff.mpr free

/-- The REST handler makes the same checks once it knows the owner. -/
theorem apiCreateReservation_eq {principal : AuthenticatedPrincipal} {owner : String} (reservationId : String) (now : Nat)
    (allowed : principal.isAdminOrOperator = true) (resolved : principal.resolveUserId payload.owner = .ok owner) :
    (apiCreateReservation principal payload reservationId now state).toOption =
      (createReservation { payload with owner := owner } reservationId now state).toOption := by
  unfold apiCreateReservation createReservation
  rw [allowed, resolved]
  have unknown : (payload.nodes.elems.find? fun node => !state.workers.contains node).isSome =
      payload.nodes.elems.any fun node => !state.workers.contains node := List.isSome_find?
  cases found : payload.nodes.elems.find? fun node => !state.workers.contains node with
  | none =>
    rw [found] at unknown
    simp only [Bool.not_true, Bool.false_eq_true, if_false, bind, Except.bind, found, ← unknown, Option.isSome_none]
  | some node =>
    rw [found] at unknown
    simp only [Bool.not_true, Bool.false_eq_true, if_false, bind, Except.bind, found, ← unknown, Option.isSome_some, if_true]
    split_ifs <;> rfl

theorem Books.calendar (books : Books state payload reservationId next) (other : String) :
    next.calendar other =
      if other = reservationId then some (payload.reservation reservationId).booking else state.calendar other := by
  obtain ⟨owner, same⟩ := books
  subst same
  simp only [GlobalState.calendar, HashMap.get?_insert]
  split <;> rfl

end Overlap

section Steps

variable {state next : GlobalState} {event : ReservationEvent} {payload : CreateReservationRequest}
variable {reservationId : String}

theorem removed_calendar {id other : String} {booking : Booking String Nat} (found :
    ({ state with reservations := state.reservations.remove id } : GlobalState).calendar other = some booking) :
    state.calendar other = some booking := by
  simp only [GlobalState.calendar, HashMap.get?_remove] at found
  split at found
  · cases found
  · exact found

theorem step_request (step : ReservationEvent.Step state event next)
    (asks : event.request = some (payload, reservationId)) :
    event.Passes state ∧ (∃ now, payload.InOrder now state) ∧ Books state payload reservationId next ∨
      ¬ event.Passes state ∧ next = state := by
  cases event with
  | create payload reservationId now =>
    cases asks
    simp only [ReservationEvent.Step, ReservationEvent.apply, ReservationEvent.Passes] at step ⊢
    rcases createReservation_cases payload reservationId now state with ⟨order, after, made, books⟩ | ⟨wrong, reason, made⟩
    · rw [made] at step
      cases step
      exact .inl ⟨order, ⟨now, order⟩, books⟩
    · rw [made] at step
      cases step
      exact .inr ⟨wrong, rfl⟩
  | apiCreate principal payload reservationId now =>
    cases asks
    simp only [ReservationEvent.Step, ReservationEvent.apply, ReservationEvent.Passes] at step ⊢
    cases allowed : principal.isAdminOrOperator with
    | false =>
      rw [apiCreateReservation, allowed] at step
      cases step
      exact .inr ⟨fun passes => absurd passes.1 Bool.false_ne_true, rfl⟩
    | true =>
      cases resolved : principal.resolveUserId payload.owner with
      | error reason =>
        rw [apiCreateReservation, allowed, resolved] at step
        cases step
        exact .inr ⟨fun passes => absurd passes.2.1 Bool.false_ne_true, rfl⟩
      | ok owner =>
        rw [apiCreateReservation_eq reservationId now allowed resolved] at step
        rcases createReservation_cases { payload with owner := owner } reservationId now state with
          ⟨order, after, made, books⟩ | ⟨wrong, reason, made⟩
        · rw [made] at step
          cases step
          have order : payload.InOrder now state := ⟨order.proper, order.future, order.filled, order.known, order.free⟩
          exact .inl ⟨⟨rfl, rfl, order⟩, ⟨now, order⟩, books⟩
        · rw [made] at step
          cases step
          refine .inr ⟨fun passes => wrong ?_, rfl⟩
          exact ⟨passes.2.2.proper, passes.2.2.future, passes.2.2.filled, passes.2.2.known, passes.2.2.free⟩
  | apiDelete | delete | schedule | other => cases asks

theorem step_other (step : ReservationEvent.Step state event next) (silent : event.request = none) (id : String)
    (booking : Booking String Nat) (found : next.calendar id = some booking) : state.calendar id = some booking := by
  cases event with
  | apiCreate | create => cases silent
  | apiDelete principal removed =>
    cases step
    unfold apiDeleteReservation at found
    split at found
    · exact found
    · split at found
      · exact removed_calendar found
      · exact found
  | delete removed =>
    cases step
    unfold deleteReservation at found
    split at found
    · exact removed_calendar found
    · exact found
  | schedule input =>
    rw [GlobalState.calendar, schedule_reservations step, HashMap.get?_retain] at found
    obtain ⟨reservation, stored, same⟩ := Option.map_eq_some_iff.mp found
    exact Option.map_eq_some_iff.mpr ⟨reservation, (Option.filter_eq_some_iff.mp stored).1, same⟩
  | other rest =>
    cases step
    exact found

theorem calendar_step (valid : Calendar state.calendar) (step : ReservationEvent.Step state event next) :
    Calendar next.calendar := by
  cases asks : event.request with
  | none => exact valid.restrict (step_other step asks)
  | some request =>
    obtain ⟨payload, reservationId⟩ := request
    rcases step_request step asks with ⟨_, ⟨now, order⟩, books⟩ | ⟨_, same⟩
    · have opens : ∀ other booking, state.calendar other = some booking →
          ¬ (payload.reservation reservationId).booking.Conflicts booking :=
        checkOverlap_eq_false_iff.mp order.free
      have proper : (payload.reservation reservationId).booking.start < (payload.reservation reservationId).booking.finish :=
        order.proper
      have added : next.calendar reservationId = some (payload.reservation reservationId).booking := by
        rw [books.calendar, if_pos rfl]
      refine valid.book proper opens added fun other different => ?_
      rw [books.calendar, if_neg different]
    · exact same ▸ valid

end Steps

def Unreserved (state : GlobalState) : Prop := state.reservations = ∅

/-- In every run the reservations have a time, and those that share a node have disjoint
half-open times. The check finds whatever a time would overlap; a request that passes it and
the other checks adds its own reservation and changes no other, and any other one nothing. -/
theorem reservations_never_overlap {state : GlobalState}
    (reached : Reach Unreserved ReservationEvent.Step state) :
    (∀ id reservation, state.reservations.get? id = some reservation →
      (Set.Ico reservation.startTime reservation.endTime).Nonempty) ∧
    (∀ id other reservation reservation' node, id ≠ other → state.reservations.get? id = some reservation →
      state.reservations.get? other = some reservation' → node ∈ reservation.nodes → node ∈ reservation'.nodes →
        Disjoint (Set.Ico reservation.startTime reservation.endTime)
          (Set.Ico reservation'.startTime reservation'.endTime)) ∧
    (∀ nodes startTime endTime, startTime < endTime →
      (checkOverlap state.reservations nodes startTime endTime none = false ↔
        ∀ id reservation node, state.reservations.get? id = some reservation → node ∈ nodes → node ∈ reservation.nodes →
          Disjoint (Set.Ico startTime endTime) (Set.Ico reservation.startTime reservation.endTime))) ∧
    ∀ event next, ReservationEvent.Step state event next → event.Fresh state → ∀ payload reservationId,
      event.request = some (payload, reservationId) →
        (event.Passes state →
          (∃ reservation, next.reservations.get? reservationId = some reservation ∧ reservation.nodes = payload.nodes ∧
            reservation.startTime = payload.startTime ∧ reservation.endTime = payload.endTime) ∧
          ∀ other, other ≠ reservationId → next.reservations.get? other = state.reservations.get? other) ∧
        (¬ event.Passes state → next = state) := by
  have valid : Calendar state.calendar := by
    refine reached.invariant (fun state : GlobalState => Calendar state.calendar) (fun state empty => ?_)
      fun _ _ _ before step => calendar_step before step
    have none : state.calendar = fun _ => none := by
      funext id
      rw [GlobalState.calendar, empty]
      rfl
    rw [none]
    exact .empty
  have booked {id : String} {reservation : Reservation} (found : state.reservations.get? id = some reservation) :
      state.calendar id = some reservation.booking := Option.map_eq_some_iff.mpr ⟨reservation, found, rfl⟩
  refine ⟨fun id reservation found => ?_, fun id other reservation reservation' node different found found' mine theirs => ?_,
    fun nodes startTime endTime proper => ?_, fun event next step unused payload reservationId asks => ?_⟩
  · exact Set.nonempty_Ico.mpr (valid.proper id _ (booked found))
  · exact valid.apart id other _ _ different (booked found) (booked found') ⟨node, mine, theirs⟩
  · let payload : CreateReservationRequest := ⟨nodes, startTime, endTime, ""⟩
    have ordered : payload.startTime < payload.endTime := proper
    exact checkOverlap_disjoint_iff valid.proper ordered
  · rcases step_request step asks with ⟨passes, _, owner, made⟩ | ⟨fails, same⟩
    · refine ⟨fun _ => ?_, fun fails => absurd passes fails⟩
      subst made
      refine ⟨⟨_, HashMap.get?_insert_self .., rfl, rfl, rfl⟩, fun other different => ?_⟩
      rw [HashMap.get?_insert, if_neg different]
    · exact ⟨fun passes => absurd passes fails, fun _ => same⟩

/-- Two requests for one node, the second from when the first ends, and a pass. Then a third
request passes the checks. -/
theorem reservations_never_overlap_touching : ∃ state next : GlobalState,
    state.reservations.toList.map (fun entry => (entry.1, entry.2.startTime, entry.2.endTime)) =
      [("r2", 200, 300), ("r1", 100, 200)] ∧
    (∀ id other reservation reservation' node, id ≠ other → state.reservations.get? id = some reservation →
      state.reservations.get? other = some reservation' → node ∈ reservation.nodes → node ∈ reservation'.nodes →
        Disjoint (Set.Ico reservation.startTime reservation.endTime)
          (Set.Ico reservation'.startTime reservation'.endTime)) ∧
    checkOverlap state.reservations (.ofList ["w1"]) 150 250 none = true ∧
    (ReservationEvent.create ⟨HashSet.ofList ["w1"], 300, 400, "bob"⟩ "r3" 160).apply state = some next ∧
    ∃ reservation, next.reservations.get? "r3" = some reservation ∧ reservation.startTime = 300 ∧
      reservation.endTime = 400 := by
  let events : List ReservationEvent := [.other (({} : GlobalState).registerWorker (sampleRegistration "w1") 100),
    .apiCreate ⟨"ann", ["admin"]⟩ ⟨HashSet.ofList ["w1"], 100, 200, "ann"⟩ "r1" 90,
    .create ⟨HashSet.ofList ["w1"], 200, 300, "bob"⟩ "r2" 95, .schedule { now := 150 }]
  let third : CreateReservationRequest := ⟨HashSet.ofList ["w1"], 300, 400, "bob"⟩
  obtain ⟨state, ran⟩ : ∃ state, runLabels ReservationEvent.apply events {} = some state :=
    Option.isSome_iff_exists.mp (by decide +kernel)
  have facts : (runLabels ReservationEvent.apply events {}).map (fun state =>
      (state.reservations.toList.map fun entry => (entry.1, entry.2.startTime, entry.2.endTime),
        checkOverlap state.reservations (.ofList ["w1"]) 150 250 none,
        checkOverlap state.reservations third.nodes 300 400 none, state.workers.contains "w1",
        state.reservations.contains "r3")) =
        some ([("r2", 200, 300), ("r1", 100, 200)], true, false, true, false) := by decide +kernel
  rw [ran] at facts
  simp only [Option.map_some, Option.some.injEq, Prod.mk.injEq] at facts
  obtain ⟨times, overlaps, free, known, unused⟩ := facts
  have permitted : AllowedRun (fun _ _ => True) ReservationEvent.apply events {} := by decide +kernel
  have empty : Reach Unreserved (fun state event next => True ∧ ReservationEvent.apply event state = some next) {} :=
    .start rfl
  have reached := runLabels_reach empty permitted ran
  have holds := reservations_never_overlap (reached.mono fun _ _ _ step => step.2)
  have passes : (ReservationEvent.create third "r3" 160).Passes state := by
    refine ⟨by decide, by decide, ⟨"w1", by decide⟩, fun node member => ?_, free⟩
    obtain rfl : node = "w1" := List.mem_singleton.mp member
    exact known
  have fresh : (ReservationEvent.create third "r3" 160).Fresh state := Option.isNone_iff_eq_none.mp (Option.isSome_eq_false_iff.mp unused)
  obtain ⟨reservation, found, _, starts, ends⟩ := ((holds.2.2.2 (.create third "r3" 160) _ rfl fresh third "r3" rfl).1 passes).1
  exact ⟨state, _, times, holds.2.1, overlaps, rfl, reservation, found, starts, ends⟩

end Veloce
