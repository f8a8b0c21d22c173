import Veloce.Handlers.Client
import Veloce.Handlers.Worker
import Veloce.Scheduler.PassSpec

/-! What a pass starts. -/

namespace Veloce

open Collections

/-- How long a reservation test expects a job to run; a day without a walltime. -/
def JobInfo.reservedDuration (job : JobInfo) : Nat := if job.walltime = 0 then 24 * 3600 else job.walltime

/-- Another owner's reservation claims the worker at some time of a run that
starts now. -/
structure Reservation.Claims (reservation : Reservation) (workerId : WorkerId) (job : JobInfo) (now : Nat) : Prop where
  node : workerId ∈ reservation.nodes
  foreign : reservation.owner ≠ job.userId
  meets : (reservation.startTime ≤ now ∧ now < reservation.endTime) ∨
    (now < reservation.startTime ∧ reservation.startTime < now + job.reservedDuration)

/-- The record of a job that the turn from `before` to `after` has started. -/
def startedBy (before after : GlobalState) (jobId : JobId) : Option JobInfo :=
  match before.jobs.get? jobId, after.jobs.get? jobId with
  | some old, some new => if old.status ≠ .running ∧ new.status = .running then some new else none
  | _, _ => none

/-- The records of the jobs that the turns start, each as its start leaves it. -/
def passStarts (input : PassInput) : List JobId → PassState → List JobInfo
  | [], _ => []
  | jobId :: rest, pass =>
    match passTurn input rest.length pass jobId with
    | none => []
    | some next => (startedBy pass.state next.state jobId).toList ++ passStarts input rest next

def scheduleStarts (input : PassInput) (state : GlobalState) : List JobInfo :=
  passStarts input (pendingOrder input state) { state := passStart input state }

variable {input : PassInput} {state state' : GlobalState} {job : JobInfo} {workerId : WorkerId}

variable {reservation : Reservation} {placement : Placement} {pass next : PassState} {turn : Nat} {jobId : JobId}

/-- As long as no sum wraps, the test finds every reservation that claims the worker. -/
theorem Reservation.blocks_of_claims {now : Nat} (bounded : now + job.reservedDuration < 2 ^ 64)
    (claims : reservation.Claims workerId job now) :
    reservation.blocks workerId job now = true := by
  have sum : addU64 now (if job.walltime = 0 then 24 * 3600 else job.walltime) = now + job.reservedDuration :=
    Nat.mod_eq_of_lt bounded
  have meets := claims.meets
  simp only [blocks, sum, claims.node, bne_iff_ne, ne_eq, claims.foreign, not_false_eq_true, decide_true,
    Bool.and_eq_true, Bool.or_eq_true, decide_eq_true_eq, true_and]
  omega

theorem GlobalState.isReserved_of_claims {now : Nat} {name : String}
    (found : state.reservations.get? name = some reservation) (bounded : now + job.reservedDuration < 2 ^ 64)
    (claims : reservation.Claims workerId job now) : state.isReserved workerId job now = true :=
  List.any_eq_true.mpr ⟨reservation, HashMap.mem_values.mpr ⟨name, found⟩, reservation.blocks_of_claims bounded claims⟩

/-- Neither way of choosing nodes takes a reserved worker. -/
theorem PlacementOk.unreserved (ok : PlacementOk input turn state job placement) (node : workerId ∈ placement.nodes) :
    state.isReserved workerId job input.now = false := by
  rcases ok.fits with ⟨_, fits⟩ | fits
  · obtain ⟨worker, _, _, reasons⟩ := fits workerId node
    simp only [workerFailReasons, List.append_eq_nil_iff, ite_eq_right_iff, reduceCtorEq, imp_false,
      Bool.not_eq_true] at reasons
    exact reasons.1.1.1
  · obtain ⟨worker, _, _, fitting, _⟩ := fits workerId node
    simp only [fitsAfterEviction, Bool.and_eq_true, Bool.not_eq_true'] at fitting
    exact fitting.1.1.1

/-- What the user asked for: the record without what a pass writes into it. -/
def JobInfo.request (job : JobInfo) : JobInfo := job.requeued.unworded

/-- Two tables of the same jobs with the same requests. -/
def SameRequests (jobs jobs' : HashMap JobId JobInfo) : Prop :=
  ∀ jobId, (jobs'.get? jobId).map JobInfo.request = (jobs.get? jobId).map JobInfo.request

namespace SameRequests

variable {jobs middle jobs' : HashMap JobId JobInfo} {jobId : JobId}

theorem refl (jobs : HashMap JobId JobInfo) : SameRequests jobs jobs := fun _ => rfl

theorem trans (first : SameRequests jobs middle) (second : SameRequests middle jobs') : SameRequests jobs jobs' :=
  fun jobId => (second jobId).trans (first jobId)

theorem found_back (same : SameRequests jobs jobs') {job' : JobInfo} (found : jobs'.get? jobId = some job') :
    ∃ job, jobs.get? jobId = some job ∧ job'.request = job.request := by
  have table := same jobId
  rw [found, Option.map_some] at table
  obtain ⟨job, stored, equal⟩ := Option.map_eq_some_iff.mp table.symm
  exact ⟨job, stored, equal.symm⟩

theorem of_modify (jobs : HashMap JobId JobInfo) (jobId : JobId) {update : JobInfo → JobInfo}
    (keeps : ∀ job, (update job).request = job.request) : SameRequests jobs (jobs.modify jobId update) := by
  intro other
  rw [HashMap.get?_modify]
  split
  · rename_i same
    rw [same, Option.map_map]
    exact congrArg (fun view => (jobs.get? jobId).map view) (funext keeps)
  · rfl

end SameRequests

theorem evicted_request (job : JobInfo) : job.evicted.request = job.request := by
  unfold JobInfo.evicted
  split <;> rfl

theorem Reworded.requests (reworded : Reworded state state') : SameRequests state.jobs state'.jobs := by
  intro jobId
  have table := congrArg (Option.map JobInfo.request) (reworded.table jobId)
  rw [Option.map_map, Option.map_map] at table
  exact table

theorem evictJobs_requests (state : GlobalState) (evictions : List JobId) :
    SameRequests state.jobs (state.evictJobs evictions).jobs := by
  intro jobId
  rw [GlobalState.get?_evictJobs]
  split
  · rw [Option.map_map]
    exact congrArg (fun view => (state.jobs.get? jobId).map view) (funext evicted_request)
  · rfl

theorem startJob_requests (starts : startJob input state job placement = some state') :
    SameRequests state.jobs state'.jobs := by
  obtain ⟨workers, _, same⟩ := startJob_eq starts
  rw [same]
  exact (evictJobs_requests _ _).trans (.of_modify _ _ fun _ => rfl)

theorem turn_requests (outcome : TurnOutcome input turn pass jobId next) :
    SameRequests pass.state.jobs next.state.jobs := by
  cases outcome with
  | skip _ _ => exact .refl _
  | wait _ _ _ reworded _ => exact reworded.requests
  | start _ _ _ reworded _ starts => exact reworded.requests.trans (startJob_requests starts)

theorem Reworded.reservations (reworded : Reworded state state') : state'.reservations = state.reservations := by
  rw [reworded.rest]

theorem startJob_reservations (starts : startJob input state job placement = some state') :
    state'.reservations = state.reservations := by
  obtain ⟨workers, _, same⟩ := startJob_eq starts
  rw [same, GlobalState.evictJobs_frame]

theorem turn_reservations (outcome : TurnOutcome input turn pass jobId next) :
    next.state.reservations = pass.state.reservations := by
  cases outcome with
  | skip _ _ => rfl
  | wait _ _ _ reworded _ => exact reworded.reservations
  | start _ _ _ reworded _ starts => exact (startJob_reservations starts).trans reworded.reservations

/-- A pass drops the reservations that have ended and keeps the others. -/
theorem schedule_reservations (ran : scheduleJobs input state = some state') :
    state'.reservations = state.reservations.retain fun _ reservation => decide (reservation.endTime > input.now) := by
  obtain ⟨pass, turns, same⟩ := Option.map_eq_some_iff.mp ran
  subst same
  refine passTurns_invariant (fun _ pass => pass.state.reservations =
    state.reservations.retain fun _ reservation => decide (reservation.endTime > input.now)) ?_ _ rfl turns
  intro jobId rest pass next kept taken
  exact (turn_reservations (passTurn_outcome taken)).trans kept

theorem startJob_nodes (starts : startJob input state job placement = some state') {started : JobInfo}
    (found : state'.jobs.get? job.id = some started) :
    started.assignedWorkers = placement.nodes := by
  obtain ⟨workers, _, same⟩ := startJob_eq starts
  rw [same] at found
  simp only [HashMap.get?_modify, ↓reduceIte] at found
  obtain ⟨record, _, updated⟩ := Option.map_eq_some_iff.mp found
  rw [← updated]
  rfl

/-- A turn that starts its job has placed it on the workers of the record. -/
theorem turn_started (outcome : TurnOutcome input turn pass jobId next)
    (starts : startedBy pass.state next.state jobId = some job) :
    ∃ record cleared placement, pass.state.jobs.get? jobId = some record ∧ Reworded pass.state cleared ∧
      placeJob input turn cleared { record with id := jobId } = some (some placement) ∧
      job.request = record.request ∧ job.assignedWorkers = placement.nodes := by
  unfold startedBy at starts
  split at starts
  · rename_i old new before after
    split at starts
    · rename_i change
      cases starts
      obtain ⟨record, found, request⟩ := (turn_requests outcome).found_back after
      cases outcome with
      | skip _ _ =>
        cases before.symm.trans after
        exact absurd change.2 change.1
      | wait _ _ _ reworded _ =>
        obtain ⟨stored, found', same⟩ := reworded.found before
        cases after.symm.trans found'
        have status := congrArg JobInfo.status same
        exact absurd (status.symm.trans change.2) change.1
      | @start record' placement cleared _ found' _ _ reworded placed begins =>
        cases found.symm.trans found'
        exact ⟨record, cleared, placement, found, reworded, placed, request, startJob_nodes begins after⟩
    · cases starts
  · cases starts

theorem JobInfo.reservedDuration_request {job job' : JobInfo} (same : job'.request = job.request) :
    job'.reservedDuration = job.reservedDuration := by
  have whole := congrArg JobInfo.reservedDuration same
  exact whole

theorem Reservation.Claims.congr {job' : JobInfo} {now : Nat} (claims : reservation.Claims workerId job now)
    (user : job'.userId = job.userId) (duration : job'.reservedDuration = job.reservedDuration) :
    reservation.Claims workerId job' now := by
  refine ⟨claims.node, user ▸ claims.foreign, ?_⟩
  rw [duration]
  exact claims.meets

theorem turn_unclaimed (outcome : TurnOutcome input turn pass jobId next)
    (starts : startedBy pass.state next.state jobId = some job)
    (bounded : ∀ jobId job, pass.state.jobs.get? jobId = some job → input.now + job.reservedDuration < 2 ^ 64)
    (node : workerId ∈ job.assignedWorkers) {name : String}
    (reserved : pass.state.reservations.get? name = some reservation) :
    ¬ reservation.Claims workerId job input.now := by
  intro claims
  obtain ⟨record, cleared, placement, found, reworded, placed, request, nodes⟩ := turn_started outcome starts
  rw [nodes] at node
  have free := (placeJob_ok placed).unreserved node
  have user := congrArg JobInfo.userId request
  have claimed : reservation.Claims workerId { record with id := jobId } input.now :=
    claims.congr user.symm (JobInfo.reservedDuration_request request).symm
  rw [← reworded.reservations] at reserved
  have room : input.now + ({ record with id := jobId } : JobInfo).reservedDuration < 2 ^ 64 :=
    bounded jobId record found
  have taken := GlobalState.isReserved_of_claims reserved room claimed
  rw [taken] at free
  cases free

theorem passStarts_unclaimed (order : List JobId) : ∀ {pass : PassState},
    (∀ jobId job, pass.state.jobs.get? jobId = some job → input.now + job.reservedDuration < 2 ^ 64) →
    ∀ job ∈ passStarts input order pass, ∀ workerId ∈ job.assignedWorkers, ∀ name reservation,
      pass.state.reservations.get? name = some reservation → ¬ reservation.Claims workerId job input.now := by
  induction order with
  | nil =>
    intro pass _ job member
    cases member
  | cons jobId rest ih =>
    intro pass bounded job member workerId node name reservation reserved
    unfold passStarts at member
    split at member
    · cases member
    · rename_i next taken
      have outcome := passTurn_outcome taken
      rcases List.mem_append.mp member with here | later
      · exact turn_unclaimed outcome (Option.mem_toList.mp here) bounded node reserved
      · refine ih ?_ job later workerId node name reservation ?_
        · intro other record found
          obtain ⟨before, stored, request⟩ := (turn_requests outcome).found_back found
          rw [JobInfo.reservedDuration_request request]
          exact bounded other before stored
        · rw [turn_reservations outcome]
          exact reserved

/-- Whatever a pass starts, with or without preemption, runs on no worker that a
reservation of another owner claims. A reservation that has ended is gone. -/
theorem schedule_respects_reservations
    (bounded : ∀ jobId job, state.jobs.get? jobId = some job → input.now + job.reservedDuration < 2 ^ 64) :
    ∀ job ∈ scheduleStarts input state, ∀ workerId ∈ job.assignedWorkers, ∀ name reservation,
      state.reservations.get? name = some reservation → input.now < reservation.endTime →
        ¬ reservation.Claims workerId job input.now := by
  intro job started workerId node name reservation reserved lasts
  refine passStarts_unclaimed (pendingOrder input state) bounded job started workerId node name reservation ?_
  rw [passStart, HashMap.get?_retain, reserved]
  simp [lasts]

/-- A leader with one worker, one queued job of another user and a reservation. -/
def reservedState (reservation : Reservation) : GlobalState :=
  { sampleLeader.state.acceptSubmission (sampleSubmission 2 .production 1 "sh") 3 with
    reservations := HashMap.ofList [("r", reservation)] }.registerWorker (sampleRegistration "w1") 100

def foreignReservation (startTime endTime : Nat) : Reservation where
  id := "r"
  nodes := HashSet.ofList ["w1"]
  startTime := startTime
  endTime := endTime
  owner := "other"

theorem reservedState_bounded (reservation : Reservation) : ∀ jobId job,
    (reservedState reservation).jobs.get? jobId = some job → 100 + job.reservedDuration < 2 ^ 64 := by
  intro jobId job found
  have stored : ((∅ : HashMap JobId JobInfo).insert 2 (sampleSubmission 2 .production 1 "sh").job).get? jobId =
      some job := found
  rw [HashMap.get?_insert] at stored
  split at stored
  · cases stored
    decide
  · cases stored

/-- A job that ends before the reservation starts gets the worker. -/
theorem schedule_respects_reservations_tomorrow :
    ∃ job ∈ scheduleStarts { now := 100 } (reservedState (foreignReservation 100000 200000)),
      "w1" ∈ job.assignedWorkers ∧ ¬ (foreignReservation 100000 200000).Claims "w1" job 100 := by
  have starts : (scheduleStarts { now := 100 } (reservedState (foreignReservation 100000 200000))).map
      JobInfo.assignedWorkers = [["w1"]] := by decide +kernel
  obtain ⟨job, only, nodes⟩ := List.map_eq_singleton_iff.mp starts
  have member : job ∈ scheduleStarts { now := 100 } (reservedState (foreignReservation 100000 200000)) := by
    rw [only]
    exact List.mem_singleton_self job
  have node : "w1" ∈ job.assignedWorkers := by
    rw [nodes]
    exact List.mem_singleton_self "w1"
  exact ⟨job, member, node, @schedule_respects_reservations { now := 100 } _ (reservedState_bounded _) job
    member "w1" node "r" _ rfl (by decide)⟩

/-- A reservation whose end lies before its start counts as ended, so the job gets the
worker although the reservation starts during its run. -/
theorem schedule_drops_inverted_reservation :
    (∀ jobId job, (reservedState (foreignReservation 200 50)).jobs.get? jobId = some job →
      100 + job.reservedDuration < 2 ^ 64) ∧
    (reservedState (foreignReservation 200 50)).reservations.get? "r" = some (foreignReservation 200 50) ∧
    ∃ job ∈ scheduleStarts { now := 100 } (reservedState (foreignReservation 200 50)),
      "w1" ∈ job.assignedWorkers ∧ (foreignReservation 200 50).Claims "w1" job 100 := by
  refine ⟨reservedState_bounded _, rfl, ?_⟩
  have starts : (scheduleStarts { now := 100 } (reservedState (foreignReservation 200 50))).map
      (fun job => (job.assignedWorkers, job.userId, job.reservedDuration)) = [(["w1"], "user", 86400)] := by
    decide +kernel
  obtain ⟨job, only, same⟩ := List.map_eq_singleton_iff.mp starts
  simp only [Prod.mk.injEq] at same
  obtain ⟨nodes, user, duration⟩ := same
  refine ⟨job, ?_, ?_, ?_, ?_, .inr ?_⟩
  · rw [only]
    exact List.mem_singleton_self job
  · rw [nodes]
    exact List.mem_singleton_self "w1"
  · decide
  · rw [user]
    decide
  · rw [duration]
    decide

end Veloce
