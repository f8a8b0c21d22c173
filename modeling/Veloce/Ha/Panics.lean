import Veloce.Ha.Acyclic
import Veloce.Ha.Ids
import Veloce.Lifecycle.Matched

/-! Scheduling passes of one leader. -/

namespace Veloce

open Collections

/-- The counter does not overflow, and JobStarted finds its job Running. -/
def InTime (controller : Controller) : ControllerEvent → Prop
  | .act (.jobStarted report) => ∀ job ∈ controller.state.jobs.get? report.jobId, job.status = .running
  | .desk (.accept site principal request) =>
    match request.handle site principal with
    | .ok admission => controller.desk.nextJobId + admission.idCount < 2 ^ 64
    | .error _ => True
  | _ => True

instance (controller : Controller) : (event : ControllerEvent) → Decidable (InTime controller event)
  | .act (.jobStarted report) => inferInstanceAs
    (Decidable (∀ job ∈ controller.state.jobs.get? report.jobId, job.status = .running))
  | .desk (.accept site principal request) => decidableCounted (request.handle site principal) _
  | .act (.submit ..) | .act (.register ..) | .act (.endWriter ..) | .act (.disconnect ..) | .act (.schedule _) | .act (.preempt _)
  | .act (.reconcile ..) | .act (.jobDone ..) | .act (.mergeDone _) | .act (.finishDone ..) | .act (.jobError ..)
  | .act (.jobKilled ..) | .act (.cancel ..) | .act (.checkTimeouts ..) | .act (.prune ..)
  | .desk (.check _) | .desk (.send _) | .desk (.answer _) | .desk (.process _) | .hear _ | .drain _ | .reserve _
  | .syncActiveState | .connect _ | .hangUp _ | .beat _ | .promote _ | .receive .. | .restart .. => isTrue trivial

structure Controller.Matches (controller : Controller) : Prop where
  lead : controller.leads = true
  orderly : Orderly controller.state.jobs
  numbered : controller.Numbered
  matched : Matched controller.state

section Steps

variable {controller next : Controller} {id : String} {sent : Posted} {history history' : History}

theorem Matched.acceptBatch {state : GlobalState} (valid : Matched state) (batch : List Submission) (nextJobId : Nat)
    (new : ∀ submission ∈ batch, submission.job.id ∉ state.jobs.keys) :
    Matched (state.acceptBatch batch nextJobId) := by
  by_cases lead : state.role = .leader
  · rw [acceptBatch_leader _ _ _ lead]
    refine valid.table (fun jobId => ?_) rfl
    by_cases entered : ∃ submission ∈ batch, submission.job.id = jobId
    · obtain ⟨submission, listed, same⟩ := entered
      refine .inr ⟨fun job found => ?_, fun job' found => ?_⟩
      · exact absurd (HashMap.mem_keys.mpr ⟨job, same ▸ found⟩) (new submission listed)
      · rcases get?_insertBatch found with old | ⟨submission', _, _, equal⟩
        · exact absurd (HashMap.mem_keys.mpr ⟨job', same ▸ old⟩) (new submission listed)
        · rw [← equal, submission'.pending]
          exact JobStatus.noConfusion
    · have absent : jobId ∉ batch.map (·.job.id) := by
        intro listed
        obtain ⟨submission, member, same⟩ := List.mem_map.mp listed
        exact entered ⟨submission, member, same⟩
      exact .inl (by rw [get?_insertBatch_other absent])
  · rw [acceptBatch_follower lead]
    exact valid

theorem sameFootprint_recordJobStats (workerId : WorkerId) (idleTimeout now : Nat)
    (view : Telemetry × HashMap JobId JobInfo) (stats : JobStats) :
    SameFootprint view.2 (recordJobStats workerId idleTimeout now view stats).2 := by
  unfold recordJobStats
  cases view.2.get? stats.jobId with
  | none => exact fun _ => rfl
  | some job =>
    refine sameFootprint_modify view.2 stats.jobId fun job => ?_
    exact (degradeQos_keeps _ idleTimeout).2.trans (withIdleness_keeps _ _ _ now).2

theorem Matched.directHeartbeat {ctx : ControllerContext} (valid : Matched ctx.state) (telemetry : Telemetry)
    (order : IterOrder Unit) (pulse : Pulse) (connectionId idleTimeout now : Nat) :
    Matched (ctx.directHeartbeat telemetry order pulse connectionId idleTimeout now).1.state := by
  unfold ControllerContext.directHeartbeat
  split
  · let refreshed : ControllerContext := { ctx with state := ctx.state.refreshWorker pulse now }
    have seen : Matched refreshed.state := valid.modify pulse.workerId fun _ => ⟨rfl, rfl, rfl, rfl, rfl⟩
    have heard : Matched (ctx.hearWorker order pulse now).state :=
      seen.reconcile order pulse.workerId pulse.activeJobIds now
    refine heard.table ?_ rfl
    -- The statistics change no record that the ledgers could tell apart.
    refine sameHolders_footprint (List.foldlRecOn (motive := fun view : Telemetry × HashMap JobId JobInfo =>
      SameFootprint (ctx.hearWorker order pulse now).state.jobs view.2) pulse.jobStats _ (fun _ => rfl) ?_)
    intro view before stats _ jobId
    exact (sameFootprint_recordJobStats pulse.workerId idleTimeout now view stats jobId).trans (before jobId)
  · exact valid

theorem Matched.serve (valid : Matched controller.state) (numbered : controller.Numbered)
    (lead : controller.leads = true)
    {event : DeskEvent} (taken : controller.serve event = some next) : Matched next.state := by
  obtain ⟨⟨state, desk⟩, applied, same⟩ := Option.map_eq_some_iff.mp taken
  subst same
  cases deskMove applied with
  | refused | accepted | circular | passed | sent | answered => exact valid
  | @processed count =>
    refine valid.acceptBatch _ _ fun submission listed => ?_
    refine (numbered.above lead).waiting _ (Desk.mem_ids_channel (List.mem_map.mpr ⟨submission, ?_, rfl⟩))
    exact List.mem_of_mem_take listed

variable {event : ControllerEvent}

theorem InTime.takesOverAbove (allowed : InTime controller event) (own : event.isLocal = true)
    (lead : controller.leads = true) (taken : controller.step id event history = some (next, sent, history')) :
    TakesOverAbove id controller event := by
  cases event with
  | desk event =>
    cases event with
    | accept site principal request => exact allowed
    | check | send | answer | process => trivial
  | promote now => simp [Controller.step, lead] at taken
  | receive | restart => cases own
  | act | hear | drain | reserve | syncActiveState | connect | hangUp | beat => trivial

theorem Matched.step (valid : controller.Matches) (own : event.isLocal = true) (allowed : InTime controller event)
    (taken : controller.step id event history = some (next, sent, history')) :
    Matched next.state := by
  have matched := valid.matched
  cases event with
  | act event =>
    obtain ⟨after, applied, other, ⟨same, _⟩, _⟩ := act_cases taken
    rw [Controller.state, same]
    refine matched.apply valid.orderly.keyed (fun report about job found => ?_) other applied
    subst about
    exact allowed job found
  | desk event =>
    obtain ⟨served, applied, same⟩ := Option.map_eq_some_iff.mp taken
    cases same
    exact matched.serve valid.numbered valid.lead applied
  | hear heard =>
    simp only [Controller.step, Controller.hear, valid.lead, ↓reduceIte, Option.some.injEq, Prod.mk.injEq] at taken
    obtain ⟨same, _⟩ := taken
    subst same
    exact matched.directHeartbeat controller.telemetry heard.order heard.pulse heard.connectionId heard.idleTimeout heard.now
  | drain workerId =>
    cases taken
    exact matched.modify workerId fun _ => ⟨rfl, rfl, rfl, rfl, rfl⟩
  | reserve | syncActiveState | connect | hangUp =>
    cases taken
    exact matched.table (.refl _) rfl
  | beat peerId =>
    simp only [Controller.step] at taken
    split at taken <;> cases taken
    exact matched
  | promote now => simp [Controller.step, valid.lead] at taken
  | receive | restart => cases own

theorem goes_matches (valid : controller.Matches) (taken : Controller.Goes InTime controller event next) :
    next.Matches := by
  obtain ⟨⟨own, allowed⟩, id, sent, history, history', stepped⟩ := taken
  have none (snapshot : PersistedState) (carried : event.snapshot = some snapshot) : False := by
    rw [ControllerEvent.snapshot_local own] at carried
    cases carried
  refine ⟨step_keeps_lead own valid.lead stepped, ?_, ?_, Matched.step valid own allowed stepped⟩
  · exact valid.orderly.course (fun snapshot carried => (none snapshot carried).elim) (step_course stepped)
  · exact step_numbered valid.numbered (fun snapshot carried => (none snapshot carried).elim)
      (allowed.takesOverAbove own valid.lead stepped) stepped

end Steps

/-- A pass of a leader does not panic if every queued job asks for a node and every
free or assigned unit is one that its worker reports. -/
theorem pass_in_range {controller : Controller}
    (reached : Reach Controller.NewLeader (Controller.Goes InTime) controller) (range : controller.state.InRange)
    (input : PassInput) : ∃ final, scheduleJobs input controller.state = some final := by
  have valid : controller.Matches := by
    refine reached.invariant Controller.Matches ?_ fun _ _ _ valid taken => goes_matches valid taken
    rintro controller ⟨fresh, lead⟩
    refine ⟨lead, fresh.jobs ▸ orderly_empty, fresh.numbered, ⟨?_, fun workerId worker found => ?_⟩⟩
    · rw [fresh.jobs]
      exact ⟨fun _ => Pool.apart_range 0 fun _ => rfl, fun _ _ => Pool.apart_range 0 fun _ => rfl⟩
    · rw [fresh.workers] at found
      cases found
  exact range.schedules valid.matched.agrees input

section Sample

/-- A worker runs a preemptible job when an interactive job of all its cores arrives. -/
def busyWorker (pulse : Pulse) : List ControllerEvent :=
  let small : SubmitMessage := { binary := "sh", reqMemory := 100, qos := .preemptible }
  let large : SubmitMessage := { small with reqCores := 4, walltime := 600, qos := .interactive }
  [.act (.register (sampleRegistration "w1") 10)] ++
    (sampleRequest (.submit small)).map ControllerEvent.desk ++
    [.act (.schedule { now := 100 }), .hear { pulse, connectionId := 1, now := 101 }] ++
    (sampleRequest (.submit large)).map ControllerEvent.desk

def samplePulse (cpuCores : Nat) : Pulse where
  workerId := "w1"
  resources := { sampleResources with cpuCores := cpuCores }
  jobStats := [⟨1, 0, false, 0, false⟩]

theorem pass_in_range_busy : ∃ controller final,
    Reach Controller.NewLeader (Controller.Goes InTime) controller ∧ controller.state.InRange ∧
    controller.state.queue = [2] ∧ scheduleJobs { now := 200 } controller.state = some final := by
  obtain ⟨controller, ran⟩ : ∃ controller,
      runLabels Controller.advance (busyWorker (samplePulse 4)) newLeader = some controller :=
    Option.isSome_iff_exists.mp (by decide +kernel)
  have permitted : AllowedRun InTime Controller.advance (busyWorker (samplePulse 4)) newLeader := by decide +kernel
  have facts : (runLabels Controller.advance (busyWorker (samplePulse 4)) newLeader).map (fun controller =>
      (decide controller.state.InRange, controller.state.queue)) = some (true, [2]) := by decide +kernel
  rw [ran, Option.map_some, Option.some.injEq, Prod.mk.injEq, decide_eq_true_eq] at facts
  have reached := advance_reach permitted ran
  obtain ⟨final, scheduled⟩ := pass_in_range reached facts.1 { now := 200 }
  exact ⟨controller, final, reached, facts.1, facts.2, scheduled⟩

/-- A job that asks for no node finds no worker; and a worker reports two cores while its
handle has four of them. -/
theorem pass_out_of_range :
    (∃ controller, Reach Controller.NewLeader (Controller.Goes InTime) controller ∧
      controller.state.workers.keys = [] ∧ scheduleJobs { now := 100 } controller.state = none) ∧
    ∃ controller, Reach Controller.NewLeader (Controller.Goes InTime) controller ∧
      (∀ jobId ∈ controller.state.queue, ∀ job ∈ controller.state.jobs.get? jobId, 1 ≤ job.reqNodes) ∧
      scheduleJobs { now := 200 } controller.state = none := by
  constructor
  · let events := (sampleRequest (.submit { binary := "sh", reqNodes := 0 })).map ControllerEvent.desk
    have permitted : AllowedRun InTime Controller.advance events newLeader := by decide +kernel
    have facts : (runLabels Controller.advance events newLeader).map (fun controller =>
        (controller.state.workers.keys, (scheduleJobs { now := 100 } controller.state).isNone)) = some ([], true) := by
      decide +kernel
    obtain ⟨controller, ran, facts⟩ := Option.map_eq_some_iff.mp facts
    rw [Prod.mk.injEq, Option.isNone_iff_eq_none] at facts
    exact ⟨controller, advance_reach permitted ran, facts⟩
  · let events := busyWorker (samplePulse 2)
    have permitted : AllowedRun InTime Controller.advance events newLeader := by decide +kernel
    have facts : (runLabels Controller.advance events newLeader).map (fun controller =>
        (decide (∀ jobId ∈ controller.state.queue, ∀ job ∈ controller.state.jobs.get? jobId, 1 ≤ job.reqNodes),
          (scheduleJobs { now := 200 } controller.state).isNone)) = some (true, true) := by
      decide +kernel
    obtain ⟨controller, ran, facts⟩ := Option.map_eq_some_iff.mp facts
    rw [Prod.mk.injEq, decide_eq_true_eq, Option.isNone_iff_eq_none] at facts
    exact ⟨controller, advance_reach permitted ran, facts⟩

end Sample

end Veloce
