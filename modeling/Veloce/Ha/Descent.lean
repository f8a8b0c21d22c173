import Veloce.Ha.Course
import Veloce.Handlers.Policy

/-! What a record keeps from its submission on: every table descends from the one
before it, except that batches, snapshots and restarts bring other records. -/

namespace Veloce

open Collections

/-- A record without what the controller writes into it later. -/
def JobInfo.requested (job : JobInfo) : JobInfo :=
  { job with
    status := .pending, assignedWorkers := [], startTime := none, endTime := none, currentMemoryUsage := 0, isIdle := false,
    idleDuration := 0, reason := none, cgroupActive := false, allocatedCores := ∅, allocatedGres := ∅, secret := "",
    stdoutFileId := none, stderrFileId := none, workdirFileId := none, workerLogFiles := ∅, outputArtifacts := [],
    qos := .production }

/-- A later version of a record: only the QoS of an idle job is lowered. -/
structure JobInfo.Follows (job' job : JobInfo) : Prop where
  requested : job'.requested = job.requested
  qos : job'.qos = job.qos ∨ job'.qos = .preemptible

/-- Every record of the later table is a later version of an earlier one. -/
def Stems (jobs jobs' : HashMap JobId JobInfo) : Prop :=
  ∀ jobId job', jobs'.get? jobId = some job' → ∃ job, jobs.get? jobId = some job ∧ job'.Follows job

/-- A later version of a record of a controller whose passes run at these times. -/
structure JobInfo.Succeeds (Clock : Nat → Prop) (job' job : JobInfo) : Prop extends job'.Follows job where
  estimate : job'.estimatedWalltime = job.estimatedWalltime
  start : job'.startTime = job.startTime ∨ job'.startTime = none ∨ ∃ now, Clock now ∧ job'.startTime = some now

def Lineage (Clock : Nat → Prop) (jobs jobs' : HashMap JobId JobInfo) : Prop :=
  ∀ jobId job', jobs'.get? jobId = some job' → ∃ job, jobs.get? jobId = some job ∧ job'.Succeeds Clock job

variable {state state' : GlobalState} {ctx : ControllerContext} {jobs jobs' middle : HashMap JobId JobInfo}
  {Clock : Nat → Prop}

theorem JobInfo.Follows.refl (job : JobInfo) : job.Follows job := ⟨rfl, .inl rfl⟩

theorem JobInfo.Follows.trans {job middle job' : JobInfo} (first : middle.Follows job) (second : job'.Follows middle) :
    job'.Follows job where
  requested := second.requested.trans first.requested
  qos := second.qos.elim (fun same => same ▸ first.qos) .inr

/-- What the controller does not write stays as it was. -/
theorem JobInfo.Follows.keeps {α : Type} {job job' : JobInfo} (later : job'.Follows job) (read : JobInfo → α)
    (unwritten : ∀ job : JobInfo, read job.requested = read job) : read job' = read job := by
  rw [← unwritten job', later.requested, unwritten]

theorem Stems.refl (jobs : HashMap JobId JobInfo) : Stems jobs jobs := fun _ job found => ⟨job, found, .refl job⟩

theorem Stems.trans (first : Stems jobs middle) (second : Stems middle jobs') : Stems jobs jobs' := by
  intro jobId job' found
  obtain ⟨job, found, same⟩ := second jobId job' found
  obtain ⟨origin, found, same'⟩ := first jobId job found
  exact ⟨origin, found, same'.trans same⟩

theorem JobInfo.Succeeds.refl (job : JobInfo) : job.Succeeds Clock job := ⟨.refl job, rfl, .inl rfl⟩

theorem JobInfo.Succeeds.trans {job middle job' : JobInfo} (first : middle.Succeeds Clock job)
    (second : job'.Succeeds Clock middle) : job'.Succeeds Clock job where
  toFollows := first.toFollows.trans second.toFollows
  estimate := second.estimate.trans first.estimate
  start := second.start.elim (fun same => same ▸ first.start) .inr

theorem Lineage.stems (lineage : Lineage Clock jobs jobs') : Stems jobs jobs' := by
  intro jobId job' found
  obtain ⟨job, stored, later⟩ := lineage jobId job' found
  exact ⟨job, stored, later.toFollows⟩

theorem Lineage.refl (jobs : HashMap JobId JobInfo) : Lineage Clock jobs jobs :=
  fun _ job found => ⟨job, found, .refl job⟩

theorem Lineage.trans (first : Lineage Clock jobs middle) (second : Lineage Clock middle jobs') :
    Lineage Clock jobs jobs' := by
  intro jobId job' found
  obtain ⟨job, found, later⟩ := second jobId job' found
  obtain ⟨origin, found, earlier⟩ := first jobId job found
  exact ⟨origin, found, earlier.trans later⟩

theorem lineage_modify (jobs : HashMap JobId JobInfo) (jobId : JobId) {update : JobInfo → JobInfo}
    (keeps : ∀ job, (update job).Succeeds Clock job) : Lineage Clock jobs (jobs.modify jobId update) := by
  intro other job' found
  rw [HashMap.get?_modify] at found
  split at found
  · rename_i same
    obtain ⟨job, stored, updated⟩ := Option.map_eq_some_iff.mp found
    exact ⟨job, same ▸ stored, updated ▸ keeps job⟩
  · exact ⟨job', found, .refl job'⟩

theorem Retires.lineage {jobId : JobId} (retires : Retires state state' jobId) :
    Lineage Clock state.jobs state'.jobs := by
  intro other job' found
  rw [retires.get? other] at found
  split at found
  · cases found
  · exact ⟨job', found, .refl job'⟩

theorem unworded_succeeds {job job' : JobInfo} (same : job'.unworded = job.unworded) : job'.Succeeds Clock job := by
  have requested := congrArg JobInfo.requested same
  have qos := congrArg JobInfo.qos same
  have estimate := congrArg JobInfo.estimatedWalltime same
  have start := congrArg JobInfo.startTime same
  exact ⟨⟨requested, .inl qos⟩, estimate, .inl start⟩

theorem Reworded.lineage (reworded : Reworded state state') : Lineage Clock state.jobs state'.jobs := by
  intro jobId job' found
  obtain ⟨job, stored, same⟩ := reworded.found_back found
  exact ⟨job, stored, unworded_succeeds same⟩

theorem evicted_succeeds (job : JobInfo) : job.evicted.Succeeds Clock job := by
  unfold JobInfo.evicted
  split
  · exact ⟨⟨rfl, .inl rfl⟩, rfl, .inr (.inl rfl)⟩
  · exact .refl job

theorem evictJobs_lineage (state : GlobalState) (evictions : List JobId) :
    Lineage Clock state.jobs (state.evictJobs evictions).jobs := by
  intro jobId job' found
  rw [GlobalState.get?_evictJobs] at found
  split at found
  · obtain ⟨job, stored, updated⟩ := Option.map_eq_some_iff.mp found
    exact ⟨job, stored, updated ▸ evicted_succeeds job⟩
  · exact ⟨job', found, .refl job'⟩

variable {input : PassInput}

theorem turn_lineage {turn : Nat} {pass next : PassState} {turnOf : JobId} (clock : Clock input.now)
    (outcome : TurnOutcome input turn pass turnOf next) :
    Lineage Clock pass.state.jobs next.state.jobs := by
  cases outcome with
  | skip _ _ => exact .refl _
  | wait _ _ _ reworded _ => exact reworded.lineage
  | start _ _ _ reworded _ starts =>
    obtain ⟨workers, _, same⟩ := startJob_eq starts
    rw [same]
    refine (reworded.lineage.trans (evictJobs_lineage _ _)).trans (lineage_modify _ _ fun job => ?_)
    exact ⟨⟨rfl, .inl rfl⟩, rfl, .inr (.inr ⟨input.now, clock, rfl⟩)⟩

theorem turn_stems {turn : Nat} {pass next : PassState} {turnOf : JobId}
    (outcome : TurnOutcome input turn pass turnOf next) : Stems pass.state.jobs next.state.jobs :=
  (@turn_lineage (fun _ => True) _ _ _ _ _ trivial outcome).stems

theorem schedule_lineage (clock : Clock input.now) (ran : scheduleJobs input state = some state') :
    Lineage Clock state.jobs state'.jobs := by
  obtain ⟨pass, turns, same⟩ := Option.map_eq_some_iff.mp ran
  subst same
  refine passTurns_invariant (fun _ pass => Lineage Clock state.jobs pass.state.jobs) ?_ _ (.refl _) turns
  intro jobId rest pass next valid taken
  exact valid.trans (turn_lineage clock (passTurn_outcome taken))

theorem reconcile_lineage (order : IterOrder Unit) (ctx : ControllerContext) (workerId : WorkerId)
    (active : List JobId) (now : Nat) :
    Lineage Clock ctx.state.jobs (ctx.reconcileMissingWorkerJobs order workerId active now).state.jobs := by
  refine ControllerContext.reconcile_invariant order workerId active
    (fun reaped => Lineage Clock ctx.state.jobs reaped.state.jobs) (fun _ => .refl _) fun reaped jobId before => ?_
  rw [ControllerContext.reapJob_state]
  exact before.trans (lineage_modify _ _ fun _ => ⟨⟨rfl, .inl rfl⟩, rfl, .inl rfl⟩)

theorem checkTimeouts_lineage (order : IterOrder ControllerContext.TimeoutSite) (ctx : ControllerContext) (now : Nat) :
    Lineage Clock ctx.state.jobs (ControllerContext.checkTimeouts order ctx now).state.jobs :=
  ControllerContext.checkTimeouts_invariant (fun _ after => Lineage Clock ctx.state.jobs after.state.jobs)
    (fun _ => .refl _) (.refl _)
    (fun after jobId _ before => before.trans (timeoutJob_retires after jobId now).lineage) (fun _ _ before => before)
    (fun after jobId _ before => before.trans (failOrphan_retires after jobId now).lineage)

/-- The passes among the events run at these times. -/
def Event.Clocked (Clock : Nat → Prop) : Event → Prop
  | .schedule input => Clock input.now
  | _ => True

theorem apply_lineage {leader next : Leader} {event : Event} (clock : event.Clocked Clock)
    (taken : leader.apply event = some next)
    (other : ∀ submission nextJobId, event ≠ .submit submission nextJobId) :
    Lineage Clock leader.ctx.state.jobs next.ctx.state.jobs := by
  cases event with
  | submit submission nextJobId => exact absurd rfl (other submission nextJobId)
  | register _ _ | endWriter _ _ | disconnect _ _ _ =>
    cases taken
    exact .refl _
  | schedule input =>
    obtain ⟨final, ran, same⟩ := Option.map_eq_some_iff.mp taken
    subst same
    exact schedule_lineage clock ran
  | preempt jobId =>
    cases taken
    intro other job' found
    simp only [Leader.withState, Leader.withCtx, GlobalState.get?_preemptJob] at found
    split at found
    · rename_i same
      obtain ⟨job, stored, updated⟩ := Option.map_eq_some_iff.mp found
      exact ⟨job, same ▸ stored, updated ▸ evicted_succeeds job⟩
    · exact ⟨job', found, .refl job'⟩
  | reconcile order workerId active now =>
    cases taken
    exact reconcile_lineage order leader.ctx workerId active now
  | jobStarted report =>
    cases taken
    exact lineage_modify _ _ fun _ => ⟨⟨rfl, .inl rfl⟩, rfl, .inl rfl⟩
  | jobDone _ _ | mergeDone _ | finishDone _ _ _ _ | jobError _ _ _ | jobKilled _ _ | cancel _ _ _ =>
    rcases apply_concludes taken rfl with ⟨jobs, _⟩ | ⟨target, retires⟩
    · rw [jobs]
      exact .refl _
    · exact retires.lineage
  | checkTimeouts order now =>
    cases taken
    exact checkTimeouts_lineage order leader.ctx now
  | prune retentionSeconds now =>
    cases taken
    simp only [Leader.withCtx, ControllerContext.pruneJobs]
    split
    · intro jobId job found
      rw [HashMap.get?_retain, Option.filter_eq_some_iff] at found
      exact ⟨job, found.1, .refl job⟩
    · exact .refl _

section Heartbeats

theorem degradeQos_succeeds (job : JobInfo) (idleTimeout : Nat) : (job.degradeQos idleTimeout).Succeeds Clock job := by
  unfold JobInfo.degradeQos
  split
  · exact ⟨⟨rfl, .inr rfl⟩, rfl, .inl rfl⟩
  · exact .refl job

theorem withIdleness_succeeds (job : JobInfo) (idle : Bool) (idleStart : Option Nat) (now : Nat) :
    (job.withIdleness idle idleStart now).Succeeds Clock job := by
  unfold JobInfo.withIdleness
  split
  · split <;> exact ⟨⟨rfl, .inl rfl⟩, rfl, .inl rfl⟩
  · exact ⟨⟨rfl, .inl rfl⟩, rfl, .inl rfl⟩

theorem lineage_fold {α β : Type} (step : β → α → β) (table : β → HashMap JobId JobInfo)
    (lineage : ∀ view item, Lineage Clock (table view) (table (step view item))) : ∀ (items : List α) (view : β),
    Lineage Clock (table view) (table (items.foldl step view)) := by
  intro items
  induction items with
  | nil => intro view; exact .refl _
  | cons item rest ih => intro view; exact (lineage view item).trans (ih _)

theorem recordJobStats_lineage (workerId : WorkerId) (idleTimeout now : Nat)
    (view : Telemetry × HashMap JobId JobInfo) (stats : JobStats) :
    Lineage Clock view.2 (recordJobStats workerId idleTimeout now view stats).2 := by
  unfold recordJobStats
  cases view.2.get? stats.jobId with
  | none => exact .refl _
  | some job =>
    refine lineage_modify view.2 stats.jobId fun job => ?_
    refine JobInfo.Succeeds.trans ?_ (degradeQos_succeeds _ idleTimeout)
    refine JobInfo.Succeeds.trans ?_ (withIdleness_succeeds _ _ _ now)
    exact ⟨⟨rfl, .inl rfl⟩, rfl, .inl rfl⟩

theorem directHeartbeat_lineage (ctx : ControllerContext) (telemetry : Telemetry) (order : IterOrder Unit)
    (pulse : Pulse) (connectionId idleTimeout now : Nat) :
    Lineage Clock ctx.state.jobs
      (ctx.directHeartbeat telemetry order pulse connectionId idleTimeout now).1.state.jobs := by
  unfold ControllerContext.directHeartbeat
  split
  · refine Lineage.trans (reconcile_lineage order { ctx with state := ctx.state.refreshWorker pulse now }
      pulse.workerId pulse.activeJobIds now) ?_
    exact lineage_fold (recordJobStats pulse.workerId idleTimeout now) Prod.snd
      (recordJobStats_lineage pulse.workerId idleTimeout now) pulse.jobStats (telemetry, _)
  · exact .refl _

theorem gatewayHeartbeats_lineage (order : IterOrder Unit) (now : Nat) (updates : List Pulse)
    (ctx : ControllerContext) :
    Lineage Clock ctx.state.jobs (updates.foldl (ControllerContext.gatewayHeartbeat order now) ctx).state.jobs := by
  refine lineage_fold (ControllerContext.gatewayHeartbeat order now) (fun ctx => ctx.state.jobs) (fun ctx pulse => ?_)
    updates ctx
  unfold ControllerContext.gatewayHeartbeat
  split
  · refine Lineage.trans (reconcile_lineage order { ctx with state := ctx.state.refreshWorker pulse now }
      pulse.workerId pulse.activeJobIds now) ?_
    refine lineage_fold copyJobStats id (fun view stats => ?_) pulse.jobStats _
    exact lineage_modify view stats.jobId fun _ => ⟨⟨rfl, .inl rfl⟩, rfl, .inl rfl⟩
  · exact .refl _

end Heartbeats

section Steps

variable {controller next : Controller} {id : String} {sent : Posted} {history history' : History}

/-- Records can come in with the event. -/
def ControllerEvent.inward : ControllerEvent → Bool
  | .desk _ | .receive _ _ _ _ (.stateSync _) | .restart .. => true
  | _ => false

def ControllerEvent.Clocked (Clock : Nat → Prop) : ControllerEvent → Prop
  | .act event => event.Clocked Clock
  | _ => True

variable {event : ControllerEvent}

theorem step_lineage (own : event.inward = false) (clock : event.Clocked Clock)
    (taken : controller.step id event history = some (next, sent, history')) :
    Lineage Clock controller.state.jobs next.state.jobs := by
  cases event with
  | desk => cases own
  | restart => cases own
  | act event =>
    obtain ⟨after, applied, made⟩ := Option.bind_eq_some_iff.mp taken
    have other (submission : Submission) (nextJobId : Nat) : event ≠ .submit submission nextJobId := by
      rintro rfl
      cases made
    have table : Lineage Clock controller.state.jobs after.ctx.state.jobs := apply_lineage clock applied other
    cases event with
    | submit submission nextJobId => exact absurd rfl (other submission nextJobId)
    | schedule input =>
      simp only at made
      split at made <;> cases made
      exact table
    | register | endWriter | disconnect | preempt | reconcile | jobStarted | jobDone | mergeDone | finishDone | jobError |
      jobKilled | cancel | checkTimeouts | prune =>
      cases made
      exact table
  | hear heard =>
    have same : (controller.hear heard).1 = next := congrArg Prod.fst (Option.some.inj taken)
    rw [← same, Controller.hear]
    split
    · exact directHeartbeat_lineage _ _ _ _ _ _ _
    · exact .refl _
  | drain | reserve | syncActiveState | connect | hangUp =>
    cases taken
    exact .refl _
  | beat peerId =>
    simp only [Controller.step] at taken
    split at taken <;> cases taken
    exact .refl _
  | promote now =>
    simp only [Controller.step] at taken
    split at taken <;> cases taken
    exact .refl _
  | receive source peerHost order now msg =>
    have same : (controller.receive id source peerHost order now msg).1 = next :=
      congrArg Prod.fst (Option.some.inj taken)
    rw [← same]
    cases msg with
    | stateSync newState => cases own
    | heartbeat leaderId =>
      simp only [Controller.receive, GlobalState.receiveHeartbeat]
      split
      · exact .refl _
      · split
        · split <;> exact .refl _
        · exact .refl _
    | registerWorker notice =>
      simp only [Controller.receive, GlobalState.registerGatewayWorker]
      split <;> exact .refl _
    | deregisterWorker workerId =>
      simp only [Controller.receive, GlobalState.deregisterWorker]
      split <;> exact .refl _
    | batchWorkerHeartbeats updates =>
      simp only [Controller.receive]
      split
      · exact gatewayHeartbeats_lineage order now updates controller.ctx
      · exact .refl _

theorem clocked_always (event : ControllerEvent) : event.Clocked fun _ => True := by
  cases event with
  | act event => cases event <;> trivial
  | _ => trivial

/-- The desk and the counter stay, and the table descends. -/
structure Controller.Onward (controller next : Controller) : Prop where
  desk : next.desk = controller.desk
  counter : next.state.nextJobId = controller.state.nextJobId
  table : Stems controller.state.jobs next.state.jobs

open Controller (Onward)

theorem act_desk {event : Event} (taken : controller.act event history = some (next, sent, history')) :
    next.desk = controller.desk ∧ next.state.nextJobId = controller.state.nextJobId := by
  obtain ⟨after, applied, other, ⟨ctx, _, desk, _⟩, _⟩ := act_cases taken
  have counter : after.ctx.state.nextJobId = controller.state.nextJobId :=
    congrArg (·.2.2.2.2) (apply_standing applied other)
  exact ⟨desk, (congrArg (·.state.nextJobId) ctx).trans counter⟩

theorem step_desk_counter (own : event.inward = false)
    (taken : controller.step id event history = some (next, sent, history')) :
    next.desk = controller.desk ∧ next.state.nextJobId = controller.state.nextJobId := by
  cases event with
  | desk => cases own
  | restart => cases own
  | act event => exact act_desk taken
  | hear heard =>
    have same : (controller.hear heard).1 = next := congrArg Prod.fst (Option.some.inj taken)
    rw [← same, Controller.hear]
    split
    · exact ⟨rfl, congrArg (·.2.2.2.2) (directHeartbeat_standing controller.ctx _ _ _ _ _ _)⟩
    · exact ⟨rfl, rfl⟩
  | drain | reserve | syncActiveState | connect | hangUp =>
    cases taken
    exact ⟨rfl, rfl⟩
  | beat peerId =>
    simp only [Controller.step] at taken
    split at taken <;> cases taken
    exact ⟨rfl, rfl⟩
  | promote now =>
    simp only [Controller.step] at taken
    split at taken <;> cases taken
    exact ⟨rfl, rfl⟩
  | receive source peerHost order now msg =>
    have same : (controller.receive id source peerHost order now msg).1 = next :=
      congrArg Prod.fst (Option.some.inj taken)
    rw [← same]
    cases msg with
    | stateSync newState => cases own
    | heartbeat leaderId =>
      simp only [Controller.receive, GlobalState.receiveHeartbeat]
      split
      · exact ⟨rfl, rfl⟩
      · split
        · split <;> exact ⟨rfl, rfl⟩
        · exact ⟨rfl, rfl⟩
    | registerWorker notice =>
      simp only [Controller.receive, GlobalState.registerGatewayWorker]
      split <;> exact ⟨rfl, rfl⟩
    | deregisterWorker workerId =>
      simp only [Controller.receive, GlobalState.deregisterWorker]
      split <;> exact ⟨rfl, rfl⟩
    | batchWorkerHeartbeats updates =>
      simp only [Controller.receive]
      split
      · exact ⟨rfl, congrArg (·.2.2.2.2) (gatewayHeartbeats_standing order now updates controller.ctx)⟩
      · exact ⟨rfl, rfl⟩

theorem step_onward (own : event.inward = false)
    (taken : controller.step id event history = some (next, sent, history')) : Onward controller next := by
  obtain ⟨desk, counter⟩ := step_desk_counter own taken
  exact ⟨desk, counter, (step_lineage own (clocked_always event) taken).stems⟩

/-- How records come in with an event. -/
inductive Controller.TakesIn (id : String) (controller : Controller) : ControllerEvent → Controller → Prop
  | desk {event : DeskEvent} {next : Controller} (served : controller.serve event = some next) :
      TakesIn id controller (.desk event) next
  | sync (source peerHost : String) (order : IterOrder Unit) (now : Nat) (newState : PersistedState) :
      TakesIn id controller (.receive source peerHost order now (.stateSync newState))
        (controller.receive id source peerHost order now (.stateSync newState)).1
  | restart (file : Option PersistedState) (standalone : Bool) (maxDbId now : Nat) :
      TakesIn id controller (.restart file standalone maxDbId now) (controller.restart file standalone maxDbId now)

theorem step_inward (own : event.inward = true)
    (taken : controller.step id event history = some (next, sent, history')) : controller.TakesIn id event next := by
  cases event with
  | act | hear | drain | reserve | syncActiveState | connect | hangUp | beat | promote => cases own
  | desk event =>
    obtain ⟨served, applied, same⟩ := Option.map_eq_some_iff.mp taken
    cases same
    exact .desk applied
  | receive source peerHost order now msg =>
    cases msg with
    | heartbeat | registerWorker | deregisterWorker | batchWorkerHeartbeats => cases own
    | stateSync newState =>
      cases taken
      exact .sync source peerHost order now newState
  | restart file standalone maxDbId now =>
    cases taken
    exact .restart file standalone maxDbId now

theorem step_local (own : event.isLocal = true)
    (taken : controller.step id event history = some (next, sent, history')) :
    Onward controller next ∨ ∃ served, event = .desk served ∧ controller.serve served = some next := by
  cases kind : event.inward with
  | false => exact .inl (step_onward kind taken)
  | true =>
    cases step_inward kind taken with
    | desk served => exact .inr ⟨_, rfl, served⟩
    | sync | restart => cases own

/-- A follower becomes a leader only by promoting itself or by starting again. -/
theorem step_leads (promotes : ∀ now, event ≠ .promote now)
    (restarts : ∀ file standalone maxDbId now, event ≠ .restart file standalone maxDbId now)
    (taken : controller.step id event history = some (next, sent, history')) (lead : next.leads = true) :
    controller.leads = true := by
  rw [Controller.leads_iff] at lead ⊢
  generalize same : next.state = state' at lead
  have course := step_course taken
  rw [same] at course
  cases course with
  | quiet _ role | registered _ _ _ role => exact role ▸ lead
  | scheduled leads _ => exact Controller.leads_iff.mp leads
  | claimed | synced => exact lead
  | deregistered _ _ _ _ _ leads => exact Controller.leads_iff.mp leads
  | expired order now =>
    have role := congrArg Prod.fst (checkTimeouts_standing order controller.ctx now)
    exact role.symm.trans lead
  | promoted now => exact absurd rfl (promotes now)
  | followed _ _ role =>
    rw [role] at lead
    cases lead
  | restarted => exact absurd rfl (restarts _ _ _ _)

end Steps

section Records

/-- All records of a controller, on their way and in the table. -/
structure Controller.AllRecords (controller : Controller) (Holds : JobInfo → Prop) : Prop where
  table : ∀ jobId job, controller.state.jobs.get? jobId = some job → Holds job
  tasks : ∀ task ∈ controller.desk.tasks, ∀ submission ∈ task.jobs, Holds submission.job
  channel : ∀ submission ∈ controller.desk.channel, Holds submission.job

variable {Holds : JobInfo → Prop} {controller next : Controller}

theorem Controller.AllRecords.desk (valid : controller.AllRecords Holds) {event : DeskEvent}
    (admits : ∀ site principal request admission, event = .accept site principal request →
      SubmitRequest.handle request site principal = .ok admission →
      ∀ baseId, ∀ submission ∈ (admission.build baseId).jobs, Holds submission.job)
    (taken : controller.serve event = some next) : next.AllRecords Holds := by
  obtain ⟨⟨state, desk⟩, applied, same⟩ := Option.map_eq_some_iff.mp taken
  subst same
  have fewer {tasks : List SubmitTask} (inside : ∀ task ∈ tasks, ∃ old ∈ controller.desk.tasks,
      ∀ submission ∈ task.jobs, submission ∈ old.jobs) :
      ∀ task ∈ tasks, ∀ submission ∈ task.jobs, Holds submission.job := by
    intro task listed submission member
    obtain ⟨old, there, kept⟩ := inside task listed
    exact valid.tasks old there submission (kept submission member)
  cases deskMove applied with
  | refused => exact valid
  | accepted admitted =>
    refine ⟨valid.table, fun task listed submission member => ?_, valid.channel⟩
    rcases List.mem_append.mp listed with old | new
    · exact valid.tasks task old submission member
    · cases List.mem_singleton.mp new
      exact admits _ _ _ _ rfl admitted _ submission member
  | @circular _ before after task split =>
    refine ⟨valid.table, fewer fun other listed => ⟨other, ?_, fun _ => id⟩, valid.channel⟩
    rw [split]
    exact ((List.Sublist.refl before).append (List.sublist_cons_self task after)).subset listed
  | @passed _ before after task split =>
    refine ⟨valid.table, fewer fun other listed => ?_, valid.channel⟩
    rw [split]
    rw [List.mem_append, List.mem_cons] at listed
    rcases listed with early | rfl | late
    · exact ⟨other, List.mem_append_left _ early, fun _ => id⟩
    · exact ⟨task, List.mem_append_right _ List.mem_cons_self, fun _ => id⟩
    · exact ⟨other, List.mem_append_right _ (List.mem_cons_of_mem _ late), fun _ => id⟩
  | @sent _ before after task submission rest _ split _ jobs =>
    refine ⟨valid.table, fewer fun other listed => ?_, fun other listed => ?_⟩
    · rw [split]
      rw [List.mem_append, List.mem_cons] at listed
      rcases listed with early | rfl | late
      · exact ⟨other, List.mem_append_left _ early, fun _ => id⟩
      · exact ⟨task, List.mem_append_right _ List.mem_cons_self, fun _ member =>
          jobs ▸ List.mem_cons_of_mem _ member⟩
      · exact ⟨other, List.mem_append_right _ (List.mem_cons_of_mem _ late), fun _ => id⟩
    · rcases List.mem_append.mp listed with old | new
      · exact valid.channel other old
      · cases List.mem_singleton.mp new
        exact valid.tasks task (split ▸ List.mem_append_right _ List.mem_cons_self) submission
          (jobs ▸ List.mem_cons_self)
  | @answered _ before after task told split =>
    refine ⟨valid.table, fewer fun other listed => ⟨other, ?_, fun _ => id⟩, valid.channel⟩
    rw [split]
    exact ((List.Sublist.refl before).append (List.sublist_cons_self task after)).subset listed
  | @processed count =>
    refine ⟨fun jobId job found => ?_, valid.tasks, fun submission member => ?_⟩
    · simp only [Controller.state, Controller.withState] at found
      by_cases lead : controller.ctx.state.role = .leader
      · rw [acceptBatch_leader _ _ _ lead] at found
        rcases get?_insertBatch found with old | ⟨submission, listed, _, rfl⟩
        · exact valid.table jobId job old
        · exact valid.channel submission ((List.take_subset ..) listed)
      · rw [acceptBatch_follower lead] at found
        exact valid.table jobId job found
    · exact valid.channel submission ((List.drop_subset ..) member)

/-- What every admitted record has and no later version loses holds of all records. -/
theorem Cluster.all_records {allowed : String → Controller → ControllerEvent → Prop} {cluster : Cluster}
    (follows : ∀ job job', Holds job → JobInfo.Succeeds Clock job' job → Holds job')
    (clocked : ∀ id controller event, allowed id controller event → event.Clocked Clock)
    (admits : ∀ id controller site principal request admission,
      allowed id controller (.desk (.accept site principal request)) →
      SubmitRequest.handle request site principal = .ok admission →
      ∀ baseId, ∀ submission ∈ (admission.build baseId).jobs, Holds submission.job)
    (reached : Run allowed cluster) {id : String} (found : cluster.controllers.get? id = some controller) :
    controller.AllRecords Holds := by
  refine invariant (fun _ controller => controller.AllRecords Holds)
    (fun snapshot => ∀ jobId job, snapshot.jobs.get? jobId = some job → Holds job) ?_ ?_ ?_ reached found
  · intro id controller fresh
    exact ⟨by simp [fresh.jobs], by simp [fresh.desk.1], by simp [fresh.desk.2.1]⟩
  · exact fun _ _ valid _ => valid.table
  · intro id controller event history next sent history' valid snapshot permitted taken
    cases kind : event.inward with
    | false =>
      obtain ⟨desk, _⟩ := step_desk_counter kind taken
      refine ⟨fun jobId job' found => ?_, desk ▸ valid.tasks, desk ▸ valid.channel⟩
      obtain ⟨job, stored, later⟩ := step_lineage kind (clocked id controller event permitted) taken jobId job' found
      exact follows job job' (valid.table jobId job stored) later
    | true =>
      cases step_inward kind taken with
      | desk served =>
        refine valid.desk (fun site principal request admission same admitted => ?_) served
        subst same
        exact admits id controller site principal request admission permitted admitted
      | sync source peerHost order now newState =>
        exact ⟨snapshot newState rfl, valid.tasks, valid.channel⟩
      | restart file standalone maxDbId now =>
        refine ⟨fun jobId job found => ?_, by simp [Controller.restart], by simp [Controller.restart]⟩
        cases file with
        | none => simp [Controller.restart, Controller.state, initialState] at found
        | some file => exact snapshot file rfl jobId job found

/-- The cluster has this configuration, and callers keep to the policy themselves. -/
def KeepsPolicy (config : AdmissionConfig) (_ : String) (_ : Controller) : ControllerEvent → Prop
  | .desk (.accept site _ request) => site.config = config ∧ request.MeetsPolicy site
  | _ => True

/-- Then every job of every table conforms to it, however it got there. -/
theorem Cluster.tables_conform {config : AdmissionConfig} {cluster : Cluster}
    (reached : Run (KeepsPolicy config) cluster)
    {id : String} (found : cluster.controllers.get? id = some controller) (jobId : JobId) (job : JobInfo)
    (stored : controller.state.jobs.get? jobId = some job) : job.Conforms config := by
  suffices whole : controller.AllRecords fun job => job.Conforms config from whole.table jobId job stored
  refine all_records (fun job job' conforms later => ?_) (fun _ _ event _ => clocked_always event) ?_ reached found
  · refine ⟨?_, fun interactive => ?_⟩
    · exact (later.keeps (fun job => validateJobSubmission config job.binary job.envVars
        ⟨job.inheritHostEnv, job.envAllowlist, job.jobProfile⟩) fun _ => rfl).trans conforms.policy
    · rw [later.keeps JobInfo.walltime fun _ => rfl, later.keeps JobInfo.reqCores fun _ => rfl]
      rcases later.qos with kept | lowered
      · exact conforms.interactive (kept ▸ interactive)
      · rw [lowered] at interactive
        cases interactive
  · rintro _ _ site principal request admission ⟨rfl, meets⟩ admitted
    exact (records_conform_iff admitted).mpr meets

/-- No other requests reach the handlers. -/
def OnlyAsks (asked : SubmissionSite → AuthenticatedPrincipal → SubmitRequest → Prop) (_ : String) (_ : Controller) :
    ControllerEvent → Prop
  | .desk (.accept site principal request) => asked site principal request
  | _ => True

theorem Cluster.tables_asked {asked : SubmissionSite → AuthenticatedPrincipal → SubmitRequest → Prop} {cluster : Cluster}
    (reached : Run (OnlyAsks asked) cluster) {id : String} (found : cluster.controllers.get? id = some controller)
    (jobId : JobId) (job : JobInfo) (stored : controller.state.jobs.get? jobId = some job) :
    ∃ site principal request admission baseId, asked site principal request ∧
      SubmitRequest.handle request site principal = .ok admission ∧
        ∃ submission ∈ (admission.build baseId).jobs, job.Follows submission.job := by
  let Holds (job : JobInfo) : Prop := ∃ site principal request admission baseId, asked site principal request ∧
    SubmitRequest.handle request site principal = .ok admission ∧
      ∃ submission ∈ (admission.build baseId).jobs, job.Follows submission.job
  suffices whole : controller.AllRecords Holds from whole.table jobId job stored
  refine all_records (fun job job' holds later => ?_) (fun _ _ event _ => clocked_always event) ?_ reached found
  · obtain ⟨site, principal, request, admission, baseId, asks, admitted, submission, listed, follows⟩ := holds
    exact ⟨site, principal, request, admission, baseId, asks, admitted, submission, listed,
      follows.trans later.toFollows⟩
  · intro _ _ site principal request admission asks admitted baseId submission listed
    exact ⟨site, principal, request, admission, baseId, asks, admitted, submission, listed, .refl _⟩

end Records

section Sample

def idleDag : SubmitRequest :=
  .submitDag [{
    nodeId := "n"
    task := some
      { binary := "/opt/solver", args := ["case"], reqCores := 4, reqMemory := 100, walltime := 900, qos := .interactive } }]

/-- The heartbeat of a worker whose job is idle. -/
def idlePulse (now : Nat) : HeardPulse where
  pulse := ⟨"w1", sampleResources, [⟨1, 0, true, 0, false⟩]⟩
  connectionId := 1
  now := now

/-- The leader gets a worker and the job, starts the job and lowers its QoS. -/
def idleRun : List ClusterEvent :=
  [.act (.register (sampleRegistration "w1") 10), .desk (.accept strictSite ⟨"user", ["admin"]⟩ idleDag), .desk (.send 0),
    .desk (.answer 0), .desk (.process 1), .act (.schedule { now := 100 }), .hear (idlePulse 110),
    .hear (idlePulse 800)].map (.on "a")

theorem idleRun_reach {allowed : String → Controller → ControllerEvent → Prop}
    (accepts : ∀ controller, allowed "a" controller (.desk (.accept strictSite ⟨"user", ["admin"]⟩ idleDag)))
    (others : ∀ controller event, (∀ site principal request, event ≠ .desk (.accept site principal request)) →
      allowed "a" controller event) :
    ∃ (cluster : Cluster) (controller : Controller) (job : JobInfo), Cluster.Run allowed cluster ∧
      cluster.controllers.get? "a" = some controller ∧ controller.state.jobs.get? 1 = some job ∧
        (job.status = .running ∧ job.qos = .preemptible ∧ job.args = ["case"]) := by
  have facts : ((runLabels Cluster.apply idleRun sampleCluster).bind fun cluster =>
      (cluster.controllers.get? "a").bind fun controller =>
        (controller.state.jobs.get? 1).map fun job => (job.status, job.qos, job.args)) =
      some (.running, .preemptible, ["case"]) := by
    decide +kernel
  obtain ⟨cluster, ran, facts⟩ := Option.bind_eq_some_iff.mp facts
  obtain ⟨controller, found, facts⟩ := Option.bind_eq_some_iff.mp facts
  obtain ⟨job, stored, facts⟩ := Option.map_eq_some_iff.mp facts
  simp only [Prod.mk.injEq] at facts
  refine ⟨cluster, controller, job, runLabels_reach (.start sampleCluster_fresh) ?_ ran, found, stored, facts⟩
  refine allowedRun_of_forall (fun label member cluster => ?_) sampleCluster
  simp only [idleRun, List.map_cons, List.map_nil, List.mem_cons, List.not_mem_nil, or_false] at member
  rcases member with rfl | rfl | rfl | rfl | rfl | rfl | rfl | rfl <;> rintro controller -
  case inr.inl => exact accepts controller
  all_goals exact others controller _ (by simp)

/-- The configuration allows no program but those under `/opt`. -/
theorem Cluster.tables_conform_idle : ∃ (cluster : Cluster) (controller : Controller) (job : JobInfo),
    cluster.controllers.get? "a" = some controller ∧ controller.state.jobs.get? 1 = some job ∧
      (job.status = .running ∧ job.qos = .preemptible ∧ job.args = ["case"]) ∧ job.Conforms strictSite.config := by
  have meets : idleDag.MeetsPolicy strictSite := by
    simp only [idleDag, SubmitRequest.MeetsPolicy, List.mem_singleton, forall_eq, Option.mem_some_iff, forall_eq']
    exact ⟨by decide +kernel, fun _ => by decide⟩
  obtain ⟨cluster, controller, job, reached, found, stored, seen⟩ := @idleRun_reach (KeepsPolicy strictSite.config)
    (fun controller => ⟨rfl, meets⟩) fun controller event other => by
      unfold KeepsPolicy
      split
      · exact absurd rfl (other _ _ _)
      · trivial
  exact ⟨cluster, controller, job, found, stored, seen, tables_conform reached found 1 job stored⟩

theorem Cluster.tables_asked_idle : ∃ (cluster : Cluster) (controller : Controller) (job : JobInfo),
    cluster.controllers.get? "a" = some controller ∧ controller.state.jobs.get? 1 = some job ∧
      (job.status = .running ∧ job.qos = .preemptible ∧ job.args = ["case"]) ∧
      ∃ site principal request admission baseId, request = idleDag ∧
        SubmitRequest.handle request site principal = .ok admission ∧
          ∃ submission ∈ (admission.build baseId).jobs, job.Follows submission.job := by
  obtain ⟨cluster, controller, job, reached, found, stored, seen⟩ :=
    @idleRun_reach (OnlyAsks fun _ _ request => request = idleDag)
      (fun controller => rfl) fun controller event other => by
        unfold OnlyAsks
        split
        · exact absurd rfl (other _ _ _)
        · trivial
  exact ⟨cluster, controller, job, found, stored, seen, tables_asked reached found 1 job stored⟩

end Sample

end Veloce
