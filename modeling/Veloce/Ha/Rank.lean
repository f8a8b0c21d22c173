import Mathlib.Data.String.Basic
import Veloce.Ha.Course
import Veloce.Lifecycle.Accounting

/-! Two leaders after a partition. -/

namespace Veloce

open Collections

namespace ControllerContext

/-- Every job of the table is still there, or was recorded with its final status. -/
structure Keeps (ctx ctx' : ControllerContext) : Prop where
  records : ∀ jobId, ctx.Recorded jobId → ctx'.Recorded jobId
  jobs : ∀ jobId, ctx.state.jobs.contains jobId = true →
    ctx'.state.jobs.contains jobId = true ∨ ctx'.Recorded jobId

variable {ctx middle ctx' : ControllerContext} {jobId : JobId}

theorem Keeps.trans (first : Keeps ctx middle) (second : Keeps middle ctx') : Keeps ctx ctx' where
  records jobId recorded := second.records jobId (first.records jobId recorded)
  jobs jobId present := (first.jobs jobId present).elim (second.jobs jobId) fun recorded =>
    .inr (second.records jobId recorded)

theorem keeps_of_keys (recorded : ctx'.recorded = ctx.recorded)
    (keys : ∀ jobId, ctx.state.jobs.contains jobId = true → ctx'.state.jobs.contains jobId = true) :
    Keeps ctx ctx' where
  records jobId := by
    rw [Recorded, Recorded, recorded]
    exact id
  jobs jobId present := .inl (keys jobId present)

theorem Keeps.refl (ctx : ControllerContext) : Keeps ctx ctx := keeps_of_keys rfl fun _ => id

theorem Ends.keepsJobs (ends : Ends ctx ctx' jobId) (keyed : Keyed ctx.state.jobs) : Keeps ctx ctx' where
  records _ recorded := ends.keeps recorded
  jobs other present := by
    by_cases same : other = jobId
    · subst same
      obtain ⟨job, found⟩ := HashMap.contains_iff.mp present
      exact .inr (ends.record found (keyed other job found))
    · rw [HashMap.contains, ends.retires.others other same]
      exact .inl present

theorem checkTimeouts_keeps (keyed : Keyed ctx.state.jobs) (order : IterOrder TimeoutSite) (now : Nat) :
    Keeps ctx (checkTimeouts order ctx now) := by
  let Inv (_ : List JobId) (after : ControllerContext) : Prop := Keyed after.state.jobs ∧ Keeps ctx after
  have removal (before after : ControllerContext) (jobId : JobId) (valid : Keyed before.state.jobs ∧ Keeps ctx before)
      (ends : Ends before after jobId) : Keyed after.state.jobs ∧ Keeps ctx after := by
    refine ⟨fun other job found => ?_, valid.2.trans (ends.keepsJobs valid.1)⟩
    rw [ends.retires.get? other] at found
    split at found
    · cases found
    · exact valid.1 other job found
  have ends : Inv [] (checkTimeouts order ctx now) :=
    checkTimeouts_invariant Inv (fun _ => ⟨keyed, .refl ctx⟩) ⟨keyed, .refl ctx⟩
      (fun before jobId _ valid => removal before _ jobId valid (timeoutJob_ends before jobId now))
      (fun _ _ valid => ⟨valid.1, valid.2.trans (keeps_of_keys rfl fun _ => id)⟩)
      (fun before jobId _ valid => removal before _ jobId valid (failOrphan_ends before jobId now))
  exact ends.2

theorem reconcile_keeps (order : IterOrder Unit) (ctx : ControllerContext) (workerId : WorkerId) (active : List JobId)
    (now : Nat) : Keeps ctx (ctx.reconcileMissingWorkerJobs order workerId active now) := by
  refine reconcile_invariant order workerId active (Keeps ctx) (fun _ => keeps_of_keys rfl fun _ => id)
    fun reaped jobId before => ?_
  refine before.trans (keeps_of_keys rfl fun other present => ?_)
  rw [reapJob_state, HashMap.contains_modify]
  exact present

end ControllerContext

theorem schedule_keys {input : PassInput} {state final : GlobalState} (ran : scheduleJobs input state = some final)
    {jobId : JobId} (present : state.jobs.contains jobId = true) : final.jobs.contains jobId = true := by
  obtain ⟨pass, turns, same⟩ := Option.map_eq_some_iff.mp ran
  subst same
  refine passTurns_invariant (fun _ pass => pass.state.jobs.contains jobId = true) ?_ _ present turns
  intro turnOf rest pass next before taken
  have move := turn_move (passTurn_outcome taken) jobId
  rw [HashMap.contains] at before ⊢
  generalize pass.state.jobs.get? jobId = was at before move
  generalize next.state.jobs.get? jobId = is at move ⊢
  cases move with
  | kept same =>
    have kept := congrArg Option.isSome same
    rw [Option.isSome_map, Option.isSome_map] at kept
    rw [kept, before]
  | evicted | started => rfl

open ControllerContext

/-- What a section of a controller with a keyed table does to its jobs: only pruning
takes an unrecorded job away, and only an ended one. -/
theorem apply_keeps {leader next : Leader} {event : Event} (keyed : Keyed leader.ctx.state.jobs)
    (taken : leader.apply event = some next) : Keeps leader.ctx next.ctx ∨
      (next.ctx.recorded = leader.ctx.recorded ∧ ∀ jobId job, leader.ctx.state.jobs.get? jobId = some job →
        job.status.terminal = false → next.ctx.state.jobs.contains jobId = true) := by
  cases event with
  | submit submission nextJobId =>
    cases taken
    refine .inl (keeps_of_keys rfl fun jobId present => ?_)
    simp only [Leader.withState, Leader.withCtx, GlobalState.acceptSubmission]
    split
    · exact HashMap.contains_insert present
    · exact present
  | register | endWriter | disconnect =>
    cases taken
    exact .inl (keeps_of_keys rfl fun _ => id)
  | schedule input =>
    obtain ⟨final, ran, same⟩ := Option.map_eq_some_iff.mp taken
    subst same
    exact .inl (keeps_of_keys rfl fun _ => schedule_keys ran)
  | preempt jobId =>
    cases taken
    refine .inl (keeps_of_keys rfl fun other present => ?_)
    simp only [Leader.withState, Leader.withCtx, HashMap.contains, GlobalState.get?_preemptJob] at present ⊢
    split
    · rename_i same
      rw [Option.isSome_map, ← same]
      exact present
    · exact present
  | reconcile order workerId active now =>
    cases taken
    exact .inl (reconcile_keeps order leader.ctx workerId active now)
  | jobStarted report =>
    cases taken
    refine .inl (keeps_of_keys rfl fun other present => ?_)
    simp only [Leader.withState, Leader.withCtx, GlobalState.jobStarted, HashMap.contains_modify]
    exact present
  | jobDone report exitCode =>
    rw [Leader.apply_jobDone] at taken
    cases taken
    exact .inl (keeps_of_keys rfl fun _ => id)
  | mergeDone index =>
    obtain ⟨tasks, same⟩ := Leader.mergeDone_tasks taken
    subst same
    exact .inl (.refl _)
  | finishDone index stdoutId stderrId now =>
    obtain ⟨report, exitCode, logFiles, _, same⟩ := Leader.finishDone_cases taken
    subst same
    exact .inl ((jobDoneFinish_ends _ _ _ _ _ _ _).keepsJobs keyed)
  | jobError report error now =>
    cases taken
    exact .inl ((jobError_ends _ _ _ _).keepsJobs keyed)
  | jobKilled report now =>
    cases taken
    exact .inl ((jobKilled_ends _ _ _).keepsJobs keyed)
  | cancel caller jobId now =>
    rcases Leader.cancel_cases taken with ⟨ctx, canceled, same⟩ | same
    · subst same
      exact .inl ((cancelJob_ends _ _ _ canceled).keepsJobs keyed)
    · subst same
      exact .inl (.refl _)
  | checkTimeouts order now =>
    cases taken
    exact .inl (checkTimeouts_keeps keyed order now)
  | prune retentionSeconds now =>
    cases taken
    simp only [Leader.withCtx, pruneJobs]
    split
    · refine .inr ⟨rfl, fun jobId job found unfinished => ?_⟩
      simp only [HashMap.contains, HashMap.get?_retain, found, Option.filter_some, prunable, unfinished,
        Bool.false_and, Bool.not_false, ↓reduceIte, Option.isSome_some]
    · exact .inl (.refl _)

theorem hearWorker_keeps (ctx : ControllerContext) (order : IterOrder Unit) (pulse : Pulse) (now : Nat) :
    Keeps ctx (ctx.hearWorker order pulse now) := by
  have heard := reconcile_keeps order { ctx with state := ctx.state.refreshWorker pulse now } pulse.workerId
    pulse.activeJobIds now
  exact ⟨heard.records, heard.jobs⟩

theorem directHeartbeat_keeps (ctx : ControllerContext) (telemetry : Telemetry) (order : IterOrder Unit)
    (pulse : Pulse) (connectionId idleTimeout now : Nat) :
    Keeps ctx (ctx.directHeartbeat telemetry order pulse connectionId idleTimeout now).1 := by
  unfold directHeartbeat
  split
  · refine (hearWorker_keeps ctx order pulse now).trans (keeps_of_keys rfl fun jobId present => ?_)
    refine List.foldlRecOn (motive := fun view : Telemetry × HashMap JobId JobInfo =>
      view.2.contains jobId = true) pulse.jobStats _ present ?_
    intro view present stats _
    unfold recordJobStats
    cases view.2.get? stats.jobId with
    | none => exact present
    | some job =>
      simp only [HashMap.contains_modify]
      exact present
  · exact .refl ctx

theorem gatewayHeartbeats_keeps (order : IterOrder Unit) (now : Nat) (updates : List Pulse) (ctx : ControllerContext) :
    Keeps ctx (updates.foldl (gatewayHeartbeat order now) ctx) := by
  refine List.foldlRecOn (motive := Keeps ctx) updates _ (.refl ctx) fun middle before pulse _ => before.trans ?_
  unfold gatewayHeartbeat
  split
  · refine (hearWorker_keeps middle order pulse now).trans (keeps_of_keys rfl fun jobId present => ?_)
    refine List.foldlRecOn (motive := fun jobs : HashMap JobId JobInfo => jobs.contains jobId = true)
      pulse.jobStats _ present ?_
    intro jobs present stats _
    rw [copyJobStats, HashMap.contains_modify]
    exact present
  · exact .refl middle

def Controller.Ended (controller : Controller) (jobId : JobId) : Prop :=
  controller.ctx.Recorded jobId ∨ ∃ job, controller.state.jobs.get? jobId = some job ∧ job.status.terminal = true

section Steps

variable {controller next : Controller} {id : String} {sent : Posted} {history history' : History} {jobId : JobId}

theorem Controller.keeps_ended (keeps : Keeps controller.ctx next.ctx)
    (present : controller.state.jobs.contains jobId = true) :
    next.state.jobs.contains jobId = true ∨ controller.Ended jobId ∨ next.Ended jobId :=
  (keeps.jobs jobId present).imp_right fun recorded => .inr (.inl recorded)

theorem act_keeps_ended (keyed : Keyed controller.state.jobs) {event : Event}
    (taken : controller.act event history = some (next, sent, history'))
    (present : controller.state.jobs.contains jobId = true) :
    next.state.jobs.contains jobId = true ∨ controller.Ended jobId ∨ next.Ended jobId := by
  obtain ⟨after, applied, _, ⟨same, _⟩, _⟩ := act_cases taken
  rcases apply_keeps keyed applied with keeps | ⟨_, unfinished⟩
  · exact Controller.keeps_ended (same ▸ keeps) present
  · obtain ⟨job, found⟩ := HashMap.contains_iff.mp present
    cases ended : job.status.terminal with
    | true => exact .inr (.inl (.inr ⟨job, found, ended⟩))
    | false =>
      refine .inl ?_
      rw [Controller.state, same]
      exact unfinished jobId job found ended

theorem acceptBatch_keys {state : GlobalState} (batch : List Submission) (nextJobId : Nat)
    (present : state.jobs.contains jobId = true) : (state.acceptBatch batch nextJobId).jobs.contains jobId = true := by
  refine List.foldlRecOn (motive := fun after : GlobalState => after.jobs.contains jobId = true) batch _ present ?_
  intro middle present submission _
  unfold GlobalState.acceptSubmission
  split
  · exact HashMap.contains_insert present
  · exact present

theorem serve_keeps {event : DeskEvent} (taken : controller.serve event = some next) :
    Keeps controller.ctx next.ctx := by
  obtain ⟨⟨state, desk⟩, applied, same⟩ := Option.map_eq_some_iff.mp taken
  subst same
  refine keeps_of_keys rfl fun jobId present => ?_
  cases deskMove applied with
  | refused | accepted | circular | passed | sent | answered => exact present
  | processed => exact acceptBatch_keys _ _ present

theorem hear_keeps (heard : HeardPulse) : Keeps controller.ctx (controller.hear heard).1.ctx := by
  unfold Controller.hear
  split
  · exact directHeartbeat_keeps _ _ _ _ _ _ _
  · exact keeps_of_keys rfl fun _ => id

theorem receive_keeps (source peerHost : String) (order : IterOrder Unit) (now : Nat) {msg : PeerMessage}
    (own : ∀ newState, msg ≠ .stateSync newState) :
    Keeps controller.ctx (controller.receive id source peerHost order now msg).1.ctx := by
  cases msg with
  | heartbeat leaderId =>
    refine keeps_of_keys rfl fun jobId present => ?_
    simp only [Controller.receive, GlobalState.receiveHeartbeat]
    split
    · exact present
    · split
      · split <;> exact present
      · exact present
  | stateSync newState => exact absurd rfl (own newState)
  | registerWorker notice =>
    refine keeps_of_keys rfl fun jobId present => ?_
    simp only [Controller.receive, GlobalState.registerGatewayWorker]
    split <;> exact present
  | deregisterWorker workerId =>
    refine keeps_of_keys rfl fun jobId present => ?_
    simp only [Controller.receive, GlobalState.deregisterWorker]
    split <;> exact present
  | batchWorkerHeartbeats updates =>
    simp only [Controller.receive]
    split
    · exact gatewayHeartbeats_keeps order now updates controller.ctx
    · exact .refl _

/-- The event brings no other table. -/
def ControllerEvent.keepsTable : ControllerEvent → Bool
  | .receive _ _ _ _ (.stateSync _) | .restart .. => false
  | _ => true

theorem step_keeps_ended (keyed : Keyed controller.state.jobs) {event : ControllerEvent}
    (own : event.keepsTable = true) (taken : controller.step id event history = some (next, sent, history'))
    (present : controller.state.jobs.contains jobId = true) :
    next.state.jobs.contains jobId = true ∨ controller.Ended jobId ∨ next.Ended jobId := by
  cases event with
  | act event => exact act_keeps_ended keyed taken present
  | desk event =>
    obtain ⟨served, applied, same⟩ := Option.map_eq_some_iff.mp taken
    cases same
    exact Controller.keeps_ended (serve_keeps applied) present
  | hear heard =>
    cases taken
    exact Controller.keeps_ended (hear_keeps heard) present
  | drain | reserve | syncActiveState | connect | hangUp =>
    cases taken
    exact .inl present
  | beat peerId =>
    simp only [Controller.step] at taken
    split at taken <;> cases taken
    exact .inl present
  | promote now =>
    simp only [Controller.step] at taken
    split at taken <;> cases taken
    exact .inl present
  | receive source peerHost order now msg =>
    cases taken
    refine Controller.keeps_ended (receive_keeps source peerHost order now fun newState => ?_) present
    rintro rfl
    cases own
  | restart file standalone maxDbId now => cases own

end Steps

/-- A leader processes only StateSyncs of controllers with a lower id. -/
def SyncsFromBelow (id : String) (controller : Controller) : ControllerEvent → Prop
  | .receive source _ _ _ (.stateSync _) => controller.leads = true → source < id
  | .restart .. => False
  | _ => True

instance (id : String) (controller : Controller) : (event : ControllerEvent) →
    Decidable (SyncsFromBelow id controller event)
  | .receive source _ _ _ (.stateSync _) => inferInstanceAs (Decidable (controller.leads = true → source < id))
  | .restart .. => isFalse not_false
  | .act _ | .desk _ | .hear _ | .drain _ | .reserve _ | .syncActiveState | .connect _ | .hangUp _ | .beat _
  | .promote _ | .receive _ _ _ _ (.heartbeat _) | .receive _ _ _ _ (.registerWorker _)
  | .receive _ _ _ _ (.deregisterWorker _) | .receive _ _ _ _ (.batchWorkerHeartbeats _) => isTrue trivial

namespace Cluster

variable {cluster next before after : Cluster} {low : String} {jobId : JobId}

variable {event : ClusterEvent}

theorem apply_contains (taken : cluster.apply event = some next) (id : String) :
    next.controllers.contains id = cluster.controllers.contains id := by
  rcases apply_cases taken with ⟨same, _⟩ | ⟨moved, _, _, controller, after, _, _, found, _, same, _⟩
  · rw [same]
  · rw [same, HashMap.contains, HashMap.contains, HashMap.get?_insert]
    split
    · rename_i own
      rw [own, found]
      rfl
    · rfl

def Sourced (cluster : Cluster) : Prop :=
  ∀ envelope ∈ cluster.wire, cluster.controllers.contains envelope.source = true

theorem Sourced.apply (sourced : cluster.Sourced) (taken : cluster.apply event = some next) : next.Sourced := by
  intro envelope member
  rw [apply_contains taken]
  rcases apply_cases taken with ⟨_, fewer, _⟩ | ⟨moved, _, wire, controller, _, sent, resolved, found, _, _, same⟩
  · exact sourced envelope (fewer.subset member)
  · rw [same, List.mem_append] at member
    rcases member with old | new
    · exact sourced envelope ((resolve_wire resolved).subset old)
    · obtain ⟨entry, _, made⟩ := List.mem_map.mp new
      subst made
      exact HashMap.contains_iff.mpr ⟨controller, found⟩

/-- The controller is the one with the lowest id. -/
def IsLowest (cluster : Cluster) (low : String) : Prop := ∀ id, cluster.controllers.contains id = true → low ≤ id

/-- A step under the condition while `low` leads. -/
def LeadingStep (low : String) (cluster : Cluster) (event : ClusterEvent) (next : Cluster) : Prop :=
  ((cluster.controllers.get? low).any Controller.leads = true ∧ cluster.Meets SyncsFromBelow event) ∧
    cluster.apply event = some next

theorem lowest_unsynced (sourced : cluster.Sourced) (lowest : cluster.IsLowest low) {controller : Controller}
    (found : cluster.controllers.get? low = some controller) (lead : controller.leads = true)
    (meets : cluster.Meets SyncsFromBelow event) {cevent : ControllerEvent} {wire : List Envelope}
    (resolved : cluster.resolve event = some (low, cevent, wire)) : cevent.keepsTable = true := by
  rw [Meets, resolved] at meets
  have allowed := meets controller found
  cases cevent with
  | receive source peerHost order now msg =>
    cases msg with
    | stateSync newState =>
      have known : cluster.controllers.contains source = true := by
        cases event with
        | on target event =>
          simp only [resolve] at resolved
          split at resolved
          · rename_i isLocal
            cases resolved
            cases isLocal
          · cases resolved
        | deliver index host order now =>
          obtain ⟨⟨sender, target, msg⟩, there, same⟩ := Option.map_eq_some_iff.mp resolved
          cases same
          exact sourced _ (List.mem_of_getElem? there)
        | lose index => cases resolved
        | restart target source standalone maxDbId now => cases resolved
      exact absurd (allowed lead) (not_lt.mpr (lowest source known))
    | heartbeat | registerWorker | deregisterWorker | batchWorkerHeartbeats => rfl
  | restart => exact allowed.elim
  | act | desk | hear | drain | reserve | syncActiveState | connect | hangUp | beat | promote => rfl

theorem LeadingStep.keeps (sourced : cluster.Sourced) (lowest : cluster.IsLowest low)
    (orderly : ∀ controller, cluster.controllers.get? low = some controller → Orderly controller.state.jobs)
    (taken : LeadingStep low cluster event next) {controller : Controller}
    (found : cluster.controllers.get? low = some controller) (present : controller.state.jobs.contains jobId = true) :
    ∃ controller', next.controllers.get? low = some controller' ∧
      (controller'.state.jobs.contains jobId = true ∨ controller.Ended jobId ∨ controller'.Ended jobId) := by
  obtain ⟨⟨leads, meets⟩, applied⟩ := taken
  rw [found, Option.any_some] at leads
  rcases apply_cases applied with ⟨same, _⟩ | ⟨moved, cevent, _, mover, after, _, resolved, there, stepped, same, _⟩
  · exact ⟨controller, same ▸ found, .inl present⟩
  · rw [same, HashMap.get?_insert]
    split
    · rename_i own
      subst own
      cases found.symm.trans there
      exact ⟨after, rfl, step_keeps_ended (orderly controller found).keyed
        (lowest_unsynced sourced lowest found leads meets resolved) stepped present⟩
    · exact ⟨controller, found, .inl present⟩

theorem sourced_of_run (reached : Run SyncsFromBelow cluster) : cluster.Sourced := by
  refine reached.invariant Sourced ?_ fun _ _ _ sourced taken => sourced.apply taken.2
  intro cluster starts envelope member
  rw [starts.wire] at member
  cases member

/-- The job is in the table of `low`, or has ended in some state of the run since. -/
def KeptSince (before after : Cluster) (low : String) (jobId : JobId) : Prop :=
  (∃ controller, after.controllers.get? low = some controller ∧ controller.state.jobs.contains jobId = true) ∨
    ∃ middle controller, Reach (· = before) (LeadingStep low) middle ∧ Reach (· = middle) (LeadingStep low) after ∧
      middle.controllers.get? low = some controller ∧ controller.Ended jobId

theorem KeptSince.step (kept : KeptSince before cluster low jobId)
    (goesOn : Reach (· = before) (LeadingStep low) cluster) (reached : Run SyncsFromBelow cluster)
    (lowest : cluster.IsLowest low) (taken : LeadingStep low cluster event next) :
    KeptSince before next low jobId := by
  rcases kept with ⟨controller, found, present⟩ | ⟨middle, controller, first, second, found, ended⟩
  · obtain ⟨controller', found', outcome⟩ := taken.keeps (sourced_of_run reached) lowest
      (fun _ found => orderly reached found) found present
    rcases outcome with present' | ended | ended
    · exact .inl ⟨controller', found', present'⟩
    · exact .inr ⟨cluster, controller, goesOn, .step (.start rfl) taken, found, ended⟩
    · exact .inr ⟨next, controller', .step goesOn taken, .start rfl, found', ended⟩
  · exact .inr ⟨middle, controller, first, .step second taken, found, ended⟩

/-- While the controller with the lowest id leads, and leaders process only StateSyncs
from below, no event replaces its table, and a job of its table stays there until it
has reached a terminal status. -/
theorem lowest_leader_keeps_jobs (reached : Run SyncsFromBelow before) (lowest : before.IsLowest low)
    {controller : Controller} (found : before.controllers.get? low = some controller)
    (present : controller.state.jobs.contains jobId = true) (goesOn : Reach (· = before) (LeadingStep low) after) :
    KeptSince before after low jobId ∧
    ∀ controller' event cevent wire, after.controllers.get? low = some controller' → controller'.leads = true →
      after.Meets SyncsFromBelow event → after.resolve event = some (low, cevent, wire) → cevent.keepsTable = true := by
  have whole : Run SyncsFromBelow after ∧ after.IsLowest low ∧ KeptSince before after low jobId := by
    induction goesOn with
    | start same =>
      subst same
      exact ⟨reached, lowest, .inl ⟨controller, found, present⟩⟩
    | step goesOn taken valid =>
      obtain ⟨reached, lowest, kept⟩ := valid
      refine ⟨.step reached ⟨taken.1.2, taken.2⟩, fun id member => lowest id ?_,
        kept.step goesOn reached lowest taken⟩
      rwa [← apply_contains taken.2]
  obtain ⟨reached, lowest, kept⟩ := whole
  refine ⟨kept, fun controller' event cevent wire found' lead meets resolved => ?_⟩
  exact lowest_unsynced (sourced_of_run reached) lowest found' lead meets resolved

/-- Both controllers lead, and `a` accepts a job. -/
def splitRun : List ClusterEvent :=
  sampleConnect ++ [.on "b" (.promote 100)] ++ sampleRequest.map fun event => .on "a" (.desk event)

theorem sampleCluster_contains {events : List ClusterEvent} (ran : runLabels apply events sampleCluster = some cluster)
    (id : String) : cluster.controllers.contains id = sampleCluster.controllers.contains id := by
  have kept : ∀ (events : List ClusterEvent) {cluster final : Cluster},
      runLabels apply events cluster = some final →
        final.controllers.contains id = cluster.controllers.contains id := by
    intro events
    induction events with
    | nil =>
      intro cluster final ran
      cases ran
      rfl
    | cons event rest ih =>
      intro cluster final ran
      rw [runLabels_cons] at ran
      obtain ⟨next, taken, ran⟩ := Option.bind_eq_some_iff.mp ran
      rw [ih ran, apply_contains taken]
  exact kept events ran

theorem sampleCluster_lowest {events : List ClusterEvent} (ran : runLabels apply events sampleCluster = some cluster) :
    cluster.IsLowest "a" := by
  intro id present
  rw [sampleCluster_contains ran, HashMap.contains_iff] at present
  obtain ⟨controller, found⟩ := present
  simp only [sampleCluster, HashMap.ofList, List.foldl_cons, List.foldl_nil, HashMap.get?_insert] at found
  split at found
  · rename_i same
    rw [same]
    decide
  · split at found
    · rename_i same
      rw [same]
    · cases found

/-- The leader `b` yields to a heartbeat of `a`, which keeps its job. -/
theorem lowest_leader_keeps_jobs_split : ∃ before after controller, Run SyncsFromBelow before ∧
    before.controllers.get? "a" = some controller ∧ controller.state.jobs.contains 1 = true ∧
    Reach (· = before) (LeadingStep "a") after ∧ KeptSince before after "a" 1 := by
  let heals : List ClusterEvent := [.lose 1, .on "a" (.beat "b"), .deliver 1 "a" .stored 102]
  obtain ⟨before, ran⟩ : ∃ before, runLabels apply splitRun sampleCluster = some before :=
    Option.isSome_iff_exists.mp (by decide +kernel)
  obtain ⟨after, goes⟩ : ∃ after, runLabels apply heals before = some after := by
    have both : ((runLabels apply splitRun sampleCluster).bind (runLabels apply heals)).isSome = true := by
      decide +kernel
    rw [ran] at both
    exact Option.isSome_iff_exists.mp both
  have allowed : AllowedRun (Meets SyncsFromBelow) apply splitRun sampleCluster := by decide +kernel
  have facts : ((runLabels apply splitRun sampleCluster).bind fun before =>
      (before.controllers.get? "a").map fun controller => controller.state.jobs.contains 1) = some true := by
    decide +kernel
  have leads : (runLabels apply splitRun sampleCluster).map (fun before => decide (AllowedRun
      (fun cluster event => (cluster.controllers.get? "a").any Controller.leads = true ∧
        cluster.Meets SyncsFromBelow event) apply heals before)) = some true := by decide +kernel
  rw [ran, Option.bind_some] at facts
  obtain ⟨controller, found, present⟩ := Option.map_eq_some_iff.mp facts
  rw [ran, Option.map_some, Option.some.injEq, decide_eq_true_eq] at leads
  have reached : Run SyncsFromBelow before := runLabels_reach (.start sampleCluster_fresh) allowed ran
  have goesOn : Reach (· = before) (LeadingStep "a") after := runLabels_reach (.start rfl) leads goes
  exact ⟨before, after, controller, reached, found, present, goesOn,
    (lowest_leader_keeps_jobs reached (sampleCluster_lowest ran) found present goesOn).1⟩

/-- What a controller knows about one of its jobs. -/
structure JobView where
  leads : Bool
  status : Option JobStatus
  queue : List JobId
  recorded : Nat
deriving DecidableEq

def jobView (controller : Controller) (jobId : JobId) : JobView :=
  ⟨controller.leads, (controller.state.jobs.get? jobId).map JobInfo.status, controller.state.queue,
    controller.ctx.recorded.length⟩

/-- Both lead; the StateSync that `b` sent when it promoted itself takes the accepted
job of `a` away, though `a` outranks `b`. -/
theorem outranked_peer_erases_job : ∃ before event after controller controller', Run (fun _ _ _ => True) before ∧
    before.apply event = some after ∧ (before.controllers.get? "b").map Controller.leads = some true ∧
    before.controllers.get? "a" = some controller ∧ after.controllers.get? "a" = some controller' ∧
    jobView controller 1 = ⟨true, some .pending, [1], 0⟩ ∧ jobView controller' 1 = ⟨true, none, [], 0⟩ := by
  obtain ⟨before, ran⟩ : ∃ before, runLabels apply splitRun sampleCluster = some before :=
    Option.isSome_iff_exists.mp (by decide +kernel)
  have allowed : AllowedRun (Meets fun _ _ _ => True) apply splitRun sampleCluster := by decide +kernel
  have first : ((runLabels apply splitRun sampleCluster).bind fun before =>
      (before.controllers.get? "a").map (jobView · 1)) = some ⟨true, some .pending, [1], 0⟩ := by decide +kernel
  have second : (((runLabels apply splitRun sampleCluster).bind (apply (.deliver 1 "b" .stored 101))).bind fun after =>
      (after.controllers.get? "a").map (jobView · 1)) = some ⟨true, none, [], 0⟩ := by decide +kernel
  have both : ((runLabels apply splitRun sampleCluster).bind fun before =>
      (before.controllers.get? "b").map Controller.leads) = some true := by decide +kernel
  rw [ran, Option.bind_some] at first both second
  obtain ⟨controller, found, view⟩ := Option.map_eq_some_iff.mp first
  obtain ⟨after, taken, second⟩ := Option.bind_eq_some_iff.mp second
  obtain ⟨controller', found', view'⟩ := Option.map_eq_some_iff.mp second
  exact ⟨before, _, after, controller, controller', runLabels_reach (.start sampleCluster_fresh) allowed ran, taken,
    both, found, found', view, view'⟩

end Cluster

end Veloce
