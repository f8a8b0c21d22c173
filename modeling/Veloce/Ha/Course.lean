import Veloce.Ha.Cluster
import Veloce.Handlers.Desk
import Veloce.Lifecycle.Shifts

/-! What a step does to the table and the handles of one controller, and how an
invariant of one controller and of the snapshots on the way becomes an invariant of
the cluster. -/

namespace Veloce

open Collections

/-- Every worker has the jobs and the pools it had; its resources may differ. -/
def SamePools (workers workers' : HashMap WorkerId WorkerHandle) : Prop :=
  ∀ workerId, match workers.get? workerId, workers'.get? workerId with
    | some worker, some worker' => SamePool worker worker'
    | none, none => True
    | _, _ => False

/-- An elementary change, or a heartbeat that brings other resources. -/
inductive Stir (state state' : GlobalState) : Prop where
  | shift (shift : Shift state state')
  | refresh (workers : SamePools state.workers state'.workers) (jobs : state'.jobs = state.jobs)

abbrev Stirs : GlobalState → GlobalState → Prop := Relation.ReflTransGen Stir

theorem SamePools.found {workers workers' : HashMap WorkerId WorkerHandle} (same : SamePools workers workers')
    {workerId : WorkerId} {worker : WorkerHandle} (found : workers.get? workerId = some worker) :
    ∃ worker', workers'.get? workerId = some worker' ∧ SamePool worker worker' := by
  have pool := same workerId
  rw [found] at pool
  cases found' : workers'.get? workerId with
  | none => simp [found'] at pool
  | some worker' => exact ⟨worker', rfl, by simpa [found'] using pool⟩

theorem SamePools.found_back {workers workers' : HashMap WorkerId WorkerHandle} (same : SamePools workers workers')
    {workerId : WorkerId} {worker' : WorkerHandle} (found : workers'.get? workerId = some worker') :
    ∃ worker, workers.get? workerId = some worker ∧ SamePool worker worker' := by
  have pool := same workerId
  rw [found] at pool
  cases found' : workers.get? workerId with
  | none => simp [found'] at pool
  | some worker => exact ⟨worker, rfl, by simpa [found'] using pool⟩

theorem samePools_modify (workers : HashMap WorkerId WorkerHandle) (workerId : WorkerId)
    {update : WorkerHandle → WorkerHandle} (keeps : ∀ worker, SamePool worker (update worker)) :
    SamePools workers (workers.modify workerId update) := by
  intro other
  rw [HashMap.get?_modify]
  by_cases same : other = workerId
  · subst same
    cases found : workers.get? other with
    | none => simp
    | some worker => simpa using keeps worker
  · rw [if_neg same]
    cases workers.get? other with
    | none => trivial
    | some worker => exact ⟨rfl, rfl, rfl⟩

theorem stirs_of_shifts {state state' : GlobalState} (shifts : Shifts state state') : Stirs state state' := by
  induction shifts with
  | refl => exact .refl
  | tail _ shift before => exact before.tail (.shift shift)

section Heartbeats

variable {state state' : GlobalState}

theorem Orderly.stirs (valid : Orderly state.jobs) (stirs : Stirs state state') : Orderly state'.jobs := by
  induction stirs with
  | refl => exact valid
  | tail _ stir before =>
    cases stir with
    | shift shift => exact before.wanes shift.wanes
    | refresh _ jobs => exact jobs ▸ before

theorem Orderly.checkTimeouts {ctx : ControllerContext} (valid : Orderly ctx.state.jobs)
    (order : IterOrder ControllerContext.TimeoutSite) (now : Nat) :
    Orderly (ControllerContext.checkTimeouts order ctx now).state.jobs :=
  ControllerContext.checkTimeouts_invariant (fun _ ctx => Orderly ctx.state.jobs) (fun _ => valid) valid
    (fun ctx jobId _ valid => valid.wanes (timeoutJob_retires ctx jobId now).shift.wanes) (fun _ _ valid => valid)
    (fun ctx jobId _ valid => valid.wanes (failOrphan_retires ctx jobId now).shift.wanes)

theorem TableOk.stirs (valid : TableOk state.jobs) (stirs : Stirs state state') : TableOk state'.jobs := by
  induction stirs with
  | refl => exact valid
  | tail _ stir before =>
    cases stir with
    | shift shift => exact before.wanes shift.wanes
    | refresh _ jobs => exact jobs ▸ before

theorem Agrees.stirs {Valid : HashMap JobId JobInfo → WorkerId → WorkerHandle → Prop} (rule : PoolRule Valid)
    (agrees : Agrees Valid state) (stirs : Stirs state state') : Agrees Valid state' := by
  induction stirs with
  | refl => exact agrees
  | tail _ stir before =>
    cases stir with
    | shift shift => exact before.shifts rule (.single shift)
    | refresh workers jobs =>
      intro workerId worker' found
      obtain ⟨worker, present, same⟩ := workers.found_back found
      rw [jobs]
      exact rule.pool (before workerId worker present) same

theorem stir_refresh (state : GlobalState) (pulse : Pulse) (now : Nat) : Stir state (state.refreshWorker pulse now) :=
  .refresh (samePools_modify _ _ fun _ => ⟨rfl, rfl, rfl⟩) rfl

theorem stirs_hearWorker (ctx : ControllerContext) (order : IterOrder Unit) (pulse : Pulse) (now : Nat) :
    Stirs ctx.state (ctx.hearWorker order pulse now).state := by
  refine .head (stir_refresh ctx.state pulse now) (stirs_of_shifts ?_)
  exact shifts_reconcile order { ctx with state := ctx.state.refreshWorker pulse now } pulse.workerId
    pulse.activeJobIds now

theorem wanes_modify (jobs : HashMap JobId JobInfo) (jobId : JobId) {update : JobInfo → JobInfo}
    (keeps : ∀ job, (update job).id = job.id ∧ (update job).footprint = job.footprint) :
    Wanes jobs (jobs.modify jobId update) := by
  intro other
  rw [HashMap.get?_modify]
  split
  · rename_i same
    rw [same]
    cases jobs.get? jobId with
    | none => exact .gone
    | some job => exact .kept (keeps job).1 (keeps job).2
  · exact .refl other _

theorem degradeQos_keeps (job : JobInfo) (idleTimeout : Nat) :
    (job.degradeQos idleTimeout).id = job.id ∧ (job.degradeQos idleTimeout).footprint = job.footprint := by
  unfold JobInfo.degradeQos
  split <;> exact ⟨rfl, rfl⟩

theorem withIdleness_keeps (job : JobInfo) (idle : Bool) (idleStart : Option Nat) (now : Nat) :
    (job.withIdleness idle idleStart now).id = job.id ∧
      (job.withIdleness idle idleStart now).footprint = job.footprint := by
  unfold JobInfo.withIdleness
  split
  · split <;> exact ⟨rfl, rfl⟩
  · exact ⟨rfl, rfl⟩

theorem wanes_recordJobStats (workerId : WorkerId) (idleTimeout now : Nat)
    (view : Telemetry × HashMap JobId JobInfo) (stats : JobStats) :
    Wanes view.2 (recordJobStats workerId idleTimeout now view stats).2 := by
  unfold recordJobStats
  cases found : view.2.get? stats.jobId with
  | none => exact fun jobId => .refl jobId _
  | some job =>
    refine wanes_modify view.2 stats.jobId fun job => ?_
    obtain ⟨id, same⟩ := degradeQos_keeps _ idleTimeout
    obtain ⟨id', same'⟩ := withIdleness_keeps _ _ _ now
    exact ⟨id.trans id', same.trans same'⟩

theorem shifts_fold {α β : Type} (step : β → α → β) (table : β → HashMap JobId JobInfo) (state : GlobalState)
    (wanes : ∀ view item, Wanes (table view) (table (step view item))) : ∀ (items : List α) (view : β),
    Shifts { state with jobs := table view } { state with jobs := table (items.foldl step view) } := by
  intro items
  induction items with
  | nil => intro view; exact .refl
  | cons item rest ih =>
    intro view
    have first : Shift { state with jobs := table view } { state with jobs := table (step view item) } :=
      shift_table rfl (wanes view item)
    exact .head first (ih _)

theorem stirs_directHeartbeat (ctx : ControllerContext) (telemetry : Telemetry) (order : IterOrder Unit)
    (pulse : Pulse) (connectionId idleTimeout now : Nat) :
    Stirs ctx.state (ctx.directHeartbeat telemetry order pulse connectionId idleTimeout now).1.state := by
  unfold ControllerContext.directHeartbeat
  split
  · refine (stirs_hearWorker ctx order pulse now).trans (stirs_of_shifts ?_)
    exact shifts_fold (recordJobStats pulse.workerId idleTimeout now) Prod.snd _
      (wanes_recordJobStats pulse.workerId idleTimeout now) pulse.jobStats (telemetry, _)
  · exact .refl

theorem stirs_gatewayHeartbeat (order : IterOrder Unit) (now : Nat) (ctx : ControllerContext) (pulse : Pulse) :
    Stirs ctx.state (ctx.gatewayHeartbeat order now pulse).state := by
  unfold ControllerContext.gatewayHeartbeat
  split
  · refine (stirs_hearWorker ctx order pulse now).trans (stirs_of_shifts ?_)
    exact shifts_fold copyJobStats id _ (fun view stats => wanes_modify view stats.jobId fun _ => ⟨rfl, rfl⟩)
      pulse.jobStats _
  · exact .refl

theorem stirs_gatewayHeartbeats (order : IterOrder Unit) (now : Nat) (updates : List Pulse) (ctx : ControllerContext) :
    Stirs ctx.state (updates.foldl (ControllerContext.gatewayHeartbeat order now) ctx).state := by
  refine List.foldlRecOn (motive := fun after : ControllerContext => Stirs ctx.state after.state) updates _ .refl ?_
  intro middle before pulse _
  exact before.trans (stirs_gatewayHeartbeat order now middle pulse)

theorem shifts_acceptBatch (state : GlobalState) (batch : List Submission) (nextJobId : Nat) :
    Shifts state (state.acceptBatch batch nextJobId) := by
  refine List.foldlRecOn (motive := fun after => Shifts state after) batch _ .refl ?_
  intro middle before submission _
  exact before.tail (shift_submit middle submission nextJobId)

/-- Besides the table, the handles and the usage, heartbeats leave the state alone. -/
theorem hearWorker_frame (ctx : ControllerContext) (order : IterOrder Unit) (pulse : Pulse) (now : Nat) :
    (ctx.hearWorker order pulse now).state = { ctx.state with
      workers := (ctx.hearWorker order pulse now).state.workers
      jobs := (ctx.hearWorker order pulse now).state.jobs
      usageTracker := (ctx.hearWorker order pulse now).state.usageTracker } :=
  ControllerContext.reconcile_frame order pulse.workerId pulse.activeJobIds
    { ctx with state := ctx.state.refreshWorker pulse now } now

theorem directHeartbeat_frame (ctx : ControllerContext) (telemetry : Telemetry) (order : IterOrder Unit)
    (pulse : Pulse) (connectionId idleTimeout now : Nat) :
    (ctx.directHeartbeat telemetry order pulse connectionId idleTimeout now).1.state = { ctx.state with
      workers := (ctx.directHeartbeat telemetry order pulse connectionId idleTimeout now).1.state.workers
      jobs := (ctx.directHeartbeat telemetry order pulse connectionId idleTimeout now).1.state.jobs
      usageTracker := (ctx.directHeartbeat telemetry order pulse connectionId idleTimeout now).1.state.usageTracker } := by
  unfold ControllerContext.directHeartbeat
  split
  · dsimp only
    rw [hearWorker_frame]
  · rfl

theorem gatewayHeartbeats_frame (order : IterOrder Unit) (now : Nat) (updates : List Pulse) (ctx : ControllerContext) :
    (updates.foldl (ControllerContext.gatewayHeartbeat order now) ctx).state = { ctx.state with
      workers := (updates.foldl (ControllerContext.gatewayHeartbeat order now) ctx).state.workers
      jobs := (updates.foldl (ControllerContext.gatewayHeartbeat order now) ctx).state.jobs
      usageTracker := (updates.foldl (ControllerContext.gatewayHeartbeat order now) ctx).state.usageTracker } := by
  refine List.foldlRecOn (motive := fun after : ControllerContext => after.state = { ctx.state with
    workers := after.state.workers, jobs := after.state.jobs, usageTracker := after.state.usageTracker })
    updates _ rfl fun middle before pulse _ => ?_
  unfold ControllerContext.gatewayHeartbeat
  split
  · dsimp only
    rw [hearWorker_frame, before]
  · exact before

end Heartbeats

/-- What an event does to the table and the handles of a controller. -/
inductive Course (controller : Controller) : ControllerEvent → GlobalState → Prop where
  | quiet {event : ControllerEvent} {state' : GlobalState} (stirs : Stirs controller.state state')
      (role : state'.role = controller.state.role) : Course controller event state'
  | registered {event : ControllerEvent} {state' : GlobalState} {workerId : WorkerId} {worker : WorkerHandle}
      (rebuilt : Rebuilt (rebuildWorkerAllocations workerId worker.resources controller.state.jobs) worker)
      (workers : state'.workers = controller.state.workers.insert workerId worker)
      (jobs : state'.jobs = controller.state.jobs) (role : state'.role = controller.state.role) :
      Course controller event state'
  | scheduled {input : PassInput} {state' : GlobalState} (lead : controller.leads = true)
      (ran : scheduleJobs input controller.state = some state') : Course controller (.act (.schedule input)) state'
  | claimed (report : Report) :
      Course controller (.act (.jobStarted report)) (controller.state.jobStarted report.jobId)
  | expired (order : IterOrder ControllerContext.TimeoutSite) (now : Nat) :
      Course controller (.act (.checkTimeouts order now))
        (ControllerContext.checkTimeouts order controller.ctx now).state
  | promoted (now : Nat) (follows : controller.leads = false) :
      Course controller (.promote now) { controller.state with role := .leader }
  | followed {source peerHost leaderId : String} {order : IterOrder Unit} {now : Nat} {state' : GlobalState}
      (workers : state'.workers = controller.state.retainDirect.workers) (jobs : state'.jobs = controller.state.jobs)
      (role : state'.role = .follower) :
      Course controller (.receive source peerHost order now (.heartbeat leaderId)) state'
  | synced (source peerHost : String) (order : IterOrder Unit) (now : Nat) (newState : PersistedState) :
      Course controller (.receive source peerHost order now (.stateSync newState))
        (controller.state.receiveStateSync newState)
  | deregistered (source peerHost : String) (order : IterOrder Unit) (now : Nat) (workerId : WorkerId)
      (lead : controller.leads = true) :
      Course controller (.receive source peerHost order now (.deregisterWorker workerId))
        { controller.state with workers := controller.state.workers.remove workerId }
  | restarted (file : Option PersistedState) (standalone : Bool) (maxDbId now : Nat) :
      Course controller (.restart file standalone maxDbId now)
        (initialState file standalone maxDbId controller.state.apiPort now)

section Steps

variable {controller next : Controller} {id : String} {sent : Posted} {history history' : History}

theorem Controller.leads_iff {controller : Controller} : controller.leads = true ↔ controller.state.role = .leader := by
  simp [leads]

/-- A section at a controller is one of its leader's, and it saves after a scheduling pass
and after nothing else. -/
theorem act_cases {event : Event} (taken : controller.act event history = some (next, sent, history')) :
    ∃ after, (controller.leader history).apply event = some after ∧
      (∀ submission nextJobId, event ≠ .submit submission nextJobId) ∧
      (next.ctx = after.ctx ∧ next.tasks = after.tasks ∧ next.desk = controller.desk ∧ history' = after.history) ∧
      ((∃ passed : Controller, passed.file = controller.file ∧ passed.save = (next, sent)) ∨
        next.file = controller.file ∧ sent = controller.announces event) := by
  obtain ⟨after, applied, made⟩ := Option.bind_eq_some_iff.mp taken
  have other (submission : Submission) (nextJobId : Nat) : event ≠ .submit submission nextJobId := by
    rintro rfl
    cases made
  cases event with
  | schedule input =>
    simp only at made
    split at made <;> cases made
    exact ⟨after, applied, other, ⟨rfl, rfl, rfl, rfl⟩,
      .inl ⟨{ controller with ctx := after.ctx, tasks := after.tasks }, rfl, rfl⟩⟩
  | submit => cases made
  | register | endWriter | disconnect | preempt | reconcile | jobStarted | jobDone | mergeDone | finishDone | jobError |
    jobKilled | cancel | checkTimeouts | prune =>
    cases made
    exact ⟨after, applied, other, ⟨rfl, rfl, rfl, rfl⟩, .inr ⟨rfl, rfl⟩⟩

theorem course_act {event : Event} (taken : controller.act event history = some (next, sent, history')) :
    Course controller (.act event) next.state := by
  obtain ⟨after, applied, made⟩ := Option.bind_eq_some_iff.mp taken
  have other (submission : Submission) (nextJobId : Nat) : event ≠ .submit submission nextJobId := by
    rintro rfl
    cases made
  have role : after.ctx.state.role = controller.state.role := congrArg Prod.fst (apply_standing applied other)
  cases event with
  | submit submission nextJobId => exact absurd rfl (other submission nextJobId)
  | schedule input =>
    simp only at made
    split at made
    · rename_i lead
      obtain ⟨final, ran, same⟩ := Option.map_eq_some_iff.mp applied
      subst same
      cases made
      exact .scheduled lead ran
    · cases made
  | register registration now =>
    cases applied
    cases made
    exact .registered (handle_rebuilt registration (.direct .live) now _) rfl rfl rfl
  | jobStarted report =>
    cases applied
    cases made
    exact .claimed report
  | checkTimeouts order now =>
    cases applied
    cases made
    exact .expired order now
  | endWriter | disconnect | preempt | reconcile | jobDone | mergeDone | finishDone | jobError | jobKilled | cancel | prune =>
    cases made
    exact .quiet (stirs_of_shifts (apply_shifts applied rfl)) role

theorem course_desk {event : DeskEvent} (taken : controller.serve event = some next) :
    Course controller (.desk event) next.state := by
  obtain ⟨⟨state, desk⟩, applied, same⟩ := Option.map_eq_some_iff.mp taken
  subst same
  have role : state.role = controller.state.role := by rw [(deskMove applied).frame]
  cases deskMove applied with
  | refused | accepted | circular | passed | sent | answered => exact .quiet .refl rfl
  | processed => exact .quiet (stirs_of_shifts (shifts_acceptBatch _ _ _)) role

theorem directHeartbeat_standing (ctx : ControllerContext) (telemetry : Telemetry) (order : IterOrder Unit)
    (pulse : Pulse) (connectionId idleTimeout now : Nat) :
    (ctx.directHeartbeat telemetry order pulse connectionId idleTimeout now).1.state.standing =
      ctx.state.standing := by
  rw [directHeartbeat_frame]
  rfl

theorem gatewayHeartbeats_standing (order : IterOrder Unit) (now : Nat) (updates : List Pulse)
    (ctx : ControllerContext) :
    (updates.foldl (ControllerContext.gatewayHeartbeat order now) ctx).state.standing = ctx.state.standing := by
  rw [gatewayHeartbeats_frame]
  rfl

theorem course_hear (heard : HeardPulse) : Course controller (.hear heard) (controller.hear heard).1.state := by
  unfold Controller.hear
  split
  · exact .quiet (stirs_directHeartbeat _ _ _ _ _ _ _) (congrArg Prod.fst (directHeartbeat_standing _ _ _ _ _ _ _))
  · exact .quiet (.single (stir_refresh _ _ _)) rfl

theorem course_receive (source peerHost : String) (order : IterOrder Unit) (now : Nat) (msg : PeerMessage) :
    Course controller (.receive source peerHost order now msg)
      (controller.receive id source peerHost order now msg).1.state := by
  cases msg with
  | heartbeat leaderId =>
    simp only [Controller.receive, GlobalState.receiveHeartbeat]
    split
    · exact .quiet .refl rfl
    · split
      · split
        · exact .followed rfl rfl rfl
        · exact .quiet (.single (.shift (shift_refl rfl rfl))) rfl
      · rename_i follows
        exact .followed rfl rfl follows
  | stateSync newState => exact .synced source peerHost order now newState
  | registerWorker notice =>
    simp only [Controller.receive, GlobalState.registerGatewayWorker]
    split
    · exact @Course.registered controller _ _ notice.workerId
        (controller.state.gatewayHandle source peerHost notice now) ⟨rfl, rfl, rfl, rfl, rfl, rfl⟩ rfl rfl rfl
    · exact .quiet .refl rfl
  | deregisterWorker workerId =>
    simp only [Controller.receive, GlobalState.deregisterWorker]
    split
    · rename_i lead
      exact .deregistered source peerHost order now workerId (Controller.leads_iff.mpr lead)
    · exact .quiet .refl rfl
  | batchWorkerHeartbeats updates =>
    simp only [Controller.receive]
    split
    · exact .quiet (stirs_gatewayHeartbeats order now updates controller.ctx)
        (congrArg Prod.fst (gatewayHeartbeats_standing order now updates controller.ctx))
    · exact .quiet .refl rfl

variable {entry : String × PeerMessage} {state : GlobalState} {msg : PeerMessage} {event : ControllerEvent}

theorem step_course (taken : controller.step id event history = some (next, sent, history')) :
    Course controller event next.state := by
  cases event with
  | act event => exact course_act taken
  | desk event =>
    obtain ⟨served, applied, same⟩ := Option.map_eq_some_iff.mp taken
    cases same
    exact course_desk applied
  | hear heard =>
    cases taken
    exact course_hear heard
  | drain workerId =>
    cases taken
    refine .quiet (.single (.shift (.wane (sameLedgers_modify _ _ fun worker => ?_) fun jobId => .refl jobId _))) rfl
    exact ⟨rfl, rfl, rfl, rfl, rfl, rfl, rfl⟩
  | reserve reservations =>
    cases taken
    exact .quiet (.single (.shift (shift_refl rfl rfl))) rfl
  | syncActiveState =>
    cases taken
    exact .quiet .refl rfl
  | connect peerId =>
    cases taken
    exact .quiet (.single (.shift (shift_refl rfl rfl))) rfl
  | hangUp peerId =>
    cases taken
    exact .quiet (.single (.shift (shift_refl rfl rfl))) rfl
  | beat peerId =>
    obtain ⟨_, same⟩ := Option.ite_none_right_eq_some.mp taken
    cases same
    exact .quiet .refl rfl
  | promote now =>
    obtain ⟨waits, same⟩ := Option.ite_none_right_eq_some.mp taken
    cases same
    simp only [Bool.and_eq_true, Bool.not_eq_true'] at waits
    exact .promoted now waits.1
  | receive source peerHost order now msg =>
    cases taken
    exact course_receive source peerHost order now msg
  | restart file standalone maxDbId now =>
    cases taken
    exact .restarted file standalone maxDbId now

/-- The only snapshots that a controller sends are those of its own new state, as a leader. -/
def Snapshots (next : Controller) (sent : Posted) : Prop :=
  ∀ entry ∈ sent, ∀ snapshot, entry.2 = .stateSync snapshot → snapshot = next.state.persisted ∧ next.leads = true

theorem snapshots_nil (next : Controller) : Snapshots next [] := fun _ member => absurd member List.not_mem_nil

theorem mem_post {peerId : String} (member : entry ∈ state.post peerId msg) : entry = (peerId, msg) := by
  unfold GlobalState.post at member
  split at member
  · exact List.mem_singleton.mp member
  · cases member

theorem mem_broadcast (member : entry ∈ state.broadcast msg) : entry.2 = msg := by
  obtain ⟨peerId, _, posted⟩ := List.mem_flatMap.mp member
  rw [mem_post posted]

theorem mem_tellLeader (member : entry ∈ state.tellLeader msg) : entry.2 = msg := by
  unfold GlobalState.tellLeader at member
  split at member
  · split at member
    · rw [mem_post member]
    · exact mem_broadcast member
  · cases member

theorem mem_directWorkers (member : msg ∈ state.directWorkers) :
    ∃ notice, msg = .registerWorker notice := by
  obtain ⟨entry, _, same⟩ := List.mem_map.mp member
  exact ⟨_, same.symm⟩

theorem save_snapshots (controller : Controller) : Snapshots controller.save.1 controller.save.2 := by
  intro entry member snapshot carried
  simp only [Controller.save, GlobalState.saveState] at member
  split at member
  · rename_i lead
    rw [mem_broadcast member] at carried
    cases carried
    exact ⟨rfl, Controller.leads_iff.mpr lead⟩
  · cases member

theorem announces_snapshots (event : Event) (next : Controller) : Snapshots next (controller.announces event) := by
  intro entry member snapshot carried
  unfold Controller.announces at member
  split at member
  · rw [mem_tellLeader member] at carried
    cases carried
  · split at member
    · rw [mem_tellLeader member] at carried
      cases carried
    · cases member
  · cases member

theorem receive_snapshots (source peerHost : String) (order : IterOrder Unit) (now : Nat) (msg : PeerMessage) :
    Snapshots (controller.receive id source peerHost order now msg).1
      (controller.receive id source peerHost order now msg).2 := by
  cases msg with
  | heartbeat leaderId =>
    intro entry member snapshot carried
    simp only [Controller.receive, GlobalState.receiveHeartbeat] at member
    split at member
    · cases member
    · split at member
      · split at member
        · obtain ⟨msg, listed, same⟩ := List.mem_map.mp member
          obtain ⟨notice, rfl⟩ := mem_directWorkers listed
          subst same
          cases carried
        · cases member
      · split at member
        · cases member
        · obtain ⟨msg, listed, posted⟩ := List.mem_flatMap.mp member
          obtain ⟨notice, rfl⟩ := mem_directWorkers listed
          rw [mem_post posted] at carried
          cases carried
  | stateSync newState => exact save_snapshots _
  | registerWorker | deregisterWorker => exact snapshots_nil _
  | batchWorkerHeartbeats updates =>
    simp only [Controller.receive]
    split <;> exact snapshots_nil _

theorem hear_snapshots (heard : HeardPulse) : Snapshots (controller.hear heard).1 (controller.hear heard).2 := by
  unfold Controller.hear
  split
  · exact snapshots_nil _
  · intro entry member snapshot carried
    simp only at member
    split at member
    · split at member
      · rw [mem_post member] at carried
        cases carried
      · cases member
    · cases member

theorem step_snapshots (taken : controller.step id event history = some (next, sent, history')) :
    Snapshots next sent := by
  cases event with
  | act event =>
    obtain ⟨_, _, _, _, ⟨passed, _, saved⟩ | ⟨_, rfl⟩⟩ := act_cases taken
    · cases saved
      exact save_snapshots passed
    · exact announces_snapshots event next
  | desk event =>
    obtain ⟨served, _, same⟩ := Option.map_eq_some_iff.mp taken
    cases same
    exact snapshots_nil _
  | hear heard =>
    cases taken
    exact hear_snapshots heard
  | drain | syncActiveState | hangUp | restart =>
    cases taken
    exact snapshots_nil _
  | reserve reservations =>
    cases taken
    exact save_snapshots _
  | connect peerId =>
    cases taken
    intro entry member snapshot carried
    split at member
    · obtain ⟨msg, listed, same⟩ := List.mem_map.mp member
      obtain ⟨notice, rfl⟩ := mem_directWorkers listed
      subst same
      cases carried
    · rename_i lead
      cases List.mem_singleton.mp member
      cases carried
      exact ⟨rfl, Controller.leads_iff.mpr lead⟩
  | beat peerId =>
    obtain ⟨_, same⟩ := Option.ite_none_right_eq_some.mp taken
    cases same
    intro entry member snapshot carried
    rw [mem_post member] at carried
    cases carried
  | promote now =>
    obtain ⟨_, same⟩ := Option.ite_none_right_eq_some.mp taken
    cases same
    intro entry member snapshot carried
    rw [mem_broadcast member] at carried
    cases carried
    exact ⟨rfl, Controller.leads_iff.mpr rfl⟩
  | receive source peerHost order now msg =>
    cases taken
    exact receive_snapshots source peerHost order now msg

theorem save_file (controller : Controller) : controller.save.1.file = controller.file ∨
    controller.save.1.file = some controller.save.1.state.persisted ∧ controller.save.1.leads = true := by
  simp only [Controller.save, GlobalState.saveState]
  split
  · rename_i lead
    exact .inr ⟨rfl, Controller.leads_iff.mpr lead⟩
  · exact .inl rfl

theorem hear_file (heard : HeardPulse) : (controller.hear heard).1.file = controller.file := by
  unfold Controller.hear
  split <;> rfl

theorem receive_file (source peerHost : String) (order : IterOrder Unit) (now : Nat) (msg : PeerMessage) :
    (controller.receive id source peerHost order now msg).1.file = controller.file ∨
      (controller.receive id source peerHost order now msg).1.file =
        some (controller.receive id source peerHost order now msg).1.state.persisted ∧
      (controller.receive id source peerHost order now msg).1.leads = true := by
  cases msg with
  | stateSync newState => exact save_file _
  | heartbeat | registerWorker | deregisterWorker => exact .inl rfl
  | batchWorkerHeartbeats updates =>
    simp only [Controller.receive]
    split <;> exact .inl rfl

theorem step_file (taken : controller.step id event history = some (next, sent, history')) :
    next.file = controller.file ∨ next.file = some next.state.persisted ∧ next.leads = true := by
  cases event with
  | act event =>
    obtain ⟨_, _, _, _, ⟨passed, file, saved⟩ | ⟨file, _⟩⟩ := act_cases taken
    · cases saved
      exact file ▸ save_file passed
    · exact .inl file
  | desk event =>
    obtain ⟨served, applied, same⟩ := Option.map_eq_some_iff.mp taken
    cases same
    obtain ⟨_, _, same⟩ := Option.map_eq_some_iff.mp applied
    cases same
    exact .inl rfl
  | hear heard =>
    cases taken
    exact .inl (hear_file heard)
  | drain | syncActiveState | hangUp | connect | restart =>
    cases taken
    exact .inl rfl
  | reserve reservations =>
    cases taken
    exact save_file _
  | beat peerId =>
    simp only [Controller.step] at taken
    split at taken <;> cases taken
    exact .inl rfl
  | promote now =>
    simp only [Controller.step] at taken
    split at taken <;> cases taken
    exact .inl rfl
  | receive source peerHost order now msg =>
    cases taken
    exact receive_file source peerHost order now msg

end Steps

def ControllerEvent.snapshot : ControllerEvent → Option PersistedState
  | .receive _ _ _ _ (.stateSync newState) => some newState
  | .restart file _ _ _ => file
  | _ => none

theorem ControllerEvent.snapshot_local {event : ControllerEvent} (own : event.isLocal = true) :
    event.snapshot = none := by
  cases event with
  | receive | restart => cases own
  | act | desk | hear | drain | reserve | syncActiveState | connect | hangUp | beat | promote => rfl

namespace Cluster

/-- A condition on the events at each controller, as a condition on a step. -/
def Meets (allowed : String → Controller → ControllerEvent → Prop) (cluster : Cluster) (event : ClusterEvent) : Prop :=
  match cluster.resolve event with
  | some (id, event, _) => ∀ controller ∈ cluster.controllers.get? id, allowed id controller event
  | none => True

instance {allowed : String → Controller → ControllerEvent → Prop}
    [∀ id controller event, Decidable (allowed id controller event)] (cluster : Cluster) (event : ClusterEvent) :
    Decidable (cluster.Meets allowed event) := by
  unfold Meets
  split <;> infer_instance

abbrev Run (allowed : String → Controller → ControllerEvent → Prop) : Cluster → Prop :=
  Reach Fresh fun cluster event next => cluster.Meets allowed event ∧ cluster.apply event = some next

variable {event : ClusterEvent} {cluster : Cluster}

theorem apply_eq (moves : ∀ index, event ≠ .lose index) :
    cluster.apply event = (cluster.resolve event).bind fun target => cluster.move target.1 target.2.1 target.2.2 := by
  cases event with
  | lose index => exact absurd rfl (moves index)
  | on | deliver | restart => rfl

theorem apply_cases {cluster next : Cluster} (taken : cluster.apply event = some next) :
    (next.controllers = cluster.controllers ∧ next.wire.Sublist cluster.wire ∧ next.history = cluster.history) ∨
    ∃ id cevent wire controller after sent, cluster.resolve event = some (id, cevent, wire) ∧
      cluster.controllers.get? id = some controller ∧
      controller.step id cevent cluster.history = some (after, sent, next.history) ∧
      next.controllers = cluster.controllers.insert id after ∧
      next.wire = wire ++ sent.map fun entry => ⟨id, entry.1, entry.2⟩ := by
  cases event with
  | lose index =>
    cases taken
    exact .inl ⟨rfl, List.eraseIdx_sublist _ _, rfl⟩
  | on | deliver | restart =>
    rw [apply_eq (fun _ => ClusterEvent.noConfusion)] at taken
    obtain ⟨⟨id, cevent, wire⟩, resolved, moved⟩ := Option.bind_eq_some_iff.mp taken
    obtain ⟨controller, found, moved⟩ := Option.bind_eq_some_iff.mp moved
    obtain ⟨⟨after, sent, history⟩, stepped, same⟩ := Option.map_eq_some_iff.mp moved
    subst same
    exact .inr ⟨id, cevent, wire, controller, after, sent, resolved, found, stepped, rfl, rfl⟩

theorem resolve_wire {id : String} {cevent : ControllerEvent} {wire : List Envelope}
    (resolved : cluster.resolve event = some (id, cevent, wire)) :
    wire.Sublist cluster.wire := by
  cases event with
  | on target event =>
    simp only [resolve] at resolved
    split at resolved <;> cases resolved
    exact .refl _
  | deliver index peerHost order now =>
    obtain ⟨envelope, _, same⟩ := Option.map_eq_some_iff.mp resolved
    cases same
    exact List.eraseIdx_sublist _ _
  | lose index => cases resolved
  | restart target source standalone maxDbId now =>
    cases resolved
    exact .refl _

/-- A snapshot that an event brings comes from the wire or from a state file. -/
theorem resolve_snapshot {id : String} {cevent : ControllerEvent} {wire : List Envelope}
    (resolved : cluster.resolve event = some (id, cevent, wire)) {snapshot : PersistedState}
    (carried : cevent.snapshot = some snapshot) :
    (∃ envelope ∈ cluster.wire, envelope.msg = .stateSync snapshot) ∨
      ∃ source controller, cluster.controllers.get? source = some controller ∧ controller.file = some snapshot := by
  cases event with
  | on target event =>
    simp only [resolve] at resolved
    split at resolved
    · rename_i here
      cases resolved
      cases cevent with
      | receive | restart => cases here
      | act | desk | hear | drain | reserve | syncActiveState | connect | hangUp | beat | promote => cases carried
    · cases resolved
  | deliver index peerHost order now =>
    obtain ⟨envelope, found, same⟩ := Option.map_eq_some_iff.mp resolved
    cases same
    obtain ⟨source, target, msg⟩ := envelope
    refine .inl ⟨_, List.mem_of_getElem? found, ?_⟩
    cases msg <;> cases carried
    rfl
  | lose index => cases resolved
  | restart target source standalone maxDbId now =>
    cases resolved
    obtain ⟨controller, found, file⟩ := Option.bind_eq_some_iff.mp carried
    exact .inr ⟨source, controller, found, file⟩

/-- What holds of every controller, and of every snapshot that leaders make, holds in
every run whose events keep it. -/
theorem invariant {allowed : String → Controller → ControllerEvent → Prop}
    (Holds : String → Controller → Prop) (Snapshot : PersistedState → Prop)
    (fresh : ∀ id controller, controller.Fresh → Holds id controller)
    (taken : ∀ id controller, Holds id controller → controller.leads = true → Snapshot controller.state.persisted)
    (step : ∀ id controller event history next sent history', Holds id controller →
      (∀ snapshot, event.snapshot = some snapshot → Snapshot snapshot) → allowed id controller event →
      controller.step id event history = some (next, sent, history') → Holds id next)
    (reached : Run allowed cluster) {id : String} {controller : Controller}
    (found : cluster.controllers.get? id = some controller) : Holds id controller := by
  have whole := reached.invariant (fun cluster =>
    (∀ id controller, cluster.controllers.get? id = some controller →
      Holds id controller ∧ ∀ file, controller.file = some file → Snapshot file) ∧
    ∀ envelope ∈ cluster.wire, ∀ snapshot, envelope.msg = .stateSync snapshot → Snapshot snapshot) ?_ ?_
  · exact (whole.1 id controller found).1
  · intro cluster starts
    refine ⟨fun id controller found => ?_, fun envelope member => ?_⟩
    · have new := starts.controllers id controller found
      refine ⟨fresh id controller new, fun file stored => ?_⟩
      rw [new.file] at stored
      cases stored
    · rw [starts.wire] at member
      cases member
  · rintro cluster event next ⟨controllers, wire⟩ ⟨meets, applied⟩
    rcases apply_cases applied with ⟨same, fewer, _⟩ | ⟨id, cevent, rest, controller, after, sent, resolved, found,
      stepped, controllers', wire'⟩
    · rw [same]
      exact ⟨controllers, fun envelope member => wire envelope (fewer.subset member)⟩
    · obtain ⟨holds, file⟩ := controllers id controller found
      rw [Meets, resolved] at meets
      have holds' : Holds id after := by
        refine step id controller cevent _ after sent _ holds (fun snapshot carried => ?_) (meets controller found) stepped
        rcases resolve_snapshot resolved carried with ⟨envelope, member, same⟩ | ⟨source, other, found', stored⟩
        · exact wire envelope member snapshot same
        · exact (controllers source other found').2 snapshot stored
      refine ⟨fun other controller' found' => ?_, fun envelope member snapshot carried => ?_⟩
      · rw [controllers', HashMap.get?_insert] at found'
        split at found'
        · rename_i same
          cases found'
          subst same
          refine ⟨holds', fun snapshot stored => ?_⟩
          rcases step_file stepped with kept | ⟨written, lead⟩
          · exact file snapshot (kept ▸ stored)
          · rw [written] at stored
            cases stored
            exact taken other after holds' lead
        · exact controllers other controller' found'
      · rw [wire', List.mem_append] at member
        rcases member with old | new
        · exact wire envelope ((resolve_wire resolved).subset old) snapshot carried
        · obtain ⟨entry, posted, same⟩ := List.mem_map.mp new
          subst same
          obtain ⟨same, lead⟩ := step_snapshots stepped entry posted snapshot carried
          rw [same]
          exact taken id after holds' lead

end Cluster

/-- Every table stays orderly, whatever happens. -/
theorem Orderly.course {controller : Controller} {event : ControllerEvent} {state' : GlobalState}
    (valid : Orderly controller.state.jobs)
    (snapshot : ∀ snapshot, event.snapshot = some snapshot → Orderly snapshot.jobs)
    (course : Course controller event state') : Orderly state'.jobs := by
  cases course with
  | quiet stirs _ => exact valid.stirs stirs
  | registered _ _ jobs _ | followed _ jobs _ => exact jobs ▸ valid
  | scheduled _ ran => exact valid.schedule ran
  | claimed report => exact valid.jobStarted
  | expired order now => exact valid.checkTimeouts order now
  | promoted | deregistered => exact valid
  | synced source peerHost order now newState => exact snapshot newState rfl
  | restarted file standalone maxDbId now =>
    cases file with
    | none => exact orderly_empty
    | some file => exact snapshot file rfl

theorem Cluster.orderly {allowed : String → Controller → ControllerEvent → Prop} {cluster : Cluster}
    (reached : Run allowed cluster) {id : String} {controller : Controller}
    (found : cluster.controllers.get? id = some controller) : Orderly controller.state.jobs :=
  invariant (fun _ controller => Orderly controller.state.jobs) (fun snapshot => Orderly snapshot.jobs)
    (fun _ _ fresh => fresh.jobs ▸ orderly_empty) (fun _ _ valid _ => valid)
    (fun _ _ _ _ _ _ _ valid snapshot _ taken => valid.course snapshot (step_course taken)) reached found

end Veloce
