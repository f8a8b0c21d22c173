import Mathlib.Logic.Relation
import Veloce.Ledger.Pooled
import Veloce.Lifecycle.Records

/-! The elementary changes that the sections of a controller make to its table and its handles,
whatever the table is. -/

namespace Veloce

open Collections

/-- Every worker has the ledger it had. -/
def SameLedgers (workers workers' : HashMap WorkerId WorkerHandle) : Prop :=
  ∀ workerId, match workers.get? workerId, workers'.get? workerId with
    | some worker, some worker' => SameLedger worker worker'
    | none, none => True
    | _, _ => False

inductive Closed : Option JobInfo → Option JobInfo → Prop where
  | gone {before : Option JobInfo} : Closed before none
  | requeued {job job' : JobInfo} (id : job'.id = job.id) (waits : job'.status = .pending)
      (unassigned : job'.assignedWorkers = []) : Closed (some job) (some job')
  | ended {job job' : JobInfo} (id : job'.id = job.id) (finished : job'.status.terminal = true) :
      Closed (some job) (some job')

inductive Shift (state state' : GlobalState) : Prop where
  | wane (workers : SameLedgers state.workers state'.workers) (jobs : Wanes state.jobs state'.jobs)
  | close {jobId : JobId} (workers : state'.workers = (state.releaseJobResourcesInternal jobId).workers)
      (record : Closed (state.jobs.get? jobId) (state'.jobs.get? jobId))
      (others : ∀ other, other ≠ jobId → state'.jobs.get? other = state.jobs.get? other)

abbrev Shifts : GlobalState → GlobalState → Prop := Relation.ReflTransGen Shift

variable {state state' : GlobalState} {jobId : JobId}

theorem SameLedger.refl (worker : WorkerHandle) : SameLedger worker worker := ⟨rfl, rfl, rfl, rfl, rfl, rfl, rfl⟩

theorem SameLedger.pool {worker worker' : WorkerHandle} (same : SameLedger worker worker') : SamePool worker worker' :=
  ⟨same.assignedJobs, same.availableCoreIds, same.jobCoreAssignments⟩

theorem SameLedgers.refl (workers : HashMap WorkerId WorkerHandle) : SameLedgers workers workers := by
  intro workerId
  cases workers.get? workerId with
  | none => trivial
  | some worker => exact .refl worker

theorem sameLedgers_modify (workers : HashMap WorkerId WorkerHandle) (workerId : WorkerId)
    {update : WorkerHandle → WorkerHandle} (keeps : ∀ worker, SameLedger worker (update worker)) :
    SameLedgers workers (workers.modify workerId update) := by
  intro other
  rw [HashMap.get?_modify]
  by_cases same : other = workerId
  · subst same
    cases found : workers.get? other with
    | none => simp
    | some worker => simpa using keeps worker
  · rw [if_neg same]
    exact SameLedgers.refl workers other

section Ledgers

variable {workers workers' : HashMap WorkerId WorkerHandle} {workerId : WorkerId}

theorem SameLedgers.found (same : SameLedgers workers workers') {worker : WorkerHandle}
    (found : workers.get? workerId = some worker) :
    ∃ worker', workers'.get? workerId = some worker' ∧ SameLedger worker worker' := by
  have ledger := same workerId
  rw [found] at ledger
  cases found' : workers'.get? workerId with
  | none => simp [found'] at ledger
  | some worker' => exact ⟨worker', rfl, by simpa [found'] using ledger⟩

theorem SameLedgers.found_back (same : SameLedgers workers workers') {worker' : WorkerHandle}
    (found : workers'.get? workerId = some worker') :
    ∃ worker, workers.get? workerId = some worker ∧ SameLedger worker worker' := by
  have ledger := same workerId
  rw [found] at ledger
  cases found' : workers.get? workerId with
  | none => simp [found'] at ledger
  | some worker => exact ⟨worker, rfl, by simpa [found'] using ledger⟩

end Ledgers

theorem Closed.wane {before after : Option JobInfo} (closed : Closed before after) : Wane jobId before after := by
  cases closed with
  | gone => exact .gone
  | requeued id waits unassigned => exact .requeued id waits unassigned
  | ended id finished => exact .ended id finished

theorem Closed.idle {before after : Option JobInfo} (closed : Closed before after) {job : JobInfo}
    (found : after = some job) : job.status ≠ .running := by
  intro running
  cases closed with
  | gone => cases found
  | requeued _ waits _ =>
    cases found
    rw [running] at waits
    cases waits
  | ended _ finished =>
    cases found
    rw [running] at finished
    cases finished

theorem Shift.wanes (shift : Shift state state') : Wanes state.jobs state'.jobs := by
  cases shift with
  | wane _ jobs => exact jobs
  | @close closed _ record others =>
    intro jobId
    by_cases same : jobId = closed
    · subst same
      exact record.wane
    · rw [others jobId same]
      exact .refl jobId _

theorem closes_of_closed (record : Closed (state.jobs.get? jobId) (state'.jobs.get? jobId))
    (others : ∀ other, other ≠ jobId → state'.jobs.get? other = state.jobs.get? other) :
    Closes state.jobs state'.jobs jobId :=
  ⟨fun _ found => record.idle found, others⟩

theorem Orderly.shifts (valid : Orderly state.jobs) (shifts : Shifts state state') : Orderly state'.jobs := by
  induction shifts with
  | refl => exact valid
  | tail _ shift before => exact before.wanes shift.wanes

theorem Agrees.shifts {Valid : HashMap JobId JobInfo → WorkerId → WorkerHandle → Prop} (rule : PoolRule Valid)
    (agrees : Agrees Valid state) (shifts : Shifts state state') : Agrees Valid state' := by
  induction shifts with
  | refl => exact agrees
  | tail _ shift before =>
    cases shift with
    | wane workers jobs =>
      intro workerId worker' found
      obtain ⟨worker, present, same⟩ := workers.found_back found
      exact rule.pool (rule.wane (before workerId worker present) jobs) same.pool
    | close workers record others => exact before.release rule.toLedgerRule workers (closes_of_closed record others)

section Sections

theorem shift_table (workers : state'.workers = state.workers) (jobs : Wanes state.jobs state'.jobs) :
    Shift state state' := .wane (workers ▸ .refl _) jobs

theorem shift_refl (workers : state'.workers = state.workers) (jobs : state'.jobs = state.jobs) :
    Shift state state' := shift_table workers fun jobId => jobs ▸ .refl jobId _

theorem Reworded.shift (reworded : Reworded state state') : Shift state state' := by
  refine shift_table reworded.workers fun jobId => ?_
  cases found : state.jobs.get? jobId with
  | none =>
    rw [Option.map_eq_none_iff.mp ((reworded.table jobId).trans (congrArg _ found))]
    exact .gone
  | some job =>
    obtain ⟨job', found', same⟩ := reworded.found found
    rw [found']
    exact .kept (congrArg Prod.fst (unworded_identity same)) (unworded_footprint same)

theorem Retires.shift (retires : Retires state state' jobId) : Shift state state' :=
  .close retires.workers (retires.gone ▸ .gone) retires.others

theorem shift_submit (state : GlobalState) (submission : Submission) (nextJobId : Nat) :
    Shift state (state.acceptSubmission submission nextJobId) := by
  unfold GlobalState.acceptSubmission
  split
  · refine shift_table rfl fun jobId => ?_
    simp only [HashMap.get?_insert]
    split
    · rename_i same
      exact .fresh same.symm submission.pending submission.unassigned
    · exact .refl jobId _
  · exact shift_refl rfl rfl

theorem shift_relink (state : GlobalState) (workerId : WorkerId) {update : WorkerHandle → WorkerHandle}
    (keeps : ∀ worker, SameLedger worker (update worker)) :
    Shift state { state with workers := state.workers.modify workerId update } :=
  .wane (sameLedgers_modify _ _ keeps) fun jobId => .refl jobId _

theorem shift_preempt (state : GlobalState) (jobId : JobId) : Shift state (state.preemptJob jobId) := by
  rcases state.preemptJob_cases jobId with ⟨job, found, _, same⟩ | same
  · rw [same]
    refine .close rfl ?_ fun other different => by simp only [HashMap.get?_modify, different, ↓reduceIte]
    simp only [HashMap.get?_modify, ↓reduceIte, found, Option.map_some]
    exact .requeued rfl rfl rfl
  · rw [same]
    exact shift_refl rfl rfl

theorem shifts_evict (evictions : List JobId) (state : GlobalState) : Shifts state (state.evictJobs evictions) :=
  GlobalState.evictJobs_invariant (Shifts state) evictions .refl
    fun middle jobId before => before.tail (shift_preempt middle jobId)

theorem shift_reap (ctx : ControllerContext) (jobId : JobId) (now : Nat) :
    Shift ctx.state (ctx.reapJob now jobId).state := by
  rw [ControllerContext.reapJob_state]
  refine @Shift.close _ _ jobId rfl ?_ fun other different => by simp only [HashMap.get?_modify, different, ↓reduceIte]
  simp only [HashMap.get?_modify, ↓reduceIte]
  cases ctx.state.jobs.get? jobId with
  | none => exact .gone
  | some job => exact .ended rfl rfl

theorem shifts_reconcile (order : IterOrder Unit) (ctx : ControllerContext) (workerId : WorkerId)
    (active : List JobId) (now : Nat) :
    Shifts ctx.state (ctx.reconcileMissingWorkerJobs order workerId active now).state :=
  ControllerContext.reconcile_invariant order workerId active (fun reaped => Shifts ctx.state reaped.state)
    (fun _ => .refl) fun reaped jobId before => before.tail (shift_reap reaped jobId now)

theorem shift_prune (ctx : ControllerContext) (retentionSeconds now : Nat) :
    Shift ctx.state (ctx.pruneJobs retentionSeconds now).state := by
  unfold ControllerContext.pruneJobs
  split
  · refine shift_table rfl fun jobId => ?_
    simp only [HashMap.get?_retain]
    cases ctx.state.jobs.get? jobId with
    | none => exact .gone
    | some job =>
      rw [Option.filter_some]
      split
      · exact .refl jobId _
      · exact .gone
  · exact shift_refl rfl rfl

end Sections

section Pass

variable {input : PassInput} {turn : Nat}

theorem Orderly.start (valid : Orderly state.jobs) {job stored : JobInfo} {placement : Placement}
    (starts : startJob input state job placement = some state') (found : state.jobs.get? job.id = some stored)
    (pending : stored.status = .pending) : Orderly state'.jobs := by
  have evicted := valid.shifts (shifts_evict placement.evictions state)
  obtain ⟨workers, allocated, same, opens⟩ := start_opens starts found pending
  refine ⟨(startJob_descends starts).keyed valid.keyed, fun other job' found' waits => ?_⟩
  by_cases equal : other = job.id
  · subst equal
    cases opens.opened.symm.trans found'
    cases waits
  · rw [opens.others other equal] at found'
    exact evicted.waiting other job' found' waits

theorem Orderly.schedule (valid : Orderly state.jobs) (ran : scheduleJobs input state = some state') :
    Orderly state'.jobs := by
  obtain ⟨pass, turns, same⟩ := Option.map_eq_some_iff.mp ran
  subst same
  refine passTurns_invariant (fun _ pass => Orderly pass.state.jobs) ?_ _ valid turns
  intro jobId rest pass next before taken
  cases passTurn_outcome taken with
  | skip _ _ => exact before
  | wait _ _ _ reworded _ => exact before.wanes reworded.shift.wanes
  | start found pending _ reworded placed starts =>
    obtain ⟨stored, found', status, _⟩ := reworded.pending found pending
    exact (before.wanes reworded.shift.wanes).start starts found' status

end Pass

/-- The sections that place, claim or expire nothing. -/
def Event.plain : Event → Bool
  | .schedule _ | .register .. | .jobStarted _ | .checkTimeouts .. => false
  | _ => true

theorem apply_shifts {leader next : Leader} {event : Event} (taken : leader.apply event = some next)
    (plain : event.plain = true) : Shifts leader.ctx.state next.ctx.state := by
  cases event with
  | schedule _ | register _ _ | jobStarted _ | checkTimeouts _ _ => cases plain
  | submit submission nextJobId =>
    cases taken
    exact .single (shift_submit _ submission nextJobId)
  | endWriter workerId connectionId =>
    cases taken
    refine .single (shift_relink _ workerId fun worker => ?_)
    split <;> exact ⟨rfl, rfl, rfl, rfl, rfl, rfl, rfl⟩
  | disconnect workerId connectionId now =>
    cases taken
    refine .single (shift_relink _ workerId fun worker => ?_)
    split <;> exact ⟨rfl, rfl, rfl, rfl, rfl, rfl, rfl⟩
  | preempt jobId =>
    cases taken
    exact .single (shift_preempt _ jobId)
  | reconcile order workerId active now =>
    cases taken
    exact shifts_reconcile order leader.ctx workerId active now
  | jobDone _ _ | mergeDone _ | finishDone _ _ _ _ | jobError _ _ _ | jobKilled _ _ | cancel _ _ _ =>
    rcases apply_concludes taken rfl with ⟨jobs, workers⟩ | ⟨target, retires⟩
    · exact .single (shift_refl workers jobs)
    · exact .single retires.shift
  | prune retentionSeconds now =>
    cases taken
    exact .single (shift_prune _ retentionSeconds now)

theorem Orderly.unended {jobs : HashMap JobId JobInfo} (valid : Orderly jobs) {jobId : JobId} {job : JobInfo}
    (found : jobs.get? jobId = some job) (going : job.status.terminal = false) :
    job.status = .running ∨ job.assignedWorkers = [] := by
  rcases status : job.status with _ | _ | _ | _ | _
  · exact .inr (valid.waiting jobId job found status)
  · exact .inl rfl
  all_goals
    rw [status] at going
    cases going

section Started

theorem jobStarted_record {other : JobId} {job' : JobInfo}
    (found : (state.jobStarted jobId).jobs.get? other = some job') :
    ∃ job, state.jobs.get? other = some job ∧ job'.id = job.id ∧ job'.assignedWorkers = job.assignedWorkers ∧
      job'.allocatedCores = job.allocatedCores ∧ (job' = job ∨ job'.status = .running ∧ other = jobId) := by
  simp only [GlobalState.jobStarted, HashMap.get?_modify] at found
  split at found
  · rename_i same
    obtain ⟨job, stored, updated⟩ := Option.map_eq_some_iff.mp found
    subst updated
    exact ⟨job, same ▸ stored, rfl, rfl, rfl, .inr ⟨rfl, same⟩⟩
  · exact ⟨job', found, rfl, rfl, rfl, .inl rfl⟩

/-- What a job holds when it is reported as started, it held before. -/
theorem jobStarted_was (valid : Orderly state.jobs)
    (unended : ∀ job ∈ state.jobs.get? jobId, job.status.terminal = false) {other : JobId} {job' : JobInfo}
    (found : (state.jobStarted jobId).jobs.get? other = some job') (running : job'.status = .running)
    {workerId : WorkerId} (node : workerId ∈ job'.assignedWorkers) :
    ∃ job, state.jobs.get? other = some job ∧ job.status = .running ∧ workerId ∈ job.assignedWorkers ∧
      job'.allocatedCores = job.allocatedCores := by
  obtain ⟨job, stored, _, assigned, allocated, kept⟩ := jobStarted_record found
  rw [assigned] at node
  refine ⟨job, stored, ?_, node, allocated⟩
  rcases kept with rfl | ⟨_, rfl⟩
  · exact running
  · refine (valid.unended stored (unended job stored)).resolve_right fun none => ?_
    rw [none] at node
    cases node

theorem jobStarted_held (valid : Orderly state.jobs)
    (unended : ∀ job ∈ state.jobs.get? jobId, job.status.terminal = false) {workerId : WorkerId} {other : JobId}
    {cores : List Nat} (taken : heldCores (state.jobStarted jobId).jobs workerId other = some cores) :
    heldCores state.jobs workerId other = some cores := by
  obtain ⟨job', found, runs, stored⟩ := held_some taken
  obtain ⟨running, node⟩ := runsOn_iff.mp runs
  obtain ⟨job, found', was, node', same⟩ := jobStarted_was valid unended found running node
  rw [heldCores, held_running found' (runsOn_iff.mpr ⟨was, node'⟩), ← same]
  exact stored

theorem Orderly.jobStarted (valid : Orderly state.jobs) : Orderly (state.jobStarted jobId).jobs where
  keyed other job' found := by
    obtain ⟨job, stored, id, _⟩ := jobStarted_record found
    exact id.trans (valid.keyed other job stored)
  waiting other job' found waits := by
    obtain ⟨job, stored, _, _, _, rfl | ⟨running, _⟩⟩ := jobStarted_record found
    · exact valid.waiting other _ stored waits
    · rw [running] at waits
      cases waits

theorem TableOk.jobStarted (valid : TableOk state.jobs)
    (unended : ∀ job ∈ state.jobs.get? jobId, job.status.terminal = false) :
    TableOk (state.jobStarted jobId).jobs where
  toOrderly := valid.toOrderly.jobStarted
  apart workerId := (valid.apart workerId).holders fun _ _ taken => jobStarted_held valid.toOrderly unended taken
  recorded other job' found running workerId node := by
    obtain ⟨job, stored, was, node', allocated⟩ := jobStarted_was valid.toOrderly unended found running node
    rw [allocated]
    exact valid.recorded other job stored was workerId node'

end Started

section Standing

/-- What the sections never touch: the role of the controller, its peers and the
counter of its table. -/
def GlobalState.standing (state : GlobalState) : ControllerRole × Option String × HashMap String Channel × Nat × Nat :=
  (state.role, state.leaderId, state.peers, state.apiPort, state.nextJobId)

theorem retire_standing (ctx : ControllerContext) (jobId : JobId) (newStatus : JobStatus) (now : Nat) :
    (ctx.retire jobId newStatus now).1.state.standing = ctx.state.standing := by rw [retire_frame]; rfl

theorem notifyHead_standing (state : GlobalState) (jobId : JobId) (msg : Message) :
    (state.notifyHead jobId msg).standing = state.standing := by
  rw [GlobalState.notifyHead_eq]
  rfl

theorem turn_standing {input : PassInput} {turn : Nat} {pass next : PassState} {turnOf : JobId}
    (outcome : TurnOutcome input turn pass turnOf next) : next.state.standing = pass.state.standing := by
  cases outcome with
  | skip _ _ => rfl
  | wait _ _ _ reworded _ =>
    rw [reworded.rest]
    rfl
  | @start job placement cleared started _ _ _ reworded _ starts =>
    obtain ⟨workers, _, same⟩ := startJob_eq starts
    have evicted : (cleared.evictJobs placement.evictions).standing = cleared.standing := by
      rw [GlobalState.evictJobs_frame]
      rfl
    have worded : cleared.standing = pass.state.standing := by
      rw [reworded.rest]
      rfl
    exact (congrArg GlobalState.standing same).trans (evicted.trans worded)

theorem schedule_standing {input : PassInput} (ran : scheduleJobs input state = some state') :
    state'.standing = state.standing := by
  obtain ⟨pass, turns, same⟩ := Option.map_eq_some_iff.mp ran
  subst same
  refine passTurns_invariant (fun _ pass => pass.state.standing = state.standing) ?_ _ rfl turns
  intro turnOf rest pass next before taken
  exact (turn_standing (passTurn_outcome taken)).trans before

theorem timeoutJob_standing (ctx : ControllerContext) (jobId : JobId) (now : Nat) :
    (ctx.timeoutJob jobId now).state.standing = ctx.state.standing :=
  (retire_standing _ _ _ _).trans (notifyHead_standing _ _ _)

theorem failOrphan_standing (ctx : ControllerContext) (jobId : JobId) (now : Nat) :
    (ctx.failOrphan jobId now).state.standing = ctx.state.standing := retire_standing _ _ _ _

theorem reconcile_standing (order : IterOrder Unit) (ctx : ControllerContext) (workerId : WorkerId)
    (active : List JobId) (now : Nat) :
    (ctx.reconcileMissingWorkerJobs order workerId active now).state.standing = ctx.state.standing := by
  rw [ControllerContext.reconcile_frame]
  rfl

theorem checkTimeouts_standing (order : IterOrder ControllerContext.TimeoutSite) (ctx : ControllerContext) (now : Nat) :
    (ControllerContext.checkTimeouts order ctx now).state.standing = ctx.state.standing :=
  ControllerContext.checkTimeouts_invariant (fun _ after => after.state.standing = ctx.state.standing) (fun _ => rfl) rfl
    (fun _ _ _ before => (timeoutJob_standing _ _ _).trans before) (fun _ _ before => before)
    fun _ _ _ before => (failOrphan_standing _ _ _).trans before

theorem apply_standing {leader next : Leader} {event : Event} (taken : leader.apply event = some next)
    (other : ∀ submission nextJobId, event ≠ .submit submission nextJobId) :
    next.ctx.state.standing = leader.ctx.state.standing := by
  cases event with
  | submit submission nextJobId => exact absurd rfl (other submission nextJobId)
  | register _ _ | endWriter _ _ | disconnect _ _ _ | jobStarted _ =>
    cases taken
    rfl
  | schedule input =>
    obtain ⟨final, ran, same⟩ := Option.map_eq_some_iff.mp taken
    subst same
    exact schedule_standing ran
  | preempt jobId =>
    cases taken
    simp only [Leader.withState, Leader.withCtx]
    rw [GlobalState.preemptJob_frame]
    rfl
  | reconcile order workerId active now =>
    cases taken
    exact reconcile_standing order leader.ctx workerId active now
  | jobDone report exitCode =>
    rw [Leader.apply_jobDone] at taken
    cases taken
    rfl
  | mergeDone index =>
    obtain ⟨tasks, same⟩ := Leader.mergeDone_tasks taken
    subst same
    rfl
  | finishDone index stdoutId stderrId now =>
    obtain ⟨report, exitCode, logFiles, _, same⟩ := Leader.finishDone_cases taken
    subst same
    exact retire_standing _ report.jobId (.completed exitCode) now
  | jobError report error now =>
    cases taken
    exact retire_standing _ report.jobId (.failed error) now
  | jobKilled report now =>
    cases taken
    exact retire_standing _ report.jobId .killed now
  | cancel caller jobId now =>
    rcases Leader.cancel_cases taken with ⟨ctx, canceled, same⟩ | same
    · obtain ⟨_, _, notified⟩ := ControllerContext.cancelJob_cases canceled
      subst same notified
      exact (retire_standing _ jobId .killed now).trans (notifyHead_standing _ _ _)
    · rw [same]
  | checkTimeouts order now =>
    cases taken
    exact checkTimeouts_standing order leader.ctx now
  | prune retentionSeconds now =>
    cases taken
    simp only [Leader.withCtx, ControllerContext.pruneJobs]
    split <;> rfl

end Standing

end Veloce
