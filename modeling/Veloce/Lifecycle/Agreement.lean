import Veloce.Lifecycle.Preempted

/-! Status, assignment and handles of a job agree, whatever the order of passes, preemptions,
reaping and worker messages, as long as every JobStarted finds its job Running. -/

namespace Veloce

open Collections

/-- Handles list the Running jobs of their workers, which all have assigned
workers; no record names a worker that is not there. -/
structure Settled (state : GlobalState) : Prop where
  lists : Agrees Lists state
  running : ∀ jobId job, state.jobs.get? jobId = some job → job.status = .running → job.assignedWorkers ≠ []
  present : ∀ jobId job, state.jobs.get? jobId = some job → ∀ workerId ∈ job.assignedWorkers,
    ∃ worker, state.workers.get? workerId = some worker

/-- JobStarted comes for a Running job, if for any. -/
def Event.Confirms (leader : Leader) : Event → Prop
  | .jobStarted report =>
    ∀ job, leader.ctx.state.jobs.get? report.jobId = some job → job.status = .running
  | _ => True

def Event.keepsWorkers : Event → Bool
  | .checkTimeouts .. => false
  | _ => true

def ConfirmedStep (leader : Leader) (event : Event) (next : Leader) : Prop :=
  (event.Genuine leader ∧ event.keepsWorkers = true ∧ event.Confirms leader) ∧ leader.apply event = some next

/-- The record is not Running and assigned to no worker, or it keeps its workers
and is Running only if it was. -/
def Fades (before after : Option JobInfo) : Prop :=
  ∀ job', after = some job' → (job'.assignedWorkers = [] ∧ job'.status ≠ .running) ∨
    ∃ job, before = some job ∧ job'.assignedWorkers = job.assignedWorkers ∧
      (job'.status = .running → job.status = .running)

theorem fades_core {before after : Option JobInfo} (same : after.map JobInfo.core = before.map JobInfo.core) :
    Fades before after := by
  intro job' stands
  rw [stands, Option.map_some] at same
  obtain ⟨job, found, equal⟩ := Option.map_eq_some_iff.mp same.symm
  simp only [JobInfo.core, Prod.mk.injEq] at equal
  exact .inr ⟨job, found, equal.2.2.1.symm, fun running => equal.2.1.trans running⟩

variable {leader next : Leader} {event : Event} {input : PassInput}

theorem Move.fades {jobId : JobId} {after : Option JobInfo}
    (move : Move leader jobId event (leader.ctx.state.jobs.get? jobId) after) (confirms : event.Confirms leader) :
    Fades (leader.ctx.state.jobs.get? jobId) after := by
  generalize was : leader.ctx.state.jobs.get? jobId = before at move
  cases move with
  | kept same => exact fades_core same
  | submitted submission nextJobId id =>
    intro job' stands
    cases stands
    exact .inl ⟨submission.unassigned, by simp [submission.pending]⟩
  | evicted running =>
    intro job' stands
    cases stands
    exact .inl ⟨rfl, by simp [JobInfo.requeued]⟩
  | claimed about same =>
    intro job' stands
    cases stands
    simp only [JobInfo.core, Prod.mk.injEq] at same
    exact .inr ⟨_, rfl, same.2.2.1, fun _ => confirms _ (about ▸ was)⟩
  | reaped order active now running =>
    intro job' stands
    cases stands
    exact .inr ⟨_, rfl, rfl, fun impossible => by cases impossible⟩
  | removed removes =>
    intro job' stands
    cases stands

variable {state state' : GlobalState} {jobId : JobId}

theorem Settled.step (valid : Settled state) (lists : Agrees Lists state')
    (workers : ∀ workerId worker, state.workers.get? workerId = some worker →
      ∃ worker', state'.workers.get? workerId = some worker')
    (records : ∀ jobId, Fades (state.jobs.get? jobId) (state'.jobs.get? jobId)) : Settled state' where
  lists := lists
  running jobId job' found running := by
    rcases records jobId job' found with ⟨_, idle⟩ | ⟨job, stored, assigned, was⟩
    · exact absurd running idle
    · rw [assigned]
      exact valid.running jobId job stored (was running)
  present jobId job' found workerId node := by
    rcases records jobId job' found with ⟨none, _⟩ | ⟨job, stored, assigned, _⟩
    · rw [none] at node
      cases node
    · rw [assigned] at node
      obtain ⟨worker, there⟩ := valid.present jobId job stored workerId node
      exact workers workerId worker there

/-- A turn starts only its own job. -/
theorem TurnMove.fades {victims : List JobId} {turnOf : JobId} {before after : Option JobInfo}
    (move : TurnMove victims turnOf jobId before after) (other : jobId ≠ turnOf) : Fades before after := by
  cases move with
  | kept same => exact fades_core same
  | @evicted job job' _ running same =>
    intro later stands
    cases stands
    have waits : job'.status = .pending := congrArg (·.2.1) same
    exact .inl ⟨congrArg (·.2.2.1) same, by simp [waits]⟩
  | started turn _ _ _ => exact absurd turn other

theorem PlacementOk.present {turn : Nat} {job : JobInfo} {placement : Placement}
    (ok : PlacementOk input turn state job placement) {workerId : WorkerId} (node : workerId ∈ placement.nodes) :
    ∃ worker, state.workers.get? workerId = some worker := by
  rcases ok.fits with ⟨_, fits⟩ | fits
  · obtain ⟨worker, found, _⟩ := fits workerId node
    exact ⟨worker, found⟩
  · obtain ⟨worker, found, _⟩ := fits workerId node
    exact ⟨worker, found⟩

theorem Settled.turn {turn : Nat} {pass next : PassState} (valid : Settled pass.state)
    (outcome : TurnOutcome input turn pass jobId next) : Settled next.state := by
  have moves := turn_move outcome
  cases outcome with
  | skip _ _ => exact valid
  | wait _ _ _ reworded _ =>
    refine valid.step (valid.lists.reworded lists_rule reworded) (fun workerId worker found => ?_)
      fun other => fades_core (reworded.core other)
    exact ⟨worker, by rw [reworded.workers]; exact found⟩
  | @start job placement cleared started found pending _ reworded placed starts =>
    obtain ⟨stored, found', status, memory⟩ := reworded.pending found pending
    have ok := placeJob_ok placed
    have links := start_links ok.distinct starts
    have lists : Agrees Lists started := (valid.lists.reworded lists_rule reworded).start lists_rule ok.distinct
      starts found' status memory fun _ _ _ _ => trivial
    have kept (workerId : WorkerId) (worker : WorkerHandle) (there : cleared.workers.get? workerId = some worker) :
        ∃ worker', started.workers.get? workerId = some worker' := by
      obtain ⟨worker', there', _⟩ := links.found there
      exact ⟨worker', there'⟩
    obtain ⟨workers, _, _, opens⟩ := start_opens starts found' status
    refine ⟨lists, fun other job' present running => ?_, fun other job' present workerId node => ?_⟩
    · by_cases own : other = jobId
      · subst own
        cases opens.opened.symm.trans present
        exact ok.nonempty
      · rcases (moves other).fades own job' present with ⟨_, idle⟩ | ⟨before, there, assigned, was⟩
        · exact absurd running idle
        · rw [assigned]
          exact valid.running other before there (was running)
    · by_cases own : other = jobId
      · subst own
        cases opens.opened.symm.trans present
        obtain ⟨worker, there⟩ := ok.present node
        exact kept workerId worker there
      · rcases (moves other).fades own job' present with ⟨none, _⟩ | ⟨before, there, assigned, _⟩
        · rw [none] at node
          cases node
        · rw [assigned] at node
          obtain ⟨worker, registered⟩ := valid.present other before there workerId node
          exact kept workerId worker (by rw [reworded.workers]; exact registered)

theorem Settled.schedule (valid : Settled state) (ran : scheduleJobs input state = some state') :
    Settled state' := by
  obtain ⟨pass, turns, same⟩ := Option.map_eq_some_iff.mp ran
  have begins : Settled (passStart input state) := ⟨valid.lists, valid.running, valid.present⟩
  have ends : Settled pass.state := by
    refine passTurns_invariant (fun _ pass => Settled pass.state) ?_ _ begins turns
    intro jobId rest pass next valid taken
    exact valid.turn (passTurn_outcome taken)
  subst same
  exact ⟨ends.lists, ends.running, ends.present⟩

/-- The handles list the right jobs and no worker is lost. -/
structure Handled (state state' : GlobalState) : Prop where
  lists : Agrees Lists state'
  workers : ∀ workerId worker, state.workers.get? workerId = some worker →
    ∃ worker', state'.workers.get? workerId = some worker'

theorem handled_same (lists : Agrees Lists state) (workers : state'.workers = state.workers)
    (jobs : state'.jobs = state.jobs) : Handled state state' where
  lists workerId worker found := by
    rw [workers] at found
    rw [jobs]
    exact lists workerId worker found
  workers workerId worker found := ⟨worker, by rw [workers]; exact found⟩

theorem handled_release (jobId : JobId) (lists : Agrees Lists state')
    (workers : state'.workers = (state.releaseJobResourcesInternal jobId).workers) : Handled state state' where
  lists := lists
  workers workerId worker found := by
    obtain ⟨worker', found', _⟩ := (release_links state jobId).found found
    exact ⟨worker', by rw [workers]; exact found'⟩

theorem handled_retires (lists : Agrees Lists state) (retires : Retires state state' jobId) :
    Handled state state' := handled_release jobId (lists.retires lists_rule retires) retires.workers

theorem Handled.trans {middle : GlobalState} (first : Handled state middle) (second : Handled middle state') :
    Handled state state' where
  lists := second.lists
  workers workerId worker found := by
    obtain ⟨worker, found⟩ := first.workers workerId worker found
    exact second.workers workerId worker found

theorem handled_submit (lists : Agrees Lists state) (submission : Submission) (nextJobId : Nat)
    (fresh : state.jobs.get? submission.job.id = none) :
    Handled state (state.acceptSubmission submission nextJobId) := by
  unfold GlobalState.acceptSubmission
  split
  · refine ⟨fun workerId worker found other => ?_, fun workerId worker found => ⟨worker, found⟩⟩
    rw [lists workerId worker found other]
    simp only [HashMap.get?_insert]
    split
    · rename_i same
      rw [same, fresh]
      have idle : submission.job.runsOn workerId = false :=
        runsOn_of_not_running (by simp [submission.pending]) workerId
      simp [idle]
    · rfl
  · exact handled_same lists rfl rfl

theorem handled_register (lists : Agrees Lists state) (keyed : Keyed state.jobs) (registration : Registration)
    (now : Nat) : Handled state (state.registerWorker registration now) where
  lists workerId worker found := by
    simp only [GlobalState.registerWorker, HashMap.get?_insert] at found
    split at found
    · rename_i same
      cases found
      rw [same]
      exact rebuild_assigned keyed
    · exact lists workerId worker found
  workers workerId worker found := by
    simp only [GlobalState.registerWorker, HashMap.get?_insert]
    split
    · exact ⟨_, rfl⟩
    · exact ⟨worker, found⟩

theorem handled_relink (lists : Agrees Lists state) (workerId : WorkerId) {update : WorkerHandle → WorkerHandle}
    (keeps : ∀ worker, (update worker).assignedJobs = worker.assignedJobs) :
    Handled state { state with workers := state.workers.modify workerId update } where
  lists other worker found := by
    rw [HashMap.get?_modify] at found
    split at found
    · rename_i same
      obtain ⟨before, stored, updated⟩ := Option.map_eq_some_iff.mp found
      intro jobId
      rw [← updated, keeps]
      exact lists other before (same ▸ stored) jobId
    · exact lists other worker found
  workers other worker found := by
    simp only [HashMap.get?_modify]
    split
    · rename_i same
      exact ⟨_, Option.map_eq_some_iff.mpr ⟨worker, same ▸ found, rfl⟩⟩
    · exact ⟨worker, found⟩

theorem handled_jobStarted (lists : Agrees Lists state)
    (confirms : ∀ job, state.jobs.get? jobId = some job → job.status = .running) :
    Handled state (state.jobStarted jobId) where
  lists workerId worker found other := by
    rw [lists workerId worker found other]
    simp only [GlobalState.jobStarted, HashMap.get?_modify]
    split
    · rename_i same
      subst same
      cases stored : state.jobs.get? other with
      | none => simp
      | some job => simp [JobInfo.runsOn, confirms job stored]
    · rfl
  workers workerId worker found := ⟨worker, found⟩

theorem handled_preempt (lists : Agrees Lists state) (jobId : JobId) :
    Handled state (state.preemptJob jobId) where
  lists := lists.preempt lists_rule jobId
  workers workerId worker found := by
    obtain ⟨worker', found', _⟩ := (preempt_links state jobId).found found
    exact ⟨worker', found'⟩

theorem handled_reconcile {ctx : ControllerContext} (lists : Agrees Lists ctx.state) (order : IterOrder Unit)
    (workerId : WorkerId) (active : List JobId) (now : Nat) :
    Handled ctx.state (ctx.reconcileMissingWorkerJobs order workerId active now).state := by
  refine ControllerContext.reconcile_invariant order workerId active (fun after => Handled ctx.state after.state)
    (fun _ => handled_same lists rfl rfl) ?_
  intro middle jobId valid
  refine valid.trans (handled_release jobId ?_ ?_)
  · exact valid.lists.finalize lists_rule (by simp) now
  · rw [ControllerContext.reapJob_state]

theorem handled_prune {ctx : ControllerContext} (lists : Agrees Lists ctx.state) (retentionSeconds now : Nat) :
    Handled ctx.state (ctx.pruneJobs retentionSeconds now).state := by
  unfold ControllerContext.pruneJobs
  split
  · refine ⟨fun workerId worker found other => ?_, fun workerId worker found => ⟨worker, found⟩⟩
    rw [lists workerId worker found other]
    simp only [HashMap.get?_retain]
    cases stored : ctx.state.jobs.get? other with
    | none => simp
    | some job =>
      by_cases finished : ControllerContext.prunable job retentionSeconds now = true
      · have terminal : job.status.terminal = true := by
          simp only [ControllerContext.prunable, Bool.and_eq_true] at finished
          exact finished.1
        have idle : job.runsOn workerId = false := by
          refine runsOn_of_not_running (fun running => ?_) workerId
          rw [running] at terminal
          cases terminal
        simp [finished, idle]
      · simp [finished]
  · exact handled_same lists rfl rfl

theorem Handled.apply (valid : Accountable leader) (lists : Agrees Lists leader.ctx.state)
    (genuine : event.Genuine leader) (keeps : event.keepsWorkers = true) (confirms : event.Confirms leader)
    (taken : leader.apply event = some next) (other : ∀ input, event ≠ .schedule input) :
    Handled leader.ctx.state next.ctx.state := by
  cases event with
  | submit submission nextJobId =>
    cases taken
    exact handled_submit lists submission nextJobId (valid.absent genuine)
  | register registration now => cases taken; exact handled_register lists valid.sound.keyed registration now
  | endWriter workerId connectionId =>
    cases taken
    refine handled_relink lists workerId fun worker => ?_
    split <;> rfl
  | disconnect workerId connectionId now =>
    cases taken
    refine handled_relink lists workerId fun worker => ?_
    split <;> rfl
  | schedule input => exact absurd rfl (other input)
  | preempt target => cases taken; exact handled_preempt lists target
  | reconcile order workerId active now => cases taken; exact handled_reconcile lists order workerId active now
  | jobStarted report => cases taken; exact handled_jobStarted lists confirms
  | jobDone _ _ | mergeDone _ | finishDone _ _ _ _ | jobError _ _ _ | jobKilled _ _ | cancel _ _ _ =>
    rcases apply_concludes taken rfl with ⟨jobs, workers⟩ | ⟨target, retires⟩
    · exact handled_same lists workers jobs
    · exact handled_retires lists retires
  | checkTimeouts order now => cases keeps
  | prune retentionSeconds now => cases taken; exact handled_prune lists retentionSeconds now

theorem Settled.apply (valid : Accountable leader) (settled : Settled leader.ctx.state)
    (taken : ConfirmedStep leader event next) : Settled next.ctx.state := by
  obtain ⟨⟨genuine, keeps, confirms⟩, applied⟩ := taken
  obtain ⟨input, state, rfl, ran, rfl⟩ | other := Leader.schedule_or_other applied
  · exact settled.schedule ran
  · have handled := Handled.apply valid settled.lists genuine keeps confirms applied other
    exact settled.step handled.lists handled.workers fun jobId =>
      (apply_move valid.sound applied other jobId).fades confirms

theorem Leader.Fresh.settled (fresh : leader.Fresh) : Settled leader.ctx.state := by
  refine ⟨?_, ?_, ?_⟩
  · intro workerId worker found
    rw [fresh.workers] at found
    cases found
  · intro jobId job found
    rw [fresh.jobs] at found
    cases found
  · intro jobId job found
    rw [fresh.jobs] at found
    cases found

theorem ConfirmedStep.genuine (leader : Leader) (event : Event) (next : Leader)
    (taken : ConfirmedStep leader event next) : event.Genuine leader ∧ leader.apply event = some next :=
  ⟨taken.1.1, taken.2⟩

theorem settled_of_reach (reached : Reach Leader.Fresh ConfirmedStep leader) :
    Settled leader.ctx.state := by
  induction reached with
  | start fresh => exact fresh.settled
  | step earlier taken before =>
    exact before.apply (accountable_of_reach ConfirmedStep.genuine earlier) taken

/-- The job is assigned to workers, and those that are there hold it. -/
def Holds (state : GlobalState) (jobId : JobId) (job : JobInfo) : Prop :=
  job.assignedWorkers ≠ [] ∧ ∀ workerId ∈ job.assignedWorkers, ∀ worker,
    state.workers.get? workerId = some worker → jobId ∈ worker.assignedJobs

theorem Settled.running_iff (valid : Settled state) {job : JobInfo} (found : state.jobs.get? jobId = some job) :
    job.status = .running ↔ Holds state jobId job := by
  constructor
  · intro running
    refine ⟨valid.running jobId job found running, fun workerId node worker there => ?_⟩
    exact (valid.lists workerId worker there jobId).mpr ⟨job, found, runsOn_iff.mpr ⟨running, node⟩⟩
  · intro ⟨nonempty, holds⟩
    obtain ⟨workerId, node⟩ := List.exists_mem_of_ne_nil _ nonempty
    obtain ⟨worker, there⟩ := valid.present jobId job found workerId node
    obtain ⟨job', found', runs⟩ := (valid.lists workerId worker there jobId).mp (holds workerId node worker there)
    cases found.symm.trans found'
    exact (runsOn_iff.mp runs).1

theorem confirmed_starts {jobId : JobId} (valid : Accountable leader) (taken : ConfirmedStep leader event next)
    (waits : leader.ctx.state.hasStatus jobId .pending) (runs : next.ctx.state.hasStatus jobId .running) :
    ∃ input, event = .schedule input := by
  by_contra none
  have move := apply_move valid.sound taken.2 (fun input same => none ⟨input, same⟩) jobId
  obtain ⟨job, found, pending⟩ := waits
  obtain ⟨job', found', running⟩ := runs
  rcases move.fades taken.1.2.2 job' found' with ⟨_, idle⟩ | ⟨before, stored, _, was⟩
  · exact idle running
  · cases found.symm.trans stored
    rw [was running] at pending
    cases pending

/-- In every run in which each JobStarted finds its job Running, a job is Running if
and only if the workers it is assigned to hold it, and only passes start jobs. -/
theorem running_iff_holds {leader : Leader} (reached : Reach Leader.Fresh ConfirmedStep leader) :
    (∀ jobId job, leader.ctx.state.jobs.get? jobId = some job →
      (job.status = .running ↔ Holds leader.ctx.state jobId job)) ∧
    ∀ event next jobId, ConfirmedStep leader event next → leader.ctx.state.hasStatus jobId .pending →
      next.ctx.state.hasStatus jobId .running → ∃ input, event = .schedule input := by
  constructor
  · intro jobId job found
    exact (settled_of_reach reached).running_iff found
  · intro event next jobId taken waits runs
    exact confirmed_starts (accountable_of_reach ConfirmedStep.genuine reached) taken waits runs

instance Event.decidableConfirms (leader : Leader) (event : Event) : Decidable (event.Confirms leader) :=
  match event with
  | .jobStarted report =>
    match found : leader.ctx.state.jobs.get? report.jobId with
    | none => isTrue fun job stands => by rw [found] at stands; cases stands
    | some job => decidable_of_iff (job.status = .running)
      ⟨fun running job' stands => by rw [found] at stands; cases stands; exact running,
        fun confirms => confirms job found⟩
  | .submit .. | .register .. | .endWriter .. | .disconnect .. | .schedule _ | .preempt _ | .reconcile .. | .jobDone .. | .mergeDone _
  | .finishDone .. | .jobError .. | .jobKilled .. | .cancel .. | .checkTimeouts .. | .prune .. => isTrue trivial

/-- A job that was dispatched, reported and preempted. -/
theorem running_iff_holds_started : ∃ leader job,
    Reach Leader.Fresh ConfirmedStep leader ∧ leader.ctx.state.jobs.get? 1 = some job ∧ job.status = .running ∧
    Holds leader.ctx.state 1 job := by
  let events : List Event := preemption ++ [.schedule { now := 200 }, .jobStarted ⟨"w1", 1, 1⟩]
  have allowed : AllowedRun (fun leader event => event.Genuine leader ∧ event.keepsWorkers = true ∧
      event.Confirms leader) Leader.apply events { ctx := sampleLeader } := by decide +kernel
  have status : ((runLabels Leader.apply events { ctx := sampleLeader }).bind fun leader =>
      (leader.ctx.state.jobs.get? 1).map JobInfo.status) = some .running := by decide +kernel
  obtain ⟨leader, reached, _, status⟩ := exists_reach_of_bind Leader.sampleLeader_fresh allowed status
  obtain ⟨job, found, running⟩ := Option.map_eq_some_iff.mp status
  exact ⟨leader, job, reached, found, running, ((running_iff_holds reached).1 1 job found).mp running⟩

/-- A JobStarted that comes after the preemption makes the job Running without any
worker. -/
theorem jobStarted_runs_preempted_job : ∃ leader event next job,
    Reach Leader.Fresh GenuineStep leader ∧ event = .jobStarted ⟨"w1", 1, 1⟩ ∧ GenuineStep leader event next ∧
    leader.ctx.state.hasStatus 1 .pending ∧ next.ctx.state.jobs.get? 1 = some job ∧ job.status = .running ∧
    ¬ Holds next.ctx.state 1 job ∧ ¬ ∃ input, event = .schedule input := by
  have genuine : AllowedRun (fun leader event => event.Genuine leader) Leader.apply preemption
      { ctx := sampleLeader } := by decide +kernel
  have facts : (runLabels Leader.apply preemption { ctx := sampleLeader }).map (fun leader =>
      ((leader.ctx.state.jobs.get? 1).map JobInfo.status, decide (Report.Sent leader ⟨"w1", 1, 1⟩),
        ((leader.ctx.state.jobStarted 1).jobs.get? 1).map fun job => (job.status, job.assignedWorkers))) =
      some (some .pending, true, some (.running, [])) := by decide +kernel
  obtain ⟨leader, reached, _, facts⟩ := exists_reach Leader.sampleLeader_fresh genuine facts
  rw [Prod.mk.injEq, Prod.mk.injEq, decide_eq_true_eq] at facts
  obtain ⟨status, sent, after⟩ := facts
  obtain ⟨job, found, fields⟩ := Option.map_eq_some_iff.mp after
  rw [Prod.mk.injEq] at fields
  refine ⟨leader, _, _, job, reached, rfl, ⟨sent, rfl⟩, Option.map_eq_some_iff.mp status, found, fields.1, ?_, ?_⟩
  · intro holds
    exact holds.1 fields.2
  · rintro ⟨input, same⟩
    cases same

end Veloce
