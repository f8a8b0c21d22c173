import Veloce.Lifecycle.Preempted
import Veloce.Lifecycle.Tracking

/-! Who is told to stop. -/

namespace Veloce

open Collections

/-- Whether a worker that reads its messages in order is to stop the job. -/
def hearStop (workerId : WorkerId) (jobId : JobId) (told : Bool) (entry : WorkerId × Message) : Bool :=
  if entry.1 = workerId then
    match entry.2 with
    | .runJob order => if order.jobId = jobId then false else told
    | .terminateJob other | .preemptJob other => decide (other = jobId) || told
    | _ => told
  else told

namespace GlobalState

/-- TerminateJob or PreemptJob for the job was sent to the worker after its last RunJob. -/
def stopSent (state : GlobalState) (workerId : WorkerId) (jobId : JobId) : Bool :=
  state.outbox.foldl (hearStop workerId jobId) false

def isConnected (state : GlobalState) (workerId : WorkerId) : Bool :=
  ((state.workers.get? workerId).map WorkerHandle.connected).getD false

def headOf (state : GlobalState) (jobId : JobId) : Option WorkerId :=
  (state.jobs.get? jobId).bind (·.assignedWorkers.head?)

end GlobalState

/-- The workers of the dispatch under way that have not reported JobDone for it. -/
def History.unreported (history : History) (jobId : JobId) : List WorkerId :=
  if history.closed jobId < history.dispatches jobId then
    (history.sentTo jobId (history.dispatches jobId)).filter
      (· ∉ history.doneBy jobId (history.dispatches jobId))
  else []

/-- The sections that end a Running job without its worker having finished it. -/
inductive Event.Terminates (jobId : JobId) : Event → Prop where
  | canceled (caller : Caller) (now : Nat) : Terminates jobId (.cancel caller jobId now)
  | expired (order : IterOrder ControllerContext.TimeoutSite) (now : Nat) :
      Terminates jobId (.checkTimeouts order now)
  | failed {report : Report} (about : report.jobId = jobId) (error : String) (now : Nat) :
      Terminates jobId (.jobError report error now)
  | preempted : Terminates jobId (.preempt jobId)

def Event.ReportsEnd (leader : Leader) (jobId : JobId) (workerId : WorkerId) : Event → Prop
  | .jobError report _ _ => report = ⟨workerId, jobId, leader.history.dispatches jobId⟩
  | _ => False

/-- The worker that a section tells to stop the job it ends. -/
def Event.tells (leader : Leader) (jobId : JobId) : Event → Option WorkerId
  | .cancel .. | .preempt _ => leader.ctx.state.headOf jobId
  | .checkTimeouts _ now =>
    if ((leader.ctx.state.jobs.get? jobId).any (ControllerContext.walltimeExceeded · now)) then
      leader.ctx.state.headOf jobId
    else none
  | _ => none

section Messages

variable {state state' : GlobalState} {workerId : WorkerId} {jobId : JobId}

private theorem stopSent_append {sent : List (WorkerId × Message)} (outbox : state'.outbox = state.outbox ++ sent) :
    state'.stopSent workerId jobId = sent.foldl (hearStop workerId jobId) (state.stopSent workerId jobId) := by
  rw [GlobalState.stopSent, outbox, List.foldl_append]
  rfl

private theorem stopSent_same (outbox : state'.outbox = state.outbox) :
    state'.stopSent workerId jobId = state.stopSent workerId jobId := by
  rw [GlobalState.stopSent, outbox]
  rfl

private theorem stopSent_notifyHead (state : GlobalState) {target : JobId} {msg : Message}
    (stops : msg = .terminateJob target ∨ msg = .preemptJob target) (workerId : WorkerId) (jobId : JobId) :
    (state.notifyHead target msg).stopSent workerId jobId = (state.stopSent workerId jobId ||
      decide (jobId = target ∧ state.headOf target = some workerId ∧ state.routable workerId = true)) := by
  have heard (head : WorkerId) (told : Bool) : hearStop workerId jobId told (head, msg) =
      (told || decide (jobId = target ∧ head = workerId)) := by
    rcases stops with same | same
    · subst same
      by_cases there : head = workerId <;> by_cases about : target = jobId <;>
        simp [hearStop, there, about, eq_comm]
    · subst same
      by_cases there : head = workerId <;> by_cases about : target = jobId <;>
        simp [hearStop, there, about, eq_comm]
  unfold GlobalState.notifyHead GlobalState.headOf
  cases (state.jobs.get? target).bind (·.assignedWorkers.head?) with
  | none => simp
  | some head =>
    simp only [GlobalState.trySend_eq]
    cases reached : state.routable head with
    | false =>
      have unheard : ¬ (jobId = target ∧ some head = some workerId ∧ state.routable workerId = true) := by
        rintro ⟨_, same, routable⟩
        cases same
        rw [reached] at routable
        cases routable
      rw [decide_eq_false unheard, Bool.or_false]
      rfl
    | true =>
      have appended : (state.hand head msg).outbox = state.outbox ++ [(head, msg)] := rfl
      rw [if_pos rfl, stopSent_append appended, List.foldl_cons, List.foldl_nil, heard]
      congr 1
      by_cases same : head = workerId
      · subst same
        simp [reached]
      · simp [same]

private theorem preempt_isRunning (state : GlobalState) (target jobId : JobId) :
    (state.preemptJob target).isRunning jobId = (decide (jobId ≠ target) && state.isRunning jobId) := by
  rw [GlobalState.isRunning, GlobalState.get?_preemptJob]
  by_cases same : jobId = target
  · subst same
    cases state.jobs.get? jobId with
    | none => simp
    | some job => simp [evicted_not_running job]
  · simp [same, GlobalState.isRunning]

private theorem preempt_headOf (state : GlobalState) {target jobId : JobId} (different : jobId ≠ target) :
    (state.preemptJob target).headOf jobId = state.headOf jobId := by
  rw [GlobalState.headOf, GlobalState.get?_preemptJob, if_neg different]
  rfl

private theorem preempt_routable (state : GlobalState) (target : JobId) (workerId : WorkerId) :
    (state.preemptJob target).routable workerId = state.routable workerId := by
  refine routable_links (preempt_links state target) ?_ workerId
  rw [GlobalState.preemptJob_frame]

private theorem stopSent_preempt (state : GlobalState) (target : JobId) (workerId : WorkerId) (jobId : JobId) :
    (state.preemptJob target).stopSent workerId jobId = (state.stopSent workerId jobId ||
      decide (jobId = target ∧ state.isRunning jobId = true ∧ state.headOf jobId = some workerId ∧
        state.routable workerId = true)) := by
  by_cases running : ∃ job, state.jobs.get? target = some job ∧ job.status = .running
  · obtain ⟨job, found, running⟩ := running
    have outbox : (state.preemptJob target).outbox = (state.notifyHead target (.preemptJob target)).outbox := by
      rw [GlobalState.preemptJob_of_running found running]
    rw [stopSent_same outbox, stopSent_notifyHead state (.inr rfl)]
    congr 1
    by_cases same : jobId = target
    · subst same
      simp [isRunning_of_found found, running]
    · simp [same]
  · have idle : ¬ (jobId = target ∧ state.isRunning jobId = true ∧ state.headOf jobId = some workerId ∧
        state.routable workerId = true) := by
      rintro ⟨same, runs, _⟩
      subst same
      exact running (isRunning_iff.mp runs)
    rw [GlobalState.preemptJob_of_not_running fun job found same => running ⟨job, found, same⟩,
      decide_eq_false idle, Bool.or_false]

private theorem stopSent_evict (workerId : WorkerId) (jobId : JobId) (evictions : List JobId) : ∀ state : GlobalState,
    (state.evictJobs evictions).stopSent workerId jobId = (state.stopSent workerId jobId ||
      decide (jobId ∈ evictions ∧ state.isRunning jobId = true ∧ state.headOf jobId = some workerId ∧
        state.routable workerId = true)) := by
  induction evictions with
  | nil => intro state; simp [GlobalState.evictJobs]
  | cons head rest ih =>
    intro state
    have next : state.evictJobs (head :: rest) = (state.preemptJob head).evictJobs rest := rfl
    rw [next, ih, stopSent_preempt, preempt_isRunning, preempt_routable, Bool.or_assoc]
    congr 1
    by_cases same : jobId = head
    · subst same
      simp
    · simp [same, preempt_headOf state same]

private theorem timeoutJob_outbox (ctx : ControllerContext) (jobId : JobId) (now : Nat) :
    (ctx.timeoutJob jobId now).state.outbox = (ctx.state.notifyHead jobId (.terminateJob jobId)).outbox := by
  unfold ControllerContext.timeoutJob
  exact retire_outbox _ jobId _ now

private theorem failOrphan_outbox (ctx : ControllerContext) (jobId : JobId) (now : Nat) :
    (ctx.failOrphan jobId now).state.outbox = ctx.state.outbox := by
  unfold ControllerContext.failOrphan
  exact retire_outbox _ jobId _ now

private theorem timeoutJob_peers (ctx : ControllerContext) (jobId : JobId) (now : Nat) :
    (ctx.timeoutJob jobId now).state.peers = ctx.state.peers := by
  unfold ControllerContext.timeoutJob
  refine (retire_peers _ jobId _ now).trans ?_
  simp only [ControllerContext.forgetMissing]
  rw [GlobalState.notifyHead_eq]

theorem Retires.links {jobId : JobId} (retires : Retires state state' jobId) :
    SameLinks state.workers state'.workers := by
  rw [retires.workers]
  exact release_links state jobId

private theorem Retires.headOf {target : JobId} (retires : Retires state state' target) (different : jobId ≠ target) :
    state'.headOf jobId = state.headOf jobId := by
  rw [GlobalState.headOf, retires.others jobId different]
  rfl

private theorem stopSent_timeouts (workerId : WorkerId) (jobId : JobId) (now : Nat) : ∀ (jobs : List JobId),
    jobs.Nodup → ∀ ctx : ControllerContext,
      (jobs.foldl (fun ctx jobId => ctx.timeoutJob jobId now) ctx).state.stopSent workerId jobId =
        (ctx.state.stopSent workerId jobId ||
          decide (jobId ∈ jobs ∧ ctx.state.headOf jobId = some workerId ∧ ctx.state.routable workerId = true)) ∧
      (jobs.foldl (fun ctx jobId => ctx.timeoutJob jobId now) ctx).state.jobs.get? jobId =
        if jobId ∈ jobs then none else ctx.state.jobs.get? jobId := by
  intro jobs
  induction jobs with
  | nil => intro _ ctx; simp
  | cons head rest ih =>
    intro distinct ctx
    rw [List.nodup_cons] at distinct
    have retires := timeoutJob_retires ctx head now
    have routable := routable_links retires.links (timeoutJob_peers ctx head now) workerId
    obtain ⟨stops, table⟩ := ih distinct.2 (ctx.timeoutJob head now)
    rw [List.foldl_cons, stops, table, stopSent_same (timeoutJob_outbox ctx head now),
      stopSent_notifyHead ctx.state (.inl rfl), routable, Bool.or_assoc]
    by_cases same : jobId = head
    · subst same
      simp [distinct.1, retires.gone]
    · simp [same, retires.headOf same, retires.others jobId same]

/-- The loss of workers tells nobody, and brings no job back. -/
private theorem expiries_quiet (order : IterOrder ControllerContext.TimeoutSite) (now : Nat) (jobId : JobId) :
    ∀ (dead : List WorkerId) (ctx : ControllerContext),
      (dead.foldl (ControllerContext.expireWorker order now) ctx).state.outbox = ctx.state.outbox ∧
      (ctx.state.jobs.get? jobId = none →
        (dead.foldl (ControllerContext.expireWorker order now) ctx).state.jobs.get? jobId = none) := by
  have failures : ∀ (jobs : List JobId) (ctx : ControllerContext),
      (jobs.foldl (fun ctx jobId => ctx.failOrphan jobId now) ctx).state.outbox = ctx.state.outbox ∧
      (ctx.state.jobs.get? jobId = none →
        (jobs.foldl (fun ctx jobId => ctx.failOrphan jobId now) ctx).state.jobs.get? jobId = none) := by
    intro jobs
    induction jobs with
    | nil => intro ctx; exact ⟨rfl, id⟩
    | cons head rest ih =>
      intro ctx
      obtain ⟨outbox, gone⟩ := ih (ctx.failOrphan head now)
      refine ⟨outbox.trans (failOrphan_outbox ctx head now), fun absent => gone ?_⟩
      rw [(failOrphan_retires ctx head now).get? jobId, absent]
      exact ite_self _
  intro dead
  induction dead with
  | nil => intro ctx; exact ⟨rfl, id⟩
  | cons head rest ih =>
    intro ctx
    obtain ⟨outbox, gone⟩ := ih (ctx.expireWorker order now head)
    obtain ⟨outbox', gone'⟩ := failures (ControllerContext.orphans order ctx head)
      { ctx with state := { ctx.state with workers := ctx.state.workers.remove head } }
    exact ⟨outbox.trans outbox', fun absent => gone (gone' absent)⟩

/-- RunJob withdraws what a worker was told about the job before. -/
private theorem heard_runJobs (workerId : WorkerId) (jobId target : JobId) : ∀ (sent : List (WorkerId × Message)) (told : Bool),
    (∀ entry ∈ sent, ∃ order, entry.2 = .runJob order ∧ order.jobId = target) →
      sent.foldl (hearStop workerId jobId) told =
        if jobId = target ∧ workerId ∈ runJobsFor target sent then false else told := by
  intro sent
  induction sent with
  | nil => intro told _; simp [runJobsFor]
  | cons entry rest ih =>
    intro told orders
    obtain ⟨order, message, about⟩ := orders entry List.mem_cons_self
    have first : runJobsFor target (entry :: rest) = entry.1 :: runJobsFor target rest := by
      simp [runJobsFor, message, about]
    rw [List.foldl_cons, ih _ fun later member => orders later (List.mem_cons_of_mem _ member), first]
    by_cases own : jobId = target
    · subst own
      by_cases there : entry.1 = workerId
      · simp [hearStop, there, message, about]
      · simp [hearStop, there, Ne.symm there]
    · have other : hearStop workerId jobId told entry = told := by
        simp [hearStop, message, about, Ne.symm own]
      simp [own, other]

end Messages

section Turns

variable {input : PassInput} {turn : Nat} {pass next : PassState} {turnOf : JobId}

private theorem Reworded.headOf {state state' : GlobalState} (reworded : Reworded state state') (jobId : JobId) :
    state'.headOf jobId = state.headOf jobId := by
  have core := congrArg (·.bind fun core => core.2.2.1.head?) (reworded.core jobId)
  simpa only [Option.bind_map, Function.comp_def, JobInfo.core, GlobalState.headOf] using core

theorem Reworded.routable {state state' : GlobalState} (reworded : Reworded state state') (workerId : WorkerId) :
    state'.routable workerId = state.routable workerId := by
  refine routable_links ?_ (by rw [reworded.rest]) workerId
  rw [reworded.workers]
  exact fun _ => rfl

private theorem turn_stopSent (outcome : TurnOutcome input turn pass turnOf next) (workerId : WorkerId) {jobId : JobId}
    (unstarted : ¬ (jobId = turnOf ∧ next.state.isRunning jobId = true ∧ pass.state.isRunning jobId = false)) :
    next.state.stopSent workerId jobId = (pass.state.stopSent workerId jobId ||
      decide (stopped pass.state next.state jobId = true ∧ pass.state.headOf jobId = some workerId ∧
        pass.state.routable workerId = true)) := by
  cases outcome with
  | skip _ _ => simp [stopped]
  | wait _ _ _ reworded _ =>
    rw [stopSent_same reworded.outbox, stopped, isRunning_core (reworded.core jobId)]
    simp
  | @start job placement cleared started found pending _ reworded placed starts =>
    have distinct := (placeJob_ok placed).distinct
    obtain ⟨sent, outbox, _, _, orders⟩ := startJob_sends distinct starts
    have different : jobId ≠ turnOf := by
      intro same
      subst same
      obtain ⟨stored, found', status, _⟩ := reworded.pending found pending
      obtain ⟨_, _, _, opens⟩ := start_opens starts found' status
      refine unstarted ⟨rfl, ?_, ?_⟩
      · rw [isRunning_of_found opens.opened]
        rfl
      · rw [isRunning_of_found found, pending]
        rfl
    have stops : stopped pass.state started jobId =
        (decide (jobId ∈ placement.evictions) && pass.state.isRunning jobId) := by
      have runs : started.isRunning jobId =
          (!decide (jobId ∈ placement.evictions) && cleared.isRunning jobId) := by
        rw [GlobalState.isRunning, startJob_others starts different]
        by_cases victim : jobId ∈ placement.evictions
        · cases cleared.jobs.get? jobId with
          | none => simp [victim]
          | some middle => simp [victim, evicted_not_running middle]
        · simp [victim, GlobalState.isRunning]
      rw [stopped, runs, isRunning_core (reworded.core jobId)]
      cases pass.state.isRunning jobId <;> simp
    rw [stopSent_append outbox, heard_runJobs workerId jobId turnOf sent _ orders, if_neg fun both => different both.1,
      stopSent_evict, stopSent_same reworded.outbox, isRunning_core (reworded.core jobId), reworded.headOf,
      reworded.routable, stops]
    simp [and_assoc]

private theorem turn_runSent (outcome : TurnOutcome input turn pass turnOf next) (runs : next.state.isRunning turnOf = true)
    (idle : pass.state.isRunning turnOf = false) {workerId : WorkerId}
    (sentRun : workerId ∈ sentBetween pass.state next.state turnOf) :
    next.state.stopSent workerId turnOf = false := by
  cases outcome with
  | skip _ _ =>
    rw [idle] at runs
    cases runs
  | wait _ _ _ reworded _ =>
    rw [isRunning_core (reworded.core turnOf), idle] at runs
    cases runs
  | @start job placement cleared started _ _ _ reworded placed starts =>
    obtain ⟨sent, outbox, between, _, orders⟩ := startJob_sends (placeJob_ok placed).distinct starts
    have same : sentBetween pass.state started turnOf = sentBetween cleared started turnOf := by
      rw [sentBetween, sentBetween, reworded.outbox]
    rw [same, between] at sentRun
    rw [stopSent_append outbox, heard_runJobs workerId turnOf turnOf sent _ orders, if_pos ⟨rfl, sentRun⟩]

end Turns

/-- No worker of the dispatch under way of a job of the table was told to stop it. -/
def Unstopped (history : History) (state : GlobalState) : Prop :=
  ∀ jobId job, state.jobs.get? jobId = some job → history.closed jobId < history.dispatches jobId →
    ∀ workerId ∈ history.sentTo jobId (history.dispatches jobId), state.stopSent workerId jobId = false

section Invariants

variable {state state' : GlobalState} {history : History} {workerId : WorkerId}

theorem Unstopped.turn {input : PassInput} {turn : Nat} {pass next : PassState} {turnOf : JobId}
    (valid : Unstopped history pass.state) (outcome : TurnOutcome input turn pass turnOf next) :
    Unstopped (history.observeTurn turnOf pass.state next.state) next.state := by
  intro jobId job' found' under workerId member
  rw [History.observeTurn_closed, History.observeTurn_dispatches] at under
  rw [History.observeTurn_sentTo, History.observeTurn_dispatches] at member
  by_cases started : jobId = turnOf ∧ next.state.isRunning jobId = true ∧ pass.state.isRunning jobId = false
  · rw [if_pos started, if_pos ⟨started, rfl⟩] at member
    obtain ⟨same, runs, idle⟩ := started
    subst same
    exact turn_runSent outcome runs idle member
  · rw [if_neg started, if_neg fun both => started both.1] at member
    rw [if_neg started] at under
    by_cases stops : stopped pass.state next.state jobId = true
    · rw [if_pos stops] at under
      exact absurd under (Nat.lt_irrefl _)
    · rw [if_neg stops] at under
      obtain ⟨job, found⟩ : ∃ job, pass.state.jobs.get? jobId = some job := by
        have move := turn_move outcome jobId
        rw [found'] at move
        exact move.found_back
      rw [turn_stopSent outcome workerId started, valid jobId job found under workerId member, Bool.false_or]
      exact decide_eq_false fun both => stops both.1

variable {leader next : Leader} {event : Event} {jobId : JobId}

private theorem cancelJob_outbox {ctx ctx' : ControllerContext} {caller : Caller} {now : Nat}
    (canceled : ctx.cancelJob caller jobId now = .ok ctx') :
    ctx'.state.outbox = (ctx.state.notifyHead jobId (.terminateJob jobId)).outbox := by
  obtain ⟨_, _, same⟩ := ControllerContext.cancelJob_cases canceled
  subst same
  exact retire_outbox _ jobId _ now

private theorem checkTimeouts_stopSent {ctx : ControllerContext} (lead : ctx.state.role = .leader)
    (order : IterOrder ControllerContext.TimeoutSite) (now : Nat) (workerId : WorkerId) (jobId : JobId) :
    (ControllerContext.checkTimeouts order ctx now).state.stopSent workerId jobId =
      (ctx.state.stopSent workerId jobId ||
        decide (jobId ∈ ControllerContext.timedOutJobs order ctx.state now ∧ ctx.state.headOf jobId = some workerId ∧
          ctx.state.routable workerId = true)) ∧
    (jobId ∈ ControllerContext.timedOutJobs order ctx.state now →
      (ControllerContext.checkTimeouts order ctx now).state.jobs.get? jobId = none) := by
  obtain ⟨stops, table⟩ := stopSent_timeouts workerId jobId now
    (ControllerContext.timedOutJobs order ctx.state now) (ControllerContext.timedOutJobs_nodup order ctx.state now) ctx
  obtain ⟨outbox, gone⟩ := expiries_quiet order now jobId (ControllerContext.deadWorkers order _ now) _
  rw [ControllerContext.checkTimeouts, if_pos lead]
  refine ⟨(stopSent_same outbox).trans stops, fun timedOut => gone ?_⟩
  rw [table, if_pos timedOut]

private theorem reconcile_outbox (order : IterOrder Unit) (ctx : ControllerContext) (workerId : WorkerId)
    (active : List JobId) (now : Nat) :
    (ctx.reconcileMissingWorkerJobs order workerId active now).state.outbox = ctx.state.outbox := by
  rw [ControllerContext.reconcile_frame]

/-- The jobs that a section leaves in the table and does not preempt have nobody told
to stop them. -/
private theorem apply_stopSent (taken : leader.apply event = some next) (other : ∀ input, event ≠ .schedule input)
    {job : JobInfo} (found : next.ctx.state.jobs.get? jobId = some job)
    (kept : (event.preempts && stopped leader.ctx.state next.ctx.state jobId) = false) (workerId : WorkerId) :
    next.ctx.state.stopSent workerId jobId = leader.ctx.state.stopSent workerId jobId := by
  cases event with
  | submit submission nextJobId =>
    cases taken
    refine stopSent_same ?_
    simp only [Leader.withState, Leader.withCtx, GlobalState.acceptSubmission]
    split <;> rfl
  | schedule input => exact absurd rfl (other input)
  | preempt target =>
    cases taken
    have idle : ¬ (jobId = target ∧ leader.ctx.state.isRunning jobId = true ∧
        leader.ctx.state.headOf jobId = some workerId ∧ leader.ctx.state.routable workerId = true) := by
      rintro ⟨same, runs, _⟩
      have ends : stopped leader.ctx.state (leader.ctx.state.preemptJob target) jobId = true := by
        rw [stopped, preempt_isRunning, runs, same]
        simp
      rw [Event.preempts, Bool.true_and] at kept
      exact absurd (ends.symm.trans kept) (by simp)
    have stops := stopSent_preempt leader.ctx.state target workerId jobId
    rwa [decide_eq_false idle, Bool.or_false] at stops
  | reconcile order reporter active now =>
    cases taken
    exact stopSent_same (reconcile_outbox order leader.ctx reporter active now)
  | jobDone report exitCode =>
    rw [leader.apply_jobDone report exitCode, Option.some.injEq] at taken
    subst taken
    rfl
  | mergeDone index =>
    obtain ⟨tasks, same⟩ := Leader.mergeDone_tasks taken
    subst same
    rfl
  | finishDone index stdoutId stderrId now =>
    obtain ⟨report, exitCode, logFiles, _, same⟩ := Leader.finishDone_cases taken
    subst same
    exact stopSent_same (retire_outbox _ report.jobId (.completed exitCode) now)
  | jobError report error now =>
    cases taken
    exact stopSent_same (retire_outbox _ report.jobId (.failed error) now)
  | jobKilled report now => cases taken; exact stopSent_same (retire_outbox _ _ _ _)
  | cancel caller target now =>
    rcases Leader.cancel_cases taken with ⟨ctx, canceled, same⟩ | same
    · subst same
      have different : jobId ≠ target := by
        intro same
        rw [same, Leader.withCtx, (cancelJob_retires _ _ _ canceled).gone] at found
        cases found
      have stops : (leader.ctx.state.notifyHead target (.terminateJob target)).stopSent workerId jobId = _ :=
        stopSent_notifyHead leader.ctx.state (.inl rfl) workerId jobId
      rw [decide_eq_false fun both => different both.1, Bool.or_false] at stops
      exact (stopSent_same (cancelJob_outbox canceled)).trans stops
    · rw [same]
  | checkTimeouts order now =>
    cases taken
    by_cases lead : leader.ctx.state.role = .leader
    · obtain ⟨stops, gone⟩ := checkTimeouts_stopSent lead order now workerId jobId
      have kept : jobId ∉ ControllerContext.timedOutJobs order leader.ctx.state now := by
        intro timedOut
        rw [Leader.withCtx, gone timedOut] at found
        cases found
      rwa [decide_eq_false fun both => kept both.1, Bool.or_false] at stops
    · simp only [Leader.withCtx, ControllerContext.checkTimeouts, if_neg lead]
  | prune retentionSeconds now =>
    cases taken
    refine stopSent_same ?_
    simp only [Leader.withCtx, ControllerContext.pruneJobs]
    split <;> rfl
  | _ => cases taken; rfl

/-- A section that ends a Running job tells the worker that `tells` names. -/
private theorem apply_tells (taken : leader.apply event = some next) (terminates : event.Terminates jobId)
    (stops : stopped leader.ctx.state next.ctx.state jobId = true) (workerId : WorkerId) :
    next.ctx.state.stopSent workerId jobId = (leader.ctx.state.stopSent workerId jobId ||
      decide (event.tells leader jobId = some workerId ∧ leader.ctx.state.routable workerId = true)) := by
  have runs : leader.ctx.state.isRunning jobId = true := by
    rw [stopped, Bool.and_eq_true] at stops
    exact stops.1
  cases terminates with
  | canceled caller now =>
    rcases Leader.cancel_cases taken with ⟨ctx, canceled, same⟩ | same
    · subst same
      have told : (leader.ctx.state.notifyHead jobId (.terminateJob jobId)).stopSent workerId jobId = _ :=
        stopSent_notifyHead leader.ctx.state (.inl rfl) workerId jobId
      simp only [true_and] at told
      exact (stopSent_same (cancelJob_outbox canceled)).trans told
    · subst same
      simp [stopped] at stops
  | expired order now =>
    cases taken
    have lead : leader.ctx.state.role = .leader := by
      by_contra follows
      simp [Leader.withCtx, ControllerContext.checkTimeouts, follows, stopped] at stops
    have told := (checkTimeouts_stopSent lead order now workerId jobId).1
    refine told.trans (congrArg _ (decide_eq_decide.mpr ?_))
    simp only [ControllerContext.mem_timedOutJobs, Event.tells]
    obtain ⟨job, found⟩ : ∃ job, leader.ctx.state.jobs.get? jobId = some job := by
      obtain ⟨job, found, _⟩ := isRunning_iff.mp runs
      exact ⟨job, found⟩
    rw [found, Option.any_some]
    by_cases exceeded : ControllerContext.walltimeExceeded job now = true
    · simp [exceeded]
    · simp [exceeded]
  | @failed report about error now =>
    cases taken
    have same : (leader.ctx.jobError report.jobId error now).state.outbox = leader.ctx.state.outbox :=
      retire_outbox _ report.jobId (.failed error) now
    simp only [Event.tells, Leader.withCtx, stopSent_same same]
    simp
  | preempted =>
    cases taken
    have told := stopSent_preempt leader.ctx.state jobId workerId jobId
    simp only [runs, true_and] at told
    exact told

theorem Unstopped.apply (valid : Accountable leader) (unstopped : Unstopped leader.history leader.ctx.state)
    (genuine : event.Genuine leader) (taken : leader.apply event = some next) :
    Unstopped next.history next.ctx.state := by
  obtain ⟨input, state, rfl, ran, rfl⟩ | other := Leader.schedule_or_other taken
  · obtain ⟨pass, turns, same⟩ := Option.map_eq_some_iff.mp ran
    subst same
    refine passHistory_invariant (fun _ pass history => Unstopped history pass.state) ?_ _ unstopped turns
    intro turnOf rest pass next history valid taken
    exact valid.turn (passTurn_outcome taken)
  · obtain ⟨dispatches, closed⟩ := apply_counts taken other
    have sentTo : next.history.sentTo = leader.history.sentTo := by
      by_cases done : ∃ report exitCode, event = .jobDone report exitCode
      · obtain ⟨report, exitCode, same⟩ := done
        subst same
        rw [leader.apply_jobDone report exitCode, Option.some.injEq] at taken
        subst taken
        rfl
      · rw [apply_history taken other fun report exitCode same => done ⟨report, exitCode, same⟩]
    intro jobId job' found' under workerId member
    rw [dispatches, closed jobId] at under
    rw [sentTo, dispatches] at member
    split at under
    · exact absurd under (Nat.lt_irrefl _)
    · rename_i kept
      rw [apply_stopSent taken other found' (Bool.eq_false_iff.mpr kept)]
      rcases apply_descends valid.sound taken found' with ⟨job, found⟩ | ⟨submission, nextJobId, same, id⟩
      · exact unstopped jobId job found under workerId member
      · subst same
        rw [valid.unused jobId (id ▸ genuine)] at under
        exact absurd under (Nat.not_lt_zero _)

private theorem told_iff {job : JobInfo} {tells : Option WorkerId} (Exempt : WorkerId → Prop)
    (unstopped : Unstopped history state) (found : state.jobs.get? jobId = some job)
    (told : ∀ workerId, state'.stopSent workerId jobId = (state.stopSent workerId jobId ||
      decide (tells = some workerId ∧ state.routable workerId = true))) :
    (∀ workerId ∈ history.unreported jobId, state.isConnected workerId = true → ¬ Exempt workerId →
        state'.stopSent workerId jobId = true) ↔
      ∀ workerId ∈ history.unreported jobId, state.isConnected workerId = true → ¬ Exempt workerId →
        tells = some workerId ∧ state.routable workerId = true := by
  have silent : ∀ workerId ∈ history.unreported jobId, state.stopSent workerId jobId = false := by
    intro workerId member
    unfold History.unreported at member
    split at member
    · rename_i under
      exact unstopped jobId job found under workerId (List.mem_filter.mp member).1
    · cases member
  constructor
  · intro stops workerId member connected counts
    have heard := stops workerId member connected counts
    rwa [told, silent workerId member, Bool.false_or, decide_eq_true_eq] at heard
  · intro named workerId member connected counts
    rw [told, Bool.or_eq_true, decide_eq_true_eq]
    exact .inr (named workerId member connected counts)

end Invariants

/-- The points between the turns of a pass: the jobs to come, the pass and its history. -/
inductive DuringPass (input : PassInput) (leader : Leader) : List JobId → PassState → History → Prop where
  | start : DuringPass input leader (pendingOrder input leader.ctx.state)
      { state := passStart input leader.ctx.state } leader.history
  | turn {turnOf : JobId} {rest : List JobId} {pass next : PassState} {history : History}
      (earlier : DuringPass input leader (turnOf :: rest) pass history)
      (taken : passTurn input rest.length pass turnOf = some next) :
      DuringPass input leader rest next (history.observeTurn turnOf pass.state next.state)

theorem DuringPass.invariant {input : PassInput} {leader : Leader} {order : List JobId} {pass : PassState}
    {history : History} (during : DuringPass input leader order pass history)
    (unstopped : Unstopped leader.history leader.ctx.state) : Unstopped history pass.state := by
  induction during with
  | start => exact unstopped
  | turn _ taken valid => exact valid.turn (passTurn_outcome taken)

private theorem unstopped_of_reach {leader : Leader} (reached : Reach Leader.Fresh GenuineStep leader) :
    Unstopped leader.history leader.ctx.state := by
  induction reached with
  | start fresh =>
    intro jobId job found
    rw [fresh.jobs] at found
    cases found
  | step earlier taken valid =>
    have accountable := accountable_of_reach (fun _ _ _ taken => taken) earlier
    exact Unstopped.apply accountable valid taken.1 taken.2

/-- When a Running job is cancelled, timed out, failed by JobError or by the loss of a
worker, or preempted, every connected worker that still runs it is told to stop in the
same section if and only if each of them is the one worker that the section tells (the
head node, and nobody after JobError or the loss of a worker) and its channel is open. -/
theorem every_worker_is_told_iff {leader : Leader} (reached : Reach Leader.Fresh GenuineStep leader) :
    (∀ event next jobId, GenuineStep leader event next → event.Terminates jobId →
      stopped leader.ctx.state next.ctx.state jobId = true →
      ((∀ workerId ∈ leader.history.unreported jobId, leader.ctx.state.isConnected workerId = true →
          ¬ event.ReportsEnd leader jobId workerId → next.ctx.state.stopSent workerId jobId = true) ↔
        ∀ workerId ∈ leader.history.unreported jobId, leader.ctx.state.isConnected workerId = true →
          ¬ event.ReportsEnd leader jobId workerId →
            event.tells leader jobId = some workerId ∧ leader.ctx.state.routable workerId = true)) ∧
    ∀ input turnOf rest pass history next jobId, DuringPass input leader (turnOf :: rest) pass history →
      passTurn input rest.length pass turnOf = some next → stopped pass.state next.state jobId = true →
      ((∀ workerId ∈ history.unreported jobId, pass.state.isConnected workerId = true →
          next.state.stopSent workerId jobId = true) ↔
        ∀ workerId ∈ history.unreported jobId, pass.state.isConnected workerId = true →
          pass.state.headOf jobId = some workerId ∧ pass.state.routable workerId = true) := by
  have unstopped := unstopped_of_reach reached
  constructor
  · intro event next jobId taken terminates stops
    obtain ⟨job, found, _⟩ := isRunning_iff.mp (Bool.and_eq_true_iff.mp stops).1
    exact told_iff (event.ReportsEnd leader jobId · ) unstopped found (apply_tells taken.2 terminates stops)
  · intro input turnOf rest pass history next jobId during taken stops
    have valid := during.invariant unstopped
    obtain ⟨runs, ends⟩ := Bool.and_eq_true_iff.mp stops
    obtain ⟨job, found, _⟩ := isRunning_iff.mp runs
    have idle : next.state.isRunning jobId = false := by simpa using ends
    have told (workerId : WorkerId) : next.state.stopSent workerId jobId = _ :=
      turn_stopSent (passTurn_outcome taken) workerId (by rw [idle]; simp)
    simp only [stops, true_and] at told
    have either := told_iff (fun _ => False) valid found told
    simpa only [not_false_eq_true, true_implies] using either

def onTwoNodes (binary : String) : List Event :=
  [.register (sampleRegistration "w1") 100, .register (sampleRegistration "w2") 100,
    .submit (sampleSubmission 1 .production 2 binary) 2, .schedule { now := 100 }]

/-- An MPI launcher on two nodes is dispatched to its head node only, which is told. -/
theorem every_worker_is_told_iff_mpirun : ∃ leader next,
    Reach Leader.Fresh GenuineStep leader ∧ leader.history.unreported 1 = ["w2"] ∧
    leader.ctx.state.isConnected "w2" = true ∧ GenuineStep leader (.cancel ⟨"user", []⟩ 1 200) next ∧
    stopped leader.ctx.state next.ctx.state 1 = true ∧ next.ctx.state.stopSent "w2" 1 = true := by
  let events : List Event := onTwoNodes "mpirun"
  have genuine : AllowedRun (fun leader event => event.Genuine leader) Leader.apply events
      { ctx := sampleLeader } := by decide +kernel
  have facts : (runLabels Leader.apply events { ctx := sampleLeader }).bind (fun leader =>
      (leader.apply (.cancel ⟨"user", []⟩ 1 200)).map fun next =>
        (leader.history.unreported 1, leader.ctx.state.headOf 1,
          decide (leader.ctx.state.isConnected "w2" = true ∧ leader.ctx.state.routable "w2" = true ∧
            stopped leader.ctx.state next.ctx.state 1 = true))) = some (["w2"], some "w2", true) := by
    decide +kernel
  obtain ⟨leader, reached, _, facts⟩ := exists_reach_of_bind Leader.sampleLeader_fresh genuine facts
  obtain ⟨next, taken, facts⟩ := Option.map_eq_some_iff.mp facts
  rw [Prod.mk.injEq, Prod.mk.injEq, decide_eq_true_eq] at facts
  obtain ⟨running, head, connected, routable, stops⟩ := facts
  have told := ((every_worker_is_told_iff reached).1 (.cancel ⟨"user", []⟩ 1 200) next 1 ⟨trivial, taken⟩
    (.canceled _ _) stops).mpr
    fun workerId member _ _ => by
      rw [running, List.mem_singleton] at member
      exact ⟨head.trans (congrArg some member.symm), member ▸ routable⟩
  refine ⟨leader, next, reached, running, connected, ⟨trivial, taken⟩, stops, told "w2" ?_ connected id⟩
  rw [running]
  exact List.mem_singleton_self _

/-- A cancelled job on two nodes: its other node is not told, and all its cores are
free again. -/
theorem cancelled_job_keeps_running : ∃ leader next worker,
    Reach Leader.Fresh GenuineStep leader ∧ "w1" ∈ leader.history.unreported 1 ∧
    leader.ctx.state.isConnected "w1" = true ∧ GenuineStep leader (.cancel ⟨"user", []⟩ 1 200) next ∧
    stopped leader.ctx.state next.ctx.state 1 = true ∧ next.ctx.state.stopSent "w1" 1 = false ∧
    next.ctx.state.workers.get? "w1" = some worker ∧ worker.availableCoreIds = [0, 1, 2, 3] := by
  let events : List Event := onTwoNodes "sh"
  have genuine : AllowedRun (fun leader event => event.Genuine leader) Leader.apply events
      { ctx := sampleLeader } := by decide +kernel
  have facts : (runLabels Leader.apply events { ctx := sampleLeader }).bind (fun leader =>
      (leader.apply (.cancel ⟨"user", []⟩ 1 200)).map fun next =>
        (decide ("w1" ∈ leader.history.unreported 1 ∧ leader.ctx.state.isConnected "w1" = true ∧
          stopped leader.ctx.state next.ctx.state 1 = true), next.ctx.state.stopSent "w1" 1,
          (next.ctx.state.workers.get? "w1").map WorkerHandle.availableCoreIds)) =
            some (true, false, some [0, 1, 2, 3]) := by
    decide +kernel
  obtain ⟨leader, reached, _, facts⟩ := exists_reach_of_bind Leader.sampleLeader_fresh genuine facts
  obtain ⟨next, taken, facts⟩ := Option.map_eq_some_iff.mp facts
  rw [Prod.mk.injEq, Prod.mk.injEq, decide_eq_true_eq] at facts
  obtain ⟨⟨runs, connected, stops⟩, silent, cores⟩ := facts
  obtain ⟨worker, present, free⟩ := Option.map_eq_some_iff.mp cores
  exact ⟨leader, next, worker,
    reached,
    runs, connected, ⟨trivial, taken⟩, stops, silent, present, free⟩

end Veloce
