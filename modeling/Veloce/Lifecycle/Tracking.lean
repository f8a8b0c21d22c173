import Veloce.Lifecycle.Dispatches
import Veloce.Lifecycle.Sends
import Veloce.Lifecycle.Shifts

/-! The tracking of dispatched and done workers. -/

namespace Veloce

open Collections

def GlobalState.unmarked (state : GlobalState) (jobId : JobId) : Bool :=
  (state.multinodeJobTracking.doneSet jobId).isEmpty

theorem unmarked_iff {state : GlobalState} {jobId : JobId} :
    state.unmarked jobId = true ↔ ∀ workerId, workerId ∉ state.multinodeJobTracking.doneSet jobId :=
  HashSet.isEmpty_iff

/-- What a turn does to the tracking: a started job has its targets recorded. -/
structure TurnTracking (turnOf : JobId) (before after : GlobalState) : Prop where
  marks : after.multinodeJobTracking.doneWorkers = before.multinodeJobTracking.doneWorkers
  others : ∀ jobId, ¬ (jobId = turnOf ∧ after.isRunning jobId = true ∧ before.isRunning jobId = false) →
    after.multinodeJobTracking.dispatchedWorkers.get? jobId =
      before.multinodeJobTracking.dispatchedWorkers.get? jobId
  started : after.isRunning turnOf = true → before.isRunning turnOf = false →
    ∃ targets, after.multinodeJobTracking.dispatchedWorkers.get? turnOf = some targets ∧ targets.Nodup ∧
      ∀ workerId ∈ sentBetween before after turnOf, workerId ∈ targets

theorem Reworded.tracking {state state' : GlobalState} (reworded : Reworded state state') :
    state'.multinodeJobTracking = state.multinodeJobTracking := by rw [reworded.rest]

theorem Reworded.outbox {state state' : GlobalState} (reworded : Reworded state state') :
    state'.outbox = state.outbox := by rw [reworded.rest]

theorem dispatchTargets_sublist (job : JobInfo) (nodes : List WorkerId) :
    (dispatchTargets job nodes).Sublist nodes := by
  unfold dispatchTargets
  split
  · exact List.take_sublist _ _
  · exact .refl nodes

theorem dispatchTargets_ne_nil (job : JobInfo) {nodes : List WorkerId} (nonempty : nodes ≠ []) :
    dispatchTargets job nodes ≠ [] := by
  unfold dispatchTargets
  split
  · obtain ⟨head, rest, same⟩ := List.exists_cons_of_ne_nil nonempty
    rw [same]
    exact List.cons_ne_nil _ _
  · exact nonempty

structure Started (input : PassInput) (turnOf : JobId) (before after : GlobalState) (job : JobInfo)
    (nodes : List WorkerId) : Prop where
  found : before.jobs.get? turnOf = some job
  record : ∃ stored, after.jobs.get? turnOf = some stored ∧ stored.assignedWorkers = nodes ∧
    stored.startTime = some input.now
  distinct : nodes.Nodup
  nonempty : nodes ≠ []
  bound : nodes.length ≤ max job.reqNodes 1
  connected : ∀ workerId ∈ nodes, ∃ worker, before.workers.get? workerId = some worker ∧ worker.connected = true
  tracked : after.multinodeJobTracking = { before.multinodeJobTracking with
    dispatchedWorkers := before.multinodeJobTracking.dispatchedWorkers.insert turnOf (dispatchTargets job nodes) }
  sent : sentBetween before after turnOf = (dispatchTargets job nodes).filter before.routable

variable {turnOf : JobId} {before after : GlobalState} {input : PassInput} {pass next : PassState}

theorem turn_start {turn : Nat} (outcome : TurnOutcome input turn pass turnOf next)
    (runs : next.state.isRunning turnOf = true) (idle : pass.state.isRunning turnOf = false) :
    ∃ job nodes, Started input turnOf pass.state next.state job nodes := by
  cases outcome with
  | skip _ _ =>
    rw [idle] at runs
    cases runs
  | wait _ _ _ reworded _ =>
    rw [isRunning_core (reworded.core turnOf), idle] at runs
    cases runs
  | @start job placement cleared started found pending _ reworded placed starts =>
    have choice := placeJob_ok placed
    obtain ⟨stored, found', status, _⟩ := reworded.pending found pending
    obtain ⟨_, _, _, opens⟩ := start_opens starts found' status
    obtain ⟨sent, _, between, filtered, _⟩ := startJob_sends choice.distinct starts
    obtain ⟨workers, _, final⟩ := startJob_eq starts
    have routes : cleared.routable = pass.state.routable := by
      rw [reworded.rest]
      rfl
    refine ⟨job, placement.nodes, found, ⟨_, opens.opened, rfl, rfl⟩, choice.distinct, choice.nonempty,
      placeJob_length placed, fun workerId member => ?_, ?_, ?_⟩
    · rw [← reworded.workers]
      rcases choice.fits with ⟨_, fits⟩ | fits
      · obtain ⟨worker, present, connected, _⟩ := fits workerId member
        exact ⟨worker, present, connected⟩
      · obtain ⟨worker, present, connected, _⟩ := fits workerId member
        exact ⟨worker, present, connected⟩
    · rw [final, reworded.tracking]
      rfl
    · have same : sentBetween pass.state started turnOf = sentBetween cleared started turnOf := by
        rw [sentBetween, sentBetween, reworded.outbox]
      rw [same, ← routes]
      exact between.trans filtered

theorem turn_tracking {turn : Nat} (outcome : TurnOutcome input turn pass turnOf next) :
    TurnTracking turnOf pass.state next.state := by
  cases outcome with
  | skip _ _ =>
    refine ⟨rfl, fun _ _ => rfl, fun runs idle => ?_⟩
    rw [idle] at runs
    cases runs
  | wait _ _ _ reworded _ =>
    refine ⟨by rw [reworded.tracking], fun _ _ => by rw [reworded.tracking], fun runs idle => ?_⟩
    rw [isRunning_core (reworded.core turnOf), idle] at runs
    cases runs
  | @start job placement cleared started found pending chosen reworded placed starts =>
    have idle : pass.state.isRunning turnOf = false := by
      rw [isRunning_of_found found, pending]
      rfl
    obtain ⟨stored, found', status, _⟩ := reworded.pending found pending
    obtain ⟨_, _, _, opens⟩ := start_opens starts found' status
    have runs : started.isRunning turnOf = true := by
      rw [isRunning_of_found opens.opened]
      rfl
    obtain ⟨job, nodes, begins⟩ := turn_start (.start found pending chosen reworded placed starts) runs idle
    refine ⟨by rw [begins.tracked], fun other elsewhere => ?_, fun _ _ => ?_⟩
    · have different : other ≠ turnOf := by
        intro equal
        subst equal
        exact elsewhere ⟨rfl, runs, idle⟩
      rw [begins.tracked]
      simp only [HashMap.get?_insert, different, ↓reduceIte]
    · have distinct := begins.distinct.sublist (dispatchTargets_sublist job nodes)
      refine ⟨dispatchTargets job nodes, ?_, distinct, fun workerId member => ?_⟩
      · rw [begins.tracked]
        exact HashMap.get?_insert_self _ _ _
      · rw [begins.sent] at member
        exact (List.mem_filter.mp member).1

/-- A message for any connected worker finds its way. -/
def Reaches (state : GlobalState) : Prop := ∀ workerId worker, state.workers.get? workerId = some worker →
  worker.connected = true → state.routable workerId = true

theorem Reaches.turn {left : Nat} (reaches : Reaches pass.state) (outcome : TurnOutcome input left pass turnOf next) :
    Reaches next.state := by
  intro workerId worker' found' connected
  have links := turn_links outcome
  obtain ⟨worker, found, same⟩ := links.symm.found found'
  have connection : worker.connected = worker'.connected := congrArg Link.connected same
  have peers : next.state.peers = pass.state.peers := congrArg (·.2.2.1) (turn_standing outcome)
  rw [routable_links links peers]
  exact reaches workerId worker found (connection.trans connected)

theorem Started.reached {job : JobInfo} {nodes : List WorkerId} (starts : Started input turnOf before after job nodes)
    (reaches : Reaches before) :
    sentBetween before after turnOf = dispatchTargets job nodes := by
  rw [starts.sent, List.filter_eq_self]
  intro workerId member
  have node : workerId ∈ nodes := (dispatchTargets_sublist job nodes).subset member
  obtain ⟨worker, found, connected⟩ := starts.connected workerId node
  exact reaches workerId worker found connected

namespace History

theorem observeTurn_sentTo (history : History) (turnOf jobId : JobId) (number : Nat) (before after : GlobalState) :
    (history.observeTurn turnOf before after).sentTo jobId number =
      if (jobId = turnOf ∧ after.isRunning jobId = true ∧ before.isRunning jobId = false) ∧
          number = history.dispatches jobId + 1 then sentBetween before after turnOf
      else history.sentTo jobId number := by
  unfold observeTurn
  by_cases same : jobId = turnOf
  · subst same
    cases after.isRunning jobId <;> cases before.isRunning jobId <;> simp [dispatch, close]
  · split <;> simp [dispatch, close, same]

theorem observeTurn_doneBy (history : History) (turnOf : JobId) (before after : GlobalState) :
    (history.observeTurn turnOf before after).doneBy = history.doneBy := by
  unfold observeTurn
  split <;> rfl

end History

theorem TurnTracking.doneSet (tracking : TurnTracking turnOf before after) (jobId : JobId) :
    after.multinodeJobTracking.doneSet jobId = before.multinodeJobTracking.doneSet jobId := by
  rw [MultinodeJobTracking.doneSet, tracking.marks]
  rfl

theorem TurnTracking.unmarked (tracking : TurnTracking turnOf before after) (jobId : JobId) :
    after.unmarked jobId = before.unmarked jobId := by
  rw [GlobalState.unmarked, tracking.doneSet]
  rfl

section Sections

variable {leader next : Leader} {event : Event}

theorem timeoutJob_tracking (ctx : ControllerContext) (jobId : JobId) (now : Nat) :
    (ctx.timeoutJob jobId now).state.multinodeJobTracking = ctx.state.multinodeJobTracking := by
  unfold ControllerContext.timeoutJob
  refine (retire_tracking _ jobId _ now).trans ?_
  simp only [ControllerContext.forgetMissing]
  rw [GlobalState.notifyHead_eq]

theorem failOrphan_tracking (ctx : ControllerContext) (jobId : JobId) (now : Nat) :
    (ctx.failOrphan jobId now).state.multinodeJobTracking = ctx.state.multinodeJobTracking := by
  unfold ControllerContext.failOrphan
  exact retire_tracking _ jobId _ now

theorem cancelJob_tracking {ctx ctx' : ControllerContext} {caller : Caller} {jobId : JobId} {now : Nat}
    (canceled : ctx.cancelJob caller jobId now = .ok ctx') :
    ctx'.state.multinodeJobTracking = ctx.state.multinodeJobTracking := by
  obtain ⟨_, _, same⟩ := ControllerContext.cancelJob_cases canceled
  subst same
  refine (retire_tracking _ jobId _ now).trans ?_
  simp only [ControllerContext.forgetMissing]
  rw [GlobalState.notifyHead_eq]

theorem reconcile_tracking (order : IterOrder Unit) (ctx : ControllerContext) (workerId : WorkerId)
    (active : List JobId) (now : Nat) :
    (ctx.reconcileMissingWorkerJobs order workerId active now).state.multinodeJobTracking =
      ctx.state.multinodeJobTracking := by
  rw [ControllerContext.reconcile_frame]

theorem checkTimeouts_tracking (order : IterOrder ControllerContext.TimeoutSite) (ctx : ControllerContext)
    (now : Nat) :
    (ControllerContext.checkTimeouts order ctx now).state.multinodeJobTracking = ctx.state.multinodeJobTracking := by
  refine ControllerContext.checkTimeouts_invariant
    (fun _ after => after.state.multinodeJobTracking = ctx.state.multinodeJobTracking) (fun _ => rfl) rfl ?_ ?_ ?_
  · intro middle jobId rest same
    rw [timeoutJob_tracking, same]
  · intro middle workerId same
    exact same
  · intro middle jobId rest same
    rw [failOrphan_tracking, same]

/-- Besides a pass and JobDone, the tracking only loses what is known about a job
that leaves the table. -/
theorem apply_tracking (taken : leader.apply event = some next) (other : ∀ input, event ≠ .schedule input)
    (undone : ∀ report exitCode, event ≠ .jobDone report exitCode) :
    next.ctx.state.multinodeJobTracking = leader.ctx.state.multinodeJobTracking ∨
      ∃ jobId, next.ctx.state.multinodeJobTracking = leader.ctx.state.multinodeJobTracking.cleanupJobTracking jobId ∧
        next.ctx.state.jobs.get? jobId = none := by
  cases event with
  | submit submission nextJobId =>
    cases taken
    simp only [Leader.withState, Leader.withCtx, GlobalState.acceptSubmission]
    split <;> exact .inl rfl
  | schedule input => exact absurd rfl (other input)
  | preempt target =>
    cases taken
    refine .inl ?_
    simp only [Leader.withState, Leader.withCtx]
    rw [GlobalState.preemptJob_frame]
  | reconcile order workerId active now => cases taken; exact .inl (reconcile_tracking order _ workerId active now)
  | jobDone report exitCode => exact absurd rfl (undone report exitCode)
  | mergeDone index =>
    obtain ⟨tasks, same⟩ := Leader.mergeDone_tasks taken
    subst same
    exact .inl rfl
  | finishDone index stdoutId stderrId now =>
    obtain ⟨report, exitCode, logFiles, _, same⟩ := Leader.finishDone_cases taken
    subst same
    refine .inr ⟨_, congrArg (MultinodeJobTracking.cleanupJobTracking · _) (retire_tracking _ _ _ _), ?_⟩
    exact (jobDoneFinish_retires _ _ _ _ _ _ _).gone
  | jobError report error now =>
    cases taken
    refine .inr ⟨_, congrArg (MultinodeJobTracking.cleanupJobTracking · _) (retire_tracking _ _ _ _), ?_⟩
    exact (jobError_retires _ _ _ _).gone
  | jobKilled report now => cases taken; exact .inl (retire_tracking _ _ _ _)
  | cancel caller target now =>
    rcases Leader.cancel_cases taken with ⟨ctx, canceled, same⟩ | same
    · subst same
      exact .inl (cancelJob_tracking canceled)
    · subst same
      exact .inl rfl
  | checkTimeouts order now => cases taken; exact .inl (checkTimeouts_tracking order _ now)
  | prune retentionSeconds now =>
    cases taken
    simp only [Leader.withCtx, ControllerContext.pruneJobs]
    split <;> exact .inl rfl
  | _ => cases taken; exact .inl rfl

theorem apply_history (taken : leader.apply event = some next) (other : ∀ input, event ≠ .schedule input)
    (undone : ∀ report exitCode, event ≠ .jobDone report exitCode) :
    next.history = { leader.history with used := next.history.used, closed := next.history.closed } := by
  cases event with
  | schedule input => exact absurd rfl (other input)
  | jobDone report exitCode => exact absurd rfl (undone report exitCode)
  | submit _ _ | preempt _ =>
    cases taken
    rfl
  | _ => rw [Leader.history_eq taken rfl]

end Sections

end Veloce
