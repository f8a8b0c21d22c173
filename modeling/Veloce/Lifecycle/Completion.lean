import Veloce.Lifecycle.Preempted
import Veloce.Lifecycle.Tracking

/-! Completion of a multi-node job. -/

namespace Veloce

open Collections

/-- The number of the dispatch that the job was last sent out with. -/
abbrev History.current (history : History) (jobId : JobId) : Nat := history.dispatches jobId

def History.AllReported (history : History) (jobId : JobId) : Prop :=
  ∀ workerId ∈ history.sentTo jobId (history.current jobId),
    workerId ∈ history.doneBy jobId (history.current jobId)

/-- The tracking of a job in the table against its dispatches. -/
structure TrackedAt (state : GlobalState) (history : History) (finishing : Prop) (jobId : JobId) : Prop where
  idle : ¬ history.Open jobId → state.unmarked jobId = true
  targets : history.Open jobId → ∃ targets, state.multinodeJobTracking.dispatchedWorkers.get? jobId = some targets ∧
    targets.Nodup ∧ ∀ workerId ∈ history.sentTo jobId (history.current jobId), workerId ∈ targets
  marked : ∀ workerId ∈ state.multinodeJobTracking.doneSet jobId,
    workerId ∈ history.sentTo jobId (history.current jobId) ∧ workerId ∈ history.doneBy jobId (history.current jobId)
  finishing : finishing → state.unmarked jobId = false ∧ history.AllReported jobId

def Leader.finishing (leader : Leader) (jobId : JobId) : Prop :=
  ∃ task ∈ leader.tasks, task.report.jobId = jobId

structure Tracked (leader : Leader) : Prop where
  tracks : ∀ jobId job, leader.ctx.state.jobs.get? jobId = some job →
    TrackedAt leader.ctx.state leader.history (leader.finishing jobId) jobId
  unused : ∀ jobId, jobId ∉ leader.history.used → leader.ctx.state.unmarked jobId = true

/-- Every Running job that a pass evicts satisfies the condition. -/
def EvictsOnly (allowed : JobId → Bool) (input : PassInput) : List JobId → PassState → Prop
  | [], _ => True
  | jobId :: rest, pass =>
    (∀ victim ∈ turnVictims input rest.length pass jobId,
      pass.state.isRunning victim = true → allowed victim = true) ∧
    ∀ next, passTurn input rest.length pass jobId = some next → EvictsOnly allowed input rest next

/-- JobDone is about the current dispatch of a job in the table, and no marked job
is preempted. -/
def Event.Current (leader : Leader) : Event → Prop
  | .jobDone report _ => (leader.ctx.state.jobs.get? report.jobId).isSome = true →
    report.dispatch = leader.history.current report.jobId ∧ leader.history.Open report.jobId
  | .preempt jobId => leader.ctx.state.isRunning jobId = true → leader.ctx.state.unmarked jobId = true
  | .schedule input => EvictsOnly leader.ctx.state.unmarked input (pendingOrder input leader.ctx.state)
    { state := passStart input leader.ctx.state }
  | _ => True

def CurrentStep (leader : Leader) (event : Event) (next : Leader) : Prop :=
  (event.Genuine leader ∧ event.Current leader) ∧ leader.apply event = some next

theorem TrackedAt.of_unmarked {state : GlobalState} {history : History} {finishing : Prop} {jobId : JobId}
    (unmarked : state.unmarked jobId = true)
    (targets : history.Open jobId → ∃ targets,
      state.multinodeJobTracking.dispatchedWorkers.get? jobId = some targets ∧ targets.Nodup ∧
        ∀ workerId ∈ history.sentTo jobId (history.current jobId), workerId ∈ targets)
    (idle : ¬ finishing) : TrackedAt state history finishing jobId where
  idle _ := unmarked
  targets := targets
  marked workerId member := absurd member (unmarked_iff.mp unmarked workerId)
  finishing busy := absurd busy idle

theorem TrackedAt.turn {history : History} {finishing : Prop} {victims : List JobId} {turnOf jobId : JobId}
    {before after : GlobalState} (valid : TrackedAt before history finishing jobId)
    (attaches : AttachesAt (history.closed jobId) (history.dispatches jobId) (before.jobs.get? jobId))
    (move : TurnMove victims turnOf jobId (before.jobs.get? jobId) (after.jobs.get? jobId))
    (tracking : TurnTracking turnOf before after)
    (allowed : jobId ∈ victims → before.isRunning jobId = true → before.unmarked jobId = true) :
    TrackedAt after (history.observeTurn turnOf before after) finishing jobId := by
  have quiet (unmarked : before.unmarked jobId = true) : ¬ finishing := by
    intro busy
    rw [(valid.finishing busy).1] at unmarked
    cases unmarked
  generalize was : before.jobs.get? jobId = old at move
  generalize is : after.jobs.get? jobId = new at move
  cases move with
  | kept same =>
    have core : (after.jobs.get? jobId).map JobInfo.core = (before.jobs.get? jobId).map JobInfo.core := by
      rw [was, is, same]
    have idle : ¬ (jobId = turnOf ∧ after.isRunning jobId = true ∧ before.isRunning jobId = false) := by
      rw [isRunning_core core]
      simp
    have dispatches : (history.observeTurn turnOf before after).dispatches jobId = history.dispatches jobId := by
      rw [History.observeTurn_dispatches, if_neg idle]
    have closed : (history.observeTurn turnOf before after).closed jobId = history.closed jobId := by
      rw [History.observeTurn_closed, stopped_core core]
      rfl
    have sentTo : (history.observeTurn turnOf before after).sentTo jobId = history.sentTo jobId := by
      funext number
      rw [History.observeTurn_sentTo, if_neg fun both => idle both.1]
    have doneBy := History.observeTurn_doneBy history turnOf before after
    refine ⟨?_, ?_, ?_, ?_⟩
    · simpa only [History.Open, closed, dispatches, tracking.unmarked] using valid.idle
    · simpa only [History.Open, closed, dispatches, History.current, sentTo, tracking.others jobId idle] using
        valid.targets
    · simpa only [History.current, dispatches, sentTo, doneBy, tracking.doneSet] using valid.marked
    · simpa only [History.AllReported, History.current, dispatches, sentTo, doneBy, tracking.unmarked] using
        valid.finishing
  | @evicted job job' victim running same =>
    have waits : job'.status = .pending := congrArg (·.2.1) same
    have ran : before.isRunning jobId = true := by rw [isRunning_of_found was, running]; rfl
    have idle : after.isRunning jobId = false := by rw [isRunning_of_found is, waits]; rfl
    have unmarked := allowed victim ran
    refine .of_unmarked ((tracking.unmarked jobId).trans unmarked) (fun opened => ?_) (quiet unmarked)
    rw [History.Open, History.observeTurn_closed, History.observeTurn_dispatches, stopped, ran, idle] at opened
    simp at opened
  | started turn pending running _ =>
    subst turn
    have idle : before.isRunning jobId = false := by rw [isRunning_of_found was, pending]; rfl
    have runs : after.isRunning jobId = true := by rw [isRunning_of_found is, running]; rfl
    have closed := attaches.waiting _ was pending
    have unmarked : before.unmarked jobId = true := valid.idle fun opened => Nat.ne_of_lt opened closed
    refine .of_unmarked ((tracking.unmarked jobId).trans unmarked) (fun _ => ?_) (quiet unmarked)
    obtain ⟨targets, recorded, distinct, sent⟩ := tracking.started runs idle
    refine ⟨targets, recorded, distinct, fun workerId member => sent workerId ?_⟩
    rw [History.current, History.observeTurn_dispatches, if_pos ⟨rfl, runs, idle⟩, History.observeTurn_sentTo,
      if_pos ⟨⟨rfl, runs, idle⟩, rfl⟩] at member
    exact member

theorem schedule_tracked {input : PassInput} {state final : GlobalState} {history : History}
    {finishing : JobId → Prop} (attaches : Attaches history state)
    (tracks : ∀ jobId job, state.jobs.get? jobId = some job → TrackedAt state history (finishing jobId) jobId)
    (allowed : EvictsOnly state.unmarked input (pendingOrder input state) { state := passStart input state })
    (ran : scheduleJobs input state = some final) :
    (∀ jobId job, final.jobs.get? jobId = some job → TrackedAt final
      (passHistory input (pendingOrder input state) { state := passStart input state } history)
      (finishing jobId) jobId) ∧ ∀ jobId, final.unmarked jobId = state.unmarked jobId := by
  obtain ⟨pass, turns, same⟩ := Option.map_eq_some_iff.mp ran
  subst same
  have ends := passHistory_invariant (fun rest pass after => Attaches after pass.state ∧
    (∀ jobId job, pass.state.jobs.get? jobId = some job → TrackedAt pass.state after (finishing jobId) jobId) ∧
    (∀ jobId, pass.state.unmarked jobId = state.unmarked jobId) ∧ EvictsOnly state.unmarked input rest pass) ?_ _
    ⟨attaches, fun jobId job found => ?_, fun _ => rfl, allowed⟩ turns
  · refine ⟨fun jobId job found => ?_, ends.2.2.1⟩
    have valid := ends.2.1 jobId job found
    exact ⟨valid.idle, valid.targets, valid.marked, valid.finishing⟩
  · intro turnOf rest pass next after ⟨attaches, tracks, marks, ahead⟩ taken
    have outcome := passTurn_outcome taken
    have moves := turn_move outcome
    have tracking := turn_tracking outcome
    refine ⟨fun jobId => (attaches jobId).turn (moves jobId), fun jobId job' found => ?_, fun jobId => ?_,
      ahead.2 next taken⟩
    · have move := moves jobId
      obtain ⟨job, stands⟩ := (found ▸ move).found_back
      refine (tracks jobId job stands).turn (attaches jobId) move tracking fun victim runs => ?_
      rw [marks jobId]
      exact ahead.1 jobId victim runs
    · rw [tracking.unmarked, marks]
  · have valid := tracks jobId job found
    exact ⟨valid.idle, valid.targets, valid.marked, valid.finishing⟩

section Tracking

variable {leader next : Leader} {event : Event}

theorem TrackedAt.same {state state' : GlobalState} {history history' : History} {finishing finishing' : Prop}
    {jobId : JobId} (valid : TrackedAt state history finishing jobId)
    (marks : state'.multinodeJobTracking.doneSet jobId = state.multinodeJobTracking.doneSet jobId)
    (recorded : state'.multinodeJobTracking.dispatchedWorkers.get? jobId =
      state.multinodeJobTracking.dispatchedWorkers.get? jobId)
    (counts : history'.closed jobId = history.closed jobId ∧ history'.dispatches jobId = history.dispatches jobId)
    (sentTo : history'.sentTo jobId = history.sentTo jobId) (doneBy : history'.doneBy jobId = history.doneBy jobId)
    (busy : finishing' → finishing) : TrackedAt state' history' finishing' jobId := by
  obtain ⟨closed, dispatches⟩ := counts
  refine ⟨?_, ?_, ?_, fun busy' => ?_⟩
  · simpa only [History.Open, closed, dispatches, GlobalState.unmarked, marks] using valid.idle
  · simpa only [History.Open, closed, dispatches, History.current, sentTo, recorded] using valid.targets
  · simpa only [History.current, dispatches, sentTo, doneBy, marks] using valid.marked
  · have before := valid.finishing (busy busy')
    simpa only [History.AllReported, History.current, dispatches, sentTo, doneBy, GlobalState.unmarked, marks]
      using before

/-- No handler is under way for a job that was never dispatched. -/
theorem Accountable.not_finishing (valid : Accountable leader) {jobId : JobId}
    (fresh : jobId ∉ leader.history.used) : ¬ leader.finishing jobId := by
  intro ⟨task, member, about⟩
  obtain ⟨positive, bound⟩ := valid.tasks task member
  rw [about, valid.unused jobId fresh] at bound
  omega

theorem Tracked.quiet (valid : Tracked leader) (accountable : Accountable leader)
    (genuine : event.Genuine leader) (current : event.Current leader) (taken : leader.apply event = some next)
    (other : ∀ input, event ≠ .schedule input) (undone : ∀ report exitCode, event ≠ .jobDone report exitCode) :
    Tracked next := by
  have tracking := apply_tracking taken other undone
  have history := apply_history taken other undone
  have counts := apply_counts taken other
  have busy (jobId : JobId) (later : next.finishing jobId) : leader.finishing jobId := by
    obtain ⟨task, member, about⟩ := later
    rcases apply_tasks taken member with ⟨old, there, same⟩ | ⟨report, exitCode, same, _⟩
    · exact ⟨old, there, by rw [same, about]⟩
    · exact absurd same (undone report exitCode)
  have keeps (jobId : JobId) (job' : JobInfo) (found : next.ctx.state.jobs.get? jobId = some job') :
      next.ctx.state.multinodeJobTracking.doneSet jobId = leader.ctx.state.multinodeJobTracking.doneSet jobId ∧
      next.ctx.state.multinodeJobTracking.dispatchedWorkers.get? jobId =
        leader.ctx.state.multinodeJobTracking.dispatchedWorkers.get? jobId := by
    rcases tracking with same | ⟨gone, cleaned, missing⟩
    · rw [same]
      exact ⟨rfl, rfl⟩
    · have different : jobId ≠ gone := by
        intro equal
        rw [equal, missing] at found
        cases found
      rw [cleaned, MultinodeJobTracking.cleanup_doneSet, if_neg different]
      simp only [MultinodeJobTracking.cleanupJobTracking, HashMap.get?_remove, different, ↓reduceIte, true_and]
  have clean (jobId : JobId) (unmarked : leader.ctx.state.unmarked jobId = true) :
      next.ctx.state.unmarked jobId = true := by
    rcases tracking with same | ⟨gone, cleaned, _⟩
    · rw [GlobalState.unmarked, same]
      exact unmarked
    · rw [GlobalState.unmarked, cleaned, MultinodeJobTracking.cleanup_doneSet]
      split
      · rfl
      · exact unmarked
  refine ⟨fun jobId job' found => ?_, fun jobId fresh => ?_⟩
  · obtain ⟨marks, recorded⟩ := keeps jobId job' found
    have move := apply_move accountable.sound taken other jobId
    generalize was : leader.ctx.state.jobs.get? jobId = before at move
    rw [found] at move
    have steady (job : JobInfo) (stands : leader.ctx.state.jobs.get? jobId = some job)
        (closed : next.history.closed jobId = leader.history.closed jobId) :
        TrackedAt next.ctx.state next.history (next.finishing jobId) jobId := by
      refine (valid.tracks jobId job stands).same marks recorded ⟨closed, by rw [counts.1]⟩ ?_ ?_ (busy jobId)
      · rw [history]
      · rw [history]
    cases move with
    | kept same =>
      obtain ⟨job, stands, _⟩ := Option.map_eq_some_iff.mp same.symm
      refine steady job (was.trans stands) ?_
      rw [counts.2 jobId, stopped_core (by rw [found, was, same]), Bool.and_false]
      rfl
    | submitted submission nextJobId id =>
      have fresh : jobId ∉ leader.history.used := id ▸ genuine
      refine .of_unmarked (clean jobId (valid.unused jobId fresh)) (fun opened => ?_) ?_
      · have none := accountable.unused jobId fresh
        rw [History.Open, counts.1, none] at opened
        exact absurd opened (Nat.not_lt_zero _)
      · exact fun later => accountable.not_finishing fresh (busy jobId later)
    | @evicted job running =>
      have ran : leader.ctx.state.isRunning jobId = true := by rw [isRunning_of_found was, running]; rfl
      have unmarked := current ran
      refine .of_unmarked (clean jobId unmarked) (fun opened => ?_) fun later => ?_
      · have stops : stopped leader.ctx.state next.ctx.state jobId = true := by
          rw [stopped, ran, isRunning_of_found found]
          rfl
        rw [History.Open, counts.1, counts.2 jobId, stops] at opened
        exact absurd opened (Nat.lt_irrefl _)
      · have marked := ((valid.tracks jobId job was).finishing (busy jobId later)).1
        rw [unmarked] at marked
        cases marked
    | @claimed job after report about same =>
      refine steady job was ?_
      rw [counts.2 jobId]
      rfl
    | @reaped job order workerId active now running =>
      refine steady job was ?_
      rw [counts.2 jobId]
      rfl
  · refine clean jobId (valid.unused jobId fun used => fresh ?_)
    rw [apply_used taken]
    exact List.mem_append_right _ used

/-- The marks of a job after one more worker reported on its current dispatch. If all
expected workers are marked, all that were sent the dispatch have reported. -/
theorem TrackedAt.mark {state : GlobalState} {history : History} {finishing finishing' : Prop} {report : Report}
    (valid : TrackedAt state history finishing report.jobId)
    (dispatch : report.dispatch = history.current report.jobId) (opened : history.Open report.jobId)
    (sent : report.workerId ∈ history.sentTo report.jobId report.dispatch)
    (busy : finishing' → finishing ∨ ∃ job,
      (state.multinodeJobTracking.markWorkerDone report.jobId report.workerId).1.expectedDoneWorkers report.jobId job ≤
        (state.multinodeJobTracking.markWorkerDone report.jobId report.workerId).2) :
    TrackedAt { state with multinodeJobTracking :=
      (state.multinodeJobTracking.markWorkerDone report.jobId report.workerId).1 }
      (history.noteDone report) finishing' report.jobId := by
  let tracking := (state.multinodeJobTracking.markWorkerDone report.jobId report.workerId).1
  obtain ⟨targets, recorded, distinct, within⟩ := valid.targets opened
  have recorded' : tracking.dispatchedWorkers.get? report.jobId = some targets := recorded
  have marks : tracking.doneSet report.jobId =
      (state.multinodeJobTracking.doneSet report.jobId).insert report.workerId := by
    rw [MultinodeJobTracking.markWorkerDone_doneSet, if_pos rfl]
  have noted : (history.noteDone report).doneBy report.jobId (history.current report.jobId) =
      report.workerId :: history.doneBy report.jobId (history.current report.jobId) := if_pos ⟨rfl, dispatch.symm⟩
  have marked : ∀ workerId ∈ tracking.doneSet report.jobId,
      workerId ∈ history.sentTo report.jobId (history.current report.jobId) ∧
      workerId ∈ (history.noteDone report).doneBy report.jobId (history.current report.jobId) := by
    intro workerId member
    rw [noted]
    rw [marks, HashSet.mem_insert] at member
    rcases member with here | old
    · rw [here, ← dispatch]
      exact ⟨sent, List.mem_cons_self⟩
    · obtain ⟨sent, done⟩ := valid.marked workerId old
      exact ⟨sent, List.mem_cons_of_mem _ done⟩
  refine ⟨fun closed => absurd opened closed, fun _ => ⟨targets, recorded', distinct, within⟩, marked,
    fun busy' => ⟨?_, ?_⟩⟩
  · have member : report.workerId ∈ tracking.doneSet report.jobId := by
      rw [marks, HashSet.mem_insert]
      exact .inl rfl
    rw [GlobalState.unmarked, Bool.eq_false_iff]
    exact fun empty => HashSet.isEmpty_iff.mp empty report.workerId member
  · intro workerId listed
    rcases busy busy' with before | ⟨job, enough⟩
    · have reported := (valid.finishing before).2 workerId listed
      exact noted ▸ List.mem_cons_of_mem report.workerId reported
    · have expected : tracking.expectedDoneWorkers report.jobId job = targets.length := by
        rw [MultinodeJobTracking.expectedDoneWorkers, recorded']
      have large : targets.length ≤ (tracking.doneSet report.jobId).len := by
        rw [marks, ← expected]
        exact enough
      have covered := HashSet.mem_of_length_le
        (fun workerId member => within workerId (marked workerId member).1) large (within workerId listed)
      exact (marked workerId covered).2

theorem Tracked.jobDone {report : Report} {exitCode : Int} (valid : Tracked leader) (accountable : Accountable leader)
    (genuine : report.Sent leader) (current : Event.Current leader (.jobDone report exitCode))
    (taken : leader.apply (.jobDone report exitCode) = some next) : Tracked next := by
  have made := taken
  rw [Leader.apply_jobDone, Option.some.injEq] at made
  have history : next.history = leader.history.noteDone report := by rw [← made]
  have state : next.ctx.state = { leader.ctx.state with multinodeJobTracking :=
      (leader.ctx.state.multinodeJobTracking.markWorkerDone report.jobId report.workerId).1 } := by rw [← made]
  have marks (jobId : JobId) (different : jobId ≠ report.jobId) :
      next.ctx.state.multinodeJobTracking.doneSet jobId = leader.ctx.state.multinodeJobTracking.doneSet jobId := by
    rw [state, MultinodeJobTracking.markWorkerDone_doneSet, if_neg different]
  have busy (jobId : JobId) (later : next.finishing jobId) : leader.finishing jobId ∨
      report.jobId = jobId ∧ (leader.ctx.jobDoneMark report.workerId report.jobId).2 = true := by
    obtain ⟨task, member, about⟩ := later
    rcases apply_tasks taken member with ⟨old, there, same⟩ | ⟨report', exitCode', same, about', finalizes⟩
    · exact .inl ⟨old, there, by rw [same, about]⟩
    · cases same
      exact .inr ⟨by rw [← about, about'], finalizes⟩
  refine ⟨fun jobId job found => ?_, fun jobId fresh => ?_⟩
  · rw [state] at found
    have before := valid.tracks jobId job found
    by_cases equal : jobId = report.jobId
    · subst equal
      obtain ⟨dispatch, opened⟩ := current (by rw [found]; rfl)
      rw [state, history]
      refine before.mark dispatch opened genuine.2.2 fun later => (busy _ later).imp_right fun new => ?_
      obtain ⟨job', _, _, enough⟩ := ControllerContext.jobDoneMark_finalizes.mp new.2
      exact ⟨job', enough⟩
    · have doneBy : next.history.doneBy jobId = leader.history.doneBy jobId := by
        rw [history]
        funext number
        exact if_neg fun both => equal both.1
      refine before.same (marks jobId equal) ?_ ?_ ?_ doneBy fun later => ?_
      · rw [state]
        rfl
      · rw [history]
        exact ⟨rfl, rfl⟩
      · rw [history]
        rfl
      · exact (busy jobId later).resolve_right fun new => equal new.1.symm
  · rw [GlobalState.unmarked]
    have unused : jobId ∉ leader.history.used := by
      rw [history] at fresh
      exact fresh
    have different : jobId ≠ report.jobId := by
      intro equal
      subst equal
      have none := accountable.unused _ unused
      have positive := genuine.1
      have bound := genuine.2.1
      omega
    rw [marks jobId different]
    exact valid.unused jobId unused

theorem Tracked.apply (valid : Tracked leader) (accountable : Accountable leader)
    (taken : CurrentStep leader event next) : Tracked next := by
  obtain ⟨⟨genuine, current⟩, applied⟩ := taken
  obtain ⟨input, state, rfl, ran, rfl⟩ | other := Leader.schedule_or_other applied
  · obtain ⟨tracks, marks⟩ := schedule_tracked accountable.attaches valid.tracks current ran
    refine ⟨tracks, fun jobId fresh => (marks jobId).trans (valid.unused jobId fun used => fresh ?_)⟩
    rw [apply_used applied]
    exact used
  · by_cases done : ∃ report exitCode, event = .jobDone report exitCode
    · obtain ⟨report, exitCode, same⟩ := done
      subst same
      exact valid.jobDone accountable genuine current applied
    · exact valid.quiet accountable genuine current applied other
        fun report exitCode same => done ⟨report, exitCode, same⟩

theorem Leader.Fresh.tracked (fresh : leader.Fresh) : Tracked leader where
  tracks jobId job found := by
    rw [fresh.jobs] at found
    cases found
  unused jobId _ := by
    rw [GlobalState.unmarked, fresh.tracking]
    rfl

end Tracking

theorem CurrentStep.genuine (leader : Leader) (event : Event) (next : Leader)
    (taken : CurrentStep leader event next) : event.Genuine leader ∧ leader.apply event = some next :=
  ⟨taken.1.1, taken.2⟩

theorem tracked_of_reach {leader : Leader} (reached : Reach Leader.Fresh CurrentStep leader) : Tracked leader := by
  induction reached with
  | start fresh => exact fresh.tracked
  | step earlier taken before => exact before.apply (accountable_of_reach CurrentStep.genuine earlier) taken

/-- In every run in which each JobDone is about the current dispatch of its job and no
marked job is preempted, the last section of JobDone completes a job only after every
worker that was sent the current dispatch has reported. -/
theorem completes_after_all_reports {leader : Leader} (reached : Reach Leader.Fresh CurrentStep leader)
    {index : Nat} {report : Report} {exitCode : Int} {logFiles : HashMap WorkerId WorkerLogFiles} {job : JobInfo}
    (task : leader.tasks[index]? = some (.finishing report exitCode logFiles))
    (found : leader.ctx.state.jobs.get? report.jobId = some job) :
    ∀ workerId ∈ leader.history.sentTo report.jobId (leader.history.dispatches report.jobId),
      workerId ∈ leader.history.doneBy report.jobId (leader.history.dispatches report.jobId) := by
  have valid := (tracked_of_reach reached).tracks report.jobId job found
  exact (valid.finishing ⟨_, List.mem_of_getElem? task, rfl⟩).2

instance EvictsOnly.decidable (allowed : JobId → Bool) (input : PassInput) :
    ∀ (order : List JobId) (pass : PassState), Decidable (EvictsOnly allowed input order pass)
  | [], _ => isTrue trivial
  | jobId :: rest, pass =>
    match taken : passTurn input rest.length pass jobId with
    | none => decidable_of_iff (∀ victim ∈ turnVictims input rest.length pass jobId,
        pass.state.isRunning victim = true → allowed victim = true)
      ⟨fun here => ⟨here, fun next same => by rw [taken] at same; cases same⟩, And.left⟩
    | some next =>
      have : Decidable (EvictsOnly allowed input rest next) := EvictsOnly.decidable allowed input rest next
      decidable_of_iff ((∀ victim ∈ turnVictims input rest.length pass jobId,
        pass.state.isRunning victim = true → allowed victim = true) ∧ EvictsOnly allowed input rest next)
        ⟨fun both => ⟨both.1, fun next' same => by rw [taken] at same; cases same; exact both.2⟩,
          fun both => ⟨both.1, both.2 next taken⟩⟩

instance Event.decidableCurrent (leader : Leader) : (event : Event) → Decidable (event.Current leader)
  | .jobDone report _ => inferInstanceAs (Decidable ((leader.ctx.state.jobs.get? report.jobId).isSome = true →
      report.dispatch = leader.history.dispatches report.jobId ∧
      leader.history.closed report.jobId < leader.history.dispatches report.jobId))
  | .preempt jobId => inferInstanceAs (Decidable
      (leader.ctx.state.isRunning jobId = true → leader.ctx.state.unmarked jobId = true))
  | .schedule input => inferInstanceAs (Decidable (EvictsOnly leader.ctx.state.unmarked input
      (pendingOrder input leader.ctx.state) { state := passStart input leader.ctx.state }))
  | .submit .. | .register .. | .endWriter .. | .disconnect .. | .reconcile .. | .jobStarted _ | .mergeDone _ | .finishDone ..
  | .jobError .. | .jobKilled .. | .cancel .. | .checkTimeouts .. | .prune .. => isTrue trivial

def twoNodes : List Event :=
  [.register (sampleRegistration "w1") 100, .register (sampleRegistration "w2") 100,
    .submit (sampleSubmission 1 .preemptible 2 "sh") 2, .schedule { now := 100 }]

/-- The report that a handler is about to finish with. -/
def DoneTask.finishes : DoneTask → Option Report
  | .merging _ _ => none
  | .finishing report _ _ => some report

theorem DoneTask.finishes_eq {task : DoneTask} {report : Report} (finishes : task.finishes = some report) :
    ∃ exitCode logFiles, task = .finishing report exitCode logFiles := by
  cases task with
  | merging _ _ => cases finishes
  | finishing report' exitCode logFiles =>
    cases finishes
    exact ⟨exitCode, logFiles, rfl⟩

/-- Both workers of a job report on its second dispatch. -/
theorem completes_after_all_reports_redispatch : ∃ leader,
    Reach Leader.Fresh CurrentStep leader ∧ leader.history.sentTo 1 (leader.history.dispatches 1) = ["w1", "w2"] ∧
    ∀ workerId ∈ leader.history.sentTo 1 (leader.history.dispatches 1),
      workerId ∈ leader.history.doneBy 1 (leader.history.dispatches 1) := by
  let events : List Event := twoNodes ++ [.preempt 1, .schedule { now := 200 }, .jobDone ⟨"w1", 1, 2⟩ 0,
    .jobDone ⟨"w2", 1, 2⟩ 0, .mergeDone 0]
  have allowed : AllowedRun (fun leader event => event.Genuine leader ∧ event.Current leader) Leader.apply events
      { ctx := sampleLeader } := by decide +kernel
  have facts : (runLabels Leader.apply events { ctx := sampleLeader }).map (fun leader =>
      (leader.history.sentTo 1 (leader.history.dispatches 1), (leader.tasks[0]?).bind DoneTask.finishes,
        (leader.ctx.state.jobs.get? 1).isSome)) = some (["w1", "w2"], some ⟨"w2", 1, 2⟩, true) := by
    decide +kernel
  obtain ⟨leader, reached, _, facts⟩ := exists_reach Leader.sampleLeader_fresh allowed facts
  rw [Prod.mk.injEq, Prod.mk.injEq] at facts
  obtain ⟨sent, handler, present⟩ := facts
  obtain ⟨task, there, finishes⟩ := Option.bind_eq_some_iff.mp handler
  obtain ⟨exitCode, logFiles, same⟩ := DoneTask.finishes_eq finishes
  obtain ⟨job, found⟩ := Option.isSome_iff_exists.mp present
  exact ⟨leader, reached, sent, completes_after_all_reports reached (same ▸ there) found⟩

/-- One worker reports before a preemption and the other one after the second
dispatch: the job is completed while the first worker still runs it. -/
theorem completes_before_first_worker : ∃ leader next exitCode logFiles,
    Reach Leader.Fresh GenuineStep leader ∧
    leader.tasks[0]? = some (.finishing ⟨"w2", 1, 2⟩ exitCode logFiles) ∧
    leader.ctx.state.hasStatus 1 .running ∧ leader.history.dispatches 1 = 2 ∧ "w1" ∈ leader.history.sentTo 1 2 ∧
    "w1" ∉ leader.history.doneBy 1 2 ∧ GenuineStep leader (.finishDone 0 none none 300) next ∧
    next.ctx.state.jobs.get? 1 = none := by
  let events : List Event := twoNodes ++ [.jobDone ⟨"w1", 1, 1⟩ 0, .preempt 1, .schedule { now := 200 },
    .jobDone ⟨"w2", 1, 2⟩ 0, .mergeDone 0]
  have genuine : AllowedRun (fun leader event => event.Genuine leader) Leader.apply events
      { ctx := sampleLeader } := by decide +kernel
  have facts : (runLabels Leader.apply events { ctx := sampleLeader }).map (fun leader =>
      ((leader.tasks[0]?).bind DoneTask.finishes, (leader.ctx.state.jobs.get? 1).map JobInfo.status,
        decide (leader.history.dispatches 1 = 2 ∧ "w1" ∈ leader.history.sentTo 1 2 ∧
          "w1" ∉ leader.history.doneBy 1 2))) = some (some ⟨"w2", 1, 2⟩, some .running, true) := by
    decide +kernel
  obtain ⟨leader, reached, _, facts⟩ := exists_reach Leader.sampleLeader_fresh genuine facts
  rw [Prod.mk.injEq, Prod.mk.injEq, decide_eq_true_eq] at facts
  obtain ⟨handler, status, twice, sent, silent⟩ := facts
  obtain ⟨task, there, finishes⟩ := Option.bind_eq_some_iff.mp handler
  obtain ⟨exitCode, logFiles, same⟩ := DoneTask.finishes_eq finishes
  subst same
  exact ⟨leader, _, exitCode, logFiles, reached, there, Option.map_eq_some_iff.mp status, twice, sent, silent,
    ⟨trivial, Leader.apply_finishDone there none none 300⟩,
    (jobDoneFinish_retires leader.ctx 1 300 exitCode logFiles none none).gone⟩

end Veloce
