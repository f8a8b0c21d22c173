import Veloce.Lifecycle.Dispatches

/-! A preempted job and the messages about it. -/

namespace Veloce

open Collections

def GlobalState.alive (state : GlobalState) (jobId : JobId) : Prop :=
  ∃ job, state.jobs.get? jobId = some job ∧ job.status.terminal = false

/-- The report on which an event takes a job out of the table. -/
def Event.final (leader : Leader) : Event → Option Report
  | .jobError report _ _ | .jobKilled report _ => some report
  | .finishDone index _ _ _ => (leader.tasks[index]?).map DoneTask.report
  | _ => none

/-- A report that finds its job in the table is about a dispatch after the last
preemption of the job. -/
def Event.Timely (leader : Leader) (event : Event) : Prop :=
  ∀ report, event.final leader = some report → (leader.ctx.state.jobs.get? report.jobId).isSome = true →
    leader.history.closed report.jobId < report.dispatch

instance (leader : Leader) (report : Report) : Decidable (report.Sent leader) :=
  inferInstanceAs (Decidable (_ ∧ _ ∧ _))

instance Event.decidableGenuine (leader : Leader) : (event : Event) → Decidable (event.Genuine leader)
  | .submit submission _ => inferInstanceAs (Decidable (submission.job.id ∉ leader.history.used))
  | .jobStarted report | .jobDone report _ | .jobError report _ _ | .jobKilled report _ =>
    inferInstanceAs (Decidable (report.Sent leader))
  | .register .. | .endWriter .. | .disconnect .. | .schedule _ | .preempt _ | .reconcile .. | .mergeDone _ | .finishDone ..
  | .cancel .. | .checkTimeouts .. | .prune .. => isTrue trivial

instance Event.decidableTimely (leader : Leader) (event : Event) : Decidable (event.Timely leader) :=
  match found : event.final leader with
  | none => isTrue fun report same => by rw [found] at same; cases same
  | some report => decidable_of_iff ((leader.ctx.state.jobs.get? report.jobId).isSome = true →
      leader.history.closed report.jobId < report.dispatch)
      ⟨fun timely report' same => by rw [found] at same; cases same; exact timely,
        fun timely => timely report found⟩

def GenuineStep (leader : Leader) (event : Event) (next : Leader) : Prop :=
  event.Genuine leader ∧ leader.apply event = some next

def TimelyStep (leader : Leader) (event : Event) (next : Leader) : Prop :=
  (event.Genuine leader ∧ event.Timely leader) ∧ leader.apply event = some next

/-- The event is the outcome of the given dispatch of the job. -/
inductive Event.Outcome (leader : Leader) (jobId : JobId) : Event → Nat → Prop where
  | reported {event : Event} {report : Report} (final : event.final leader = some report)
      (about : report.jobId = jobId) : Outcome leader jobId event report.dispatch
  | expired (order : IterOrder ControllerContext.TimeoutSite) (now : Nat) :
      Outcome leader jobId (.checkTimeouts order now) (leader.history.dispatches jobId)
  | reaped (order : IterOrder Unit) (workerId : WorkerId) (active : List JobId) (now : Nat) :
      Outcome leader jobId (.reconcile order workerId active now) (leader.history.dispatches jobId)

theorem accountable_of_reach {step : Leader → Event → Leader → Prop} {leader : Leader}
    (genuine : ∀ leader event next, step leader event next →
      event.Genuine leader ∧ leader.apply event = some next)
    (reached : Reach Leader.Fresh step leader) : Accountable leader := by
  refine reached.invariant Accountable ?_ ?_
  · intro leader fresh
    exact fresh.accountable
  · intro leader event next valid taken
    obtain ⟨genuine, applied⟩ := genuine leader event next taken
    exact valid.apply genuine applied

theorem TimelyStep.genuine (leader : Leader) (event : Event) (next : Leader)
    (taken : TimelyStep leader event next) : event.Genuine leader ∧ leader.apply event = some next :=
  ⟨taken.1.1, taken.2⟩

theorem TurnMove.alive {victims : List JobId} {turnOf jobId : JobId} {before after : Option JobInfo}
    (move : TurnMove victims turnOf jobId before after)
    (lives : ∃ job, before = some job ∧ job.status.terminal = false) :
    ∃ job, after = some job ∧ job.status.terminal = false := by
  obtain ⟨job, stands, unfinished⟩ := lives
  cases move with
  | kept same =>
    rw [stands, Option.map_some] at same
    obtain ⟨job', stands', equal⟩ := Option.map_eq_some_iff.mp same
    have status : job'.status = job.status := congrArg (·.2.1) equal
    exact ⟨job', stands', status ▸ unfinished⟩
  | evicted _ _ same =>
    have status : _ = JobStatus.pending := congrArg (·.2.1) same
    exact ⟨_, rfl, congrArg JobStatus.terminal status⟩
  | started _ _ running _ => exact ⟨_, rfl, congrArg JobStatus.terminal running⟩

theorem schedule_alive {input : PassInput} {state final : GlobalState} {jobId : JobId}
    (ran : scheduleJobs input state = some final) (lives : state.alive jobId) : final.alive jobId := by
  obtain ⟨pass, turns, same⟩ := Option.map_eq_some_iff.mp ran
  subst same
  refine passTurns_invariant (fun _ pass => pass.state.alive jobId) ?_ _ lives turns
  intro turnOf rest pass next lives taken
  exact (turn_move (passTurn_outcome taken) jobId).alive lives

/-- What ends a job: its cancellation, or the outcome of a dispatch that no
preemption has ended. -/
theorem apply_ends {leader next : Leader} {event : Event} {jobId : JobId} (valid : Accountable leader)
    (timely : event.Timely leader) (taken : leader.apply event = some next)
    (lives : leader.ctx.state.alive jobId) (ended : ¬ next.ctx.state.alive jobId) :
    (∃ caller now, event = .cancel caller jobId now) ∨
      ∃ dispatch, event.Outcome leader jobId dispatch ∧ leader.history.closed jobId < dispatch := by
  obtain ⟨input, state, rfl, ran, rfl⟩ | other := Leader.schedule_or_other taken
  · exact absurd (schedule_alive ran lives) ended
  · have move := apply_move valid.sound taken other jobId
    obtain ⟨job, found, unfinished⟩ := lives
    have there : (leader.ctx.state.jobs.get? jobId).isSome = true := by rw [found]; rfl
    have attached := (valid.attaches jobId).attached job found
    rw [found] at move
    generalize is : next.ctx.state.jobs.get? jobId = new at move
    have survives (job' : JobInfo) (found' : new = some job') : job'.status.terminal = true := by
      cases terminal : job'.status.terminal with
      | true => rfl
      | false => exact absurd ⟨job', is.trans found', terminal⟩ ended
    cases move with
    | kept same =>
      obtain ⟨job', stands, equal⟩ := Option.map_eq_some_iff.mp same
      have status : job'.status = job.status := congrArg (·.2.1) equal
      rw [← status, survives job' stands] at unfinished
      cases unfinished
    | submitted submission nextJobId id =>
      have ends := survives _ rfl
      rw [submission.pending] at ends
      cases ends
    | evicted running => cases survives _ rfl
    | @claimed _ job' report about same =>
      have running : job'.status = .running := congrArg (·.2.1) same
      have ends := survives _ rfl
      rw [running] at ends
      cases ends
    | @reaped _ order workerId active now running =>
      refine .inr ⟨_, .reaped order workerId active now, attached (.inr (.inl ?_))⟩
      exact List.ne_nil_of_mem (runsOn_iff.mp running).2
    | removed removes =>
      cases removes with
      | failed error now about => exact .inr ⟨_, .reported rfl about, about ▸ timely _ rfl (about ▸ there)⟩
      | killed now about => exact .inr ⟨_, .reported rfl about, about ▸ timely _ rfl (about ▸ there)⟩
      | finished stdoutId stderrId now task about =>
        have final := congrArg (Option.map DoneTask.report) task
        exact .inr ⟨_, .reported final about, about ▸ timely _ final (about ▸ there)⟩
      | canceled caller now => exact .inl ⟨caller, now, rfl⟩
      | expired order now dispatched _ => exact .inr ⟨_, .expired order now, attached dispatched⟩
      | pruned _ _ finished =>
        rw [finished] at unfinished
        cases unfinished

/-- A Pending job, such as one that `preempt_job` has put back, stays in the table
in every run without late reports, until it is cancelled or a dispatch that came
later ends it. -/
theorem preempted_job_survives {preempted final : Leader} {jobId : JobId}
    (reached : Reach Leader.Fresh TimelyStep preempted) (waits : preempted.ctx.state.hasStatus jobId .pending)
    (run : Reach (· = preempted) TimelyStep final) :
    final.ctx.state.alive jobId ∨
      ∃ before event after, Reach (· = preempted) TimelyStep before ∧ TimelyStep before event after ∧
        Reach (· = after) TimelyStep final ∧ before.ctx.state.alive jobId ∧ ¬ after.ctx.state.alive jobId ∧
        ((∃ caller now, event = .cancel caller jobId now) ∨
          ∃ dispatch, event.Outcome before jobId dispatch ∧ preempted.history.dispatches jobId < dispatch) := by
  have closed : ∀ {leader : Leader}, Reach (· = preempted) TimelyStep leader →
      preempted.history.dispatches jobId ≤ leader.history.closed jobId := by
    intro leader later
    induction later with
    | start same =>
      subst same
      obtain ⟨job, found, pending⟩ := waits
      have valid := accountable_of_reach TimelyStep.genuine reached
      exact Nat.le_of_eq ((valid.attaches jobId).waiting job found pending).symm
    | step earlier taken before =>
      have valid := accountable_of_reach TimelyStep.genuine (reached.append earlier)
      exact Nat.le_trans before (apply_closes valid.attaches taken.2 jobId)
  induction run with
  | start same =>
    subst same
    obtain ⟨job, found, pending⟩ := waits
    exact .inl ⟨job, found, congrArg JobStatus.terminal pending⟩
  | @step leader next event earlier taken before =>
    rcases before with lives | ⟨first, end', after, begins, ends, rest, outcome⟩
    · by_cases survives : next.ctx.state.alive jobId
      · exact .inl survives
      · have valid := accountable_of_reach TimelyStep.genuine (reached.append earlier)
        refine .inr ⟨leader, event, next, earlier, taken, .start rfl, lives, survives, ?_⟩
        refine (apply_ends valid taken.1.2 taken.2 lives survives).imp_right ?_
        intro ⟨dispatch, outcome, later⟩
        exact ⟨dispatch, outcome, Nat.lt_of_le_of_lt (closed earlier) later⟩
    · exact .inr ⟨first, end', after, begins, ends, .step rest taken, outcome⟩

/-- One worker runs a Preemptible job until it is preempted. -/
def preemption : List Event :=
  [.register (sampleRegistration "w1") 100, .submit (sampleSubmission 1 .preemptible 1 "sh") 2,
    .schedule { now := 100 }, .preempt 1]

/-- The preempted job is dispatched once more and killed by its second dispatch. -/
theorem preempted_job_survives_redispatch : ∃ preempted final,
    Reach Leader.Fresh TimelyStep preempted ∧ preempted.ctx.state.hasStatus 1 .pending ∧
    Reach (· = preempted) TimelyStep final ∧ ¬ final.ctx.state.alive 1 ∧
    ∃ before event after, TimelyStep before event after ∧ before.ctx.state.alive 1 ∧ ¬ after.ctx.state.alive 1 ∧
      ((∃ caller now, event = .cancel caller 1 now) ∨
        ∃ dispatch, event.Outcome before 1 dispatch ∧ preempted.history.dispatches 1 < dispatch) := by
  let allowed (leader : Leader) (event : Event) : Prop := event.Genuine leader ∧ event.Timely leader
  let later : List Event := [.schedule { now := 200 }, .jobKilled ⟨"w1", 1, 2⟩ 300]
  obtain ⟨preempted, ran⟩ : ∃ leader, runLabels Leader.apply preemption { ctx := sampleLeader } = some leader :=
    Option.isSome_iff_exists.mp (by decide +kernel)
  have first : AllowedRun allowed Leader.apply preemption { ctx := sampleLeader } := by decide +kernel
  have whole : ((runLabels Leader.apply preemption { ctx := sampleLeader }).bind fun leader =>
      (runLabels Leader.apply later leader).map fun final =>
        ((leader.ctx.state.jobs.get? 1).map JobInfo.status, (final.ctx.state.jobs.get? 1).isNone,
          decide (AllowedRun allowed Leader.apply later leader))) = some (some .pending, true, true) := by
    decide +kernel
  rw [ran, Option.bind_some] at whole
  obtain ⟨final, ends, facts⟩ := Option.map_eq_some_iff.mp whole
  simp only [Prod.mk.injEq, decide_eq_true_eq] at facts
  obtain ⟨status, missing, second⟩ := facts
  have waits : preempted.ctx.state.hasStatus 1 .pending := Option.map_eq_some_iff.mp status
  have reached : Reach Leader.Fresh TimelyStep preempted :=
    runLabels_reach (.start Leader.sampleLeader_fresh) first ran
  have run : Reach (· = preempted) TimelyStep final := runLabels_reach (.start rfl) second ends
  have gone : ¬ final.ctx.state.alive 1 := by
    intro ⟨job, found, _⟩
    rw [found] at missing
    cases missing
  obtain ⟨before, event, after, _, taken, _, outcome⟩ :=
    (preempted_job_survives reached waits run).resolve_left gone
  exact ⟨preempted, final, reached, waits, run, gone, before, event, after, taken, outcome⟩

def Message.preempted? : Message → Option JobId
  | .preemptJob jobId => some jobId
  | _ => none

theorem Message.preempted?_eq_some {msg : Message} {jobId : JobId} :
    msg.preempted? = some jobId ↔ msg = .preemptJob jobId := by
  cases msg <;> simp [preempted?]

/-- The worker's reply to PreemptJob removes the job that is back in the queue. -/
theorem jobKilled_removes_preempted_job : ∃ preempted event next,
    Reach Leader.Fresh GenuineStep preempted ∧ preempted.ctx.state.hasStatus 1 .pending ∧
    preempted.ctx.state.outbox.getLast? = some ("w1", .preemptJob 1) ∧
    event = .jobKilled ⟨"w1", 1, 1⟩ 300 ∧ GenuineStep preempted event next ∧ next.ctx.state.jobs.get? 1 = none ∧
    ¬ ((∃ caller now, event = .cancel caller 1 now) ∨
      ∃ dispatch, event.Outcome preempted 1 dispatch ∧ preempted.history.dispatches 1 < dispatch) := by
  have genuine : AllowedRun (fun leader event => event.Genuine leader) Leader.apply preemption
      { ctx := sampleLeader } := by decide +kernel
  have facts : (runLabels Leader.apply preemption { ctx := sampleLeader }).map (fun leader =>
      ((leader.ctx.state.jobs.get? 1).map JobInfo.status, leader.history.dispatches 1,
        decide (Report.Sent leader ⟨"w1", 1, 1⟩),
        decide (leader.ctx.state.outbox.getLast?.map (fun entry => (entry.1, entry.2.preempted?)) =
          some ("w1", some 1)))) = some (some .pending, 1, true, true) := by decide +kernel
  obtain ⟨preempted, reached, _, facts⟩ := exists_reach Leader.sampleLeader_fresh genuine facts
  rw [Prod.mk.injEq, Prod.mk.injEq, Prod.mk.injEq, decide_eq_true_eq, decide_eq_true_eq] at facts
  obtain ⟨status, once, sent, told⟩ := facts
  refine ⟨preempted, _, _, reached, Option.map_eq_some_iff.mp status, ?_, rfl, ⟨?_, rfl⟩, ?_, ?_⟩
  · obtain ⟨⟨workerId, msg⟩, last, about⟩ := Option.map_eq_some_iff.mp told
    simp only [Prod.mk.injEq, Message.preempted?_eq_some] at about
    rw [last, about.1, about.2]
  · exact sent
  · exact (jobKilled_retires preempted.ctx 1 300).gone
  · rintro (⟨caller, now, same⟩ | ⟨dispatch, outcome, later⟩)
    · cases same
    · cases outcome with
      | reported final about =>
        cases final
        rw [once] at later
        exact Nat.lt_irrefl 1 later

end Veloce
