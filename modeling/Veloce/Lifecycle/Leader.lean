import Veloce.Collections.Run
import Veloce.Handlers.Client
import Veloce.Handlers.Worker
import Veloce.Scheduler.Queue

/-! One leader as a state machine. An event is one critical section: a client
request, a scheduling pass, a timer, or a section of a worker message handler.
Worker messages arrive in any order, late or repeated. A report names the dispatch
of the job it is about; the handlers never see that number. -/

namespace Veloce

open Collections

structure Report where
  workerId : WorkerId
  jobId : JobId
  /-- Which dispatch of the job the worker reports on, counted from one. -/
  dispatch : Nat
deriving DecidableEq

/-- A JobDone handler between two of its sections. -/
inductive DoneTask where
  | merging (report : Report) (exitCode : Int)
  | finishing (report : Report) (exitCode : Int) (logFiles : HashMap WorkerId WorkerLogFiles)

def DoneTask.report : DoneTask → Report
  | .merging report _ | .finishing report _ _ => report

/-- What the run remembers about the dispatches of every job. -/
structure History where
  /-- How often the job was dispatched. -/
  dispatches : JobId → Nat := fun _ => 0
  /-- How many of these dispatches were over when the job was last preempted. -/
  closed : JobId → Nat := fun _ => 0
  /-- The workers that RunJob was sent to in each dispatch. -/
  sentTo : JobId → Nat → List WorkerId := fun _ _ => []
  /-- The workers whose JobDone for the dispatch was handled. -/
  doneBy : JobId → Nat → List WorkerId := fun _ _ => []
  /-- Every id that was submitted. -/
  used : List JobId := []

structure Leader where
  ctx : ControllerContext
  tasks : List DoneTask := []
  history : History := {}

inductive Event where
  | submit (submission : Submission) (nextJobId : Nat)
  | register (registration : Registration) (now : Nat)
  | endWriter (workerId : WorkerId) (connectionId : Nat)
  | disconnect (workerId : WorkerId) (connectionId now : Nat)
  | schedule (input : PassInput)
  | preempt (jobId : JobId)
  | reconcile (order : IterOrder Unit) (workerId : WorkerId) (active : List JobId) (now : Nat)
  | jobStarted (report : Report)
  | jobDone (report : Report) (exitCode : Int)
  | mergeDone (index : Nat)
  | finishDone (index : Nat) (stdoutId stderrId : Option String) (now : Nat)
  | jobError (report : Report) (error : String) (now : Nat)
  | jobKilled (report : Report) (now : Nat)
  | cancel (caller : Caller) (jobId : JobId) (now : Nat)
  | checkTimeouts (order : IterOrder ControllerContext.TimeoutSite) (now : Nat)
  | prune (retentionSeconds now : Nat)

namespace History

def Open (history : History) (jobId : JobId) : Prop := history.closed jobId < history.dispatches jobId

/-- The dispatches of a job that were preempted end here. -/
def close (history : History) (preempted : JobId → Bool) : History :=
  { history with
    closed := fun jobId => if preempted jobId then history.dispatches jobId else history.closed jobId }

def dispatch (history : History) (jobId : JobId) (sent : List WorkerId) : History :=
  { history with
    dispatches := fun other => if other = jobId then history.dispatches jobId + 1 else history.dispatches other
    sentTo := fun other number =>
      if other = jobId ∧ number = history.dispatches jobId + 1 then sent else history.sentTo other number }

def noteDone (history : History) (report : Report) : History :=
  { history with
    doneBy := fun other number =>
      if other = report.jobId ∧ number = report.dispatch then report.workerId :: history.doneBy other number
      else history.doneBy other number }

end History

def GlobalState.isRunning (state : GlobalState) (jobId : JobId) : Bool :=
  ((state.jobs.get? jobId).map JobInfo.status) = some .running

def stopped (before after : GlobalState) (jobId : JobId) : Bool :=
  before.isRunning jobId && !after.isRunning jobId

/-- The workers to which these messages carry RunJob for the job. -/
def runJobsFor (jobId : JobId) (sent : List (WorkerId × Message)) : List WorkerId :=
  sent.filterMap fun entry =>
    match entry.2 with
    | .runJob order => if order.jobId = jobId then some entry.1 else none
    | _ => none

def sentBetween (before after : GlobalState) (jobId : JobId) : List WorkerId :=
  runJobsFor jobId (after.outbox.drop before.outbox.length)

/-- What one turn of a pass adds to the history. -/
def History.observeTurn (history : History) (jobId : JobId) (before after : GlobalState) : History :=
  let preempted := history.close (stopped before after)
  if after.isRunning jobId && !before.isRunning jobId then
    preempted.dispatch jobId (sentBetween before after jobId)
  else preempted

/-- The history of a whole pass, turn by turn. -/
def passHistory (input : PassInput) : List JobId → PassState → History → History
  | [], _, history => history
  | jobId :: rest, pass, history =>
    match passTurn input rest.length pass jobId with
    | none => history
    | some next => passHistory input rest next (history.observeTurn jobId pass.state next.state)

namespace Leader

def withCtx (leader : Leader) (ctx : ControllerContext) : Leader := { leader with ctx := ctx }

def withState (leader : Leader) (state : GlobalState) : Leader :=
  leader.withCtx { leader.ctx with state := state }

/-- One critical section; `none` if it cannot happen or panics. -/
def apply (event : Event) (leader : Leader) : Option Leader :=
  match event with
  | .submit submission nextJobId =>
    some { leader.withState (leader.ctx.state.acceptSubmission submission nextJobId) with
      history := { leader.history with used := submission.job.id :: leader.history.used } }
  | .register registration now => some (leader.withState (leader.ctx.state.registerWorker registration now))
  | .endWriter workerId connectionId => some (leader.withState (leader.ctx.state.endWriter workerId connectionId))
  | .disconnect workerId connectionId now =>
    some (leader.withState (leader.ctx.state.disconnectWorker workerId connectionId now))
  | .schedule input =>
    (scheduleJobs input leader.ctx.state).map fun state =>
      { leader.withState state with
        history := passHistory input (pendingOrder input leader.ctx.state)
          { state := passStart input leader.ctx.state } leader.history }
  | .preempt jobId =>
    let after := leader.ctx.state.preemptJob jobId
    some { leader.withState after with history := leader.history.close (stopped leader.ctx.state after) }
  | .reconcile order workerId active now =>
    some (leader.withCtx (leader.ctx.reconcileMissingWorkerJobs order workerId active now))
  | .jobStarted report => some (leader.withState (leader.ctx.state.jobStarted report.jobId))
  | .jobDone report exitCode =>
    let (ctx, finalizes) := leader.ctx.jobDoneMark report.workerId report.jobId
    some { ctx := ctx
           tasks := if finalizes then leader.tasks ++ [.merging report exitCode] else leader.tasks
           history := leader.history.noteDone report }
  | .mergeDone index =>
    match leader.tasks[index]? with
    | some (.merging report exitCode) =>
      match leader.ctx.jobDoneSnapshot report.jobId with
      | some logFiles => some { leader with tasks := leader.tasks.set index (.finishing report exitCode logFiles) }
      | none => some { leader with tasks := leader.tasks.eraseIdx index }
    | _ => none
  | .finishDone index stdoutId stderrId now =>
    match leader.tasks[index]? with
    | some (.finishing report exitCode logFiles) =>
      some { leader with
        ctx := leader.ctx.jobDoneFinish report.jobId exitCode logFiles stdoutId stderrId now
        tasks := leader.tasks.eraseIdx index }
    | _ => none
  | .jobError report error now => some (leader.withCtx (leader.ctx.jobError report.jobId error now))
  | .jobKilled report now => some (leader.withCtx (leader.ctx.jobKilled report.jobId now))
  | .cancel caller jobId now =>
    match leader.ctx.cancelJob caller jobId now with
    | .ok ctx => some (leader.withCtx ctx)
    | .error _ => some leader
  | .checkTimeouts order now => some (leader.withCtx (ControllerContext.checkTimeouts order leader.ctx now))
  | .prune retentionSeconds now => some (leader.withCtx (leader.ctx.pruneJobs retentionSeconds now))

theorem apply_jobDone (leader : Leader) (report : Report) (exitCode : Int) :
    leader.apply (.jobDone report exitCode) = some {
      ctx := { leader.ctx.forgetMissing report.jobId with state := { leader.ctx.state with multinodeJobTracking :=
        (leader.ctx.state.multinodeJobTracking.markWorkerDone report.jobId report.workerId).1 } }
      tasks := if (leader.ctx.jobDoneMark report.workerId report.jobId).2 then
        leader.tasks ++ [.merging report exitCode] else leader.tasks
      history := leader.history.noteDone report } := by
  rw [← ControllerContext.jobDoneMark_ctx]
  rfl

theorem apply_finishDone {leader : Leader} {index : Nat} {report : Report} {exitCode : Int}
    {logFiles : HashMap WorkerId WorkerLogFiles} (task : leader.tasks[index]? = some (.finishing report exitCode logFiles))
    (stdoutId stderrId : Option String) (now : Nat) :
    leader.apply (.finishDone index stdoutId stderrId now) = some { leader with
      ctx := leader.ctx.jobDoneFinish report.jobId exitCode logFiles stdoutId stderrId now
      tasks := leader.tasks.eraseIdx index } := by
  simp only [apply, task]

section Inversion

variable {leader next : Leader} {index : Nat}

/-- The second section of a JobDone handler goes on to the third, or finds the job gone. -/
theorem mergeDone_cases (taken : leader.apply (.mergeDone index) = some next) :
    ∃ report exitCode, leader.tasks[index]? = some (.merging report exitCode) ∧
      ((∃ logFiles, next = { leader with tasks := leader.tasks.set index (.finishing report exitCode logFiles) }) ∨
        leader.ctx.jobDoneSnapshot report.jobId = none ∧
          next = { leader with tasks := leader.tasks.eraseIdx index }) := by
  simp only [apply] at taken
  split at taken
  · rename_i report exitCode task
    refine ⟨report, exitCode, task, ?_⟩
    split at taken
    · rename_i logFiles _
      cases taken
      exact .inl ⟨logFiles, rfl⟩
    · rename_i gone
      cases taken
      exact .inr ⟨gone, rfl⟩
  · cases taken

theorem mergeDone_tasks (taken : leader.apply (.mergeDone index) = some next) :
    ∃ tasks, next = { leader with tasks := tasks } := by
  obtain ⟨report, exitCode, _, ⟨logFiles, same⟩ | ⟨_, same⟩⟩ := mergeDone_cases taken
  · exact ⟨_, same⟩
  · exact ⟨_, same⟩

theorem finishDone_cases {stdoutId stderrId : Option String} {now : Nat}
    (taken : leader.apply (.finishDone index stdoutId stderrId now) = some next) :
    ∃ report exitCode logFiles, leader.tasks[index]? = some (.finishing report exitCode logFiles) ∧
      next = { leader with
        ctx := leader.ctx.jobDoneFinish report.jobId exitCode logFiles stdoutId stderrId now
        tasks := leader.tasks.eraseIdx index } := by
  simp only [apply] at taken
  split at taken
  · rename_i report exitCode logFiles task
    cases taken
    exact ⟨report, exitCode, logFiles, task, rfl⟩
  · cases taken

theorem cancel_cases {caller : Caller} {jobId : JobId} {now : Nat}
    (taken : leader.apply (.cancel caller jobId now) = some next) :
    (∃ ctx, leader.ctx.cancelJob caller jobId now = .ok ctx ∧ next = leader.withCtx ctx) ∨ next = leader := by
  simp only [apply] at taken
  split at taken
  · rename_i ctx canceled
    cases taken
    exact .inl ⟨ctx, canceled, rfl⟩
  · cases taken
    exact .inr rfl

def noted : Event → Bool
  | .submit .. | .schedule _ | .preempt _ | .jobDone .. => true
  | _ => false

theorem history_eq {event : Event} (taken : leader.apply event = some next) (silent : noted event = false) :
    next.history = leader.history := by
  cases event with
  | submit _ _ | schedule _ | preempt _ | jobDone _ _ => cases silent
  | mergeDone index =>
    obtain ⟨tasks, same⟩ := mergeDone_tasks taken
    rw [same]
  | finishDone index stdoutId stderrId now =>
    obtain ⟨report, exitCode, logFiles, _, same⟩ := finishDone_cases taken
    rw [same]
  | cancel caller jobId now =>
    rcases cancel_cases taken with ⟨ctx, _, same⟩ | same
    · rw [same]
      rfl
    · rw [same]
  | _ => cases taken; rfl

end Inversion

/-- An event is a pass, or it is none. -/
theorem schedule_or_other {leader next : Leader} {event : Event} (taken : leader.apply event = some next) :
    (∃ input state, event = .schedule input ∧ scheduleJobs input leader.ctx.state = some state ∧
      next = { leader.withState state with
        history := passHistory input (pendingOrder input leader.ctx.state)
          { state := passStart input leader.ctx.state } leader.history }) ∨
      ∀ input, event ≠ .schedule input := by
  by_cases pass : ∃ input, event = .schedule input
  · obtain ⟨input, rfl⟩ := pass
    obtain ⟨state, ran, same⟩ := Option.map_eq_some_iff.mp taken
    exact .inl ⟨input, state, rfl, ran, same.symm⟩
  · exact .inr fun input same => pass ⟨input, same⟩

/-- A leader without workers and jobs that has done nothing yet. -/
structure Fresh (leader : Leader) : Prop where
  role : leader.ctx.state.role = .leader
  workers : leader.ctx.state.workers = ∅
  jobs : leader.ctx.state.jobs = ∅
  tracking : leader.ctx.state.multinodeJobTracking = {}
  counters : leader.ctx.completed = [] ∧ leader.ctx.failed = [] ∧ leader.ctx.recorded = []
  tasks : leader.tasks = []
  history : leader.history = {}

theorem sampleLeader_fresh : Leader.Fresh { ctx := sampleLeader } :=
  ⟨rfl, rfl, rfl, rfl, ⟨rfl, rfl, rfl⟩, rfl, rfl⟩

end Leader

/-- The worker was sent the dispatch that it reports on. -/
def Report.Sent (leader : Leader) (report : Report) : Prop :=
  1 ≤ report.dispatch ∧ report.dispatch ≤ leader.history.dispatches report.jobId ∧
    report.workerId ∈ leader.history.sentTo report.jobId report.dispatch

/-- Submitted ids are new, and a worker reports only on what it was sent. -/
def Event.Genuine (leader : Leader) : Event → Prop
  | .submit submission _ => submission.job.id ∉ leader.history.used
  | .jobStarted report | .jobDone report _ | .jobError report _ _ | .jobKilled report _ => report.Sent leader
  | _ => True

end Veloce
