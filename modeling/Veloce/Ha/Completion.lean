import Mathlib.Data.List.Perm.Subperm
import Veloce.Ha.Course
import Veloce.Lifecycle.Completion
import Veloce.Lifecycle.Stops

/-! Completion of multi-node jobs across restarts and takeovers. Who was sent a job and who is
done is known to the leader that dispatched it only: neither the state file nor a StateSync has
it. A new leader waits for all assigned workers of a Running job, from none of which it has
heard. -/

namespace Veloce

open Collections

/-- The sections of a JobDone handler that goes on. -/
def Event.finishes : Event → Bool
  | .mergeDone _ | .finishDone .. => true
  | _ => false

/-- The handlers under way take the job out of the table. -/
def Leader.Finalises (leader : Leader) (jobId : JobId) : Prop :=
  ∃ events next, (∀ event ∈ events, event.finishes = true) ∧ runLabels Leader.apply events leader = some next ∧
    next.ctx.state.jobs.get? jobId = none

/-- The leader waits for the workers that were sent the job and are not counted yet, besides
those that are; and when all have reported, the job is finalised. -/
structure Controller.Completes (controller : Controller) (history : History) (jobId : JobId) (job : JobInfo) :
    Prop where
  expected : controller.state.multinodeJobTracking.expectedDoneWorkers jobId job =
    ((history.sentTo jobId (history.current jobId)).filter
      (· ∉ controller.state.multinodeJobTracking.doneSet jobId)).length +
        (controller.state.multinodeJobTracking.doneSet jobId).len
  finalised : history.AllReported jobId → (controller.leader history).Finalises jobId

/-- What a new leader makes of the Running jobs of its table is what the run remembers: the
workers it waits for are those that were sent the current dispatch, it has counted those that
have reported, and another one has still to report. -/
def MultinodeJobTracking.Fits (tracking : MultinodeJobTracking) (history : History) (jobs : HashMap JobId JobInfo) :
    Prop :=
  ∀ entry ∈ jobs.toList, entry.2.status = .running →
    ((tracking.dispatchedWorkers.get? entry.1).getD entry.2.assignedWorkers).Perm
      (history.sentTo entry.1 (history.current entry.1)) ∧
    (∀ workerId ∈ (tracking.doneSet entry.1).elems, workerId ∈ history.doneBy entry.1 (history.current entry.1)) ∧
    (∀ workerId ∈ history.doneBy entry.1 (history.current entry.1), workerId ∈ tracking.doneSet entry.1) ∧
    ∃ workerId ∈ history.sentTo entry.1 (history.current entry.1),
      workerId ∉ history.doneBy entry.1 (history.current entry.1)

namespace Cluster

def SoleLeader (cluster : Cluster) (id : String) (controller : Controller) : Prop :=
  controller.leads = true ∧
    ∀ other ∈ cluster.controllers.keys, other ≠ id → ∀ rival ∈ cluster.controllers.get? other, rival.leads = false

/-- Passes and reports are those of the only leader. A pass reaches every connected worker and
finds no mark of the jobs it may start; a report on a Running job is about its current dispatch;
a job that a worker says it started is Running; and who takes over makes of its Running jobs
what the run remembers. -/
def Completing (cluster : Cluster) (id : String) (controller : Controller) : ControllerEvent → Prop
  | .act (.schedule _) => cluster.SoleLeader id controller ∧
      (∀ workerId ∈ controller.state.workers.keys, controller.state.isConnected workerId = true →
        controller.state.routable workerId = true) ∧
      ∀ jobId ∈ controller.state.queue, controller.state.unmarked jobId = true
  | .act (.jobDone report _) => cluster.SoleLeader id controller ∧ report.Sent (controller.leader cluster.history) ∧
      (controller.state.isRunning report.jobId = true → report.dispatch = cluster.history.current report.jobId)
  | .act (.jobStarted report) => ∀ job ∈ controller.state.jobs.get? report.jobId, job.status = .running
  | .promote _ => controller.state.multinodeJobTracking.Fits cluster.history controller.state.jobs
  | .receive _ _ _ _ (.stateSync newState) => controller.leads = true →
      controller.state.multinodeJobTracking.Fits cluster.history newState.jobs
  | .restart file standalone _ _ => standalone = true →
      MultinodeJobTracking.Fits {} cluster.history ((file.map PersistedState.jobs).getD ∅)
  | _ => True

def CompletingStep (cluster : Cluster) (event : ClusterEvent) (next : Cluster) : Prop :=
  cluster.Meets cluster.Completing event ∧ cluster.apply event = some next

end Cluster

/-- The tracking of a Running job against what the run remembers. -/
structure CountedAt (tracking : MultinodeJobTracking) (finishing : Prop) (history : History) (jobId : JobId)
    (assigned : List WorkerId) : Prop where
  sent : history.sentTo jobId (history.current jobId) ≠ []
  targets : ((tracking.dispatchedWorkers.get? jobId).getD assigned).Perm (history.sentTo jobId (history.current jobId))
  marked : ∀ workerId, workerId ∈ tracking.doneSet jobId ↔ workerId ∈ history.doneBy jobId (history.current jobId)
  finishing : history.AllReported jobId → finishing

/-- Who reported was sent the dispatch. -/
structure History.Coherent (history : History) : Prop where
  distinct : ∀ jobId number, (history.sentTo jobId number).Nodup
  reported : ∀ jobId number, ∀ workerId ∈ history.doneBy jobId number,
    number ≤ history.dispatches jobId ∧ workerId ∈ history.sentTo jobId number

namespace CountedAt

variable {tracking tracking' : MultinodeJobTracking} {finishing finishing' : Prop} {history history' : History}
variable {jobId : JobId} {assigned : List WorkerId}

theorem same (valid : CountedAt tracking finishing history jobId assigned)
    (recorded : tracking'.dispatchedWorkers.get? jobId = tracking.dispatchedWorkers.get? jobId)
    (marks : tracking'.doneSet jobId = tracking.doneSet jobId)
    (dispatches : history'.dispatches jobId = history.dispatches jobId)
    (sentTo : history'.sentTo jobId = history.sentTo jobId) (doneBy : history'.doneBy jobId = history.doneBy jobId)
    (busy : finishing → finishing') : CountedAt tracking' finishing' history' jobId assigned := by
  refine ⟨?_, ?_, fun workerId => ?_, fun all => ?_⟩
  · rw [History.current, dispatches, sentTo]
    exact valid.sent
  · rw [recorded, History.current, dispatches, sentTo]
    exact valid.targets
  · rw [marks, History.current, dispatches, doneBy]
    exact valid.marked workerId
  · rw [History.AllReported, History.current, dispatches, sentTo, doneBy] at all
    exact busy (valid.finishing all)

theorem expected (valid : CountedAt tracking finishing history jobId assigned) {job : JobInfo}
    (workers : job.assignedWorkers = assigned) :
    tracking.expectedDoneWorkers jobId job = (history.sentTo jobId (history.current jobId)).length := by
  have size := valid.targets.length_eq
  unfold MultinodeJobTracking.expectedDoneWorkers
  cases recorded : tracking.dispatchedWorkers.get? jobId with
  | some targets =>
    rw [recorded, Option.getD_some] at size
    exact size
  | none =>
    rw [recorded, Option.getD_none] at size
    have positive := List.length_pos_of_ne_nil valid.sent
    rw [workers, size]
    dsimp only
    omega

end CountedAt

section Handlers

/-- A handler that has something to finalise does so by its own sections. -/
theorem finalises_of_finishing {leader : Leader} {jobId : JobId} {job : JobInfo}
    (found : leader.ctx.state.jobs.get? jobId = some job) (busy : leader.finishing jobId) : leader.Finalises jobId := by
  obtain ⟨task, member, about⟩ := busy
  obtain ⟨index, stands⟩ := List.mem_iff_getElem?.mp member
  have finish (leader : Leader) (report : Report) (exitCode : Int) (logFiles : HashMap WorkerId WorkerLogFiles)
      (about : report.jobId = jobId) (stands : leader.tasks[index]? = some (.finishing report exitCode logFiles)) :
      ∃ next, leader.apply (.finishDone index none none 0) = some next ∧ next.ctx.state.jobs.get? jobId = none := by
    refine ⟨_, Leader.apply_finishDone stands none none 0, ?_⟩
    rw [← about]
    exact (jobDoneFinish_retires _ _ _ _ _ _ _).gone
  cases task with
  | finishing report exitCode logFiles =>
    obtain ⟨next, applied, gone⟩ := finish leader report exitCode logFiles about stands
    refine ⟨[.finishDone index none none 0], next, by simp [Event.finishes], ?_, gone⟩
    rw [runLabels_cons, applied]
    rfl
  | merging report exitCode =>
    have about : report.jobId = jobId := about
    have snapshot : leader.ctx.jobDoneSnapshot report.jobId =
        some (leader.ctx.state.multinodeJobTracking.workerLogFiles.getD report.jobId ∅) := by
      rw [ControllerContext.jobDoneSnapshot, about, found]
    let merged : Leader := { leader with tasks := leader.tasks.set index (.finishing report exitCode
      (leader.ctx.state.multinodeJobTracking.workerLogFiles.getD report.jobId ∅)) }
    have merges : leader.apply (.mergeDone index) = some merged := by
      simp only [Leader.apply, stands, snapshot, merged]
    have bound : index < leader.tasks.length := (List.getElem?_eq_some_iff.mp stands).choose
    obtain ⟨next, applied, gone⟩ := finish merged report exitCode _ about (List.getElem?_set_self bound)
    refine ⟨[.mergeDone index, .finishDone index none none 0], next, by simp [Event.finishes], ?_, gone⟩
    rw [runLabels_cons, merges, Option.bind_some, runLabels_cons, applied]
    rfl

/-- A handler that leaves the list was about a job that leaves the table. -/
theorem finishing_eraseIdx {tasks : List DoneTask} {index : Nat} {gone task : DoneTask} {jobId : JobId}
    (stands : tasks[index]? = some gone) (other : gone.report.jobId ≠ jobId) (member : task ∈ tasks)
    (about : task.report.jobId = jobId) : ∃ task ∈ tasks.eraseIdx index, task.report.jobId = jobId := by
  obtain ⟨bound, same⟩ := List.getElem?_eq_some_iff.mp stands
  have split := (List.getElem_cons_eraseIdx_perm bound).mem_iff.mpr member
  rcases List.mem_cons.mp split with here | later
  · refine absurd ?_ other
    rw [← same, ← here]
    exact about
  · exact ⟨task, later, about⟩

/-- The handler of a job in the table stays under way. -/
theorem apply_finishing {leader next : Leader} {event : Event} (taken : leader.apply event = some next) {jobId : JobId}
    {job : JobInfo} (found : next.ctx.state.jobs.get? jobId = some job) (busy : leader.finishing jobId) :
    next.finishing jobId := by
  obtain ⟨task, member, about⟩ := busy
  cases event with
  | schedule input =>
    obtain ⟨state, _, same⟩ := Option.map_eq_some_iff.mp taken
    subst same
    exact ⟨task, member, about⟩
  | jobDone report exitCode =>
    rw [Leader.apply_jobDone] at taken
    cases taken
    refine ⟨task, ?_, about⟩
    dsimp only
    split
    · exact List.mem_append_left _ member
    · exact member
  | mergeDone index =>
    obtain ⟨report, exitCode, stands, ⟨logFiles, same⟩ | ⟨missing, same⟩⟩ := Leader.mergeDone_cases taken
    · subst same
      obtain ⟨place, there⟩ := List.mem_iff_getElem?.mp member
      by_cases here : index = place
      · subst here
        rw [stands] at there
        cases there
        have bound : index < leader.tasks.length := (List.getElem?_eq_some_iff.mp stands).choose
        refine ⟨.finishing report exitCode logFiles, ?_, about⟩
        exact List.mem_iff_getElem?.mpr ⟨index, List.getElem?_set_self bound⟩
      · exact ⟨task, List.mem_iff_getElem?.mpr ⟨place, (List.getElem?_set_ne here).trans there⟩, about⟩
    · subst same
      refine finishing_eraseIdx stands (fun own => ?_) member about
      have own : report.jobId = jobId := own
      have present : leader.ctx.state.jobs.get? jobId = some job := found
      simp [ControllerContext.jobDoneSnapshot, own, present] at missing
  | finishDone index stdoutId stderrId now =>
    obtain ⟨report, exitCode, logFiles, stands, same⟩ := Leader.finishDone_cases taken
    subst same
    refine finishing_eraseIdx stands (fun own => ?_) member about
    have own : report.jobId = jobId := own
    have gone : (leader.ctx.jobDoneFinish report.jobId exitCode logFiles stdoutId stderrId now).state.jobs.get?
        report.jobId = none := (jobDoneFinish_retires _ _ _ _ _ _ _).gone
    rw [own] at gone
    rw [own] at found
    cases gone.symm.trans found
  | cancel caller target now =>
    rcases Leader.cancel_cases taken with ⟨ctx, _, same⟩ | same
    · subst same
      exact ⟨task, member, about⟩
    · subst same
      exact ⟨task, member, about⟩
  | _ => cases taken; exact ⟨task, member, about⟩

end Handlers

/-- The events that may change who leads, who was sent a job or who is done. -/
def ControllerEvent.recounts : ControllerEvent → Bool
  | .act (.schedule _) | .act (.jobDone ..) | .promote _
  | .receive _ _ _ _ (.stateSync _) | .restart .. => true
  | _ => false

section Quiet

variable {controller next : Controller} {id : String} {sent : Posted} {history history' : History}

theorem serve_tracking {event : DeskEvent} (taken : controller.serve event = some next) :
    next.state.multinodeJobTracking = controller.state.multinodeJobTracking ∧ next.tasks = controller.tasks := by
  obtain ⟨⟨state, desk⟩, applied, same⟩ := Option.map_eq_some_iff.mp taken
  subst same
  have tracking : state.multinodeJobTracking = controller.state.multinodeJobTracking := by
    rw [(deskMove applied).frame]
  exact ⟨tracking, rfl⟩

theorem receive_tracking {source peerHost : String} {order : IterOrder Unit} {now : Nat} {msg : PeerMessage}
    (other : ∀ newState, msg ≠ .stateSync newState) :
    (controller.receive id source peerHost order now msg).1.state.multinodeJobTracking =
        controller.state.multinodeJobTracking ∧
      (controller.receive id source peerHost order now msg).1.tasks = controller.tasks := by
  cases msg with
  | heartbeat leaderId =>
    refine ⟨?_, rfl⟩
    simp only [Controller.receive, GlobalState.receiveHeartbeat]
    split
    · rfl
    · split
      · split <;> rfl
      · rfl
  | stateSync newState => exact absurd rfl (other newState)
  | registerWorker notice =>
    refine ⟨?_, rfl⟩
    simp only [Controller.receive, GlobalState.registerGatewayWorker]
    split <;> rfl
  | deregisterWorker workerId =>
    refine ⟨?_, rfl⟩
    simp only [Controller.receive, GlobalState.deregisterWorker]
    split <;> rfl
  | batchWorkerHeartbeats updates =>
    simp only [Controller.receive]
    split
    · refine ⟨?_, rfl⟩
      rw [Controller.state, gatewayHeartbeats_frame]
      rfl
    · exact ⟨rfl, rfl⟩

/-- What the events that recount nothing keep of a Running job. -/
structure KeepsCounts (controller next : Controller) (history history' : History) : Prop where
  dispatches : history'.dispatches = history.dispatches
  sentTo : history'.sentTo = history.sentTo
  doneBy : history'.doneBy = history.doneBy
  tracking : ∀ jobId job, next.state.jobs.get? jobId = some job →
    next.state.multinodeJobTracking.dispatchedWorkers.get? jobId =
        controller.state.multinodeJobTracking.dispatchedWorkers.get? jobId ∧
      next.state.multinodeJobTracking.doneSet jobId = controller.state.multinodeJobTracking.doneSet jobId
  tasks : ∀ jobId job, next.state.jobs.get? jobId = some job → (controller.leader history).finishing jobId →
    (next.leader history').finishing jobId

theorem keepsCounts_same (tracking : next.state.multinodeJobTracking = controller.state.multinodeJobTracking)
    (tasks : next.tasks = controller.tasks) : KeepsCounts controller next history history where
  dispatches := rfl
  sentTo := rfl
  doneBy := rfl
  tracking jobId job _ := by rw [tracking]; exact ⟨rfl, rfl⟩
  tasks jobId job _ busy := by
    obtain ⟨task, member, about⟩ := busy
    have member' : task ∈ next.tasks := by
      rw [tasks]
      exact member
    exact ⟨task, member', about⟩

theorem keepsCounts_act {event : Event} (taken : controller.act event history = some (next, sent, history'))
    (quiet : (ControllerEvent.act event).recounts = false) : KeepsCounts controller next history history' := by
  obtain ⟨after, applied, _, ⟨ctx, tasks, _, rfl⟩, _⟩ := act_cases taken
  have noPass (input : PassInput) : event ≠ .schedule input := by
    rintro rfl
    cases quiet
  have noReport (report : Report) (exitCode : Int) : event ≠ .jobDone report exitCode := by
    rintro rfl
    cases quiet
  have state : next.state = after.ctx.state := congrArg ControllerContext.state ctx
  have kept := apply_history applied noPass noReport
  refine ⟨?_, ?_, ?_, fun jobId job found => ?_, fun jobId job found busy => ?_⟩
  · rw [kept]
    rfl
  · rw [kept]
    rfl
  · rw [kept]
    rfl
  · rw [state] at found ⊢
    rcases apply_tracking applied noPass noReport with same | ⟨gone, cleaned, missing⟩
    · rw [same]
      exact ⟨rfl, rfl⟩
    · have different : jobId ≠ gone := by
        rintro rfl
        rw [missing] at found
        cases found
      rw [cleaned, MultinodeJobTracking.cleanup_doneSet, if_neg different]
      refine ⟨?_, rfl⟩
      simp only [MultinodeJobTracking.cleanupJobTracking, HashMap.get?_remove, different, ↓reduceIte]
      rfl
  · rw [state] at found
    obtain ⟨task, member, about⟩ := apply_finishing applied found busy
    have member' : task ∈ next.tasks := by
      rw [tasks]
      exact member
    exact ⟨task, member', about⟩

theorem keepsCounts_hear (heard : HeardPulse) : KeepsCounts controller (controller.hear heard).1 history history := by
  unfold Controller.hear
  split
  · refine keepsCounts_same ?_ rfl
    rw [Controller.state, directHeartbeat_frame]
    rfl
  · exact keepsCounts_same rfl rfl

theorem step_keepsCounts {event : ControllerEvent}
    (taken : controller.step id event history = some (next, sent, history')) (quiet : event.recounts = false) :
    KeepsCounts controller next history history' := by
  cases event with
  | act event => exact keepsCounts_act taken quiet
  | desk event =>
    obtain ⟨served, applied, same⟩ := Option.map_eq_some_iff.mp taken
    cases same
    obtain ⟨tracking, tasks⟩ := serve_tracking applied
    exact keepsCounts_same tracking tasks
  | hear heard =>
    cases taken
    exact keepsCounts_hear heard
  | drain | reserve | syncActiveState | connect | hangUp =>
    cases taken
    exact keepsCounts_same rfl rfl
  | beat peerId =>
    obtain ⟨_, same⟩ := Option.ite_none_right_eq_some.mp taken
    cases same
    exact keepsCounts_same rfl rfl
  | receive source peerHost order now msg =>
    cases taken
    have other (newState : PersistedState) : msg ≠ .stateSync newState := by
      rintro rfl
      cases quiet
    obtain ⟨tracking, tasks⟩ := receive_tracking other
    exact keepsCounts_same tracking tasks
  | promote | restart => cases quiet

def WasRunning (jobs jobs' : HashMap JobId JobInfo) : Prop := ∀ jobId job', jobs'.get? jobId = some job' →
  job'.status = .running → ∃ job, jobs.get? jobId = some job ∧ job.status = .running ∧
    job.assignedWorkers = job'.assignedWorkers

theorem wasRunning_refl (jobs : HashMap JobId JobInfo) : WasRunning jobs jobs := by
  intro jobId job found running
  exact ⟨job, found, running, rfl⟩

theorem WasRunning.wanes {jobs jobs' : HashMap JobId JobInfo} (wanes : Wanes jobs jobs') : WasRunning jobs jobs' := by
  intro jobId job' found running
  obtain ⟨job, before, same⟩ := (wanes jobId).running found running
  exact ⟨job, before, (congrArg (·.1) same).symm.trans running, (congrArg (·.2.1) same).symm⟩

theorem WasRunning.stirs {state state' : GlobalState} (stirs : Stirs state state') :
    WasRunning state.jobs state'.jobs := by
  induction stirs with
  | refl => exact wasRunning_refl _
  | @tail middle after _ stir before =>
    intro jobId job' found running
    obtain ⟨job, between, runs, workers⟩ : ∃ job, middle.jobs.get? jobId = some job ∧ job.status = .running ∧
        job.assignedWorkers = job'.assignedWorkers := by
      cases stir with
      | shift shift => exact WasRunning.wanes shift.wanes jobId job' found running
      | refresh _ jobs => exact ⟨job', jobs ▸ found, running, rfl⟩
    obtain ⟨first, found', runs', workers'⟩ := before jobId job between runs
    exact ⟨first, found', runs', workers'.trans workers⟩

theorem WasRunning.checkTimeouts (order : IterOrder ControllerContext.TimeoutSite) (ctx : ControllerContext)
    (now : Nat) :
    WasRunning ctx.state.jobs (ControllerContext.checkTimeouts order ctx now).state.jobs := by
  have removal (middle : ControllerContext) {after : ControllerContext} {failed : JobId}
      (before : WasRunning ctx.state.jobs middle.state.jobs) (retires : Retires middle.state after.state failed) :
      WasRunning ctx.state.jobs after.state.jobs := by
    intro jobId job' found running
    rw [retires.get? jobId] at found
    split at found
    · cases found
    · exact before jobId job' found running
  refine ControllerContext.checkTimeouts_invariant (fun _ after => WasRunning ctx.state.jobs after.state.jobs)
    (fun _ => wasRunning_refl _) (wasRunning_refl _) ?_ ?_ ?_
  · intro middle failed rest before
    exact removal middle before (timeoutJob_retires middle failed now)
  · intro middle workerId before
    exact before
  · intro middle failed rest before
    exact removal middle before (failOrphan_retires middle failed now)

theorem course_running {event : ControllerEvent} {state' : GlobalState} (course : Course controller event state')
    (quiet : event.recounts = false)
    (confirms : ∀ report, event = .act (.jobStarted report) →
      ∀ job ∈ controller.state.jobs.get? report.jobId, job.status = .running) :
    (state'.role = .leader → controller.leads = true) ∧ WasRunning controller.state.jobs state'.jobs := by
  cases course with
  | quiet stirs role => exact ⟨fun leads => Controller.leads_iff.mpr (role ▸ leads), WasRunning.stirs stirs⟩
  | registered _ _ jobs role =>
    exact ⟨fun leads => Controller.leads_iff.mpr (role ▸ leads), jobs ▸ wasRunning_refl _⟩
  | expired order now =>
    refine ⟨fun leads => Controller.leads_iff.mpr ?_, WasRunning.checkTimeouts order controller.ctx now⟩
    rw [← leads]
    exact (congrArg Prod.fst (checkTimeouts_standing order controller.ctx now)).symm
  | followed _ jobs role =>
    refine ⟨fun leads => ?_, jobs ▸ wasRunning_refl _⟩
    rw [role] at leads
    cases leads
  | deregistered _ _ _ _ _ lead => exact ⟨fun _ => lead, wasRunning_refl _⟩
  | claimed report =>
    refine ⟨fun leads => Controller.leads_iff.mpr leads, fun jobId job' found running => ?_⟩
    obtain ⟨job, before, _, workers, _, same | ⟨_, own⟩⟩ := jobStarted_record found
    · exact ⟨job, before, same ▸ running, workers.symm⟩
    · exact ⟨job, before, confirms report rfl job (own ▸ before), workers.symm⟩
  | scheduled | promoted | synced | restarted => cases quiet

end Quiet

def Controller.Counted (controller : Controller) (history : History) : Prop :=
  controller.leads = true → ∀ jobId job, controller.state.jobs.get? jobId = some job → job.status = .running →
    CountedAt controller.state.multinodeJobTracking ((controller.leader history).finishing jobId) history jobId
      job.assignedWorkers

section Recounts

variable {controller next : Controller} {id : String} {sent : Posted} {history history' : History}

theorem Controller.Counted.quiet (valid : controller.Counted history) {event : ControllerEvent}
    (taken : controller.step id event history = some (next, sent, history')) (quiet : event.recounts = false)
    (confirms : ∀ report, event = .act (.jobStarted report) →
      ∀ job ∈ controller.state.jobs.get? report.jobId, job.status = .running) : next.Counted history' := by
  intro leads jobId job' found running
  have keeps := step_keepsCounts taken quiet
  obtain ⟨led, was⟩ := course_running (step_course taken) quiet confirms
  obtain ⟨job, before, runs, workers⟩ := was jobId job' found running
  obtain ⟨recorded, marks⟩ := keeps.tracking jobId job' found
  rw [← workers]
  refine (valid (led (Controller.leads_iff.mp leads)) jobId job before runs).same recorded marks ?_ ?_ ?_
    (keeps.tasks jobId job' found)
  · rw [keeps.dispatches]
  · rw [keeps.sentTo]
  · rw [keeps.doneBy]

/-- A controller that takes over what the run remembers. -/
theorem MultinodeJobTracking.Fits.counted {tracking : MultinodeJobTracking} {jobs : HashMap JobId JobInfo}
    (fits : tracking.Fits history jobs) {jobId : JobId} {job : JobInfo} (found : jobs.get? jobId = some job)
    (running : job.status = .running) (finishing : Prop) :
    CountedAt tracking finishing history jobId job.assignedWorkers := by
  obtain ⟨targets, marks, reports, workerId, sent, unreported⟩ := fits (jobId, job) (HashMap.mem_toList.mpr found) running
  refine ⟨List.ne_nil_of_mem sent, targets, fun other => ⟨marks other, reports other⟩, fun all => ?_⟩
  exact absurd (all workerId sent) unreported

theorem CountedAt.report {tracking : MultinodeJobTracking} {finishing finishing' : Prop} {report : Report}
    {assigned : List WorkerId} {job : JobInfo} (valid : CountedAt tracking finishing history report.jobId assigned)
    (coherent : history.Coherent) (workers : job.assignedWorkers = assigned)
    (dispatch : report.dispatch = history.current report.jobId)
    (finalizes : (tracking.markWorkerDone report.jobId report.workerId).1.expectedDoneWorkers report.jobId job ≤
      (tracking.markWorkerDone report.jobId report.workerId).2 → finishing') :
    CountedAt (tracking.markWorkerDone report.jobId report.workerId).1 finishing' (history.noteDone report) report.jobId
      assigned := by
  have marks : (tracking.markWorkerDone report.jobId report.workerId).1.doneSet report.jobId =
      (tracking.doneSet report.jobId).insert report.workerId := by
    rw [MultinodeJobTracking.markWorkerDone_doneSet, if_pos rfl]
  have noted : (history.noteDone report).doneBy report.jobId (history.current report.jobId) =
      report.workerId :: history.doneBy report.jobId (history.current report.jobId) := if_pos ⟨rfl, dispatch.symm⟩
  have marked (workerId : WorkerId) : workerId ∈ (tracking.doneSet report.jobId).insert report.workerId ↔
      workerId ∈ report.workerId :: history.doneBy report.jobId (history.current report.jobId) := by
    rw [HashSet.mem_insert, List.mem_cons, valid.marked]
  refine ⟨valid.sent, valid.targets, fun workerId => ?_, fun all => ?_⟩
  · rw [marks]
    refine (marked workerId).trans ?_
    rw [← noted]
    exact Iff.rfl
  · have covered : ∀ workerId ∈ history.sentTo report.jobId (history.current report.jobId),
        workerId ∈ (tracking.doneSet report.jobId).insert report.workerId := by
      intro workerId member
      rw [marked, ← noted]
      exact all workerId member
    refine finalizes ?_
    have expected : (tracking.markWorkerDone report.jobId report.workerId).1.expectedDoneWorkers report.jobId job =
        tracking.expectedDoneWorkers report.jobId job := rfl
    rw [expected, valid.expected workers]
    exact (List.subperm_of_subset (coherent.distinct _ _) covered).length_le

theorem History.Coherent.noteDone (coherent : history.Coherent) {report : Report}
    (bound : report.dispatch ≤ history.dispatches report.jobId)
    (sent : report.workerId ∈ history.sentTo report.jobId report.dispatch) : (history.noteDone report).Coherent where
  distinct := coherent.distinct
  reported jobId number workerId member := by
    simp only [History.noteDone] at member
    split at member
    · rename_i own
      rcases List.mem_cons.mp member with here | old
      · rw [own.1, own.2, here]
        exact ⟨bound, sent⟩
      · exact coherent.reported jobId number workerId old
    · exact coherent.reported jobId number workerId member

theorem Controller.Counted.jobDone (valid : controller.Counted history) (coherent : history.Coherent)
    {report : Report} {exitCode : Int}
    (taken : controller.step id (.act (.jobDone report exitCode)) history = some (next, sent, history'))
    (current : controller.state.isRunning report.jobId = true → report.dispatch = history.current report.jobId) :
    next.Counted history' := by
  have acted : controller.act (.jobDone report exitCode) history = some (next, sent, history') := taken
  obtain ⟨after, applied, made⟩ := Option.bind_eq_some_iff.mp acted
  rw [Leader.apply_jobDone] at applied
  cases applied
  cases made
  intro leads jobId job found running
  replace found : controller.state.jobs.get? jobId = some job := found
  have before := valid leads jobId job found running
  have busy (busy : (controller.leader history).finishing jobId) :
      ∃ task ∈ (if (controller.ctx.jobDoneMark report.workerId report.jobId).2 = true then
        controller.tasks ++ [.merging report exitCode] else controller.tasks), task.report.jobId = jobId := by
    obtain ⟨task, member, about⟩ := busy
    refine ⟨task, ?_, about⟩
    split
    · exact List.mem_append_left _ member
    · exact member
  by_cases own : jobId = report.jobId
  · subst own
    have runs : controller.state.isRunning report.jobId = true := by
      rw [isRunning_of_found found, running]
      rfl
    refine before.report coherent rfl (current runs) fun enough => ?_
    have finalizes : (controller.ctx.jobDoneMark report.workerId report.jobId).2 = true :=
      ControllerContext.jobDoneMark_finalizes.mpr ⟨job, found, running, enough⟩
    refine ⟨.merging report exitCode, ?_, rfl⟩
    simp only [Controller.leader, finalizes, if_true]
    exact List.mem_append_right _ List.mem_cons_self
  · refine before.same rfl ?_ rfl rfl ?_ busy
    · exact (MultinodeJobTracking.markWorkerDone_doneSet _ _ _ _).trans (if_neg own)
    · funext number
      exact if_neg fun both => own both.1

section Turn

variable {input : PassInput} {left : Nat} {pass next : PassState} {turnOf jobId : JobId}

theorem History.Coherent.turn (coherent : history.Coherent) (outcome : TurnOutcome input left pass turnOf next) :
    (history.observeTurn turnOf pass.state next.state).Coherent where
  distinct jobId number := by
    rw [History.observeTurn_sentTo]
    split
    · rename_i started
      obtain ⟨⟨rfl, runs, idle⟩, _⟩ := started
      obtain ⟨job, nodes, starts⟩ := turn_start outcome runs idle
      rw [starts.sent]
      exact (starts.distinct.sublist (dispatchTargets_sublist job nodes)).filter _
    · exact coherent.distinct jobId number
  reported jobId number workerId member := by
    rw [History.observeTurn_doneBy] at member
    obtain ⟨bound, sent⟩ := coherent.reported jobId number workerId member
    constructor
    · rw [History.observeTurn_dispatches]
      split <;> omega
    · rw [History.observeTurn_sentTo, if_neg fun new => by omega]
      exact sent

theorem CountedAt.start {finishing : Prop} {workers : List WorkerId} (coherent : history.Coherent)
    (reaches : Reaches pass.state) (outcome : TurnOutcome input left pass turnOf next)
    (unmarked : pass.state.unmarked turnOf = true) (runs : next.state.isRunning turnOf = true)
    (idle : pass.state.isRunning turnOf = false) :
    CountedAt next.state.multinodeJobTracking finishing (history.observeTurn turnOf pass.state next.state) turnOf
      workers := by
  obtain ⟨job, nodes, starts⟩ := turn_start outcome runs idle
  have nonempty := dispatchTargets_ne_nil job starts.nonempty
  have current : (history.observeTurn turnOf pass.state next.state).current turnOf = history.dispatches turnOf + 1 := by
    rw [History.current, History.observeTurn_dispatches, if_pos ⟨rfl, runs, idle⟩]
  have sentTo : (history.observeTurn turnOf pass.state next.state).sentTo turnOf (history.dispatches turnOf + 1) =
      dispatchTargets job nodes := by
    rw [History.observeTurn_sentTo, if_pos ⟨⟨rfl, runs, idle⟩, rfl⟩, starts.reached reaches]
  -- Nobody has reported on a dispatch that has just been sent.
  have silent (workerId : WorkerId) : workerId ∉ history.doneBy turnOf (history.dispatches turnOf + 1) := by
    intro early
    have bound := (coherent.reported turnOf _ workerId early).1
    omega
  refine ⟨?_, ?_, fun workerId => ?_, fun all => ?_⟩
  · rw [current, sentTo]
    exact nonempty
  · rw [current, sentTo, starts.tracked]
    simp only [HashMap.get?_insert_self, Option.getD_some]
    exact .refl _
  · rw [current, History.observeTurn_doneBy, (turn_tracking outcome).doneSet]
    exact iff_of_false (unmarked_iff.mp unmarked workerId) (silent workerId)
  · obtain ⟨head, rest, same⟩ := List.exists_cons_of_ne_nil nonempty
    rw [History.AllReported, current, sentTo, same, History.observeTurn_doneBy] at all
    exact absurd (all head List.mem_cons_self) (silent head)

/-- A turn of a pass in which the job whose turn it is has no marks. -/
theorem CountedAt.turn {finishing : Prop} {job' : JobInfo} (coherent : history.Coherent) (reaches : Reaches pass.state)
    (outcome : TurnOutcome input left pass turnOf next) (unmarked : jobId = turnOf → pass.state.unmarked jobId = true)
    (found' : next.state.jobs.get? jobId = some job') (running' : job'.status = .running)
    (valid : ∀ job, pass.state.jobs.get? jobId = some job → job.status = .running →
      CountedAt pass.state.multinodeJobTracking finishing history jobId job.assignedWorkers) :
    CountedAt next.state.multinodeJobTracking finishing (history.observeTurn turnOf pass.state next.state) jobId
      job'.assignedWorkers := by
  have tracking := turn_tracking outcome
  by_cases started : jobId = turnOf ∧ next.state.isRunning jobId = true ∧ pass.state.isRunning jobId = false
  · obtain ⟨same, runs, idle⟩ := started
    subst same
    exact .start coherent reaches outcome (unmarked rfl) runs idle
  · have move := turn_move outcome jobId
    generalize was : pass.state.jobs.get? jobId = old at move
    rw [found'] at move
    have steady (job : JobInfo) (found : pass.state.jobs.get? jobId = some job) (running : job.status = .running)
        (workers : job.assignedWorkers = job'.assignedWorkers) :
        CountedAt next.state.multinodeJobTracking finishing (history.observeTurn turnOf pass.state next.state) jobId
          job'.assignedWorkers := by
      rw [← workers]
      refine (valid job found running).same (tracking.others jobId started) (tracking.doneSet jobId) ?_ ?_ ?_ id
      · rw [History.observeTurn_dispatches, if_neg started]
      · funext number
        rw [History.observeTurn_sentTo, if_neg fun both => started both.1]
      · rw [History.observeTurn_doneBy]
    cases move with
    | kept same =>
      obtain ⟨job, found, equal⟩ := Option.map_eq_some_iff.mp same.symm
      exact steady job (was.trans found) ((congrArg (·.2.1) equal).trans running') (congrArg (·.2.2.1) equal)
    | evicted _ _ same =>
      have waits : job'.status = .pending := congrArg (·.2.1) same
      rw [running'] at waits
      cases waits
    | started turn pending running _ =>
      refine absurd ⟨turn, ?_, ?_⟩ started
      · rw [isRunning_of_found found', running']
        rfl
      · rw [isRunning_of_found was, pending]
        rfl

end Turn

theorem Controller.Counted.schedule (valid : controller.Counted history) (coherent : history.Coherent)
    {input : PassInput}
    (taken : controller.step id (.act (.schedule input)) history = some (next, sent, history'))
    (reaches : Reaches controller.state)
    (unmarked : ∀ jobId ∈ controller.state.queue, controller.state.unmarked jobId = true) :
    next.Counted history' ∧ history'.Coherent := by
  have acted : controller.act (.schedule input) history = some (next, sent, history') := taken
  obtain ⟨after, applied, made⟩ := Option.bind_eq_some_iff.mp acted
  dsimp only at made
  split at made
  · rename_i leads
    obtain ⟨final, ran, same⟩ := Option.map_eq_some_iff.mp applied
    obtain ⟨pass, turns, equal⟩ := Option.map_eq_some_iff.mp ran
    subst same equal
    cases made
    have order : (pendingOrder input controller.state).Perm controller.state.queue := List.perm_insertionSort _ _
    let Inv (order : List JobId) (pass : PassState) (after : History) : Prop :=
      after.Coherent ∧ Reaches pass.state ∧ (∀ jobId ∈ order, pass.state.unmarked jobId = true) ∧
        ∀ jobId job, pass.state.jobs.get? jobId = some job → job.status = .running →
          CountedAt pass.state.multinodeJobTracking ((controller.leader history).finishing jobId) after jobId
            job.assignedWorkers
    have begins : Inv (pendingOrder input controller.state) { state := passStart input controller.state } history :=
      ⟨coherent, reaches, fun jobId member => unmarked jobId (order.mem_iff.mp member), valid leads⟩
    have ends := passHistory_invariant Inv ?_ _ begins turns
    · exact ⟨fun _ jobId job found running => ends.2.2.2 jobId job found running, ends.1⟩
    · rintro turnOf rest pass next after ⟨coherent, reaches, clear, counted⟩ taken
      have outcome := passTurn_outcome taken
      refine ⟨coherent.turn outcome, reaches.turn outcome, fun jobId member => ?_, fun jobId job found running => ?_⟩
      · rw [(turn_tracking outcome).unmarked]
        exact clear jobId (List.mem_cons_of_mem _ member)
      · refine CountedAt.turn coherent reaches outcome (fun own => ?_) found running (counted jobId)
        rw [own]
        exact clear turnOf List.mem_cons_self
  · cases made

end Recounts

namespace Cluster

structure Counted (cluster : Cluster) : Prop where
  coherent : cluster.history.Coherent
  counted : ∀ id controller, cluster.controllers.get? id = some controller → controller.Counted cluster.history

section Step

variable {cluster : Cluster} {controller next : Controller} {id : String} {sent : Posted} {history' : History}

theorem counted_step {event : ControllerEvent} (valid : controller.Counted cluster.history)
    (coherent : cluster.history.Coherent) (completing : cluster.Completing id controller event)
    (taken : controller.step id event cluster.history = some (next, sent, history')) :
    next.Counted history' ∧ history'.Coherent := by
  cases quiet : event.recounts with
  | false =>
    have confirms (report : Report) (same : event = .act (.jobStarted report)) :
        ∀ job ∈ controller.state.jobs.get? report.jobId, job.status = .running := by
      subst same
      exact completing
    have keeps := step_keepsCounts taken quiet
    refine ⟨valid.quiet taken quiet confirms, ⟨?_, ?_⟩⟩
    · rw [keeps.sentTo]
      exact coherent.distinct
    · rw [keeps.dispatches, keeps.sentTo, keeps.doneBy]
      exact coherent.reported
  | true =>
    cases event with
    | act event =>
      cases event with
      | schedule input =>
        obtain ⟨_, reaches, unmarked⟩ := completing
        refine valid.schedule coherent taken (fun workerId worker found connected => ?_) unmarked
        refine reaches workerId (HashMap.mem_keys.mpr ⟨worker, found⟩) ?_
        rw [GlobalState.isConnected, found]
        exact connected
      | jobDone report exitCode =>
        obtain ⟨_, genuine, current⟩ := completing
        refine ⟨valid.jobDone coherent taken current, ?_⟩
        have acted : controller.act (.jobDone report exitCode) cluster.history = some (next, sent, history') := taken
        obtain ⟨after, applied, made⟩ := Option.bind_eq_some_iff.mp acted
        rw [Leader.apply_jobDone] at applied
        cases applied
        cases made
        exact coherent.noteDone genuine.2.1 genuine.2.2
      | _ => cases quiet
    | promote now =>
      obtain ⟨_, same⟩ := Option.ite_none_right_eq_some.mp taken
      cases same
      exact ⟨fun _ jobId job found running => completing.counted found running _, coherent⟩
    | receive source peerHost order now msg =>
      cases msg with
      | stateSync newState =>
        cases taken
        exact ⟨fun leads jobId job found running => (completing leads).counted found running _, coherent⟩
      | _ => cases quiet
    | restart file standalone maxDbId now =>
      cases taken
      refine ⟨fun leads jobId job found running => ?_, coherent⟩
      have alone : standalone = true := by
        rw [Controller.leads_iff] at leads
        cases standalone with
        | true => rfl
        | false =>
          cases file with
          | none => cases leads
          | some file => cases leads
      have fits := completing alone
      cases file with
      | none => cases found
      | some file => exact fits.counted found running _
    | _ => cases quiet

/-- The steps that change who was sent a job or who reported are those of the only leader. -/
theorem counted_others {event : ControllerEvent} {other : String} {rival : Controller} (different : other ≠ id)
    (present : cluster.controllers.get? other = some rival) (valid : rival.Counted cluster.history)
    (completing : cluster.Completing id controller event)
    (taken : controller.step id event cluster.history = some (next, sent, history')) : rival.Counted history' := by
  have follows (sole : cluster.SoleLeader id controller) : rival.Counted history' := by
    intro leads
    rw [sole.2 other (HashMap.mem_keys.mpr ⟨rival, present⟩) different rival present] at leads
    cases leads
  have same (dispatches : history'.dispatches = cluster.history.dispatches)
      (sentTo : history'.sentTo = cluster.history.sentTo) (doneBy : history'.doneBy = cluster.history.doneBy) :
      rival.Counted history' := by
    intro leads jobId job found running
    refine (valid leads jobId job found running).same rfl rfl ?_ ?_ ?_ fun busy => busy
    · rw [dispatches]
    · rw [sentTo]
    · rw [doneBy]
  cases quiet : event.recounts with
  | false =>
    have keeps := step_keepsCounts taken quiet
    exact same keeps.dispatches keeps.sentTo keeps.doneBy
  | true =>
    cases event with
    | act event =>
      cases event with
      | schedule input => exact follows completing.1
      | jobDone report exitCode => exact follows completing.1
      | _ => cases quiet
    | promote now =>
      simp only [Controller.step] at taken
      split at taken
      · cases taken
        exact same rfl rfl rfl
      · cases taken
    | receive => cases taken; exact same rfl rfl rfl
    | restart => cases taken; exact same rfl rfl rfl
    | _ => cases quiet

end Step

theorem Fresh.counted {cluster : Cluster} (fresh : cluster.Fresh) : cluster.Counted where
  coherent := by
    rw [fresh.history]
    exact ⟨fun _ _ => List.nodup_nil, fun _ _ _ member => absurd member List.not_mem_nil⟩
  counted id controller found _ jobId job present := by
    rw [(fresh.controllers id controller found).jobs] at present
    cases present

theorem Counted.step {cluster next : Cluster} {event : ClusterEvent} (valid : cluster.Counted)
    (taken : CompletingStep cluster event next) : next.Counted := by
  obtain ⟨meets, applied⟩ := taken
  rcases apply_cases applied with
    ⟨same, _, history⟩ | ⟨id, cevent, wire, controller, after, sent, resolved, found, stepped, same, _⟩
  · refine ⟨history ▸ valid.coherent, fun id controller found => ?_⟩
    rw [same] at found
    rw [history]
    exact valid.counted id controller found
  · rw [Meets, resolved] at meets
    have completing := meets controller found
    obtain ⟨counted, coherent⟩ := counted_step (valid.counted id controller found) valid.coherent completing stepped
    refine ⟨coherent, fun other rival present => ?_⟩
    rw [same, HashMap.get?_insert] at present
    split at present
    · cases present
      exact counted
    · rename_i different
      exact counted_others different present (valid.counted other rival present) completing stepped

end Cluster

/-- In every run of any number of controllers, with restarts and takeovers, whose steps meet the
condition, every leader waits for as many workers of a Running job as were sent it in its current
dispatch; and when all of these have reported, the job is finalised. -/
theorem completion_is_never_missed {cluster : Cluster} (reached : Reach Cluster.Fresh Cluster.CompletingStep cluster)
    {id : String} {controller : Controller} (present : cluster.controllers.get? id = some controller)
    (leads : controller.leads = true) {jobId : JobId} {job : JobInfo}
    (found : controller.state.jobs.get? jobId = some job) (running : job.status = .running) :
    controller.Completes cluster.history jobId job := by
  have valid := reached.invariant Cluster.Counted (fun _ => Cluster.Fresh.counted) fun _ _ _ => Cluster.Counted.step
  have counted := valid.counted id controller present leads jobId job found running
  refine ⟨?_, fun all => finalises_of_finishing found (counted.finishing all)⟩
  rw [counted.expected rfl]
  refine (HashSet.length_filter_notMem_add_len (valid.coherent.distinct _ _) fun workerId member => ?_).symm
  exact (valid.coherent.reported _ _ workerId ((counted.marked workerId).mp member)).2

section Sample

/-- Reports are on what was sent. -/
def ControllerEvent.Genuine (history : History) (controller : Controller) : ControllerEvent → Prop
  | .act event => event.Genuine (controller.leader history)
  | _ => True

instance ControllerEvent.decidableGenuine (history : History) (controller : Controller) :
    (event : ControllerEvent) → Decidable (event.Genuine history controller)
  | .act event => inferInstanceAs (Decidable (event.Genuine (controller.leader history)))
  | .desk _ | .hear _ | .drain _ | .reserve _ | .syncActiveState | .connect _ | .hangUp _ | .beat _ | .promote _
  | .receive .. | .restart .. => isTrue trivial

instance (tracking : MultinodeJobTracking) (history : History) (jobs : HashMap JobId JobInfo) :
    Decidable (tracking.Fits history jobs) :=
  inferInstanceAs (Decidable (∀ entry ∈ _, _ → _ ∧ (∀ workerId ∈ _, _) ∧ (∀ workerId ∈ _, _) ∧ ∃ workerId ∈ _, _))

instance (cluster : Cluster) (id : String) (controller : Controller) : Decidable (cluster.SoleLeader id controller) :=
  inferInstanceAs (Decidable (_ ∧ ∀ other ∈ _, _ → ∀ rival ∈ _, _))

instance (leader : Leader) (report : Report) : Decidable (report.Sent leader) := inferInstanceAs (Decidable (_ ∧ _ ∧ _))

instance (history : History) (jobId : JobId) : Decidable (history.AllReported jobId) :=
  inferInstanceAs (Decidable (∀ workerId ∈ _, _))

instance Cluster.decidableCompleting (cluster : Cluster) (id : String) (controller : Controller) :
    (event : ControllerEvent) → Decidable (cluster.Completing id controller event)
  | .act (.schedule _) => inferInstanceAs (Decidable (_ ∧ (∀ workerId ∈ _, _ → _) ∧ ∀ jobId ∈ _, _))
  | .act (.jobDone _ _) => inferInstanceAs (Decidable (_ ∧ _ ∧ (_ → _)))
  | .act (.jobStarted _) => inferInstanceAs (Decidable (∀ job ∈ _, _))
  | .promote _ => inferInstanceAs (Decidable (MultinodeJobTracking.Fits _ _ _))
  | .receive _ _ _ _ (.stateSync _) => inferInstanceAs (Decidable (_ → MultinodeJobTracking.Fits _ _ _))
  | .restart _ _ _ _ => inferInstanceAs (Decidable (_ → MultinodeJobTracking.Fits _ _ _))
  | .act (.submit ..) | .act (.register ..) | .act (.endWriter ..) | .act (.disconnect ..) | .act (.preempt _) | .act (.reconcile ..)
  | .act (.mergeDone _) | .act (.finishDone ..) | .act (.jobError ..) | .act (.jobKilled ..) | .act (.cancel ..)
  | .act (.checkTimeouts ..) | .act (.prune ..) | .desk _ | .hear _ | .drain _ | .reserve _ | .syncActiveState
  | .connect _ | .hangUp _ | .beat _ | .receive _ _ _ _ (.heartbeat _) | .receive _ _ _ _ (.registerWorker _)
  | .receive _ _ _ _ (.deregisterWorker _) | .receive _ _ _ _ (.batchWorkerHeartbeats _) => isTrue trivial

/-- A job on two nodes is dispatched, and the leader restarts from its state file. -/
def restartRun (binary : String) : List ClusterEvent :=
  [.on "a" (.act (.register (sampleRegistration "w1") 10)), .on "a" (.act (.register (sampleRegistration "w2") 10))] ++
    (sampleRequest (.submit { binary := binary, reqNodes := 2, reqCores := 4, reqMemory := 100 })).map
      (fun event => .on "a" (.desk event)) ++
    [.on "a" (.act (.schedule { now := 100 })), .restart "a" "a" true 0 200,
      .on "a" (.act (.register (sampleRegistration "w1") 210)), .on "a" (.act (.register (sampleRegistration "w2") 210))]

/-- Both workers report to the leader that restarted before, and the job is finalised. -/
theorem completion_is_never_missed_restart : ∃ cluster controller job,
    Reach Cluster.Fresh Cluster.CompletingStep cluster ∧ cluster.controllers.get? "a" = some controller ∧
    controller.leads = true ∧ controller.state.jobs.get? 1 = some job ∧ job.status = .running ∧
    cluster.history.AllReported 1 ∧ controller.Completes cluster.history 1 job ∧
    (controller.leader cluster.history).Finalises 1 := by
  let events : List ClusterEvent := restartRun "sh" ++
    [.on "a" (.act (.jobDone ⟨"w1", 1, 1⟩ 0)), .on "a" (.act (.jobDone ⟨"w2", 1, 1⟩ 0))]
  have allowed : AllowedRun (fun cluster event => cluster.Meets cluster.Completing event) Cluster.apply events
      sampleCluster := by decide +kernel
  have facts : (runLabels Cluster.apply events sampleCluster).bind (fun cluster =>
      (cluster.controllers.get? "a").bind fun controller => (controller.state.jobs.get? 1).map fun job =>
        decide (controller.leads = true ∧ job.status = .running ∧ cluster.history.AllReported 1)) = some true := by
    decide +kernel
  obtain ⟨cluster, reached, _, facts⟩ := exists_reach_of_bind sampleCluster_fresh allowed facts
  obtain ⟨controller, present, facts⟩ := Option.bind_eq_some_iff.mp facts
  obtain ⟨job, found, facts⟩ := Option.map_eq_some_iff.mp facts
  obtain ⟨leads, running, reported⟩ := of_decide_eq_true facts
  have completes := completion_is_never_missed reached present leads found running
  exact ⟨cluster, controller, job, reached, present, leads, found, running, reported, completes,
    completes.finalised reported⟩

/-- Without a handler under way the job stays. -/
theorem not_finalises {leader : Leader} {jobId : JobId} {job : JobInfo}
    (found : leader.ctx.state.jobs.get? jobId = some job) (idle : leader.tasks = []) : ¬ leader.Finalises jobId := by
  rintro ⟨events, next, finishes, ran, gone⟩
  cases events with
  | nil =>
    cases ran
    rw [found] at gone
    cases gone
  | cons event rest =>
    have stuck : leader.apply event = none := by
      have ends := finishes event List.mem_cons_self
      cases event with
      | mergeDone index => simp only [Leader.apply, idle, List.getElem?_nil]
      | finishDone index stdoutId stderrId now => simp only [Leader.apply, idle, List.getElem?_nil]
      | _ => cases ends
    rw [runLabels_cons, stuck] at ran
    cases ran

/-- The head node of an MPI job is the only one that was sent it. After a restart the leader
waits for both assigned workers, and the report of the head node does not finalise the job. -/
theorem restart_misses_completion : ∃ cluster controller job,
    Reach Cluster.Fresh (fun cluster event next => cluster.Meets (fun _ controller cevent =>
      cevent.Genuine cluster.history controller) event ∧ cluster.apply event = some next) cluster ∧
    cluster.controllers.get? "a" = some controller ∧ controller.leads = true ∧
    controller.state.jobs.get? 1 = some job ∧ job.status = .running ∧
    cluster.history.sentTo 1 (cluster.history.current 1) = ["w2"] ∧ cluster.history.AllReported 1 ∧
    controller.state.multinodeJobTracking.expectedDoneWorkers 1 job = 2 ∧
    ¬ (controller.leader cluster.history).Finalises 1 ∧ ¬ controller.Completes cluster.history 1 job := by
  let events : List ClusterEvent := restartRun "mpirun" ++ [.on "a" (.act (.jobDone ⟨"w2", 1, 1⟩ 0))]
  have genuine : AllowedRun (fun cluster event => cluster.Meets (fun _ controller cevent =>
      cevent.Genuine cluster.history controller) event) Cluster.apply events sampleCluster := by decide +kernel
  have facts : (runLabels Cluster.apply events sampleCluster).bind (fun cluster =>
      (cluster.controllers.get? "a").bind fun controller => (controller.state.jobs.get? 1).map fun job =>
        decide (controller.leads = true ∧ job.status = .running ∧
          cluster.history.sentTo 1 (cluster.history.current 1) = ["w2"] ∧ cluster.history.AllReported 1 ∧
          controller.state.multinodeJobTracking.expectedDoneWorkers 1 job = 2 ∧ controller.tasks.isEmpty)) = some true := by
    decide +kernel
  obtain ⟨cluster, reached, _, facts⟩ := exists_reach_of_bind sampleCluster_fresh genuine facts
  obtain ⟨controller, present, facts⟩ := Option.bind_eq_some_iff.mp facts
  obtain ⟨job, found, facts⟩ := Option.map_eq_some_iff.mp facts
  obtain ⟨leads, running, sent, reported, expected, idle⟩ := of_decide_eq_true facts
  have stays : ¬ (controller.leader cluster.history).Finalises 1 := not_finalises found (List.isEmpty_iff.mp idle)
  exact ⟨cluster, controller, job, reached, present, leads, found,
    running, sent, reported, expected, stays, fun completes => stays (completes.finalised reported)⟩

end Sample

end Veloce
