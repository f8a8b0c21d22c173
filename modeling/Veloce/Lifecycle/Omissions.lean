import Veloce.Lifecycle.HeartbeatPaths

/-! Heartbeats that leave out a Running job. -/

namespace Veloce

open Collections

inductive HeartbeatPath where
  | direct (connectionId : Nat)
  | gateway

structure Heartbeat where
  path : HeartbeatPath := .gateway
  order : IterOrder Unit := .stored
  pulse : Pulse
  idleTimeout : Nat := 600
  now : Nat

namespace Heartbeat

def apply (view : ControllerContext × Telemetry) (beat : Heartbeat) : ControllerContext × Telemetry :=
  match beat.path with
  | .direct connectionId =>
    view.1.directHeartbeat view.2 beat.order beat.pulse connectionId beat.idleTimeout beat.now
  | .gateway => (view.1.gatewayHeartbeat beat.order beat.now beat.pulse, view.2)

def heard (beat : Heartbeat) (workers : HashMap WorkerId WorkerHandle) : Bool :=
  match beat.path with
  | .direct connectionId => (workers.get? beat.pulse.workerId).map WorkerHandle.connectionId = some connectionId
  | .gateway => workers.contains beat.pulse.workerId

section Job

variable (beat : Heartbeat) (ctx : ControllerContext) (jobId : JobId) (job : JobInfo)

/-- A worker of the Running job says that it runs. -/
def lists : Bool :=
  beat.heard ctx.state.workers && job.runsOn beat.pulse.workerId && jobId ∈ beat.pulse.activeJobIds

/-- A worker of the Running job leaves it out, more than five seconds after its start. -/
def omits : Bool :=
  beat.heard ctx.state.workers &&
    ControllerContext.missingFrom job beat.pulse.workerId beat.pulse.activeJobIds jobId beat.now

/-- Since when the job is left out: since the first such heartbeat after the last one of its
workers that lists it. -/
def leftOutSince (beats : List Heartbeat) : Option Nat :=
  beats.foldl (fun since beat =>
    if beat.omits ctx jobId job then some (since.getD beat.now)
    else if beat.lists ctx jobId job then none
    else since) (ctx.missingJobs.get? jobId)

/-- Some heartbeat leaves out the job that has been left out for more than ten seconds. -/
def LeftOutTooLong (beats : List Heartbeat) : Prop :=
  ∃ before late after since, beats = before ++ late :: after ∧ late.omits ctx jobId job = true ∧
    leftOutSince ctx jobId job before = some since ∧ late.now - since > 10

end Job

end Heartbeat

/-- What decides whether a job is reaped. -/
structure Watch where
  status : JobStatus
  assignedWorkers : List WorkerId
  startTime : Option Nat

def JobInfo.watch (job : JobInfo) : Watch := ⟨job.status, job.assignedWorkers, job.startTime⟩

section Watched

open ControllerContext

variable {workerId : WorkerId} {idleTimeout now : Nat}

theorem watch_recordJobStats (view : Telemetry × HashMap JobId JobInfo) (jobStats : List JobStats) (jobId : JobId) :
    ((jobStats.foldl (recordJobStats workerId idleTimeout now) view).2.get? jobId).map JobInfo.watch =
      (view.2.get? jobId).map JobInfo.watch := by
  induction jobStats generalizing view with
  | nil => rfl
  | cons stats rest ih =>
    rw [List.foldl_cons, ih]
    unfold recordJobStats
    dsimp only
    split
    · rfl
    · rw [HashMap.get?_modify]
      split
      · rename_i own
        rw [own, Option.map_map]
        refine congrArg (Option.map · _) (funext fun job => ?_)
        rw [Function.comp_apply, JobInfo.withIdleness_eq, JobInfo.degradeQos_eq]
        rfl
      · rfl

theorem watch_copyJobStats (jobs : HashMap JobId JobInfo) (jobStats : List JobStats) (jobId : JobId) :
    ((jobStats.foldl copyJobStats jobs).get? jobId).map JobInfo.watch = (jobs.get? jobId).map JobInfo.watch := by
  rw [copyJobStats_foldl, Option.map_map]
  refine congrArg (Option.map · _) (funext fun job => ?_)
  rw [Function.comp_apply]
  cases (jobStats.filter (·.jobId = jobId)).getLast? <;> rfl

/-- A heartbeat that is heard changes of a job's record what the reaping changes, and numbers
that the reaping does not read. -/
theorem apply_heard (view : ControllerContext × Telemetry) {beat : Heartbeat} (jobId : JobId)
    (heard : beat.heard view.1.state.workers = true) :
    ((beat.apply view).1.state.jobs.get? jobId).map JobInfo.watch =
        ((view.1.hearWorker beat.order beat.pulse beat.now).state.jobs.get? jobId).map JobInfo.watch ∧
      (beat.apply view).1.missingJobs = (view.1.hearWorker beat.order beat.pulse beat.now).missingJobs ∧
      (beat.apply view).1.state.workers = (view.1.hearWorker beat.order beat.pulse beat.now).state.workers := by
  unfold Heartbeat.heard at heard
  unfold Heartbeat.apply
  cases path : beat.path with
  | direct connectionId =>
    rw [path] at heard
    dsimp only at heard ⊢
    rw [directHeartbeat, if_pos (of_decide_eq_true heard)]
    exact ⟨watch_recordJobStats _ _ jobId, rfl, rfl⟩
  | gateway =>
    rw [path] at heard
    dsimp only at heard ⊢
    rw [gatewayHeartbeat, if_pos heard]
    exact ⟨watch_copyJobStats _ _ jobId, rfl, rfl⟩

theorem apply_unheard (view : ControllerContext × Telemetry) {beat : Heartbeat}
    (unheard : beat.heard view.1.state.workers = false) : (beat.apply view).1 = view.1 := by
  unfold Heartbeat.heard at unheard
  unfold Heartbeat.apply
  cases path : beat.path with
  | direct connectionId =>
    rw [path] at unheard
    dsimp only at unheard ⊢
    rw [directHeartbeat, if_neg (of_decide_eq_false unheard)]
  | gateway =>
    rw [path] at unheard
    dsimp only at unheard ⊢
    rw [gatewayHeartbeat, if_neg (by simp [unheard])]

theorem connection_hearWorker (ctx : ControllerContext) (order : IterOrder Unit) (pulse : Pulse) (now : Nat)
    (workerId : WorkerId) : ((ctx.hearWorker order pulse now).state.workers.get? workerId).map WorkerHandle.connectionId =
      (ctx.state.workers.get? workerId).map WorkerHandle.connectionId := by
  have refreshed : ((ctx.state.refreshWorker pulse now).workers.get? workerId).map WorkerHandle.connectionId =
      (ctx.state.workers.get? workerId).map WorkerHandle.connectionId := by
    rw [GlobalState.refreshWorker, HashMap.get?_modify]
    split
    · rename_i own
      rw [own, Option.map_map]
      rfl
    · rfl
  rw [hearWorker, ← refreshed]
  refine reconcile_invariant order pulse.workerId pulse.activeJobIds
    (fun ctx' => (ctx'.state.workers.get? workerId).map WorkerHandle.connectionId =
      ((ctx.state.refreshWorker pulse now).workers.get? workerId).map WorkerHandle.connectionId) (fun _ => rfl) ?_
  intro ctx' jobId kept
  have links := release_links ctx'.state jobId workerId
  rw [reapJob_state, ← kept]
  have connections := congrArg (Option.map Link.connectionId) links
  rw [Option.map_map, Option.map_map] at connections
  exact connections

theorem connection_apply (view : ControllerContext × Telemetry) (beat : Heartbeat) (workerId : WorkerId) :
    ((beat.apply view).1.state.workers.get? workerId).map WorkerHandle.connectionId =
      (view.1.state.workers.get? workerId).map WorkerHandle.connectionId := by
  cases heard : beat.heard view.1.state.workers with
  | true =>
    rw [(apply_heard view 0 heard).2.2]
    exact connection_hearWorker view.1 beat.order beat.pulse beat.now workerId
  | false => rw [apply_unheard view heard]

theorem heard_congr {workers workers' : HashMap WorkerId WorkerHandle}
    (same : ∀ workerId, (workers'.get? workerId).map WorkerHandle.connectionId =
      (workers.get? workerId).map WorkerHandle.connectionId) (beat : Heartbeat) :
    beat.heard workers' = beat.heard workers := by
  unfold Heartbeat.heard
  split
  · rw [same]
  · rw [HashMap.contains, HashMap.contains, ← Option.isSome_map (f := WorkerHandle.connectionId), same, Option.isSome_map]

theorem runsOn_congr {job job' : JobInfo} (same : job'.watch = job.watch) (workerId : WorkerId) :
    job'.runsOn workerId = job.runsOn workerId := by
  have status : job'.status = job.status := congrArg Watch.status same
  have workers : job'.assignedWorkers = job.assignedWorkers := congrArg Watch.assignedWorkers same
  rw [JobInfo.runsOn, JobInfo.runsOn, status, workers]

theorem missingFrom_congr {job job' : JobInfo} (same : job'.watch = job.watch) (workerId : WorkerId)
    (active : List JobId) (jobId : JobId) (now : Nat) :
    missingFrom job' workerId active jobId now = missingFrom job workerId active jobId now := by
  have start : job'.startTime = job.startTime := congrArg Watch.startTime same
  rw [missingFrom, missingFrom, runsOn_congr same, start]

/-- A finished job is not reaped again. -/
theorem apply_finished (view : ControllerContext × Telemetry) (beat : Heartbeat) {jobId : JobId} {status : JobStatus}
    (ended : status ≠ .running) (found : (view.1.state.jobs.get? jobId).map JobInfo.status = some status) :
    ((beat.apply view).1.state.jobs.get? jobId).map JobInfo.status = some status := by
  cases heard : beat.heard view.1.state.workers with
  | false =>
    rw [apply_unheard view heard]
    exact found
  | true =>
    obtain ⟨job, record, same⟩ := Option.map_eq_some_iff.mp found
    have kept : ({ view.1 with state := view.1.state.refreshWorker beat.pulse beat.now } : ControllerContext).overdue
        beat.pulse.workerId beat.pulse.activeJobIds beat.now jobId = false := by
      have stopped : job.runsOn beat.pulse.workerId = false := by
        refine decide_eq_false fun runs => ended ?_
        rw [← same, runs.1]
      have record' : (view.1.state.refreshWorker beat.pulse beat.now).jobs.get? jobId = some job := record
      simp [overdue, record', missingFrom, stopped]
    have watched := (apply_heard view jobId heard).1
    rw [hearWorker, (reconcile_spec _ beat.order _ _ _ jobId).1, kept] at watched
    have status' := congrArg (Option.map Watch.status) watched
    rw [Option.map_map, Option.map_map] at status'
    exact status'.trans found

/-- A job that is still Running after these heartbeats. -/
structure StillRuns (ctx : ControllerContext) (jobId : JobId) (job : JobInfo) (beats : List Heartbeat)
    (view : ControllerContext × Telemetry) : Prop where
  watched : (view.1.state.jobs.get? jobId).map JobInfo.watch = some job.watch
  since : view.1.missingJobs.get? jobId = Heartbeat.leftOutSince ctx jobId job beats
  connections : ∀ workerId, (view.1.state.workers.get? workerId).map WorkerHandle.connectionId =
    (ctx.state.workers.get? workerId).map WorkerHandle.connectionId

section Step

variable {ctx : ControllerContext} {jobId : JobId} {job : JobInfo} {beats : List Heartbeat}
variable {view : ControllerContext × Telemetry}

theorem leftOutSince_append (ctx : ControllerContext) (jobId : JobId) (job : JobInfo) (beats : List Heartbeat)
    (beat : Heartbeat) : Heartbeat.leftOutSince ctx jobId job (beats ++ [beat]) =
      if beat.omits ctx jobId job then some ((Heartbeat.leftOutSince ctx jobId job beats).getD beat.now)
      else if beat.lists ctx jobId job then none
      else Heartbeat.leftOutSince ctx jobId job beats := by
  rw [Heartbeat.leftOutSince, List.foldl_append]
  rfl

/-- A heartbeat reaps the job if it leaves it out and has done so for too long; else the time
since when it is left out is kept. -/
theorem StillRuns.apply (still : StillRuns ctx jobId job beats view) (beat : Heartbeat) :
    if beat.omits ctx jobId job = true ∧ beat.now - (Heartbeat.leftOutSince ctx jobId job beats).getD beat.now > 10 then
      ((beat.apply view).1.state.jobs.get? jobId).map JobInfo.status = some (.failed "Process exited or failed to start")
    else StillRuns ctx jobId job (beats ++ [beat]) (beat.apply view) := by
  have connections (workerId : WorkerId) := (connection_apply view beat workerId).trans (still.connections workerId)
  have same := heard_congr still.connections beat
  cases heard : beat.heard ctx.state.workers with
  | false =>
    have unheard : beat.omits ctx jobId job = false ∧ beat.lists ctx jobId job = false := by
      simp [Heartbeat.omits, Heartbeat.lists, heard]
    have kept := apply_unheard view (same.trans heard)
    rw [if_neg (by simp [unheard.1])]
    refine ⟨by rw [kept]; exact still.watched, ?_, connections⟩
    rw [kept, leftOutSince_append, unheard.1, unheard.2]
    exact still.since
  | true =>
    obtain ⟨record, found, watch⟩ := Option.map_eq_some_iff.mp still.watched
    obtain ⟨watched, missing, _⟩ := apply_heard view jobId (same.trans heard)
    have found' : (view.1.state.refreshWorker beat.pulse beat.now).jobs.get? jobId = some record := found
    have since : view.1.missingJobs.getD jobId beat.now = (Heartbeat.leftOutSince ctx jobId job beats).getD beat.now := by
      rw [HashMap.getD, still.since]
    have late : ({ view.1 with state := view.1.state.refreshWorker beat.pulse beat.now } : ControllerContext).overdue
        beat.pulse.workerId beat.pulse.activeJobIds beat.now jobId = true ↔ beat.omits ctx jobId job = true ∧
          beat.now - (Heartbeat.leftOutSince ctx jobId job beats).getD beat.now > 10 := by
      simp only [overdue, found', missingFrom_congr watch, Heartbeat.omits, heard, since, Bool.and_eq_true,
        decide_eq_true_eq, true_and]
    obtain ⟨table, times⟩ := reconcile_spec { view.1 with state := view.1.state.refreshWorker beat.pulse beat.now }
      beat.order beat.pulse.workerId beat.pulse.activeJobIds beat.now jobId
    split
    · rename_i reaped
      rw [hearWorker, table, if_pos (late.mpr reaped), found'] at watched
      have status := congrArg (Option.map Watch.status) watched
      rw [Option.map_map] at status
      exact status
    · rename_i kept
      refine ⟨?_, ?_, connections⟩
      · rw [watched, hearWorker, table, if_neg (late.not.mpr kept), found', Option.map_some, watch]
      · rw [missing, hearWorker, times, if_neg (late.not.mpr kept), found', leftOutSince_append]
        simp only [stillMissing, missingFrom_congr watch, runsOn_congr watch, Heartbeat.omits, Heartbeat.lists, heard,
          still.since, Bool.true_and]

theorem leftOutTooLong_append (beat : Heartbeat) :
    Heartbeat.LeftOutTooLong ctx jobId job (beats ++ [beat]) ↔ Heartbeat.LeftOutTooLong ctx jobId job beats ∨
      beat.omits ctx jobId job = true ∧ beat.now - (Heartbeat.leftOutSince ctx jobId job beats).getD beat.now > 10 := by
  constructor
  · rintro ⟨before, late, after, since, same, omits, known, long⟩
    cases after using List.reverseRecOn with
    | nil =>
      obtain ⟨rfl, equal⟩ := List.append_inj' same rfl
      cases equal
      exact .inr ⟨omits, by rw [known]; exact long⟩
    | append_singleton after last =>
      rw [← List.cons_append, ← List.append_assoc] at same
      obtain ⟨rfl, _⟩ := List.append_inj' same rfl
      exact .inl ⟨before, late, after, since, rfl, omits, known, long⟩
  · rintro (⟨before, late, after, since, same, omits, known, long⟩ | ⟨omits, long⟩)
    · exact ⟨before, late, after ++ [beat], since, by simp [same], omits, known, long⟩
    · cases known : Heartbeat.leftOutSince ctx jobId job beats with
      | none =>
        rw [known] at long
        simp at long
      | some since =>
        rw [known] at long
        exact ⟨beats, beat, [], since, rfl, omits, known, long⟩

end Step

/-- A Running job is reaped in a run of heartbeats, of any workers and over any path, exactly
if one of its workers leaves it out when it has been left out for more than ten seconds,
without a heartbeat in between of one of its workers that lists it. -/
theorem left_out_job_reaped_iff {ctx : ControllerContext} {jobId : JobId} {job : JobInfo}
    (found : ctx.state.jobs.get? jobId = some job) (running : job.status = .running) (telemetry : Telemetry)
    (beats : List Heartbeat) :
    ((beats.foldl (fun view beat => beat.apply view) (ctx, telemetry)).1.state.jobs.get? jobId).map JobInfo.status =
        some (.failed "Process exited or failed to start") ↔ Heartbeat.LeftOutTooLong ctx jobId job beats := by
  have failed : JobStatus.failed "Process exited or failed to start" ≠ .running := by
    intro same
    cases same
  -- Either the job has been reaped, or it still runs and its time is kept.
  have either : Heartbeat.LeftOutTooLong ctx jobId job beats ∧
      ((beats.foldl (fun view beat => beat.apply view) (ctx, telemetry)).1.state.jobs.get? jobId).map JobInfo.status =
        some (.failed "Process exited or failed to start") ∨
      ¬ Heartbeat.LeftOutTooLong ctx jobId job beats ∧
        StillRuns ctx jobId job beats (beats.foldl (fun view beat => beat.apply view) (ctx, telemetry)) := by
    induction beats using List.reverseRecOn with
    | nil =>
      refine .inr ⟨?_, by rw [List.foldl_nil, found]; rfl, rfl, fun _ => rfl⟩
      rintro ⟨before, late, after, _, same, _⟩
      cases before <;> cases same
    | append_singleton beats beat ih =>
      rw [List.foldl_append, List.foldl_cons, List.foldl_nil, leftOutTooLong_append]
      rcases ih with ⟨long, reaped⟩ | ⟨notLong, still⟩
      · exact .inl ⟨.inl long, apply_finished _ beat failed reaped⟩
      · have next := still.apply beat
        split at next
        · rename_i late
          exact .inl ⟨.inr late, next⟩
        · rename_i early
          exact .inr ⟨by simp [notLong, early], next⟩
  rcases either with ⟨long, reaped⟩ | ⟨notLong, still⟩
  · exact ⟨fun _ => long, fun _ => reaped⟩
  · refine ⟨fun reaped => ?_, fun long => absurd long notLong⟩
    obtain ⟨record, present, watch⟩ := Option.map_eq_some_iff.mp still.watched
    rw [present, Option.map_some, show record.status = job.status from congrArg Watch.status watch, running] at reaped
    cases reaped

def pairJob : JobInfo :=
  { id := 1, binary := "sh", reqNodes := 2, reqCores := 1, reqMemory := 1, userId := "user"
    status := .running, assignedWorkers := ["a", "b"], startTime := some 100 }

def pairLeader : ControllerContext where
  state := { (GlobalState.registerWorker {} (sampleRegistration "a") 100).registerWorker (sampleRegistration "b") 100 with
    role := .leader
    jobs := HashMap.insert ∅ 1 pairJob }

def pairBeat (workerId : WorkerId) (now : Nat) (runs : Bool) : Heartbeat where
  pulse :=
    { workerId := workerId
      resources := sampleResources
      jobStats := if runs then [{ memoryStats with jobId := 1 }] else [] }
  now := now

/-- The first worker leaves the job out for eleven seconds; the second one lists it only
before that. -/
theorem left_out_job_reaped_iff_undisturbed :
    (([pairBeat "b" 108 true, pairBeat "a" 110 false, pairBeat "a" 121 false].foldl (fun view beat => beat.apply view)
      (pairLeader, {})).1.state.jobs.get? 1).map JobInfo.status = some (.failed "Process exited or failed to start") := by
  have found : pairLeader.state.jobs.get? 1 = some pairJob := by simp [pairLeader]
  refine (left_out_job_reaped_iff found rfl {} _).mpr
    ⟨[pairBeat "b" 108 true, pairBeat "a" 110 false], pairBeat "a" 121 false, [], 110, rfl, ?_, ?_, ?_⟩
  · decide +kernel
  · decide +kernel
  · decide

/-- The first worker leaves the job out for twenty seconds, and the second one lists it every
few seconds: the job stays Running. -/
theorem listed_elsewhere_never_reaped : ∃ (ctx : ControllerContext) (job : JobInfo) (beats : List Heartbeat),
    ctx.state.jobs.get? 1 = some job ∧ job.status = .running ∧ job.startTime = some 100 ∧
    (∀ beat ∈ beats, beat.pulse.workerId = "a" → beat.omits ctx 1 job = true) ∧
    (∀ beat ∈ beats, beat.pulse.workerId ≠ "a" → beat.lists ctx 1 job = true) ∧
    (beats.filter (·.pulse.workerId = "a")).map Heartbeat.now = [110, 116, 123, 130] ∧
    ((beats.foldl (fun view beat => beat.apply view) (ctx, {})).1.state.jobs.get? 1).map JobInfo.status =
      some .running := by
  refine ⟨pairLeader, pairJob, [pairBeat "a" 110 false, pairBeat "b" 112 true, pairBeat "a" 116 false,
    pairBeat "b" 120 true, pairBeat "a" 123 false, pairBeat "b" 128 true, pairBeat "a" 130 false],
    by simp [pairLeader], rfl, rfl, ?_, ?_, ?_, ?_⟩
  · decide +kernel
  · decide +kernel
  · decide +kernel
  · decide +kernel

end Watched

end Veloce
