import Veloce.Lifecycle.Completion

/-! The exit code of a multi-node job. -/

namespace Veloce

open Collections

/-- A Running job whose dispatched workers have all yet to report. -/
structure Awaiting (leader : Leader) (jobId : JobId) (job : JobInfo) (targets : List WorkerId) : Prop where
  found : leader.ctx.state.jobs.get? jobId = some job
  running : job.status = .running
  recorded : leader.ctx.state.multinodeJobTracking.dispatchedWorkers.get? jobId = some targets
  distinct : targets.Nodup
  unmarked : leader.ctx.state.unmarked jobId = true

def jobDones (jobId : JobId) (dispatch : Nat) (reports : List (WorkerId × Int)) : List Event :=
  reports.map fun report => .jobDone ⟨report.1, jobId, dispatch⟩ report.2

def lastSections (leader : Leader) (stdoutId stderrId : Option String) (now : Nat) : List Event :=
  [.mergeDone leader.tasks.length, .finishDone leader.tasks.length stdoutId stderrId now]

theorem jobDoneFinish_recorded {ctx : ControllerContext} {jobId : JobId} {job : JobInfo}
    (found : ctx.state.jobs.get? jobId = some job) (exitCode : Int) (logFiles : HashMap WorkerId WorkerLogFiles)
    (stdoutId stderrId : Option String) (now : Nat) :
    ∃ usage, (ctx.jobDoneFinish jobId exitCode logFiles stdoutId stderrId now).recorded = ctx.recorded ++ [usage] ∧
      usage.jobId = job.id ∧ usage.status = .completed exitCode := by
  let logged : ControllerContext := { ctx with state := { ctx.state with
    jobs := ctx.state.jobs.modify jobId (ctx.loggedJob jobId logFiles stdoutId stderrId) } }
  have stored : logged.state.jobs.get? jobId = some (ctx.loggedJob jobId logFiles stdoutId stderrId job) := by
    simp only [logged, HashMap.get?_modify, ↓reduceIte, found, Option.map_some]
  refine ⟨jobToUsage ((ctx.loggedJob jobId logFiles stdoutId stderrId job).finalized (.completed exitCode) now),
    (retire_recorded logged jobId (.completed exitCode) now).trans ?_, rfl, rfl⟩
  rw [stored]
  rfl

section Reports

variable {jobId : JobId} {job : JobInfo} {targets : List WorkerId}

/-- A worker that has not reported yet adds one to the marks; the handler goes on if
it is the last one. -/
theorem jobDoneMark_last {ctx : ControllerContext} {workerId : WorkerId}
    (found : ctx.state.jobs.get? jobId = some job) (running : job.status = .running)
    (recorded : ctx.state.multinodeJobTracking.dispatchedWorkers.get? jobId = some targets)
    (fresh : workerId ∉ ctx.state.multinodeJobTracking.doneSet jobId) :
    (ctx.jobDoneMark workerId jobId).2 = true ↔
      targets.length ≤ (ctx.state.multinodeJobTracking.doneSet jobId).len + 1 := by
  have expected : (ctx.state.multinodeJobTracking.markWorkerDone jobId workerId).1.expectedDoneWorkers jobId job =
      targets.length := by
    have kept : (ctx.state.multinodeJobTracking.markWorkerDone jobId workerId).1.dispatchedWorkers.get? jobId =
      some targets := recorded
    rw [MultinodeJobTracking.expectedDoneWorkers, kept]
  have count : (ctx.state.multinodeJobTracking.markWorkerDone jobId workerId).2 =
      (ctx.state.multinodeJobTracking.doneSet jobId).len + 1 := HashSet.len_insert fresh
  rw [ControllerContext.jobDoneMark_finalizes]
  constructor
  · rintro ⟨job', found', _, enough⟩
    cases found.symm.trans found'
    rwa [expected, count] at enough
  · intro enough
    exact ⟨job, found, running, by rwa [expected, count]⟩

/-- Besides the marks and the handlers under way, JobDone changes no data of the job. -/
theorem jobDone_step (leader : Leader) (report : Report) (exitCode : Int) :
    ∃ next, leader.apply (.jobDone report exitCode) = some next ∧
      next.ctx.state.jobs = leader.ctx.state.jobs ∧ next.ctx.recorded = leader.ctx.recorded ∧
      next.ctx.state.multinodeJobTracking.dispatchedWorkers = leader.ctx.state.multinodeJobTracking.dispatchedWorkers ∧
      next.ctx.state.multinodeJobTracking.doneSet report.jobId =
        (leader.ctx.state.multinodeJobTracking.doneSet report.jobId).insert report.workerId ∧
      next.tasks = if (leader.ctx.jobDoneMark report.workerId report.jobId).2 then
        leader.tasks ++ [.merging report exitCode] else leader.tasks := by
  refine ⟨_, leader.apply_jobDone report exitCode, rfl, rfl, rfl, ?_, rfl⟩
  simp only [MultinodeJobTracking.markWorkerDone_doneSet, ↓reduceIte]

/-- The reports of the workers that are still missing, in any order, end with the
handler of the last one under way. -/
theorem jobDones_run (dispatch : Nat) : ∀ (reports : List (WorkerId × Int)) (leader : Leader) (last : WorkerId × Int),
    leader.ctx.state.jobs.get? jobId = some job → job.status = .running →
    leader.ctx.state.multinodeJobTracking.dispatchedWorkers.get? jobId = some targets →
    ((reports ++ [last]).map Prod.fst).Nodup →
    (∀ report ∈ reports ++ [last], report.1 ∉ leader.ctx.state.multinodeJobTracking.doneSet jobId) →
    (leader.ctx.state.multinodeJobTracking.doneSet jobId).len + (reports ++ [last]).length = targets.length →
    ∃ final, runLabels Leader.apply (jobDones jobId dispatch (reports ++ [last])) leader = some final ∧
      final.ctx.state.jobs = leader.ctx.state.jobs ∧ final.ctx.recorded = leader.ctx.recorded ∧
      final.tasks = leader.tasks ++ [.merging ⟨last.1, jobId, dispatch⟩ last.2] := by
  intro reports
  induction reports with
  | nil =>
    intro leader last found running recorded _ fresh whole
    have goes := (jobDoneMark_last found running recorded (fresh last (by simp))).mpr (by simp at whole; omega)
    obtain ⟨next, taken, jobs, records, _, _, tasks⟩ := jobDone_step leader ⟨last.1, jobId, dispatch⟩ last.2
    refine ⟨next, ?_, jobs, records, tasks.trans (if_pos goes)⟩
    simp only [jobDones, List.nil_append, List.map_cons, List.map_nil, runLabels, taken]
  | cons report rest ih =>
    intro leader last found running recorded distinct fresh whole
    have new := fresh report (by simp)
    have waits : ¬ (leader.ctx.jobDoneMark report.1 jobId).2 = true := by
      intro goes
      have enough := (jobDoneMark_last found running recorded new).mp goes
      simp at whole
      omega
    rw [List.cons_append, List.map_cons, List.nodup_cons] at distinct
    obtain ⟨next, taken, jobs, records, targets', marks, tasks⟩ :=
      jobDone_step leader ⟨report.1, jobId, dispatch⟩ report.2
    rw [if_neg waits] at tasks
    have unreported (other : WorkerId × Int) (member : other ∈ rest ++ [last]) :
        other.1 ∉ next.ctx.state.multinodeJobTracking.doneSet jobId := by
      rw [marks, HashSet.mem_insert]
      rintro (same | old)
      · have equal : other.1 = report.1 := same
        exact distinct.1 (equal ▸ List.mem_map_of_mem member)
      · exact fresh other (List.mem_cons_of_mem _ member) old
    have remaining : (next.ctx.state.multinodeJobTracking.doneSet jobId).len + (rest ++ [last]).length =
        targets.length := by
      rw [marks, HashSet.len_insert new]
      simp only [List.cons_append, List.length_cons] at whole
      omega
    obtain ⟨final, ran, jobs', records', tasks'⟩ := ih next last (by rw [jobs]; exact found) running
      (by rw [targets']; exact recorded) distinct.2 unreported remaining
    refine ⟨final, ?_, jobs'.trans jobs, records'.trans records, by rw [tasks', tasks]⟩
    simp only [jobDones, List.cons_append, List.map_cons, runLabels, taken]
    exact ran

theorem reports_complete {leader : Leader} (awaits : Awaiting leader jobId job targets)
    (dispatch : Nat) (reports : List (WorkerId × Int)) (last : WorkerId × Int)
    (order : ((reports ++ [last]).map Prod.fst).Perm targets) (stdoutId stderrId : Option String) (now : Nat) :
    ∃ final usage, runLabels Leader.apply (jobDones jobId dispatch (reports ++ [last]) ++
        lastSections leader stdoutId stderrId now) leader = some final ∧
      final.ctx.state.jobs.get? jobId = none ∧ final.ctx.recorded = leader.ctx.recorded ++ [usage] ∧
      usage.jobId = job.id ∧ usage.status = .completed last.2 := by
  have none := unmarked_iff.mp awaits.unmarked
  have empty : (leader.ctx.state.multinodeJobTracking.doneSet jobId).len = 0 :=
    List.length_eq_zero_iff.mpr (List.eq_nil_iff_forall_not_mem.mpr none)
  obtain ⟨marked, ran, jobs, records, tasks⟩ := jobDones_run dispatch reports leader last awaits.found
    awaits.running awaits.recorded (order.nodup_iff.mpr awaits.distinct) (fun report _ => none report.1)
    (by rw [empty, Nat.zero_add, ← order.length_eq, List.length_map])
  have found : marked.ctx.state.jobs.get? jobId = some job := by
    rw [jobs]
    exact awaits.found
  have handler : marked.tasks[leader.tasks.length]? = some (.merging ⟨last.1, jobId, dispatch⟩ last.2) := by
    rw [tasks, List.getElem?_concat_length]
  obtain ⟨logFiles, snapshot⟩ : ∃ logFiles, marked.ctx.jobDoneSnapshot jobId = some logFiles := by
    rw [ControllerContext.jobDoneSnapshot, found]
    exact ⟨_, rfl⟩
  let merged : Leader := { marked with
    tasks := marked.tasks.set leader.tasks.length (.finishing ⟨last.1, jobId, dispatch⟩ last.2 logFiles) }
  have merges : marked.apply (.mergeDone leader.tasks.length) = some merged := by
    simp only [Leader.apply, handler, snapshot, merged]
  have within : leader.tasks.length < marked.tasks.length := by simp [tasks]
  have finishes : merged.tasks[leader.tasks.length]? =
      some (.finishing ⟨last.1, jobId, dispatch⟩ last.2 logFiles) := by
    simp only [merged, List.getElem?_set_self within]
  obtain ⟨usage, appended, about, status⟩ :=
    jobDoneFinish_recorded found last.2 logFiles stdoutId stderrId now
  let final : Leader := { merged with
    ctx := marked.ctx.jobDoneFinish jobId last.2 logFiles stdoutId stderrId now
    tasks := merged.tasks.eraseIdx leader.tasks.length }
  have ends : merged.apply (.finishDone leader.tasks.length stdoutId stderrId now) = some final :=
    Leader.apply_finishDone finishes stdoutId stderrId now
  refine ⟨final, usage, ?_, ?_, appended.trans (by rw [records]), about, status⟩
  · rw [runLabels_append, ran, Option.bind_some]
    simp only [lastSections, runLabels, merges, ends]
  · exact (jobDoneFinish_retires marked.ctx jobId now last.2 logFiles stdoutId stderrId).gone

/-- Over every assignment of exit codes to the dispatched workers and every order of
their reports, the job is completed with code 0 exactly when all workers report 0, if
and only if the last report is not 0 or all are. -/
theorem completed_zero_iff {leader : Leader} (awaits : Awaiting leader jobId job targets)
    (dispatch : Nat) (reports : List (WorkerId × Int)) (last : WorkerId × Int)
    (order : ((reports ++ [last]).map Prod.fst).Perm targets) (stdoutId stderrId : Option String) (now : Nat) :
    ∃ final usage, runLabels Leader.apply (jobDones jobId dispatch (reports ++ [last]) ++
        lastSections leader stdoutId stderrId now) leader = some final ∧
      final.ctx.state.jobs.get? jobId = none ∧ final.ctx.recorded = leader.ctx.recorded ++ [usage] ∧
      usage.jobId = job.id ∧
      ((usage.status = .completed 0 ↔ ∀ report ∈ reports ++ [last], report.2 = 0) ↔
        (last.2 = 0 → ∀ report ∈ reports, report.2 = 0)) := by
  obtain ⟨final, usage, ran, gone, records, about, status⟩ :=
    reports_complete awaits dispatch reports last order stdoutId stderrId now
  refine ⟨final, usage, ran, gone, records, about, ?_⟩
  rw [status, JobStatus.completed.injEq]
  constructor
  · intro faithful zero report member
    exact faithful.mp zero report (List.mem_append_left _ member)
  · intro agrees
    constructor
    · intro zero report member
      rcases List.mem_append.mp member with early | late
      · exact agrees zero report early
      · rw [List.mem_singleton] at late
        rw [late]
        exact zero
    · intro all
      exact all last (by simp)

end Reports

theorem awaiting_twoNodes : ∃ leader job, runLabels Leader.apply twoNodes { ctx := sampleLeader } = some leader ∧
    Awaiting leader 1 job ["w2", "w1"] := by
  obtain ⟨leader, ran⟩ : ∃ leader, runLabels Leader.apply twoNodes { ctx := sampleLeader } = some leader :=
    Option.isSome_iff_exists.mp (by decide +kernel)
  have facts : (runLabels Leader.apply twoNodes { ctx := sampleLeader }).map (fun leader =>
      ((leader.ctx.state.jobs.get? 1).map JobInfo.status,
        leader.ctx.state.multinodeJobTracking.dispatchedWorkers.get? 1, leader.ctx.state.unmarked 1)) =
      some (some .running, some ["w2", "w1"], true) := by decide +kernel
  rw [ran, Option.map_some, Option.some.injEq, Prod.mk.injEq, Prod.mk.injEq] at facts
  obtain ⟨status, recorded, unmarked⟩ := facts
  obtain ⟨job, found, running⟩ := Option.map_eq_some_iff.mp status
  exact ⟨leader, job, ran, found, running, recorded, by decide, unmarked⟩

theorem completed_zero_iff_success : ∃ leader final usage,
    runLabels Leader.apply twoNodes { ctx := sampleLeader } = some leader ∧
    runLabels Leader.apply (jobDones 1 1 [("w2", 0), ("w1", 0)] ++ lastSections leader none none 200) leader =
      some final ∧ final.ctx.recorded = leader.ctx.recorded ++ [usage] ∧
    (usage.status = .completed 0 ↔ ∀ report ∈ [("w2", (0 : Int)), ("w1", 0)], report.2 = 0) := by
  obtain ⟨leader, job, started, awaits⟩ := awaiting_twoNodes
  obtain ⟨final, usage, ran, _, records, _, faithful⟩ :=
    completed_zero_iff awaits 1 [("w2", 0)] ("w1", 0) (by decide) none none 200
  exact ⟨leader, final, usage, started, ran, records, faithful.mpr (by decide)⟩

/-- A node fails, the other one reports last: the job is completed with code 0. -/
theorem completed_zero_despite_failure : ∃ leader final usage,
    runLabels Leader.apply twoNodes { ctx := sampleLeader } = some leader ∧
    runLabels Leader.apply (jobDones 1 1 [("w1", 1), ("w2", 0)] ++ lastSections leader none none 200) leader =
      some final ∧ final.ctx.recorded = leader.ctx.recorded ++ [usage] ∧ usage.status = .completed 0 ∧
    ¬ ∀ report ∈ [("w1", (1 : Int)), ("w2", 0)], report.2 = 0 := by
  obtain ⟨leader, job, started, awaits⟩ := awaiting_twoNodes
  obtain ⟨final, usage, ran, _, records, _, status⟩ :=
    reports_complete awaits 1 [("w1", 1)] ("w2", 0) (by decide) none none 200
  exact ⟨leader, final, usage, started, ran, records, status, by decide⟩

end Veloce
