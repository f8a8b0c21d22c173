import Veloce.Ha.Descent
import Veloce.Scheduler.Starts

/-! The sums of times and durations in a pass. The code adds `u64` values that wrap in a
release build, and no handler bounds the durations of a submission. A running job is
taken to end at least a second from now, and the reservation test adds the walltime of
another job to that end: what counts is the sum of the two durations. -/

namespace Veloce

open Collections

/-- The operands of the sums of `calculate_earliest_start_time`. -/
def earliestSums (job : JobInfo) (state : GlobalState) (now : Nat) : List (Nat × Nat) :=
  state.runningJobs.map (fun running => (running.startTime.getD now, running.expectedDuration)) ++
    [(now, 1), (now, 365 * 24 * 3600)] ++
    (now :: state.runningJobs.map (projectedEnd · now)).map fun start => (start, job.reservedDuration)

/-- The operands of the sums of one turn: the backfill test, the reservation test, and
the estimate for a job that is blocked. -/
def turnSums (input : PassInput) (pass : PassState) (job : JobInfo) : List (Nat × Nat) :=
  [(input.now, job.expectedDuration), (input.now, job.reservedDuration)] ++ earliestSums job pass.state input.now

/-- The job of a turn that comes to the tests, and the pass as the tests find it. -/
def testedBy (input : PassInput) (pass : PassState) (jobId : JobId) : Option (PassState × JobInfo) :=
  match pass.state.jobs.get? jobId with
  | none => none
  | some job =>
    if job.status = .pending ∧ areDependenciesSatisfied job pass.state.jobs input.dbCache = .ok true then
      some (pass.clearWaiting jobId, { job with id := jobId })
    else none

def passTests (input : PassInput) : List JobId → PassState → List (PassState × JobInfo)
  | [], _ => []
  | jobId :: rest, pass =>
    (testedBy input pass jobId).toList ++
      match passTurn input rest.length pass jobId with
      | none => []
      | some next => passTests input rest next

/-- Every job that a pass tests. -/
def scheduleTests (input : PassInput) (state : GlobalState) : List (PassState × JobInfo) :=
  passTests input (pendingOrder input state) { state := passStart input state }

def scheduleSums (input : PassInput) (state : GlobalState) : List (Nat × Nat) :=
  (scheduleTests input state).flatMap fun (pass, job) => turnSums input pass job

def Early (now : Nat) : Prop := now < 2 ^ 62

instance : DecidablePred Early := fun _ => inferInstanceAs (Decidable (_ < _))

/-- A record with these bounds on its durations that was started at an early time. -/
structure JobInfo.Lasts (expected reserved : Nat) (job : JobInfo) : Prop where
  expected : job.expectedDuration ≤ expected
  reserved : job.reservedDuration ≤ reserved
  start : ∀ start ∈ job.startTime, Early start

variable {expected reserved : Nat} {input : PassInput} {state : GlobalState} {job job' : JobInfo}

theorem JobInfo.Lasts.later (lasts : job.Lasts expected reserved) (later : job'.Succeeds Early job) :
    job'.Lasts expected reserved := by
  have walltime : job'.walltime = job.walltime := by
    have same := later.keeps JobInfo.walltime fun _ => rfl
    exact same
  refine ⟨?_, ?_, fun start known => ?_⟩
  · rw [JobInfo.expectedDuration, later.estimate, walltime]
    exact lasts.expected
  · rw [JobInfo.reservedDuration, walltime]
    exact lasts.reserved
  · rcases later.start with same | none | ⟨now, early, same⟩
    · exact lasts.start start (same ▸ known)
    · rw [none] at known
      cases known
    · rw [same] at known
      cases known
      exact early

theorem Lineage.lasts {jobs jobs' : HashMap JobId JobInfo} (lineage : Lineage Early jobs jobs')
    (lasts : ∀ jobId job, jobs.get? jobId = some job → job.Lasts expected reserved) :
    ∀ jobId job, jobs'.get? jobId = some job → job.Lasts expected reserved := by
  intro jobId job' found
  obtain ⟨job, stored, later⟩ := lineage jobId job' found
  exact (lasts jobId job stored).later later

section Sums

variable {now : Nat} (early : Early now)
include early

/-- A running job is projected to end within its own duration, or in a second. -/
theorem projectedEnd_le (long : 0 < expected) (lasts : job.Lasts expected reserved) :
    projectedEnd job now < 2 ^ 62 + expected := by
  have start : job.startTime.getD now < 2 ^ 62 := by
    cases known : job.startTime with
    | none => exact early
    | some start => exact lasts.start start known
  have first := Nat.mod_le (job.startTime.getD now + job.expectedDuration) (2 ^ 64)
  have second := Nat.mod_le (now + 1) (2 ^ 64)
  have duration := lasts.expected
  have clock : now < 2 ^ 62 := early
  simp only [projectedEnd, addU64]
  omega

/-- As long as the two bounds leave room, no sum of a turn wraps. -/
theorem turnSums_bounded {pass : PassState} (clock : input.now = now) (long : 0 < expected)
    (room : expected + reserved ≤ 3 * 2 ^ 62)
    (records : ∀ jobId job, pass.state.jobs.get? jobId = some job → job.Lasts expected reserved)
    (tested : job.Lasts expected reserved) : ∀ sum ∈ turnSums input pass job, sum.1 + sum.2 < 2 ^ 64 := by
  have first := tested.expected
  have second := tested.reserved
  have small : now < 2 ^ 62 := early
  have known (running : JobInfo) (member : running ∈ pass.state.runningJobs) : running.Lasts expected reserved := by
    obtain ⟨jobId, found⟩ := HashMap.mem_values.mp (List.mem_filter.mp member).1
    exact records jobId running found
  intro sum member
  simp only [turnSums, earliestSums, clock, List.mem_append, List.mem_cons, List.mem_map, List.not_mem_nil, or_false] at member
  rcases member with (rfl | rfl) | (⟨running, listed, rfl⟩ | rfl | rfl) | ⟨start, rfl | ⟨running, listed, rfl⟩, rfl⟩
  · dsimp only
    omega
  · dsimp only
    omega
  · have start : running.startTime.getD now < 2 ^ 62 := by
      cases begun : running.startTime with
      | none => exact early
      | some start => exact (known running listed).start start begun
    have duration := (known running listed).expected
    dsimp only
    omega
  · dsimp only
    omega
  · dsimp only
    omega
  · dsimp only
    omega
  · have ending := projectedEnd_le early long (known running listed)
    dsimp only
    omega

end Sums

section Pass

variable (early : Early input.now)
include early

/-- The bounds on the records hold at every test of a pass. -/
theorem passTests_last (order : List JobId) : ∀ {pass : PassState},
    (∀ jobId job, pass.state.jobs.get? jobId = some job → job.Lasts expected reserved) →
    ∀ test ∈ passTests input order pass, test.2.Lasts expected reserved ∧
      ∀ jobId job, test.1.state.jobs.get? jobId = some job → job.Lasts expected reserved := by
  induction order with
  | nil =>
    intro pass _ test member
    cases member
  | cons jobId rest ih =>
    intro pass records test member
    rw [passTests, List.mem_append, Option.mem_toList] at member
    rcases member with here | later
    · unfold testedBy at here
      split at here
      · cases here
      · rename_i job found
        split at here
        · cases here
          have lasts := records jobId job found
          exact ⟨⟨lasts.expected, lasts.reserved, lasts.start⟩, (clearWaiting_reworded pass jobId).lineage.lasts records⟩
        · cases here
    · split at later
      · cases later
      · rename_i next taken
        exact ih ((turn_lineage early (passTurn_outcome taken)).lasts records) test later

theorem scheduleTests_last (records : ∀ jobId job, state.jobs.get? jobId = some job → job.Lasts expected reserved) :
    ∀ test ∈ scheduleTests input state, test.2.Lasts expected reserved ∧
      ∀ jobId job, test.1.state.jobs.get? jobId = some job → job.Lasts expected reserved :=
  passTests_last early (pendingOrder input state) records

end Pass

section Admission

def SubmitRequest.messages : SubmitRequest → List SubmitMessage
  | .submit msg => [msg]
  | .submitDag nodes => nodes.filterMap DagNode.task
  | .apiSubmitJob payload => [payload.message false]
  | .apiSubmitCwl workflow userId workingDirectory =>
    (workflow.toDag userId workingDirectory).filterMap DagNode.task

/-- The durations that the tests read from the job of a message. -/
def SubmitMessage.expectedDuration (msg : SubmitMessage) : Nat :=
  msg.estimatedWalltime.getD (if msg.walltime > 0 then msg.walltime else 3600)

def SubmitMessage.reservedDuration (msg : SubmitMessage) : Nat := if msg.walltime = 0 then 24 * 3600 else msg.walltime

variable {site : SubmissionSite} {principal : AuthenticatedPrincipal} {admission : Admission}

theorem admitted_durations {request : SubmitRequest} (admitted : request.handle site principal = .ok admission)
    {baseId : JobId} {submission : Submission} (member : submission ∈ (admission.build baseId).jobs) :
    ∃ msg ∈ request.messages, submission.job.walltime = msg.walltime ∧
      submission.job.estimatedWalltime = msg.estimatedWalltime := by
  cases request with
  | submit msg =>
    obtain ⟨_, _, _, _, _, done⟩ := handleSubmit_ok admitted
    obtain ⟨jobId, place, same⟩ := SubmitMessage.mem_admission done member
    subst same
    exact ⟨msg, List.mem_singleton_self msg, rfl, rfl⟩
  | submitDag nodes =>
    obtain ⟨_, _, done⟩ := handleSubmitDag_ok admitted
    obtain ⟨node, offset, place, made⟩ := (mem_dagAdmission done).mp member
    obtain ⟨msg, task, same⟩ := Option.map_eq_some_iff.mp made
    subst same
    exact ⟨msg, List.mem_filterMap.mpr ⟨node, List.fst_mem_of_mem_zipIdx place, task⟩, rfl, rfl⟩
  | apiSubmitJob payload =>
    obtain ⟨_, _, native, _, _, vncEnabled, resolved, done⟩ := apiSubmitJob_ok admitted
    obtain ⟨jobId, place, same⟩ := SubmitMessage.mem_admission done member
    subst same
    refine ⟨_, List.mem_singleton_self _, ?_, rfl⟩
    rcases resolveVirtual_ok resolved with ⟨same, _⟩ | ⟨executable, _, same⟩
    · rw [same]
      rfl
    · rw [same]
      rfl
  | apiSubmitCwl workflow userId workingDirectory =>
    obtain ⟨resolved, done⟩ := apiSubmitCwl_ok admitted
    obtain ⟨node, offset, place, made⟩ := (mem_dagAdmission done).mp member
    obtain ⟨msg, task, same⟩ := Option.map_eq_some_iff.mp made
    obtain ⟨⟨stepId, step⟩, listed, built⟩ := List.mem_map.mp (List.fst_mem_of_mem_zipIdx place)
    subst same built
    cases task
    refine ⟨_, List.mem_filterMap.mpr ⟨_, List.mem_map.mpr ⟨(stepId, step), listed, rfl⟩, rfl⟩, rfl, rfl⟩

end Admission

/-- Passes run at early times, and the durations of submitted messages are bounded. -/
def KeepsTimes (expected reserved : Nat) (_ : String) (_ : Controller) : ControllerEvent → Prop
  | .act (.schedule input) => Early input.now
  | .desk (.accept _ _ request) =>
    ∀ msg ∈ request.messages, msg.expectedDuration ≤ expected ∧ msg.reservedDuration ≤ reserved
  | _ => True

theorem KeepsTimes.clocked {id : String} {controller : Controller} {event : ControllerEvent}
    (keeps : KeepsTimes expected reserved id controller event) : event.Clocked Early := by
  cases event with
  | act event =>
    cases event with
    | schedule input => exact keeps
    | _ => trivial
  | _ => trivial

theorem Cluster.records_last {cluster : Cluster} (reached : Run (KeepsTimes expected reserved) cluster) {id : String}
    {controller : Controller} (found : cluster.controllers.get? id = some controller) (jobId : JobId) (job : JobInfo)
    (stored : controller.state.jobs.get? jobId = some job) : job.Lasts expected reserved := by
  suffices whole : controller.AllRecords fun job => job.Lasts expected reserved from whole.table jobId job stored
  refine all_records (fun job job' lasts later => lasts.later later) (fun _ _ _ keeps => keeps.clocked) ?_ reached found
  intro id controller site principal request admission keeps admitted baseId submission member
  obtain ⟨msg, listed, walltime, estimate⟩ := admitted_durations admitted member
  obtain ⟨first, second⟩ := keeps msg listed
  refine ⟨?_, ?_, fun start known => ?_⟩
  · rw [JobInfo.expectedDuration, walltime, estimate]
    exact first
  · rw [JobInfo.reservedDuration, walltime]
    exact second
  · rw [submission.unstarted] at known
    cases known

/-- In a run of early passes whose submitted durations together leave room below
2 ^ 64, no sum of a pass wraps: a job that passes the backfill test ends by the start of
the top job, and one that passes the reservation test meets no foreign reservation. -/
theorem schedule_sums_bounded {cluster : Cluster} (long : 0 < expected) (room : expected + reserved ≤ 3 * 2 ^ 62)
    (reached : Cluster.Run (KeepsTimes expected reserved) cluster) {id : String} {controller : Controller}
    (found : cluster.controllers.get? id = some controller) (clock : input.now < 2 ^ 62) :
    (∀ sum ∈ scheduleSums input controller.state, sum.1 + sum.2 < 2 ^ 64) ∧
    ∀ pass job, (pass, job) ∈ scheduleTests input controller.state →
      (backfillDenial input pass job = none → ∀ start ∈ pass.topJobEarliestStart,
        input.now + job.expectedDuration ≤ start) ∧
      ∀ workerId, pass.state.isReserved workerId job input.now = false → ∀ name reservation,
        pass.state.reservations.get? name = some reservation → ¬ reservation.Claims workerId job input.now := by
  have bounded (test : PassState × JobInfo) (member : test ∈ scheduleTests input controller.state) :
      ∀ sum ∈ turnSums input test.1 test.2, sum.1 + sum.2 < 2 ^ 64 := by
    obtain ⟨tested, records⟩ := scheduleTests_last clock (Cluster.records_last reached found) test member
    exact turnSums_bounded clock rfl long room records tested
  refine ⟨fun sum member => ?_, fun pass job member => ⟨fun granted start top => ?_, ?_⟩⟩
  · obtain ⟨test, listed, member⟩ := List.mem_flatMap.mp member
    exact bounded test listed sum member
  · have sum := bounded (pass, job) member (input.now, job.expectedDuration) (by simp [turnSums])
    rw [backfillDenial, Option.mem_def.mp top] at granted
    dsimp only at granted
    split at granted
    · cases granted
    · rename_i fits
      rw [addU64, Nat.mod_eq_of_lt sum] at fits
      exact Nat.le_of_not_lt fits
  · intro workerId free name reservation reserved claims
    have sum := bounded (pass, job) member (input.now, job.reservedDuration) (by simp [turnSums])
    rw [GlobalState.isReserved_of_claims reserved sum claims] at free
    cases free

section Sample

instance (id : String) (controller : Controller) (event : ControllerEvent) :
    Decidable (KeepsTimes expected reserved id controller event) := by
  unfold KeepsTimes
  split <;> infer_instance

/-- The leader has a worker, a submission with this walltime in its table, and a
reservation of another user that begins at 200. -/
def walltimeRun (walltime : Nat) : List ClusterEvent :=
  [.on "a" (.act (.register (sampleRegistration "w1") 10))] ++
    (sampleRequest (.submit { binary := "sh", reqCores := 4, reqMemory := 100, walltime })).map
      (fun event => .on "a" (.desk event)) ++
    [.on "a" (.reserve (HashMap.ofList [("r", foreignReservation 200 300)]))]

theorem schedule_sums_bounded_hour : ∃ cluster controller,
    Cluster.Run (KeepsTimes 3600 3600) cluster ∧ cluster.controllers.get? "a" = some controller ∧
    (scheduleSums { now := 100 } controller.state).length = 5 ∧
    ∀ sum ∈ scheduleSums { now := 100 } controller.state, sum.1 + sum.2 < 2 ^ 64 := by
  have allowed : AllowedRun (Cluster.Meets (KeepsTimes 3600 3600)) Cluster.apply (walltimeRun 3600) sampleCluster := by
    decide +kernel
  have facts : ((runLabels Cluster.apply (walltimeRun 3600) sampleCluster).bind fun cluster =>
      (cluster.controllers.get? "a").map fun controller =>
        (scheduleSums { now := 100 } controller.state).length) = some 5 := by decide +kernel
  obtain ⟨cluster, reached, _, facts⟩ := exists_reach_of_bind sampleCluster_fresh allowed facts
  obtain ⟨controller, found, facts⟩ := Option.map_eq_some_iff.mp facts
  have whole := @schedule_sums_bounded 3600 3600 { now := 100 } cluster (by decide) (by decide) reached "a" controller
    found (by decide)
  exact ⟨cluster, controller, reached, found, facts, whole.1⟩

/-- The handlers admit a walltime of 2 ^ 64 - 1. It wraps in the reservation test, and the
pass starts the job on the reserved worker. -/
theorem schedule_sums_wrap : ∃ cluster controller,
    Cluster.Run (KeepsTimes (2 ^ 64) (2 ^ 64)) cluster ∧ cluster.controllers.get? "a" = some controller ∧
    (∃ sum ∈ scheduleSums { now := 100 } controller.state, ¬ sum.1 + sum.2 < 2 ^ 64) ∧
    ∃ reservation, controller.state.reservations.get? "r" = some reservation ∧
      ∃ job ∈ scheduleStarts { now := 100 } controller.state, "w1" ∈ job.assignedWorkers ∧
        reservation.Claims "w1" job 100 := by
  obtain ⟨cluster, ran⟩ : ∃ cluster,
      runLabels Cluster.apply (walltimeRun (2 ^ 64 - 1)) sampleCluster = some cluster :=
    Option.isSome_iff_exists.mp (by decide +kernel)
  have allowed : AllowedRun (Cluster.Meets (KeepsTimes (2 ^ 64) (2 ^ 64))) Cluster.apply (walltimeRun (2 ^ 64 - 1))
      sampleCluster := by decide +kernel
  have site : ((runLabels Cluster.apply (walltimeRun (2 ^ 64 - 1)) sampleCluster).bind fun cluster =>
      (cluster.controllers.get? "a").bind fun controller =>
        (controller.state.reservations.get? "r").map fun reservation =>
          (decide ("w1" ∈ reservation.nodes), reservation.owner, reservation.startTime)) =
      some (true, "other", 200) := by decide +kernel
  have pass : ((runLabels Cluster.apply (walltimeRun (2 ^ 64 - 1)) sampleCluster).bind fun cluster =>
      (cluster.controllers.get? "a").map fun controller =>
        (decide ((100, 2 ^ 64 - 1) ∈ scheduleSums { now := 100 } controller.state),
          (scheduleStarts { now := 100 } controller.state).map fun job =>
            (job.assignedWorkers, job.userId, job.reservedDuration))) =
      some (true, [(["w1"], "user", 2 ^ 64 - 1)]) := by decide +kernel
  rw [ran, Option.bind_some] at site pass
  obtain ⟨controller, found, pass⟩ := Option.map_eq_some_iff.mp pass
  rw [found, Option.bind_some] at site
  obtain ⟨reservation, stored, reserved⟩ := Option.map_eq_some_iff.mp site
  simp only [Prod.mk.injEq, decide_eq_true_eq] at pass reserved
  obtain ⟨sums, starts⟩ := pass
  obtain ⟨job, only, started⟩ := List.map_eq_singleton_iff.mp starts
  simp only [Prod.mk.injEq] at started
  obtain ⟨listed, owner, start⟩ := reserved
  obtain ⟨nodes, user, duration⟩ := started
  refine ⟨cluster, controller, runLabels_reach (.start sampleCluster_fresh) allowed ran, found,
    ⟨_, sums, by decide⟩, reservation, stored, job, ?_, ?_, listed, ?_, .inr ?_⟩
  · rw [only]
    exact List.mem_singleton_self job
  · rw [nodes]
    exact List.mem_singleton_self "w1"
  · rw [owner, user]
    decide
  · rw [start, duration]
    decide

end Sample

end Veloce
