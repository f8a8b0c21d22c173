import Mathlib.Data.List.Induction
import Veloce.Handlers.Heartbeat
import Veloce.Lifecycle.Records

/-! A heartbeat over the worker's own connection and the same heartbeat through a gateway. -/

namespace Veloce

open Collections

/-- What a heartbeat updates in the record of a job. -/
structure Vitals where
  currentMemoryUsage : Nat
  isIdle : Bool
  idleDuration : Nat
  cgroupActive : Bool
  qos : QosLevel
deriving DecidableEq

def JobInfo.vitals (job : JobInfo) : Vitals where
  currentMemoryUsage := job.currentMemoryUsage
  isIdle := job.isIdle
  idleDuration := job.idleDuration
  cgroupActive := job.cgroupActive
  qos := job.qos

def Pulse.statsOf (pulse : Pulse) (jobId : JobId) : List JobStats := pulse.jobStats.filter (·.jobId = jobId)

/-- What a leader knows about a job before a heartbeat of one of its workers: its record,
the last reports over the workers' own connections, and since when it is idle. -/
structure JobView where
  job : JobInfo
  reports : HashMap WorkerId (Nat × Bool)
  idleStart : Option Nat

namespace JobView

variable (view : JobView)

def reported (workerId : WorkerId) (stats : JobStats) : HashMap WorkerId (Nat × Bool) :=
  view.reports.insert workerId (stats.memoryUsageBytes, stats.isIdle)

/-- With this entry all workers of the job have last reported that it is idle. -/
def idleWith (workerId : WorkerId) (stats : JobStats) : Bool := view.job.globallyIdle (view.reported workerId stats)

/-- How long the job has been idle, if it is idle with all of these entries. -/
def idleFor (workerId : WorkerId) (now : Nat) (entries : List JobStats) : Nat :=
  if view.job.isIdle && entries.all (view.idleWith workerId) then
    (view.idleStart.map (now - ·)).getD view.job.idleDuration
  else 0

/-- Some entry makes the leader take the job for idle for too long. -/
def Degrades (workerId : WorkerId) (idleTimeout now : Nat) (entries : List JobStats) : Prop :=
  view.job.qos.abovePreemptible = true ∧ ∃ before stats, before ++ [stats] <+: entries ∧
    view.idleWith workerId stats = true ∧ idleTimeout ≤ view.idleFor workerId now (before ++ [stats])

/-- The worker's own numbers are those of the whole job: the reports of all its workers add
up to the memory of the last entry, all are idle exactly if the last entry says so, the idle
time is the same, and no entry degrades the job. -/
structure SpeaksForAll (workerId : WorkerId) (idleTimeout now : Nat) (entries : List JobStats) (last : JobStats) :
    Prop where
  memory : view.job.totalMemoryUsage (view.reported workerId last) = last.memoryUsageBytes
  idle : view.idleWith workerId last = last.isIdle
  duration : view.idleFor workerId now entries = last.idleDuration
  qos : ¬ view.Degrades workerId idleTimeout now entries

def record (workerId : WorkerId) (idleTimeout now : Nat) (view : JobView) (stats : JobStats) : JobView where
  reports := view.reported workerId stats
  idleStart :=
    if view.idleWith workerId stats then if view.job.isIdle then view.idleStart else some now
    else none
  job := ({ view.job with
    currentMemoryUsage := view.job.totalMemoryUsage (view.reported workerId stats)
    cgroupActive := stats.cgroupActive }.withIdleness (view.idleWith workerId stats) view.idleStart now).degradeQos
      idleTimeout

end JobView

section Record

variable {workerId : WorkerId} {idleTimeout now : Nat}

theorem totalMemoryUsage_congr {job job' : JobInfo} {reports reports' : HashMap WorkerId (Nat × Bool)}
    (workers : job'.assignedWorkers = job.assignedWorkers) (same : reports'.Same reports) :
    job'.totalMemoryUsage reports' = job.totalMemoryUsage reports := by
  simp only [JobInfo.totalMemoryUsage, workers, same _]

theorem globallyIdle_congr {job job' : JobInfo} {reports reports' : HashMap WorkerId (Nat × Bool)}
    (workers : job'.assignedWorkers = job.assignedWorkers) (same : reports'.Same reports) :
    job'.globallyIdle reports' = job.globallyIdle reports := by
  simp only [JobInfo.globallyIdle, workers, same _]

theorem JobInfo.withIdleness_eq (job : JobInfo) (idle : Bool) (idleStart : Option Nat) (now : Nat) :
    job.withIdleness idle idleStart now = { job with
      isIdle := idle
      idleDuration := if job.isIdle && idle then (idleStart.map (now - ·)).getD job.idleDuration else 0 } := by
  unfold withIdleness
  cases idle with
  | false => simp
  | true =>
    cases was : job.isIdle with
    | false => simp
    | true => simp

theorem JobInfo.degradeQos_eq (job : JobInfo) (idleTimeout : Nat) :
    job.degradeQos idleTimeout = { job with qos :=
      if job.qos.abovePreemptible = true ∧ job.isIdle = true ∧ idleTimeout ≤ job.idleDuration then .preemptible
      else job.qos } := by
  have condition : (job.isIdle && decide (idleTimeout ≤ job.idleDuration) && job.qos.abovePreemptible) = true ↔
      job.qos.abovePreemptible = true ∧ job.isIdle = true ∧ idleTimeout ≤ job.idleDuration := by
    simp [and_comm]
  unfold degradeQos
  split
  · rename_i degrades
    rw [if_pos (condition.mp degrades)]
  · rename_i keeps
    rw [if_neg (condition.not.mp keeps)]

theorem JobView.record_job (view : JobView) (stats : JobStats) :
    (view.record workerId idleTimeout now stats).job = { view.job with
      currentMemoryUsage := view.job.totalMemoryUsage (view.reported workerId stats)
      isIdle := view.idleWith workerId stats
      idleDuration := view.idleFor workerId now [stats]
      cgroupActive := stats.cgroupActive
      qos :=
        if view.job.qos.abovePreemptible = true ∧ view.idleWith workerId stats = true ∧
          idleTimeout ≤ view.idleFor workerId now [stats] then .preemptible
        else view.job.qos } := by
  rw [record, JobInfo.withIdleness_eq, JobInfo.degradeQos_eq, idleFor, List.all_cons, List.all_nil, Bool.and_true]

structure Follows (view view' : JobView) (workerId : WorkerId) (idleTimeout now : Nat) (entries : List JobStats)
    (last : JobStats) : Prop where
  reports : view'.reports.Same (view.reported workerId last)
  idleStart : view'.idleStart =
    if view.idleWith workerId last then
      if view.job.isIdle && entries.all (view.idleWith workerId) then view.idleStart else some now
    else none
  qos : view'.job.qos = .preemptible ∧ view.Degrades workerId idleTimeout now entries ∨
    view'.job.qos = view.job.qos ∧ ¬ view.Degrades workerId idleTimeout now entries
  job : view'.job = { view.job with
    currentMemoryUsage := view.job.totalMemoryUsage (view.reported workerId last)
    isIdle := view.idleWith workerId last
    idleDuration := view.idleFor workerId now entries
    cgroupActive := last.cgroupActive
    qos := view'.job.qos }

theorem JobView.degrades_append (view : JobView) (workerId : WorkerId) (idleTimeout now : Nat)
    (entries : List JobStats) (stats : JobStats) :
    view.Degrades workerId idleTimeout now (entries ++ [stats]) ↔
      view.Degrades workerId idleTimeout now entries ∨
        view.job.qos.abovePreemptible = true ∧ view.idleWith workerId stats = true ∧
          idleTimeout ≤ view.idleFor workerId now (entries ++ [stats]) := by
  unfold Degrades
  constructor
  · rintro ⟨above, before, last, starts, idle, long⟩
    rcases List.prefix_concat_iff.mp starts with same | earlier
    · obtain ⟨rfl, equal⟩ := List.append_inj' same rfl
      cases equal
      exact .inr ⟨above, idle, long⟩
    · exact .inl ⟨above, before, last, earlier, idle, long⟩
  · rintro (⟨above, before, last, starts, idle, long⟩ | ⟨above, idle, long⟩)
    · exact ⟨above, before, last, starts.trans (List.prefix_append _ _), idle, long⟩
    · exact ⟨above, entries, stats, List.prefix_refl _, idle, long⟩

theorem JobView.not_degrades_nil (view : JobView) : ¬ view.Degrades workerId idleTimeout now [] := by
  rintro ⟨_, before, stats, starts, _⟩
  have lengths := starts.length_le
  simp at lengths

theorem Follows.first (view : JobView) (stats : JobStats) :
    Follows view (view.record workerId idleTimeout now stats) workerId idleTimeout now [stats] stats where
  reports := .refl _
  idleStart := by
    cases idle : view.idleWith workerId stats <;> simp [JobView.record, idle]
  qos := by
    have degrades := view.degrades_append workerId idleTimeout now [] stats
    rw [List.nil_append, or_iff_right view.not_degrades_nil] at degrades
    rw [degrades, JobView.record_job]
    dsimp only
    split
    · rename_i holds
      exact .inl ⟨rfl, holds⟩
    · rename_i fails
      exact .inr ⟨rfl, fails⟩
  job := by rw [JobView.record_job]

variable {entries : List JobStats} {last : JobStats} {view view' : JobView}

theorem Follows.reported (follows : Follows view view' workerId idleTimeout now entries last) (stats : JobStats) :
    (view'.reported workerId stats).Same (view.reported workerId stats) := by
  intro other
  rw [JobView.reported, JobView.reported, HashMap.get?_insert, HashMap.get?_insert]
  split
  · rfl
  · rename_i different
    rw [follows.reports other, JobView.reported, HashMap.get?_insert, if_neg different]

theorem Follows.next (follows : Follows view view' workerId idleTimeout now entries last)
    (isLast : entries.getLast? = some last) (stats : JobStats) :
    Follows view (view'.record workerId idleTimeout now stats) workerId idleTimeout now (entries ++ [stats]) stats := by
  have workers : view'.job.assignedWorkers = view.job.assignedWorkers := by rw [follows.job]
  have idle : view'.idleWith workerId stats = view.idleWith workerId stats :=
    globallyIdle_congr workers (follows.reported stats)
  have memory : view'.job.totalMemoryUsage (view'.reported workerId stats) =
      view.job.totalMemoryUsage (view.reported workerId stats) := totalMemoryUsage_congr workers (follows.reported stats)
  have wasIdle : view'.job.isIdle = view.idleWith workerId last := by rw [follows.job]
  have wasFor : view'.job.idleDuration = view.idleFor workerId now entries := by rw [follows.job]
  have lastIdle : entries.all (view.idleWith workerId) = true → view.idleWith workerId last = true := fun all =>
    List.all_eq_true.mp all last (List.mem_of_getLast? isLast)
  have duration : view'.idleFor workerId now [stats] = view.idleFor workerId now (entries ++ [stats]) := by
    simp only [JobView.idleFor, List.all_append, List.all_cons, List.all_nil, Bool.and_true, idle, wasIdle, wasFor,
      follows.idleStart]
    cases view.idleWith workerId stats <;> cases all : entries.all (view.idleWith workerId) <;>
      cases was : view.idleWith workerId last <;> cases view.job.isIdle <;> cases view.idleStart <;> simp_all
  refine ⟨follows.reported stats, ?_, ?_, ?_⟩
  · simp only [JobView.record, idle, wasIdle, follows.idleStart, List.all_append, List.all_cons, List.all_nil,
      Bool.and_true]
    cases view.idleWith workerId stats <;> cases all : entries.all (view.idleWith workerId) <;>
      cases was : view.idleWith workerId last <;> cases view.job.isIdle <;> simp_all
  · rw [JobView.record_job, view.degrades_append, duration, idle]
    dsimp only
    rcases follows.qos with ⟨lowered, degrades⟩ | ⟨kept, keeps⟩
    · exact .inl ⟨by simp [lowered, QosLevel.abovePreemptible], .inl degrades⟩
    · rw [kept]
      split
      · rename_i holds
        exact .inl ⟨rfl, .inr holds⟩
      · rename_i fails
        exact .inr ⟨rfl, by simp [keeps, fails]⟩
  · rw [JobView.record_job, duration, idle, memory]
    rw [follows.job]

/-- The record with the numbers of an entry. -/
def JobInfo.copied (job : JobInfo) (stats : JobStats) : JobInfo :=
  { job with
    currentMemoryUsage := stats.memoryUsageBytes
    isIdle := stats.isIdle
    idleDuration := stats.idleDuration
    cgroupActive := stats.cgroupActive }

theorem follows_foldl (workerId : WorkerId) (idleTimeout now : Nat) (view : JobView)
    (isLast : entries.getLast? = some last) :
    Follows view (entries.foldl (JobView.record workerId idleTimeout now) view) workerId idleTimeout now entries last := by
  induction entries using List.reverseRecOn generalizing last with
  | nil => cases isLast
  | append_singleton entries stats ih =>
    have same : stats = last := by simpa using isLast
    subst same
    rw [List.foldl_append, List.foldl_cons, List.foldl_nil]
    cases before : entries.getLast? with
    | none =>
      rw [List.getLast?_eq_none_iff.mp before]
      exact .first view stats
    | some earlier => exact (ih before).next before stats

/-- The sums of a direct heartbeat are the numbers of its last entry. -/
theorem Follows.speaksForAll_iff (follows : Follows view view' workerId idleTimeout now entries last) :
    view'.job.vitals = (view.job.copied last).vitals ↔ view.SpeaksForAll workerId idleTimeout now entries last := by
  have qos : view'.job.qos = view.job.qos ↔ ¬ view.Degrades workerId idleTimeout now entries := by
    rcases follows.qos with ⟨lowered, degrades⟩ | ⟨kept, keeps⟩
    · refine ⟨fun same => ?_, fun keeps => absurd degrades keeps⟩
      have above := degrades.1
      rw [← same, lowered] at above
      cases above
    · exact ⟨fun _ => keeps, fun _ => kept⟩
  rw [follows.job]
  simp only [JobInfo.vitals, JobInfo.copied, Vitals.mk.injEq]
  constructor
  · rintro ⟨memory, idle, duration, _, same⟩
    exact ⟨memory, idle, duration, qos.mp same⟩
  · intro speaks
    exact ⟨speaks.memory, speaks.idle, speaks.duration, trivial, qos.mpr speaks.qos⟩

end Record

def viewOf (telemetry : Telemetry) (jobId : JobId) (job : JobInfo) : JobView where
  job := job
  reports := telemetry.jobWorkerStats.getD jobId ∅
  idleStart := telemetry.globalIdleStart.get? jobId

section Table

variable (workerId : WorkerId) (idleTimeout now : Nat) {view : Telemetry × HashMap JobId JobInfo}

theorem keyed_recordJobStats (keyed : Keyed view.2) (stats : JobStats) :
    Keyed (recordJobStats workerId idleTimeout now view stats).2 := by
  unfold recordJobStats
  dsimp only
  split
  · exact keyed
  · intro jobId job found
    rw [HashMap.get?_modify] at found
    split at found
    · rename_i own
      obtain ⟨before, known, same⟩ := Option.map_eq_some_iff.mp found
      subst same own
      rw [JobInfo.withIdleness_eq, JobInfo.degradeQos_eq]
      exact keyed _ before known
    · exact keyed jobId job found

theorem recordJobStats_other (keyed : Keyed view.2) {stats : JobStats} {jobId : JobId} (other : jobId ≠ stats.jobId) :
    (recordJobStats workerId idleTimeout now view stats).2.get? jobId = view.2.get? jobId ∧
    (recordJobStats workerId idleTimeout now view stats).1.jobWorkerStats.getD jobId ∅ =
      view.1.jobWorkerStats.getD jobId ∅ ∧
    (recordJobStats workerId idleTimeout now view stats).1.globalIdleStart.get? jobId =
      view.1.globalIdleStart.get? jobId := by
  have reports : (view.1.jobWorkerStats.insert stats.jobId ((view.1.jobWorkerStats.getD stats.jobId ∅).insert workerId
      (stats.memoryUsageBytes, stats.isIdle))).getD jobId ∅ = view.1.jobWorkerStats.getD jobId ∅ := by
    rw [HashMap.getD, HashMap.get?_insert, if_neg other, HashMap.getD]
  unfold recordJobStats
  dsimp only
  split
  · exact ⟨rfl, reports, rfl⟩
  · rename_i job found
    refine ⟨by rw [HashMap.get?_modify, if_neg other], reports, ?_⟩
    rw [keyed _ _ found]
    dsimp only
    split
    · split
      · rfl
      · rw [HashMap.get?_insert, if_neg other]
    · rw [HashMap.get?_remove, if_neg other]

theorem recordJobStats_own (keyed : Keyed view.2) {stats : JobStats} {job : JobInfo}
    (found : view.2.get? stats.jobId = some job) :
    (recordJobStats workerId idleTimeout now view stats).2.get? stats.jobId =
      some ((viewOf view.1 stats.jobId job).record workerId idleTimeout now stats).job ∧
    viewOf (recordJobStats workerId idleTimeout now view stats).1 stats.jobId
        ((viewOf view.1 stats.jobId job).record workerId idleTimeout now stats).job =
      (viewOf view.1 stats.jobId job).record workerId idleTimeout now stats := by
  have own := keyed _ _ found
  have start (idle : Bool) (starts : HashMap JobId Nat) :
      (if idle then if job.isIdle then starts else starts.insert stats.jobId now else starts.remove stats.jobId).get?
        stats.jobId = if idle then if job.isIdle then starts.get? stats.jobId else some now else none := by
    cases idle <;> cases job.isIdle <;> simp
  unfold recordJobStats
  simp only [found]
  constructor
  · have since : (viewOf view.1 stats.jobId job).idleStart = view.1.globalIdleStart.get? job.id := by rw [viewOf, own]
    rw [HashMap.get?_modify, if_pos rfl, found, JobView.record, since]
    rfl
  · simp only [viewOf, HashMap.getD, HashMap.get?_insert_self, Option.getD_some, own, start]
    rfl

/-- A direct heartbeat treats every job on its own. -/
theorem recordJobStats_foldl (jobStats : List JobStats) {jobId : JobId} {job : JobInfo} (keyed : Keyed view.2)
    (found : view.2.get? jobId = some job) :
    (jobStats.foldl (recordJobStats workerId idleTimeout now) view).2.get? jobId =
      some ((jobStats.filter (·.jobId = jobId)).foldl (JobView.record workerId idleTimeout now)
        (viewOf view.1 jobId job)).job := by
  induction jobStats generalizing view job with
  | nil => exact found
  | cons stats rest ih =>
    have keyed' := keyed_recordJobStats workerId idleTimeout now keyed stats
    rw [List.foldl_cons]
    by_cases own : stats.jobId = jobId
    · subst own
      obtain ⟨found', same⟩ := recordJobStats_own workerId idleTimeout now keyed found
      rw [List.filter_cons_of_pos (by simp), List.foldl_cons, ih keyed' found', same]
    · obtain ⟨kept, reports, start⟩ :=
        recordJobStats_other workerId idleTimeout now keyed (Ne.symm own)
      rw [List.filter_cons_of_neg (by simpa using own), ih keyed' (kept.trans found), viewOf, reports, start]
      rfl

theorem recordJobStats_absent (jobStats : List JobStats) {jobId : JobId} (absent : view.2.get? jobId = none) :
    (jobStats.foldl (recordJobStats workerId idleTimeout now) view).2.get? jobId = none := by
  induction jobStats generalizing view with
  | nil => exact absent
  | cons stats rest ih =>
    refine ih ?_
    unfold recordJobStats
    dsimp only
    split
    · exact absent
    · rw [HashMap.get?_modify]
      split
      · rename_i own
        rw [← own, absent]
        rfl
      · exact absent

/-- Through a gateway the last entry of a job counts. -/
theorem copyJobStats_foldl (jobStats : List JobStats) (jobs : HashMap JobId JobInfo) (jobId : JobId) :
    (jobStats.foldl copyJobStats jobs).get? jobId = (jobs.get? jobId).map fun job =>
      ((jobStats.filter (·.jobId = jobId)).getLast?.map job.copied).getD job := by
  induction jobStats using List.reverseRecOn with
  | nil => simp
  | append_singleton jobStats stats ih =>
    rw [List.foldl_append, List.foldl_cons, List.foldl_nil, copyJobStats, HashMap.get?_modify, ih, List.filter_append]
    by_cases own : stats.jobId = jobId
    · rw [if_pos own.symm, List.filter_cons_of_pos (by simpa using own), List.filter_nil, List.getLast?_append]
      subst own
      rw [ih, Option.map_map]
      refine congrArg (Option.map · _) (funext fun job => ?_)
      cases (jobStats.filter (·.jobId = stats.jobId)).getLast? <;> rfl
    · rw [if_neg (Ne.symm own), List.filter_cons_of_neg (by simpa using own), List.filter_nil, List.append_nil]

end Table

section Paths

variable {ctx : ControllerContext} {pulse : Pulse}

/-- The jobs that a heartbeat lists are not reaped. -/
theorem get?_hearWorker (ctx : ControllerContext) (order : IterOrder Unit) (now : Nat) {jobId : JobId} {last : JobStats}
    (listed : (pulse.statsOf jobId).getLast? = some last) :
    (ctx.hearWorker order pulse now).state.jobs.get? jobId = ctx.state.jobs.get? jobId := by
  have active : jobId ∈ pulse.activeJobIds := by
    obtain ⟨member, own⟩ := List.mem_filter.mp (List.mem_of_getLast? listed)
    have same : last.jobId = jobId := of_decide_eq_true own
    exact same ▸ List.mem_map_of_mem member
  have kept : ({ ctx with state := ctx.state.refreshWorker pulse now } : ControllerContext).overdue pulse.workerId
      pulse.activeJobIds now jobId = false := by
    unfold ControllerContext.overdue
    split
    · simp [ControllerContext.missingFrom, active]
    · rfl
  rw [ControllerContext.hearWorker, (ControllerContext.reconcile_spec _ order _ _ now jobId).1, kept]
  rfl

theorem keyed_hearWorker (keyed : Keyed ctx.state.jobs) (order : IterOrder Unit) (pulse : Pulse) (now : Nat) :
    Keyed (ctx.hearWorker order pulse now).state.jobs := by
  intro jobId job found
  rw [ControllerContext.hearWorker, (ControllerContext.reconcile_spec _ order _ _ now jobId).1] at found
  split at found
  · obtain ⟨before, known, same⟩ := Option.map_eq_some_iff.mp found
    subst same
    exact keyed jobId before known
  · exact keyed jobId job found

/-- A heartbeat leaves the same record of every job on both paths exactly if, for every job
that it lists, the worker's own numbers are those of the whole job. -/
theorem heartbeat_paths_agree_iff (keyed : Keyed ctx.state.jobs) (telemetry : Telemetry) (order : IterOrder Unit)
    {connectionId : Nat} (idleTimeout now : Nat)
    (current : (ctx.state.workers.get? pulse.workerId).map WorkerHandle.connectionId = some connectionId) :
    (∀ jobId, ((ctx.directHeartbeat telemetry order pulse connectionId idleTimeout now).1.state.jobs.get? jobId).map
        JobInfo.vitals = ((ctx.gatewayHeartbeat order now pulse).state.jobs.get? jobId).map JobInfo.vitals) ↔
      ∀ jobId job last, ctx.state.jobs.get? jobId = some job → (pulse.statsOf jobId).getLast? = some last →
        (viewOf telemetry jobId job).SpeaksForAll pulse.workerId idleTimeout now (pulse.statsOf jobId) last := by
  have known : ctx.state.workers.contains pulse.workerId = true := by
    obtain ⟨worker, found, _⟩ := Option.map_eq_some_iff.mp current
    rw [HashMap.contains, found]
    rfl
  have keyed' := keyed_hearWorker keyed order pulse now
  rw [ControllerContext.directHeartbeat, if_pos current, ControllerContext.gatewayHeartbeat, if_pos known]
  refine forall_congr' fun jobId => ?_
  dsimp only
  rw [copyJobStats_foldl]
  cases last : (pulse.statsOf jobId).getLast? with
  | none =>
    have none : pulse.jobStats.filter (·.jobId = jobId) = [] := List.getLast?_eq_none_iff.mp last
    refine ⟨fun _ _ _ _ absent => (by cases absent), fun _ => ?_⟩
    cases found : (ctx.hearWorker order pulse now).state.jobs.get? jobId with
    | none => rw [recordJobStats_absent _ _ _ _ found]; rfl
    | some job =>
      rw [recordJobStats_foldl _ _ _ _ keyed' found, none]
      rfl
  | some stats =>
    have heard := get?_hearWorker ctx order now last
    cases found : ctx.state.jobs.get? jobId with
    | none =>
      rw [heard, found, recordJobStats_absent _ _ _ _ (heard.trans found)]
      exact ⟨fun _ _ _ absent => (by cases absent), fun _ => rfl⟩
    | some job =>
      have follows := follows_foldl pulse.workerId idleTimeout now (viewOf telemetry jobId job) last
      rw [heard, found, recordJobStats_foldl _ _ _ _ keyed' (heard.trans found), Option.map_some, Option.map_some,
        show (pulse.jobStats.filter (·.jobId = jobId)).getLast? = some stats from last, Option.map_some]
      simp only [Option.map_some, Option.getD_some, Option.some.injEq]
      constructor
      · intro same job' last' found' last''
        cases found'
        cases last''
        exact follows.speaksForAll_iff.mp same
      · intro speaks
        exact follows.speaksForAll_iff.mpr (speaks job stats rfl rfl)

def sampleListener (workers : List WorkerId) : ControllerContext where
  state := { GlobalState.registerWorker {} (sampleRegistration "a") 100 with
    role := .leader
    jobs := HashMap.insert ∅ 1 {
      id := 1, binary := "sh", reqNodes := 1, reqCores := 1, reqMemory := 1, userId := "user"
      status := .running, assignedWorkers := workers } }

def memoryStats : JobStats where
  jobId := 1
  memoryUsageBytes := 5
  isIdle := false
  idleDuration := 0
  cgroupActive := true

def memoryPulse : Pulse where
  workerId := "a"
  resources := sampleResources
  jobStats := [memoryStats]

theorem keyed_sampleListener (workers : List WorkerId) : Keyed (sampleListener workers).state.jobs := by
  intro jobId job found
  simp only [sampleListener, HashMap.get?_insert, HashMap.get?_empty] at found
  split at found
  · rename_i own
    cases found
    exact own.symm
  · cases found

/-- The job runs on this worker only. -/
theorem heartbeat_paths_agree_iff_alone :
    ((sampleListener ["a"]).state.workers.get? memoryPulse.workerId).map WorkerHandle.connectionId = some 1 ∧
    ∀ jobId, (((sampleListener ["a"]).directHeartbeat {} .stored memoryPulse 1 600 200).1.state.jobs.get? jobId).map
        JobInfo.vitals =
      (((sampleListener ["a"]).gatewayHeartbeat .stored 200 memoryPulse).state.jobs.get? jobId).map JobInfo.vitals := by
  have current : ((sampleListener ["a"]).state.workers.get? memoryPulse.workerId).map WorkerHandle.connectionId = some 1 := by
    decide +kernel
  refine ⟨current, (heartbeat_paths_agree_iff (keyed_sampleListener ["a"]) {} .stored 600 200 current).mpr
    fun jobId job last found listed => ?_⟩
  obtain ⟨member, own⟩ := List.mem_filter.mp (List.mem_of_getLast? listed)
  cases List.mem_singleton.mp member
  have same : 1 = jobId := of_decide_eq_true own
  subst same
  cases found
  refine ⟨by decide +kernel, by decide +kernel, by decide +kernel, ?_⟩
  rintro ⟨_, before, stats, starts, idle, _⟩
  have inside : stats ∈ memoryPulse.jobStats :=
    List.mem_of_mem_filter (starts.subset (List.mem_append_right _ List.mem_cons_self))
  cases List.mem_singleton.mp inside
  exact absurd idle (by decide +kernel)

/-- Another worker of the job has reported seven bytes over its own connection. -/
theorem gateway_heartbeat_overwrites_sum : ∃ (ctx : ControllerContext) (telemetry : Telemetry) (pulse : Pulse),
    (ctx.state.workers.get? pulse.workerId).map WorkerHandle.connectionId = some 1 ∧ Keyed ctx.state.jobs ∧
    ((ctx.directHeartbeat telemetry .stored pulse 1 600 200).1.state.jobs.get? 1).map JobInfo.currentMemoryUsage = some 12 ∧
    ((ctx.gatewayHeartbeat .stored 200 pulse).state.jobs.get? 1).map JobInfo.currentMemoryUsage = some 5 := by
  refine ⟨sampleListener ["a", "b"], { jobWorkerStats := HashMap.insert ∅ 1 (HashMap.insert ∅ "b" (7, false)) }, memoryPulse,
    by decide +kernel, keyed_sampleListener _, ?_, ?_⟩
  · decide +kernel
  · decide +kernel

end Paths

end Veloce
