import Veloce.Ledger.Capacity

/-! The projection behind the earliest start of a job. -/

namespace Veloce

open Collections

namespace ResourceKind

def projected (kind : ResourceKind) (projection : ProjectedWorkerResources) : Nat :=
  match kind with
  | .cores => projection.coresAvailable
  | .memory => projection.memoryAvailableMb
  | .gres name => projection.gresAvailable.getD name 0

theorem projected_current (kind : ResourceKind) (worker : WorkerHandle) :
    kind.projected (.current worker) = kind.free worker := by
  cases kind with
  | cores | memory => rfl
  | gres name =>
    simp only [projected, ProjectedWorkerResources.current, free, WorkerHandle.freeGres, HashMap.getD,
      HashMap.get?_updateEntries]
    cases worker.availableGresIds.get? name <;> rfl

theorem fits_iff {projection : ProjectedWorkerResources} {job : JobInfo} :
    projection.fits job = true ↔ ∀ kind : ResourceKind, kind.requested job ≤ kind.projected projection := by
  simp only [ProjectedWorkerResources.fits, Bool.and_eq_true, decide_eq_true_eq, List.all_eq_true]
  constructor
  · rintro ⟨⟨units, megabytes⟩, shares⟩ kind
    cases kind with
    | cores => exact units
    | memory => exact megabytes
    | gres name =>
      cases requested : job.gresReq.get? name with
      | none => simp [ResourceKind.requested, HashMap.getD, requested]
      | some count =>
        have enough := shares (name, count) (HashMap.mem_toList.mpr requested)
        simpa [ResourceKind.requested, HashMap.getD, requested, projected] using enough
  · intro enough
    refine ⟨⟨enough .cores, enough .memory⟩, ?_⟩
    rintro ⟨name, count⟩ listed
    have gres := enough (.gres name)
    simpa [ResourceKind.requested, HashMap.getD, HashMap.mem_toList.mp listed, projected] using gres

end ResourceKind

variable {state : GlobalState} {workerId : WorkerId} {worker : WorkerHandle} {kind : ResourceKind}

/-- What a job that has ended gives back is what it asked for. -/
theorem Allocation.projected_free (valid : Allocation state) (found : state.workers.get? workerId = some worker)
    {jobId : JobId} {job : JobInfo} (stored : state.jobs.get? jobId = some job) (running : job.status = .running)
    (node : workerId ∈ job.assignedWorkers) {projection : ProjectedWorkerResources}
    (bounded : kind.projected projection + kind.requested job < 2 ^ 64) :
    kind.projected (projection.free worker job) = kind.projected projection + kind.requested job := by
  have full := valid.agrees workerId worker found
  have grant := (valid.granted jobId job stored running).2 workerId node
  have runs : job.runsOn workerId = true := runsOn_iff.mpr ⟨running, node⟩
  have key : job.id = jobId := valid.keyed jobId job stored
  cases kind with
  | cores =>
    simp only [ResourceKind.projected, ResourceKind.requested, ProjectedWorkerResources.free]
    rw [key, full.cores, heldCores, held_running stored runs, grant.cores]
    rfl
  | memory => exact Nat.mod_eq_of_lt bounded
  | gres name =>
    simp only [ResourceKind.projected, ResourceKind.requested, ProjectedWorkerResources.free, HashMap.getD,
      HashMap.get?_updateEntries]
    cases requested : job.gresReq.get? name with
    | none => rfl
    | some count =>
      obtain ⟨share, given, counts⟩ := grant.gres
      have held := counts name
      rw [HashMap.getD, requested, Option.getD_some] at held
      rw [key, full.gres, heldGres, held_running stored runs, given, Option.bind_some]
      cases listed : share.get? name with
      | none =>
        rw [listed] at held
        simp [← held]
      | some ids =>
        rw [listed] at held
        simpa using held

/-- The share of a job in a projection: what it gives back on the worker by then. -/
def ResourceKind.returned (kind : ResourceKind) (workerId : WorkerId) (now start : Nat) (job : JobInfo) : Nat :=
  if workerId ∈ job.assignedWorkers ∧ projectedEnd job now ≤ start then kind.requested job else 0

theorem Allocation.projected_foldl (valid : Allocation state) (found : state.workers.get? workerId = some worker)
    (kind : ResourceKind) (now start : Nat) (running : List JobInfo)
    (stored : ∀ job ∈ running, ∃ jobId, state.jobs.get? jobId = some job ∧ job.status = .running) :
    ∀ projection, kind.projected projection + (running.map (kind.returned workerId now start)).sum < 2 ^ 64 →
      kind.projected (running.foldl (fun projection job =>
        if projectedEnd job now ≤ start then
          (job.assignedWorkers.filter (· = workerId)).foldl
            (fun projection _ => projection.free worker job) projection
        else projection) projection) =
      kind.projected projection + (running.map (kind.returned workerId now start)).sum := by
  induction running with
  | nil =>
    intro projection _
    rfl
  | cons job rest ih =>
    intro projection bounded
    obtain ⟨jobId, listed, runs⟩ := stored job List.mem_cons_self
    have later := ih fun other member => stored other (List.mem_cons_of_mem _ member)
    rw [List.map_cons, List.sum_cons] at bounded ⊢
    rw [List.foldl_cons]
    by_cases ended : projectedEnd job now ≤ start
    · rw [if_pos ended, List.filter_eq]
      by_cases node : workerId ∈ job.assignedWorkers
      · have once : job.assignedWorkers.count workerId = 1 :=
          List.count_eq_one_of_mem (valid.granted jobId job listed runs).1 node
        have share : kind.returned workerId now start job = kind.requested job := if_pos ⟨node, ended⟩
        rw [share] at bounded ⊢
        have room : kind.projected projection + kind.requested job < 2 ^ 64 := by omega
        have step := valid.projected_free found listed runs node room
        rw [once, List.replicate_one, List.foldl_cons, List.foldl_nil, later _ (by omega), step]
        omega
      · have never : job.assignedWorkers.count workerId = 0 := List.count_eq_zero.mpr node
        have share : kind.returned workerId now start job = 0 := if_neg fun both => node both.1
        rw [share] at bounded ⊢
        rw [never, List.replicate_zero, List.foldl_nil, later _ (by omega)]
        omega
    · have share : kind.returned workerId now start job = 0 := if_neg fun both => ended both.2
      rw [share] at bounded ⊢
      rw [if_neg ended, later _ (by omega)]
      omega

theorem sum_map_filter (jobs : List JobInfo) (keep : JobInfo → Bool) (measure : JobInfo → Nat) :
    ((jobs.filter keep).map measure).sum = (jobs.map fun job => if keep job then measure job else 0).sum := by
  induction jobs with
  | nil => rfl
  | cons job rest ih =>
    cases kept : keep job with
    | true => simp [kept, ih]
    | false => simp [kept, ih]

theorem mem_runningJobs {job : JobInfo} :
    job ∈ state.runningJobs ↔ ∃ jobId, state.jobs.get? jobId = some job ∧ job.status = .running := by
  rw [GlobalState.runningJobs, List.mem_filter, HashMap.mem_values, decide_eq_true_eq]
  exact exists_and_right.symm

/-- The load on a worker of the jobs expected to run beyond a time. -/
def GlobalState.outlasting (state : GlobalState) (kind : ResourceKind) (workerId : WorkerId) (now start : Nat) :
    Nat :=
  kind.load state.jobs fun job => job.runsOn workerId && decide (start < projectedEnd job now)

/-- Each Running job of a worker gives back what it asked for, or outlasts the time. -/
theorem load_eq_returned_add (state : GlobalState) (kind : ResourceKind) (workerId : WorkerId) (now start : Nat) :
    kind.load state.jobs (·.runsOn workerId) =
      (state.runningJobs.map (kind.returned workerId now start)).sum + state.outlasting kind workerId now start := by
  have values : (state.runningJobs.map (kind.returned workerId now start)).sum = state.jobs.total fun _ job =>
      if job.status = .running then kind.returned workerId now start job else 0 := by
    rw [GlobalState.runningJobs, sum_map_filter, HashMap.values, List.map_map, HashMap.total]
    simp only [decide_eq_true_eq]
    rfl
  rw [values, GlobalState.outlasting, ResourceKind.load, ResourceKind.load, ← HashMap.total_add]
  congr 1
  funext jobId job
  by_cases running : job.status = .running
  · by_cases node : workerId ∈ job.assignedWorkers
    · by_cases ended : projectedEnd job now ≤ start
      · simp [JobInfo.runsOn, ResourceKind.returned, running, node, ended, Nat.not_lt.mpr ended]
      · simp [JobInfo.runsOn, ResourceKind.returned, running, node, ended, Nat.lt_of_not_le ended]
    · simp [JobInfo.runsOn, ResourceKind.returned, node]
  · simp [JobInfo.runsOn, running]

structure Resources.Representable (resources : Resources) : Prop where
  cores : resources.cpuCores < 2 ^ 64
  memory : resources.totalMemory < 2 ^ 64

def Machines (workers : HashMap WorkerId WorkerHandle) : Prop :=
  ∀ workerId worker, workers.get? workerId = some worker → worker.resources.Representable

theorem Machines.links {workers workers' : HashMap WorkerId WorkerHandle} (machines : Machines workers)
    (links : SameLinks workers workers') : Machines workers' := by
  intro workerId worker' found
  obtain ⟨worker, stored, link⟩ := links.symm.found found
  have resources : worker.resources = worker'.resources := congrArg Link.resources link
  rw [← resources]
  exact machines workerId worker stored

theorem Resources.Representable.capacity {resources : Resources} (valid : resources.Representable)
    (kind : ResourceKind) : kind.capacity resources < 2 ^ 64 := by
  cases kind with
  | cores => exact valid.cores
  | memory =>
    have whole := valid.memory
    simp only [ResourceKind.capacity, Resources.totalMb]
    omega
  | gres name =>
    simp only [ResourceKind.capacity, Resources.gresCount, asU32]
    omega

/-- What a worker is projected to have, and what it still gives to the jobs that
outlast the time, is all it has. -/
theorem Allocation.projected_add_outlasting (valid : Allocation state)
    (found : state.workers.get? workerId = some worker) (machine : worker.resources.Representable)
    (kind : ResourceKind) (now start : Nat) :
    kind.projected (projectWorker state.runningJobs now start workerId worker) +
      state.outlasting kind workerId now start = kind.capacity worker.resources := by
  have balance := valid.free_add_load found kind
  rw [load_eq_returned_add state kind workerId now start] at balance
  have bound := machine.capacity kind
  have folded := valid.projected_foldl found kind now start state.runningJobs
    (fun job member => mem_runningJobs.mp member) (.current worker) (by rw [kind.projected_current]; omega)
  rw [projectWorker, folded, kind.projected_current]
  omega

end Veloce
