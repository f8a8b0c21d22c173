import Veloce.Collections.Pool
import Veloce.Controller.State

/-! The agreement between a worker handle and the job table. The table says what
every Running job holds on a worker; the handle repeats it as its set of assigned
jobs, its per-job assignments, its free lists and its allocated memory. -/

namespace Veloce

open Collections

/-- What a job of the table holds on a worker, by one of its allocation maps. -/
def held {α : Type} (read : JobInfo → WorkerId → Option α) (jobs : HashMap JobId JobInfo)
    (workerId : WorkerId) (jobId : JobId) : Option α :=
  (jobs.get? jobId).bind fun job => if job.runsOn workerId then read job workerId else none

def heldCores : HashMap JobId JobInfo → WorkerId → JobId → Option (List Nat) :=
  held fun job workerId => job.allocatedCores.get? workerId

def heldGres : HashMap JobId JobInfo → WorkerId → JobId → Option (HashMap String (List Nat)) :=
  held fun job workerId => job.allocatedGres.get? workerId

def heldGresIds (jobs : HashMap JobId JobInfo) (workerId : WorkerId) (name : String) (jobId : JobId) :
    Option (List Nat) :=
  (heldGres jobs workerId jobId).bind (·.get? name)

def jobMemory (jobs : HashMap JobId JobInfo) (jobId : JobId) : Nat :=
  ((jobs.get? jobId).map JobInfo.reqMemory).getD 0

def WorkerHandle.freeGres (worker : WorkerHandle) (name : String) : List Nat :=
  (worker.availableGresIds.get? name).getD []

def Resources.gresCount (resources : Resources) (name : String) : Nat :=
  asU32 (resources.gres.getD name 0)

/-- The handle lists exactly the Running jobs of its worker. -/
def Lists (jobs : HashMap JobId JobInfo) (workerId : WorkerId) (worker : WorkerHandle) : Prop :=
  ∀ jobId, jobId ∈ worker.assignedJobs ↔ ∃ job, jobs.get? jobId = some job ∧ job.runsOn workerId = true

/-- The handle lists the Running jobs of its worker with their cores, and no core
is free and held or held twice. -/
structure HandleOk (jobs : HashMap JobId JobInfo) (workerId : WorkerId) (worker : WorkerHandle) :
    Prop where
  assigned : Lists jobs workerId worker
  cores : ∀ jobId, worker.jobCoreAssignments.get? jobId = heldCores jobs workerId jobId
  apart : Pool.Apart worker.availableCoreIds (heldCores jobs workerId)

/-- The handle has the GRES ids of these jobs as well. -/
structure HandleMatches (jobs : HashMap JobId JobInfo) (workerId : WorkerId) (worker : WorkerHandle) :
    Prop extends HandleOk jobs workerId worker where
  gres : ∀ jobId, worker.jobGresAssignments.get? jobId = heldGres jobs workerId jobId
  gresApart : ∀ name, Pool.Apart (worker.freeGres name) (heldGresIds jobs workerId name)

/-- Moreover every core, GRES id and megabyte of the worker's resources is
accounted for. -/
structure HandleFull (jobs : HashMap JobId JobInfo) (workerId : WorkerId) (worker : WorkerHandle) :
    Prop extends HandleOk jobs workerId worker where
  covers : Pool.Covers worker.resources.cpuCores worker.availableCoreIds (heldCores jobs workerId)
  gres : ∀ jobId, worker.jobGresAssignments.get? jobId = heldGres jobs workerId jobId
  gresApart : ∀ name, Pool.Apart (worker.freeGres name) (heldGresIds jobs workerId name)
  gresCovers : ∀ name,
    Pool.Covers (worker.resources.gresCount name) (worker.freeGres name) (heldGresIds jobs workerId name)
  memory : worker.allocatedMemory = worker.assignedJobs.sum (jobMemory jobs)
  memoryBound : worker.allocatedMemory ≤ worker.resources.totalMb

variable {jobs jobs' : HashMap JobId JobInfo} {workerId : WorkerId} {jobId : JobId}

theorem HandleFull.matches {worker : WorkerHandle} (valid : HandleFull jobs workerId worker) :
    HandleMatches jobs workerId worker :=
  ⟨valid.toHandleOk, valid.gres, valid.gresApart⟩

theorem held_running {α : Type} {read : JobInfo → WorkerId → Option α} {job : JobInfo}
    (found : jobs.get? jobId = some job) (runs : job.runsOn workerId = true) :
    held read jobs workerId jobId = read job workerId := by
  simp [held, found, runs]

theorem held_idle {α : Type} {read : JobInfo → WorkerId → Option α}
    (idle : ∀ job, jobs.get? jobId = some job → job.runsOn workerId = false) :
    held read jobs workerId jobId = none := by
  unfold held
  cases found : jobs.get? jobId with
  | none => rfl
  | some job => simp [idle job found]

theorem held_some {α : Type} {read : JobInfo → WorkerId → Option α} {value : α}
    (taken : held read jobs workerId jobId = some value) :
    ∃ job, jobs.get? jobId = some job ∧ job.runsOn workerId = true ∧ read job workerId = some value := by
  obtain ⟨job, found, chosen⟩ := Option.bind_eq_some_iff.mp taken
  split at chosen
  · rename_i runs
    exact ⟨job, found, runs, chosen⟩
  · cases chosen

theorem freeGres_idle (resources : Resources) (name : String) :
    (resources.gresIds.get? name).getD [] = List.range (resources.gresCount name) := by
  rw [Resources.gresIds, HashMap.get?_updateEntries, Resources.gresCount, HashMap.getD]
  cases resources.gres.get? name <;> simp [asU32]

/-- The parts of a job record that the ledgers depend on. -/
def JobInfo.footprint (job : JobInfo) : JobStatus × List WorkerId × HashMap WorkerId (List Nat) ×
    HashMap WorkerId (HashMap String (List Nat)) × Nat :=
  (job.status, job.assignedWorkers, job.allocatedCores, job.allocatedGres, job.reqMemory)

/-- Two tables that the ledgers cannot tell apart. -/
def SameFootprint (jobs jobs' : HashMap JobId JobInfo) : Prop :=
  ∀ jobId, (jobs'.get? jobId).map JobInfo.footprint = (jobs.get? jobId).map JobInfo.footprint

theorem runsOn_footprint {job job' : JobInfo} (same : job'.footprint = job.footprint)
    (workerId : WorkerId) : job'.runsOn workerId = job.runsOn workerId := by
  simp only [JobInfo.footprint, Prod.mk.injEq] at same
  simp [JobInfo.runsOn, same.1, same.2.1]

theorem held_congr {α : Type} {read : JobInfo → WorkerId → Option α}
    (reads : ∀ job job' : JobInfo, job'.footprint = job.footprint → read job' = read job)
    (same : (jobs'.get? jobId).map JobInfo.footprint = (jobs.get? jobId).map JobInfo.footprint) :
    held read jobs' workerId jobId = held read jobs workerId jobId := by
  unfold held
  cases found : jobs.get? jobId with
  | none =>
    cases found' : jobs'.get? jobId with
    | none => rfl
    | some job' => simp [found, found'] at same
  | some job =>
    cases found' : jobs'.get? jobId with
    | none => simp [found, found'] at same
    | some job' =>
      have equal : job'.footprint = job.footprint := by simpa [found, found'] using same
      simp only [Option.bind_some, runsOn_footprint equal, reads job job' equal]

theorem heldCores_congr (same : (jobs'.get? jobId).map JobInfo.footprint = (jobs.get? jobId).map JobInfo.footprint)
    (workerId : WorkerId) : heldCores jobs' workerId jobId = heldCores jobs workerId jobId := by
  refine held_congr (fun job job' equal => ?_) same
  simp only [JobInfo.footprint, Prod.mk.injEq] at equal
  rw [equal.2.2.1]

theorem heldGres_congr (same : (jobs'.get? jobId).map JobInfo.footprint = (jobs.get? jobId).map JobInfo.footprint)
    (workerId : WorkerId) : heldGres jobs' workerId jobId = heldGres jobs workerId jobId := by
  refine held_congr (fun job job' equal => ?_) same
  simp only [JobInfo.footprint, Prod.mk.injEq] at equal
  rw [equal.2.2.2.1]

theorem jobMemory_congr (same : (jobs'.get? jobId).map JobInfo.footprint = (jobs.get? jobId).map JobInfo.footprint) :
    jobMemory jobs' jobId = jobMemory jobs jobId := by
  have memory := congrArg (Option.map (·.2.2.2.2)) same
  simp only [Option.map_map, Function.comp_def, JobInfo.footprint] at memory
  simpa only [jobMemory] using congrArg (Option.getD · 0) memory

theorem running_congr (same : (jobs'.get? jobId).map JobInfo.footprint = (jobs.get? jobId).map JobInfo.footprint)
    (workerId : WorkerId) : (∃ job, jobs'.get? jobId = some job ∧ job.runsOn workerId = true) ↔
      ∃ job, jobs.get? jobId = some job ∧ job.runsOn workerId = true := by
  cases found : jobs.get? jobId with
  | none =>
    cases found' : jobs'.get? jobId with
    | none => simp
    | some job' => simp [found, found'] at same
  | some job =>
    cases found' : jobs'.get? jobId with
    | none => simp [found, found'] at same
    | some job' =>
      have equal : job'.footprint = job.footprint := by simpa [found, found'] using same
      simp [runsOn_footprint equal]

/-- Two tables that say the same of a worker: a record has the same footprint in both, or
runs on the worker in neither. -/
def SameOn (jobs jobs' : HashMap JobId JobInfo) (workerId : WorkerId) : Prop :=
  ∀ jobId, (jobs'.get? jobId).map JobInfo.footprint = (jobs.get? jobId).map JobInfo.footprint ∨
    ((∀ job, jobs.get? jobId = some job → job.runsOn workerId = false) ∧
      ∀ job, jobs'.get? jobId = some job → job.runsOn workerId = false)

section SameOn

variable {jobs jobs' : HashMap JobId JobInfo} {workerId : WorkerId} {worker : WorkerHandle}

theorem SameFootprint.sameOn (same : SameFootprint jobs jobs') (workerId : WorkerId) : SameOn jobs jobs' workerId :=
  fun jobId => .inl (same jobId)

theorem SameOn.running (same : SameOn jobs jobs' workerId) (jobId : JobId) :
    (∃ job, jobs'.get? jobId = some job ∧ job.runsOn workerId = true) ↔
      ∃ job, jobs.get? jobId = some job ∧ job.runsOn workerId = true := by
  rcases same jobId with kept | ⟨before, after⟩
  · exact running_congr kept workerId
  · constructor
    · rintro ⟨job, found, runs⟩
      exact absurd runs (Bool.eq_false_iff.mp (after job found))
    · rintro ⟨job, found, runs⟩
      exact absurd runs (Bool.eq_false_iff.mp (before job found))

theorem SameOn.cores (same : SameOn jobs jobs' workerId) (jobId : JobId) :
    heldCores jobs' workerId jobId = heldCores jobs workerId jobId := by
  rcases same jobId with kept | ⟨before, after⟩
  · exact heldCores_congr kept workerId
  · rw [heldCores, held_idle before, held_idle after]

theorem SameOn.gres (same : SameOn jobs jobs' workerId) (jobId : JobId) :
    heldGres jobs' workerId jobId = heldGres jobs workerId jobId := by
  rcases same jobId with kept | ⟨before, after⟩
  · exact heldGres_congr kept workerId
  · rw [heldGres, held_idle before, held_idle after]

theorem SameOn.gresIds (same : SameOn jobs jobs' workerId) (name : String) (jobId : JobId) :
    heldGresIds jobs' workerId name jobId = heldGresIds jobs workerId name jobId := by
  rw [heldGresIds, heldGresIds, same.gres]

theorem Lists.keep (valid : Lists jobs workerId worker) (same : SameOn jobs jobs' workerId) : Lists jobs' workerId worker :=
  fun jobId => (valid jobId).trans (same.running jobId).symm

theorem HandleOk.keep (valid : HandleOk jobs workerId worker) (same : SameOn jobs jobs' workerId) :
    HandleOk jobs' workerId worker where
  assigned := valid.assigned.keep same
  cores jobId := (valid.cores jobId).trans (same.cores jobId).symm
  apart := valid.apart.congr same.cores

theorem HandleMatches.keep (valid : HandleMatches jobs workerId worker) (same : SameOn jobs jobs' workerId) :
    HandleMatches jobs' workerId worker where
  toHandleOk := valid.toHandleOk.keep same
  gres jobId := (valid.gres jobId).trans (same.gres jobId).symm
  gresApart name := (valid.gresApart name).congr (same.gresIds name)

/-- The jobs that a handle lists need as much memory by both tables. -/
theorem Lists.jobMemory_eq (valid : Lists jobs workerId worker) (same : SameOn jobs jobs' workerId) {jobId : JobId}
    (listed : jobId ∈ worker.assignedJobs) : jobMemory jobs jobId = jobMemory jobs' jobId := by
  obtain ⟨job, found, runs⟩ := (valid jobId).mp listed
  rcases same jobId with kept | ⟨before, _⟩
  · exact (jobMemory_congr kept).symm
  · exact absurd runs (Bool.eq_false_iff.mp (before job found))

theorem HandleFull.keep (valid : HandleFull jobs workerId worker) (same : SameOn jobs jobs' workerId) :
    HandleFull jobs' workerId worker where
  toHandleOk := valid.toHandleOk.keep same
  covers := valid.covers.congr same.cores
  gres := (valid.matches.keep same).gres
  gresApart := (valid.matches.keep same).gresApart
  gresCovers name := (valid.gresCovers name).congr (same.gresIds name)
  memory := valid.memory.trans (HashSet.sum_congr fun _ listed => valid.assigned.jobMemory_eq same listed)
  memoryBound := valid.memoryBound

end SameOn

theorem sameFootprint_modify (jobs : HashMap JobId JobInfo) (jobId : JobId) {update : JobInfo → JobInfo}
    (keeps : ∀ job, (update job).footprint = job.footprint) : SameFootprint jobs (jobs.modify jobId update) := by
  intro other
  rw [HashMap.get?_modify]
  split
  · rename_i same
    subst same
    rw [Option.map_map]
    exact congrArg (fun view => (jobs.get? other).map view) (funext keeps)
  · rfl

/-- Two handles with the same ledger: everything but the connection data. -/
structure SameLedger (worker worker' : WorkerHandle) : Prop where
  resources : worker'.resources = worker.resources
  assignedJobs : worker'.assignedJobs = worker.assignedJobs
  allocatedMemory : worker'.allocatedMemory = worker.allocatedMemory
  availableCoreIds : worker'.availableCoreIds = worker.availableCoreIds
  jobCoreAssignments : worker'.jobCoreAssignments = worker.jobCoreAssignments
  availableGresIds : worker'.availableGresIds = worker.availableGresIds
  jobGresAssignments : worker'.jobGresAssignments = worker.jobGresAssignments

theorem HandleFull.ledger {worker worker' : WorkerHandle} (valid : HandleFull jobs workerId worker)
    (same : SameLedger worker worker') : HandleFull jobs workerId worker' := by
  obtain ⟨⟨assigned, cores, apart⟩, covers, gres, gresApart, gresCovers, memory, bound⟩ := valid
  obtain ⟨res, jobsEq, mem, free, taken, freeG, takenG⟩ := same
  refine ⟨⟨?_, ?_, ?_⟩, ?_, ?_, ?_, ?_, ?_, ?_⟩
  all_goals simp only [Lists, WorkerHandle.freeGres, res, jobsEq, mem, free, taken, freeG, takenG]
  all_goals assumption

end Veloce
