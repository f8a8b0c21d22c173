import Veloce.Ledger.Retire

/-! The part of handle agreement that outlives a change of the table. -/

namespace Veloce

open Collections

/-- The handle lists the jobs that have cores of it; no core is free and assigned, or
assigned twice. -/
structure Pooled (worker : WorkerHandle) : Prop where
  entered : ∀ jobId, jobId ∈ worker.assignedJobs ↔ ∃ cores, worker.jobCoreAssignments.get? jobId = some cores
  apart : Pool.Apart worker.availableCoreIds worker.jobCoreAssignments.get?

/-- Every Running job of the worker is entered with the cores of its record. -/
def Covered (jobs : HashMap JobId JobInfo) (workerId : WorkerId) (worker : WorkerHandle) : Prop :=
  ∀ jobId cores, heldCores jobs workerId jobId = some cores → worker.jobCoreAssignments.get? jobId = some cores

structure SamePool (worker worker' : WorkerHandle) : Prop where
  assignedJobs : worker'.assignedJobs = worker.assignedJobs
  availableCoreIds : worker'.availableCoreIds = worker.availableCoreIds
  jobCoreAssignments : worker'.jobCoreAssignments = worker.jobCoreAssignments

variable {jobs jobs' : HashMap JobId JobInfo} {jobId : JobId} {workerId : WorkerId}
  {worker worker' : WorkerHandle} {job : JobInfo}

theorem Pooled.same (valid : Pooled worker) (same : SamePool worker worker') : Pooled worker' where
  entered jobId := by
    rw [same.assignedJobs, same.jobCoreAssignments]
    exact valid.entered jobId
  apart := by
    rw [same.availableCoreIds, same.jobCoreAssignments]
    exact valid.apart

theorem Covered.same (covers : Covered jobs workerId worker) (same : SamePool worker worker') :
    Covered jobs workerId worker' := by
  intro jobId cores taken
  rw [same.jobCoreAssignments]
  exact covers jobId cores taken

theorem Pooled.release (valid : Pooled worker) (workerId : WorkerId) (jobId : JobId) (job : JobInfo) :
    Pooled (worker.releaseJob workerId jobId job) := by
  by_cases listed : jobId ∈ worker.assignedJobs
  · have entries (other : JobId) : (worker.releaseJob workerId jobId job).jobCoreAssignments.get? other =
        if other = jobId then none else worker.jobCoreAssignments.get? other := by
      simp only [WorkerHandle.releaseJob, listed, ↓reduceIte, HashMap.get?_remove]
    have entered (other : JobId) : other ∈ (worker.releaseJob workerId jobId job).assignedJobs ↔
        ∃ cores, (worker.releaseJob workerId jobId job).jobCoreAssignments.get? other = some cores := by
      rw [WorkerHandle.mem_releaseJob, entries, valid.entered]
      by_cases same : other = jobId <;> simp [same]
    refine ⟨entered, ?_⟩
    obtain ⟨cores, stored⟩ := (valid.entered jobId).mp listed
    simp only [WorkerHandle.releaseJob, listed, ↓reduceIte] at entries entered ⊢
    split
    · rename_i empty
      refine Pool.apart_range _ fun other => ?_
      have unlisted := HashSet.isEmpty_iff.mp empty other
      rw [entered] at unlisted
      exact Option.eq_none_iff_forall_ne_some.mpr fun units same => unlisted ⟨units, same⟩
    · have given : worker.releasedCores workerId jobId job = (worker.jobCoreAssignments.get? jobId).getD [] := by
        rw [WorkerHandle.releasedCores, stored]
        rfl
      rw [given]
      exact valid.apart.give entries
  · rw [WorkerHandle.releaseJob_of_notMem listed]
    exact valid

theorem Pooled.allocate (valid : Pooled worker) (drained : worker.allocateJob job = some worker') :
    Pooled worker' := by
  obtain ⟨_, same⟩ := allocateJob_eq drained
  subst same
  refine ⟨fun other => ?_, valid.apart.take job.reqCores (HashMap.get?_insert _ _ · _)⟩
  rw [HashSet.mem_insert, HashMap.get?_insert, valid.entered]
  by_cases own : other = job.id <;> simp [own]

theorem Covered.congr (covers : Covered jobs workerId worker) (same : SameFootprint jobs jobs') :
    Covered jobs' workerId worker := by
  intro jobId cores taken
  rw [heldCores_congr (same jobId)] at taken
  exact covers jobId cores taken

theorem Covered.close (covers : Covered jobs workerId worker) (closes : Closes jobs jobs' jobId) :
    Covered jobs' workerId worker := by
  intro other cores taken
  rw [heldCores, closes.held_eq] at taken
  split at taken
  · cases taken
  · exact covers other cores taken

theorem Covered.release (covers : Covered jobs workerId worker) (closes : Closes jobs jobs' jobId)
    (job : JobInfo) : Covered jobs' workerId (worker.releaseJob workerId jobId job) := by
  intro other cores taken
  rw [heldCores, closes.held_eq] at taken
  split at taken
  · cases taken
  · rename_i different
    have entry := covers other cores taken
    unfold WorkerHandle.releaseJob
    split
    · simp only [HashMap.get?_remove, different, ↓reduceIte, entry]
    · exact entry

theorem pooled_rule : LedgerRule (fun _ _ worker => Pooled worker) fun _ _ => True where
  congr valid _ := valid
  release valid _ _ := valid.release _ _ _
  closeElsewhere valid _ _ := valid
  allocate valid _ drained _ _ _ := valid.allocate drained
  openElsewhere valid _ _ := valid

theorem covered_rule : LedgerRule Covered fun _ _ => True where
  congr := Covered.congr
  release covers _ closes := covers.release closes _
  closeElsewhere covers closes _ := covers.close closes
  allocate covers opens drained records _ _ := by
    obtain ⟨_, same⟩ := allocateJob_eq drained
    intro other cores taken
    rw [heldCores, opens.held_eq, if_pos records.node, records.cores] at taken
    rw [same, HashMap.get?_insert] at taken ⊢
    simp only [↓reduceIte] at taken
    split
    · rename_i own
      rwa [if_pos own] at taken
    · rename_i other'
      rw [if_neg other'] at taken
      exact covers other cores taken
  openElsewhere covers opens elsewhere := by
    intro other cores taken
    rw [(opens.sameOn elsewhere).cores] at taken
    exact covers other cores taken

section Table

/-- Keys are ids, and a Pending job has no workers. -/
structure Orderly (jobs : HashMap JobId JobInfo) : Prop where
  keyed : Keyed jobs
  waiting : ∀ jobId job, jobs.get? jobId = some job → job.status = .pending → job.assignedWorkers = []

/-- Moreover no core of a worker is held twice, and a Running job has cores on each of
its workers. -/
structure TableOk (jobs : HashMap JobId JobInfo) : Prop extends Orderly jobs where
  apart : ∀ workerId, CoresApart jobs workerId
  recorded : ∀ jobId job, jobs.get? jobId = some job → job.status = .running →
    ∀ workerId ∈ job.assignedWorkers, ∃ cores, job.allocatedCores.get? workerId = some cores

theorem orderly_empty : Orderly (∅ : HashMap JobId JobInfo) where
  keyed jobId job found := by cases found
  waiting jobId job found := by cases found

theorem tableOk_empty : TableOk (∅ : HashMap JobId JobInfo) where
  toOrderly := orderly_empty
  apart workerId := Pool.apart_range 0 fun _ => rfl
  recorded jobId job found := by cases found

/-- What the later sections leave of a record: a Running one is as it was. -/
inductive Wane (jobId : JobId) : Option JobInfo → Option JobInfo → Prop where
  | gone {before : Option JobInfo} : Wane jobId before none
  | kept {job job' : JobInfo} (id : job'.id = job.id) (same : job'.footprint = job.footprint) :
      Wane jobId (some job) (some job')
  | fresh {before : Option JobInfo} {job' : JobInfo} (id : job'.id = jobId) (waits : job'.status = .pending)
      (unassigned : job'.assignedWorkers = []) : Wane jobId before (some job')
  | requeued {job job' : JobInfo} (id : job'.id = job.id) (waits : job'.status = .pending)
      (unassigned : job'.assignedWorkers = []) : Wane jobId (some job) (some job')
  | ended {job job' : JobInfo} (id : job'.id = job.id) (finished : job'.status.terminal = true) :
      Wane jobId (some job) (some job')

theorem Wane.refl (jobId : JobId) (record : Option JobInfo) : Wane jobId record record := by
  cases record with
  | none => exact .gone
  | some job => exact .kept rfl rfl

def Wanes (jobs jobs' : HashMap JobId JobInfo) : Prop :=
  ∀ jobId, Wane jobId (jobs.get? jobId) (jobs'.get? jobId)

theorem Wane.running {before after : Option JobInfo} (wane : Wane jobId before after) {job' : JobInfo}
    (found : after = some job') (running : job'.status = .running) :
    ∃ job, before = some job ∧ job'.footprint = job.footprint := by
  cases wane with
  | gone => cases found
  | @kept job _ _ same =>
    cases found
    exact ⟨job, rfl, same⟩
  | fresh _ waits _ | requeued _ waits _ =>
    cases found
    rw [running] at waits
    cases waits
  | ended _ finished =>
    cases found
    rw [running] at finished
    cases finished

theorem Wanes.held (wanes : Wanes jobs jobs') {cores : List Nat}
    (taken : heldCores jobs' workerId jobId = some cores) : heldCores jobs workerId jobId = some cores := by
  obtain ⟨job', found, runs, stored⟩ := held_some taken
  obtain ⟨job, found', same⟩ := (wanes jobId).running found (runsOn_iff.mp runs).1
  have alike : (jobs'.get? jobId).map JobInfo.footprint = (jobs.get? jobId).map JobInfo.footprint := by
    rw [found, found', Option.map_some, Option.map_some, same]
  rwa [heldCores_congr alike] at taken

/-- A notion of agreement that reads nothing but the pool, and does not mind entries
of jobs that do not run. -/
structure PoolRule (Valid : HashMap JobId JobInfo → WorkerId → WorkerHandle → Prop) : Prop
    extends LedgerRule Valid fun _ _ => True where
  wane : ∀ {jobs jobs' workerId worker}, Valid jobs workerId worker → Wanes jobs jobs' →
    Valid jobs' workerId worker
  pool : ∀ {jobs workerId worker worker'}, Valid jobs workerId worker → SamePool worker worker' →
    Valid jobs workerId worker'

theorem pooled_poolRule : PoolRule fun _ _ worker => Pooled worker where
  toLedgerRule := pooled_rule
  wane valid _ := valid
  pool := Pooled.same

theorem covered_poolRule : PoolRule Covered where
  toLedgerRule := covered_rule
  wane covers wanes jobId cores taken := covers jobId cores (wanes.held taken)
  pool := Covered.same

theorem Orderly.wanes (valid : Orderly jobs) (wanes : Wanes jobs jobs') : Orderly jobs' where
  keyed jobId job' found := by
    have wane := wanes jobId
    generalize was : jobs.get? jobId = before at wane
    rw [found] at wane
    cases wane with
    | kept id _ | ended id _ | requeued id _ _ => exact id.trans (valid.keyed jobId _ was)
    | fresh id _ _ => exact id
  waiting jobId job' found waits := by
    have wane := wanes jobId
    generalize was : jobs.get? jobId = before at wane
    rw [found] at wane
    cases wane with
    | kept _ same =>
      simp only [JobInfo.footprint, Prod.mk.injEq] at same
      rw [same.2.1]
      exact valid.waiting jobId _ was (same.1 ▸ waits)
    | fresh _ _ unassigned | requeued _ _ unassigned => exact unassigned
    | ended _ finished =>
      rw [waits] at finished
      cases finished

theorem TableOk.wanes (valid : TableOk jobs) (wanes : Wanes jobs jobs') : TableOk jobs' where
  toOrderly := valid.toOrderly.wanes wanes
  apart workerId := (valid.apart workerId).holders fun _ _ taken => wanes.held taken
  recorded jobId job' found running workerId node := by
    obtain ⟨job, stored, same⟩ := (wanes jobId).running found running
    simp only [JobInfo.footprint, Prod.mk.injEq] at same
    rw [same.2.2.1]
    exact valid.recorded jobId job stored (same.1 ▸ running) workerId (same.2.1 ▸ node)

theorem Pooled.coresApart (valid : Pooled worker) (covers : Covered jobs workerId worker) :
    CoresApart jobs workerId := valid.apart.holders covers

theorem Pooled.rebuild (valid : TableOk jobs) {resources : Resources}
    (rebuilt : Rebuilt (rebuildWorkerAllocations workerId resources jobs) worker) : Pooled worker where
  entered jobId := by
    rw [rebuilt.assignedJobs, rebuilt.jobCoreAssignments, rebuild_assigned valid.keyed,
      rebuild_cores_map valid.keyed]
    constructor
    · rintro ⟨job, found, runs⟩
      obtain ⟨running, node⟩ := runsOn_iff.mp runs
      obtain ⟨cores, stored⟩ := valid.recorded jobId job found running workerId node
      exact ⟨cores, by rw [heldCores, held_running found runs, stored]⟩
    · rintro ⟨cores, taken⟩
      obtain ⟨job, found, runs, _⟩ := held_some taken
      exact ⟨job, found, runs⟩
  apart := by
    have ok := HandleOk.rebuild valid.keyed (valid.apart workerId) rebuilt
    have entries : worker.jobCoreAssignments.get? = heldCores jobs workerId := funext ok.cores
    rw [entries]
    exact ok.apart

theorem Covered.rebuild (keyed : Keyed jobs) {resources : Resources}
    (rebuilt : Rebuilt (rebuildWorkerAllocations workerId resources jobs) worker) :
    Covered jobs workerId worker := by
  intro jobId cores taken
  rw [rebuilt.jobCoreAssignments, rebuild_cores_map keyed, taken]

end Table

end Veloce
