import Veloce.Ledger.Basic

/-! `rebuild_worker_allocations` reads a handle's ledger off the job table. -/

namespace Veloce

open Collections

/-- Every record is stored under its own id. -/
def Keyed (jobs : HashMap JobId JobInfo) : Prop :=
  ∀ jobId job, jobs.get? jobId = some job → job.id = jobId

/-- No core of the worker is held by two Running jobs of the table. -/
def CoresApart (jobs : HashMap JobId JobInfo) (workerId : WorkerId) : Prop :=
  Pool.Apart [] (heldCores jobs workerId)

variable {jobs : HashMap JobId JobInfo}

theorem Keyed.mem_values (keyed : Keyed jobs) {job : JobInfo} :
    job ∈ jobs.values ↔ jobs.get? job.id = some job := by
  rw [HashMap.mem_values]
  constructor
  · rintro ⟨jobId, found⟩
    rwa [keyed jobId job found]
  · intro found
    exact ⟨job.id, found⟩

theorem Keyed.ids (keyed : Keyed jobs) :
    jobs.values.map JobInfo.id = jobs.keys := by
  rw [HashMap.values, List.map_map, ← HashMap.toList_keys]
  apply List.map_congr_left
  rintro ⟨jobId, job⟩ member
  exact keyed jobId job (HashMap.mem_toList.mp member)

theorem Keyed.distinct (keyed : Keyed jobs) :
    (jobs.values.map JobInfo.id).Nodup := by
  rw [keyed.ids]
  exact jobs.keys_nodup

namespace RebuiltWorkerAllocations

variable {workerId : WorkerId} {start : RebuiltWorkerAllocations}

def takes (workerId : WorkerId) (job : JobInfo) (unit : Nat) : Prop :=
  job.runsOn workerId = true ∧ ∃ cores, job.allocatedCores.get? workerId = some cores ∧ unit ∈ cores

def takesGres (workerId : WorkerId) (name : String) (job : JobInfo) (unit : Nat) : Prop :=
  job.runsOn workerId = true ∧ ∃ gres ids, job.allocatedGres.get? workerId = some gres ∧
    gres.get? name = some ids ∧ unit ∈ ids

theorem mem_assigned_fold (jobs : List JobInfo) (jobId : JobId) : ∀ start : RebuiltWorkerAllocations,
    jobId ∈ (jobs.foldl (adopt workerId) start).assignedJobs ↔
      jobId ∈ start.assignedJobs ∨ ∃ job ∈ jobs, job.id = jobId ∧ job.runsOn workerId = true := by
  induction jobs with
  | nil => intro start; simp
  | cons job rest ih =>
    intro start
    rw [List.foldl_cons, ih, adopt]
    cases runs : job.runsOn workerId <;> simp [runs]
    grind

theorem mem_cores_adopt (job : JobInfo) (unit : Nat) :
    unit ∈ (adopt workerId start job).availableCoreIds ↔
      unit ∈ start.availableCoreIds ∧ ¬ takes workerId job unit := by
  unfold adopt takes
  cases job.runsOn workerId with
  | false => simp
  | true => cases job.allocatedCores.get? workerId <;> simp

theorem cores_adopt_sublist (job : JobInfo) :
    (adopt workerId start job).availableCoreIds.Sublist start.availableCoreIds := by
  unfold adopt
  cases job.runsOn workerId with
  | false => simp
  | true => cases job.allocatedCores.get? workerId <;> simp

theorem mem_cores_fold (jobs : List JobInfo) (unit : Nat) : ∀ start : RebuiltWorkerAllocations,
    unit ∈ (jobs.foldl (adopt workerId) start).availableCoreIds ↔
      unit ∈ start.availableCoreIds ∧ ∀ job ∈ jobs, ¬ takes workerId job unit := by
  induction jobs with
  | nil => intro start; simp
  | cons job rest ih =>
    intro start
    rw [List.foldl_cons, ih, mem_cores_adopt, List.forall_mem_cons]
    tauto

theorem cores_fold_sublist (jobs : List JobInfo) : ∀ start : RebuiltWorkerAllocations,
    (jobs.foldl (adopt workerId) start).availableCoreIds.Sublist start.availableCoreIds := by
  induction jobs with
  | nil => intro start; exact List.Sublist.refl _
  | cons job rest ih => intro start; exact (ih _).trans (cores_adopt_sublist job)

def freeGres (rebuilt : RebuiltWorkerAllocations) (name : String) : List Nat :=
  (rebuilt.availableGresIds.get? name).getD []

theorem freeGres_adopt (job : JobInfo) (name : String) :
    (adopt workerId start job).freeGres name = start.freeGres name ∨
      ∃ gres ids, job.runsOn workerId = true ∧ job.allocatedGres.get? workerId = some gres ∧
        gres.get? name = some ids ∧
        (adopt workerId start job).freeGres name = (start.freeGres name).filter (· ∉ ids) := by
  unfold adopt freeGres
  cases job.runsOn workerId with
  | false => exact .inl rfl
  | true =>
    cases job.allocatedGres.get? workerId with
    | none => exact .inl rfl
    | some gres =>
      cases listed : gres.get? name with
      | none =>
        left
        simp [HashMap.get?_updateEntries, listed]
      | some ids =>
        right
        refine ⟨gres, ids, rfl, rfl, listed, ?_⟩
        simp only [↓reduceIte, HashMap.get?_updateEntries, listed]
        cases start.availableGresIds.get? name <;> rfl

theorem mem_gres_fold (jobs : List JobInfo) (name : String) (unit : Nat) :
    ∀ start : RebuiltWorkerAllocations,
    unit ∈ (jobs.foldl (adopt workerId) start).freeGres name ↔
      unit ∈ start.freeGres name ∧ ∀ job ∈ jobs, ¬ takesGres workerId name job unit := by
  induction jobs with
  | nil => intro start; simp
  | cons job rest ih =>
    intro start
    have one : unit ∈ (adopt workerId start job).freeGres name ↔
        unit ∈ start.freeGres name ∧ ¬ takesGres workerId name job unit := by
      unfold takesGres adopt freeGres
      cases job.runsOn workerId with
      | false => simp
      | true =>
        cases job.allocatedGres.get? workerId with
        | none => simp
        | some gres =>
          simp only [↓reduceIte, HashMap.get?_updateEntries]
          cases listed : gres.get? name with
          | none => simp [listed]
          | some ids => cases start.availableGresIds.get? name <;> simp [listed]
    rw [List.foldl_cons, ih, one, List.forall_mem_cons]
    tauto

theorem gres_fold_sublist (jobs : List JobInfo) (name : String) : ∀ start : RebuiltWorkerAllocations,
    ((jobs.foldl (adopt workerId) start).freeGres name).Sublist (start.freeGres name) := by
  induction jobs with
  | nil => intro start; exact List.Sublist.refl _
  | cons job rest ih =>
    intro start
    refine (ih _).trans ?_
    rcases freeGres_adopt job name with same | ⟨_, ids, _, _, _, filtered⟩
    · rw [same]
    · rw [filtered]
      exact List.filter_sublist

theorem memory_fold {table : HashMap JobId JobInfo} (jobs : List JobInfo) :
    ∀ start : RebuiltWorkerAllocations, (jobs.map JobInfo.id).Nodup →
      (∀ job ∈ jobs, table.get? job.id = some job ∧ job.id ∉ start.assignedJobs) →
      start.allocatedMemory = start.assignedJobs.sum (jobMemory table) →
      (jobs.foldl (adopt workerId) start).allocatedMemory =
        (jobs.foldl (adopt workerId) start).assignedJobs.sum (jobMemory table) := by
  induction jobs with
  | nil => intro start _ _ balanced; exact balanced
  | cons job rest ih =>
    intro start distinct stored balanced
    obtain ⟨fresh, restDistinct⟩ := List.nodup_cons.mp distinct
    obtain ⟨⟨found, missing⟩, others⟩ := List.forall_mem_cons.mp stored
    have charged : jobMemory table job.id = job.reqMemory := by simp [jobMemory, found]
    rw [List.foldl_cons]
    apply ih _ restDistinct
    · intro other member
      have different : other.id ≠ job.id := fun same => fresh (List.mem_map.mpr ⟨other, member, same⟩)
      refine ⟨(others other member).1, ?_⟩
      unfold adopt
      split
      · simp [different, (others other member).2]
      · exact (others other member).2
    · unfold adopt
      split
      · simp only [HashSet.sum_insert missing, charged, balanced]
        omega
      · exact balanced

theorem map_fold {α : Type} {table : HashMap JobId JobInfo} (keyed : Keyed table)
    (map : RebuiltWorkerAllocations → HashMap JobId α) (read : JobInfo → WorkerId → Option α)
    (adopted : ∀ start job, map (adopt workerId start job) =
      match if job.runsOn workerId then read job workerId else none with
      | some value => (map start).insert job.id value
      | none => map start)
    (empty : map start = ∅) (jobId : JobId) :
    (map (table.values.foldl (adopt workerId) start)).get? jobId = held read table workerId jobId := by
  have folded : map (table.values.foldl (adopt workerId) start) =
      table.updateEntries (fun _ job _ =>
        if job.runsOn workerId then read job workerId else none) (map start) := by
    rw [HashMap.values, List.foldl_map, HashMap.updateEntries]
    apply List.foldl_rel (r := fun rebuilt collected => map rebuilt = collected) rfl
    rintro ⟨key, job⟩ member rebuilt collected same
    have stored : job.id = key := keyed key job (HashMap.mem_toList.mp member)
    subst stored
    subst same
    exact adopted rebuilt job
  rw [folded, HashMap.get?_updateEntries, empty, held]
  cases table.get? jobId with
  | none => rfl
  | some job => simp

end RebuiltWorkerAllocations

open RebuiltWorkerAllocations

variable {jobs : HashMap JobId JobInfo} {workerId : WorkerId} {resources : Resources}

theorem rebuild_cores_map (keyed : Keyed jobs) (jobId : JobId) :
    (rebuildWorkerAllocations workerId resources jobs).jobCoreAssignments.get? jobId =
      heldCores jobs workerId jobId := by
  apply map_fold keyed (fun rebuilt => rebuilt.jobCoreAssignments)
    (fun job workerId => job.allocatedCores.get? workerId)
  · intro start job
    unfold adopt
    cases job.runsOn workerId with
    | false => rfl
    | true => cases job.allocatedCores.get? workerId <;> rfl
  · rfl

theorem rebuild_gres_map (keyed : Keyed jobs) (jobId : JobId) :
    (rebuildWorkerAllocations workerId resources jobs).jobGresAssignments.get? jobId =
      heldGres jobs workerId jobId := by
  apply map_fold keyed (fun rebuilt => rebuilt.jobGresAssignments)
    (fun job workerId => job.allocatedGres.get? workerId)
  · intro start job
    unfold adopt
    cases job.runsOn workerId with
    | false => rfl
    | true => cases job.allocatedGres.get? workerId <;> rfl
  · rfl

theorem rebuild_assigned (keyed : Keyed jobs) (jobId : JobId) :
    jobId ∈ (rebuildWorkerAllocations workerId resources jobs).assignedJobs ↔
      ∃ job, jobs.get? jobId = some job ∧ job.runsOn workerId = true := by
  rw [rebuildWorkerAllocations, mem_assigned_fold]
  constructor
  · rintro (impossible | ⟨job, member, same, runs⟩)
    · exact absurd impossible (HashSet.notMem_empty jobId)
    · exact ⟨job, same ▸ keyed.mem_values.mp member, runs⟩
  · rintro ⟨job, found, runs⟩
    have same := keyed jobId job found
    exact .inr ⟨job, keyed.mem_values.mpr (same ▸ found), same, runs⟩

private theorem taken_iff (keyed : Keyed jobs) (unit : Nat) :
    (∃ job ∈ jobs.values, takes workerId job unit) ↔
      ∃ jobId cores, heldCores jobs workerId jobId = some cores ∧ unit ∈ cores := by
  constructor
  · rintro ⟨job, member, runs, cores, allocated, inside⟩
    exact ⟨job.id, cores, (held_running (keyed.mem_values.mp member) runs).trans allocated, inside⟩
  · rintro ⟨jobId, cores, taken, inside⟩
    obtain ⟨job, found, runs, allocated⟩ := held_some taken
    exact ⟨job, HashMap.mem_values.mpr ⟨jobId, found⟩, runs, cores, allocated, inside⟩

private theorem takenGres_iff (keyed : Keyed jobs) (name : String) (unit : Nat) :
    (∃ job ∈ jobs.values, takesGres workerId name job unit) ↔
      ∃ jobId ids, heldGresIds jobs workerId name jobId = some ids ∧ unit ∈ ids := by
  constructor
  · rintro ⟨job, member, runs, gres, ids, allocated, listed, inside⟩
    refine ⟨job.id, ids, ?_, inside⟩
    rw [heldGresIds, heldGres, held_running (keyed.mem_values.mp member) runs, allocated]
    exact listed
  · rintro ⟨jobId, ids, taken, inside⟩
    obtain ⟨gres, holds, listed⟩ := Option.bind_eq_some_iff.mp taken
    obtain ⟨job, found, runs, allocated⟩ := held_some holds
    exact ⟨job, HashMap.mem_values.mpr ⟨jobId, found⟩, runs, gres, ids, allocated, listed, inside⟩

theorem mem_rebuild_cores (keyed : Keyed jobs) (unit : Nat) :
    unit ∈ (rebuildWorkerAllocations workerId resources jobs).availableCoreIds ↔
      unit < resources.cpuCores ∧
        ¬ ∃ jobId cores, heldCores jobs workerId jobId = some cores ∧ unit ∈ cores := by
  rw [rebuildWorkerAllocations, mem_cores_fold, ← taken_iff keyed]
  simp [RebuiltWorkerAllocations.idle]

theorem mem_rebuild_gres (keyed : Keyed jobs) (name : String) (unit : Nat) :
    unit ∈ (rebuildWorkerAllocations workerId resources jobs).freeGres name ↔
      unit < resources.gresCount name ∧
        ¬ ∃ jobId ids, heldGresIds jobs workerId name jobId = some ids ∧ unit ∈ ids := by
  rw [rebuildWorkerAllocations, mem_gres_fold, ← takenGres_iff keyed, freeGres, RebuiltWorkerAllocations.idle,
    freeGres_idle, List.mem_range]
  simp

/-- The ledger of a handle is the rebuilt one. -/
structure Rebuilt (rebuilt : RebuiltWorkerAllocations) (worker : WorkerHandle) : Prop where
  assignedJobs : worker.assignedJobs = rebuilt.assignedJobs
  allocatedMemory : worker.allocatedMemory = rebuilt.allocatedMemory
  availableCoreIds : worker.availableCoreIds = rebuilt.availableCoreIds
  jobCoreAssignments : worker.jobCoreAssignments = rebuilt.jobCoreAssignments
  availableGresIds : worker.availableGresIds = rebuilt.availableGresIds
  jobGresAssignments : worker.jobGresAssignments = rebuilt.jobGresAssignments

theorem HandleOk.rebuild {worker : WorkerHandle} (keyed : Keyed jobs) (apart : CoresApart jobs workerId)
    (rebuilt : Rebuilt (rebuildWorkerAllocations workerId resources jobs) worker) :
    HandleOk jobs workerId worker where
  assigned jobId := by
    rw [rebuilt.assignedJobs]
    exact rebuild_assigned keyed jobId
  cores jobId := by
    rw [rebuilt.jobCoreAssignments]
    exact rebuild_cores_map keyed jobId
  apart := by
    rw [rebuilt.availableCoreIds]
    apply Pool.Apart.fewer apart (fun _ _ taken => taken)
    · exact (Pool.range_ascending resources.cpuCores).sublist (cores_fold_sublist _ _)
    · intro unit member
      exact ((mem_rebuild_cores keyed unit).mp member).2

theorem HandleFull.rebuild {old worker : WorkerHandle} (keyed : Keyed jobs)
    (valid : HandleFull jobs workerId old) (same : worker.resources = old.resources)
    (rebuilt : Rebuilt (rebuildWorkerAllocations workerId worker.resources jobs) worker) :
    HandleFull jobs workerId worker := by
  have apart : CoresApart jobs workerId := valid.apart.holders fun _ _ taken => taken
  have ok := HandleOk.rebuild keyed apart rebuilt
  have balanced : worker.allocatedMemory = worker.assignedJobs.sum (jobMemory jobs) := by
    rw [rebuilt.allocatedMemory, rebuilt.assignedJobs]
    apply memory_fold _ _ keyed.distinct
    · intro job member
      exact ⟨keyed.mem_values.mp member, HashSet.notMem_empty job.id⟩
    · rfl
  have freeGres (name : String) : worker.freeGres name =
      (rebuildWorkerAllocations workerId worker.resources jobs).freeGres name := by
    rw [WorkerHandle.freeGres, rebuilt.availableGresIds]
    rfl
  refine ⟨ok, ?_, ?_, ?_, ?_, balanced, ?_⟩
  · intro unit
    rw [rebuilt.availableCoreIds, mem_rebuild_cores keyed]
    have whole := valid.covers unit
    rw [← same] at whole
    grind
  · intro jobId
    rw [rebuilt.jobGresAssignments]
    exact rebuild_gres_map keyed jobId
  · intro name
    rw [freeGres]
    apply (valid.gresApart name).fewer (fun _ _ taken => taken)
    · refine (Pool.range_ascending (worker.resources.gresCount name)).sublist ?_
      rw [← freeGres_idle]
      exact gres_fold_sublist _ name _
    · intro unit member
      exact ((mem_rebuild_gres keyed name unit).mp member).2
  · intro name unit
    rw [freeGres, mem_rebuild_gres keyed]
    have whole := valid.gresCovers name unit
    rw [← same] at whole
    grind
  · have members (jobId : JobId) : jobId ∈ worker.assignedJobs ↔ jobId ∈ old.assignedJobs :=
      (ok.assigned jobId).trans (valid.assigned jobId).symm
    rw [balanced, HashSet.sum_eq_of_mem_iff members, ← valid.memory, same]
    exact valid.memoryBound

end Veloce
