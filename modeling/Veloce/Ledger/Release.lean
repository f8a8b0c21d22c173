import Veloce.Ledger.Basic
import Veloce.Scheduler.Finalize

/-! Releasing a job keeps every handle in agreement with the table: the released
units return to the free lists exactly when the job stops running. -/

namespace Veloce

open Collections

/-- In the later table the job does not run any more; the others are untouched. -/
structure Closes (jobs jobs' : HashMap JobId JobInfo) (jobId : JobId) : Prop where
  closed : ∀ job, jobs'.get? jobId = some job → job.status ≠ .running
  others : ∀ other, other ≠ jobId → jobs'.get? other = jobs.get? other

theorem runsOn_iff {job : JobInfo} {workerId : WorkerId} :
    job.runsOn workerId = true ↔ job.status = .running ∧ workerId ∈ job.assignedWorkers := by
  simp [JobInfo.runsOn]

theorem runsOn_of_not_running {job : JobInfo} (idle : job.status ≠ .running) (workerId : WorkerId) :
    job.runsOn workerId = false := by
  simp [JobInfo.runsOn, idle]

variable {jobs jobs' : HashMap JobId JobInfo} {jobId : JobId} {workerId : WorkerId}
  {worker : WorkerHandle} {job : JobInfo}

theorem Closes.held_eq {α : Type} (read : JobInfo → WorkerId → Option α) (closes : Closes jobs jobs' jobId)
    (workerId : WorkerId) (other : JobId) : held read jobs' workerId other =
      if other = jobId then none else held read jobs workerId other := by
  split
  · rename_i same
    subst same
    exact held_idle fun job found => runsOn_of_not_running (closes.closed job found) workerId
  · rename_i different
    rw [held, held, closes.others other different]

theorem Closes.heldGresIds_eq (closes : Closes jobs jobs' jobId) (workerId : WorkerId) (name : String)
    (other : JobId) : heldGresIds jobs' workerId name other =
      if other = jobId then none else heldGresIds jobs workerId name other := by
  rw [heldGresIds, heldGres, closes.held_eq]
  split <;> rfl

theorem HandleOk.released_cores (valid : HandleOk jobs workerId worker) (found : jobs.get? jobId = some job)
    (listed : jobId ∈ worker.assignedJobs) :
    worker.releasedCores workerId jobId job = (heldCores jobs workerId jobId).getD [] := by
  obtain ⟨job', found', runs⟩ := (valid.assigned jobId).mp listed
  cases found.symm.trans found'
  have recorded := valid.cores jobId
  rw [heldCores, held_running found runs] at recorded ⊢
  rw [WorkerHandle.releasedCores]
  cases stored : job.allocatedCores.get? workerId <;> simp [recorded, stored, HashMap.getD]

theorem Lists.not_running (valid : Lists jobs workerId worker) (absent : jobId ∉ worker.assignedJobs)
    (job : JobInfo) (found : jobs.get? jobId = some job) : job.runsOn workerId = false := by
  cases runs : job.runsOn workerId with
  | false => rfl
  | true => exact absurd ((valid jobId).mpr ⟨job, found, runs⟩) absent

private theorem assigned_release (valid : Lists jobs workerId worker) (closes : Closes jobs jobs' jobId)
    (other : JobId) : other ≠ jobId ∧ other ∈ worker.assignedJobs ↔
      ∃ job, jobs'.get? other = some job ∧ job.runsOn workerId = true := by
  rw [valid other]
  constructor
  · rintro ⟨different, running⟩
    rwa [closes.others other different]
  · rintro ⟨job, found, runs⟩
    have different : other ≠ jobId := by
      intro same
      subst same
      exact closes.closed job found (runsOn_iff.mp runs).1
    rw [closes.others other different] at found
    exact ⟨different, job, found, runs⟩

theorem Lists.held_none {α : Type} (read : JobInfo → WorkerId → Option α)
    (assigned : Lists jobs' workerId worker)
    (empty : worker.assignedJobs.isEmpty = true) (other : JobId) : held read jobs' workerId other = none := by
  apply held_idle
  intro job found
  cases runs : job.runsOn workerId with
  | false => rfl
  | true => exact absurd ((assigned other).mpr ⟨job, found, runs⟩) (HashSet.isEmpty_iff.mp empty other)

theorem Closes.sameOn (closes : Closes jobs jobs' jobId)
    (elsewhere : ∀ job, jobs.get? jobId = some job → job.runsOn workerId = false) : SameOn jobs jobs' workerId := by
  intro other
  by_cases same : other = jobId
  · subst same
    exact .inr ⟨elsewhere, fun job found => runsOn_of_not_running (closes.closed job found) workerId⟩
  · exact .inl (by rw [closes.others other same])

theorem Lists.release (valid : Lists jobs workerId worker) (closes : Closes jobs jobs' jobId) (job : JobInfo) :
    Lists jobs' workerId (worker.releaseJob workerId jobId job) := fun other =>
  WorkerHandle.mem_releaseJob.trans (assigned_release valid closes other)

theorem HandleOk.release (valid : HandleOk jobs workerId worker) (found : jobs.get? jobId = some job)
    (closes : Closes jobs jobs' jobId) : HandleOk jobs' workerId (worker.releaseJob workerId jobId job) := by
  have assigned := valid.assigned.release closes job
  by_cases listed : jobId ∈ worker.assignedJobs
  · refine ⟨assigned, ?_, ?_⟩
    · intro other
      simp only [WorkerHandle.releaseJob, listed, ↓reduceIte, HashMap.get?_remove, valid.cores, heldCores,
        closes.held_eq]
    · have idle := Lists.held_none (fun job workerId => job.allocatedCores.get? workerId) assigned
      simp only [WorkerHandle.releaseJob, listed, ↓reduceIte] at idle ⊢
      split
      · rename_i empty
        exact Pool.apart_range _ (idle empty)
      · rw [valid.released_cores found listed]
        exact valid.apart.give (closes.held_eq _ workerId)
  · rw [WorkerHandle.releaseJob_of_notMem listed]
    exact valid.keep (closes.sameOn (valid.assigned.not_running listed))

theorem HandleMatches.recovered_gres (valid : HandleMatches jobs workerId worker)
    (found : jobs.get? jobId = some job) (listed : jobId ∈ worker.assignedJobs) (name : String) :
    ((worker.recoveredGresIds workerId jobId job).get? name).getD [] =
      Pool.reclaim (worker.resources.gresCount name) (worker.freeGres name)
        ((heldGresIds jobs workerId name jobId).getD []) := by
  obtain ⟨job', found', runs⟩ := (valid.assigned jobId).mp listed
  cases found.symm.trans found'
  have recorded := valid.gres jobId
  have heldMap : heldGres jobs workerId jobId = job.allocatedGres.get? workerId := held_running found runs
  have unchanged : Pool.reclaim (worker.resources.gresCount name) (worker.freeGres name) [] =
      worker.freeGres name := Pool.reclaim_nil (valid.gresApart name).ascending
  rw [heldMap] at recorded
  rw [WorkerHandle.recoveredGresIds, recorded, heldGresIds, heldMap]
  cases stored : job.allocatedGres.get? workerId with
  | none => exact unchanged.symm
  | some jobGres =>
    simp only [Option.some_or, Option.bind_some, HashMap.get?_updateEntries]
    cases jobGres.get? name with
    | none => exact unchanged.symm
    | some units => rfl

/-- What the release of a job leaves free: all the worker has once it is idle, else
the former free units and those of the job. -/
theorem HandleMatches.released (valid : HandleMatches jobs workerId worker) (found : jobs.get? jobId = some job)
    (closes : Closes jobs jobs' jobId) (listed : jobId ∈ worker.assignedJobs) :
    let released := worker.releaseJob workerId jobId job
    (released.availableCoreIds = List.range worker.resources.cpuCores ∧
      (∀ name, released.freeGres name = List.range (worker.resources.gresCount name)) ∧
      (∀ other, heldCores jobs' workerId other = none) ∧ ∀ name other, heldGresIds jobs' workerId name other = none) ∨
    (released.availableCoreIds = Pool.reclaim worker.resources.cpuCores worker.availableCoreIds
        ((heldCores jobs workerId jobId).getD []) ∧
      ∀ name, released.freeGres name = Pool.reclaim (worker.resources.gresCount name) (worker.freeGres name)
        ((heldGresIds jobs workerId name jobId).getD [])) := by
  intro released
  have assigned : Lists jobs' workerId released := valid.assigned.release closes job
  by_cases empty : (worker.assignedJobs.remove jobId).isEmpty = true
  · have none {α : Type} (read : JobInfo → WorkerId → Option α) (other : JobId) : held read jobs' workerId other = none := by
      refine Lists.held_none read assigned ?_ other
      simpa only [released, WorkerHandle.releaseJob, listed, ↓reduceIte] using empty
    refine .inl ⟨?_, fun name => ?_, none _, fun name other => ?_⟩
    · simp only [released, WorkerHandle.releaseJob, listed, empty, ↓reduceIte]
    · simp only [released, WorkerHandle.freeGres, WorkerHandle.releaseJob, listed, empty, ↓reduceIte, freeGres_idle]
    · rw [heldGresIds, heldGres, none]
      rfl
  · refine .inr ⟨?_, fun name => ?_⟩
    · simp only [released, WorkerHandle.releaseJob, listed, empty, ↓reduceIte, Bool.false_eq_true,
        valid.released_cores found listed]
    · simp only [released, WorkerHandle.freeGres, WorkerHandle.releaseJob, listed, empty, ↓reduceIte, Bool.false_eq_true]
      exact valid.recovered_gres found listed name

theorem HandleMatches.release (valid : HandleMatches jobs workerId worker) (found : jobs.get? jobId = some job)
    (closes : Closes jobs jobs' jobId) : HandleMatches jobs' workerId (worker.releaseJob workerId jobId job) := by
  by_cases listed : jobId ∈ worker.assignedJobs
  · refine ⟨valid.toHandleOk.release found closes, fun other => ?_, fun name => ?_⟩
    · simp only [WorkerHandle.releaseJob, listed, ↓reduceIte, HashMap.get?_remove, valid.gres, heldGres,
        closes.held_eq]
    · rcases valid.released found closes listed with ⟨_, free, _, idle⟩ | ⟨_, free⟩
      · rw [free]
        exact Pool.apart_range _ (idle name)
      · rw [free]
        exact (valid.gresApart name).give (closes.heldGresIds_eq workerId name)
  · rw [WorkerHandle.releaseJob_of_notMem listed]
    exact valid.keep (closes.sameOn (valid.assigned.not_running listed))

theorem HandleFull.release (valid : HandleFull jobs workerId worker) (found : jobs.get? jobId = some job)
    (closes : Closes jobs jobs' jobId) : HandleFull jobs' workerId (worker.releaseJob workerId jobId job) := by
  by_cases listed : jobId ∈ worker.assignedJobs
  · obtain ⟨ok, gres, gresApart⟩ := valid.matches.release found closes
    have gone (other : JobId) (member : other ∈ worker.assignedJobs.remove jobId) :
        jobMemory jobs' other = jobMemory jobs other := by
      rw [jobMemory, jobMemory, closes.others other (HashSet.mem_remove.mp member).1]
    have charged : jobMemory jobs jobId = job.reqMemory := by simp [jobMemory, found]
    have total := HashSet.sum_remove listed (jobMemory jobs)
    refine ⟨ok, ?_, gres, gresApart, fun name => ?_, ?_, ?_⟩
    · rw [WorkerHandle.releaseJob_resources]
      rcases valid.matches.released found closes listed with ⟨free, _, idle, _⟩ | ⟨free, _⟩
      · rw [free]
        exact Pool.covers_range _ idle
      · rw [free]
        exact valid.covers.give (closes.held_eq _ workerId)
    · rw [WorkerHandle.releaseJob_resources]
      rcases valid.matches.released found closes listed with ⟨_, free, _, idle⟩ | ⟨_, free⟩
      · rw [free]
        exact Pool.covers_range _ (idle name)
      · rw [free]
        exact (valid.gresCovers name).give (closes.heldGresIds_eq workerId name)
    · simp only [WorkerHandle.releaseJob, listed, ↓reduceIte]
      rw [HashSet.sum_congr gone, valid.memory, total, charged]
      omega
    · simp only [WorkerHandle.releaseJob, listed, ↓reduceIte]
      exact Nat.le_trans (Nat.sub_le _ _) valid.memoryBound
  · rw [WorkerHandle.releaseJob_of_notMem listed]
    exact valid.keep (closes.sameOn (valid.assigned.not_running listed))

end Veloce
