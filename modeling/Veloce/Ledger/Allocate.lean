import Veloce.Ledger.Release
import Veloce.Scheduler.PassSpec

/-! Allocating a job keeps every handle in agreement with the table: the drained
units belong to the job exactly when it starts running. -/

namespace Veloce

open Collections

theorem get?_allocateNodes {job : JobInfo} : ∀ {nodes : List WorkerId}
    {workers workers' : HashMap WorkerId WorkerHandle}, nodes.Nodup →
    allocateNodes job nodes workers = some workers' → ∀ workerId,
      (workerId ∉ nodes → workers'.get? workerId = workers.get? workerId) ∧
      (workerId ∈ nodes → match workers.get? workerId with
        | some worker => ∃ allocated, worker.allocateJob job = some allocated ∧
            workers'.get? workerId = some allocated
        | none => workers'.get? workerId = none) := by
  intro nodes
  induction nodes with
  | nil =>
    intro workers workers' _ allocated workerId
    cases allocated
    exact ⟨fun _ => rfl, fun member => absurd member List.not_mem_nil⟩
  | cons node rest ih =>
    intro workers workers' distinct allocated workerId
    obtain ⟨fresh, restDistinct⟩ := List.nodup_cons.mp distinct
    unfold allocateNodes at allocated
    split at allocated
    · rename_i missing
      obtain ⟨outside, inside⟩ := ih restDistinct allocated workerId
      constructor
      · intro absent
        exact outside fun later => absent (List.mem_cons_of_mem _ later)
      · intro member
        rcases List.mem_cons.mp member with same | later
        · subst same
          rw [missing]
          exact (outside fresh).trans missing
        · exact inside later
    · rename_i worker found
      split at allocated
      · cases allocated
      · rename_i updated drained
        obtain ⟨outside, inside⟩ := ih restDistinct allocated workerId
        rw [HashMap.get?_insert] at outside inside
        constructor
        · intro absent
          have different : workerId ≠ node := fun same => absent (same ▸ List.mem_cons_self)
          rw [outside fun later => absent (List.mem_cons_of_mem _ later), if_neg different]
        · intro member
          by_cases same : workerId = node
          · subst same
            rw [if_pos rfl] at outside
            rw [found]
            exact ⟨updated, drained, outside fresh⟩
          · rw [if_neg same] at inside
            exact inside ((List.mem_cons.mp member).resolve_left same)

theorem allocateNodes_isSome {job : JobInfo} : ∀ {nodes : List WorkerId}
    {workers : HashMap WorkerId WorkerHandle}, nodes.Nodup →
    (∀ workerId ∈ nodes, ∀ worker, workers.get? workerId = some worker →
      ∃ allocated, worker.allocateJob job = some allocated) →
    ∃ workers', allocateNodes job nodes workers = some workers' := by
  intro nodes
  induction nodes with
  | nil => intro workers _ _; exact ⟨workers, rfl⟩
  | cons node rest ih =>
    intro workers distinct fits
    obtain ⟨fresh, restDistinct⟩ := List.nodup_cons.mp distinct
    unfold allocateNodes
    split
    · exact ih restDistinct fun workerId member => fits workerId (List.mem_cons_of_mem _ member)
    · rename_i worker found
      obtain ⟨updated, drained⟩ := fits node List.mem_cons_self worker found
      rw [drained]
      apply ih restDistinct
      intro workerId member worker' found'
      have different : workerId ≠ node := fun same => fresh (same ▸ member)
      rw [HashMap.get?_insert, if_neg different] at found'
      exact fits workerId (List.mem_cons_of_mem _ member) worker' found'

theorem get?_collectNodes {α : Type} (workers : HashMap WorkerId WorkerHandle) (nodes : List WorkerId)
    (read : WorkerHandle → Option α) (workerId : WorkerId) :
    (collectNodes workers nodes read).get? workerId =
      if workerId ∈ nodes then (workers.get? workerId).bind read else none := by
  have folded : ∀ (nodes : List WorkerId) (map : HashMap WorkerId α),
      ((nodes.filterMap fun node => ((workers.get? node).bind read).map fun value => (node, value)).foldl
        (fun map pair => map.insert pair.1 pair.2) map).get? workerId =
      if workerId ∈ nodes then ((workers.get? workerId).bind read).or (map.get? workerId)
      else map.get? workerId := by
    intro nodes
    induction nodes with
    | nil => intro map; simp
    | cons node rest ih =>
      intro map
      rw [List.filterMap_cons]
      cases value : (workers.get? node).bind read with
      | none =>
        rw [Option.map_none, ih]
        by_cases same : workerId = node
        · subst same
          simp [value]
        · simp [same]
      | some stored =>
        rw [Option.map_some, List.foldl_cons, ih, HashMap.get?_insert]
        by_cases same : workerId = node
        · subst same
          simp [value]
        · simp [same]
  rw [collectNodes, HashMap.ofList, folded]
  simp

/-- In the later table the job has started; the others are untouched. -/
structure Opens (jobs jobs' : HashMap JobId JobInfo) (jobId : JobId) (started : JobInfo) : Prop where
  idle : ∀ job, jobs.get? jobId = some job → job.status ≠ .running
  opened : jobs'.get? jobId = some started
  running : started.status = .running
  others : ∀ other, other ≠ jobId → jobs'.get? other = jobs.get? other

variable {jobs jobs' : HashMap JobId JobInfo} {jobId : JobId} {started job : JobInfo}
  {workerId : WorkerId} {worker allocated : WorkerHandle}

theorem Opens.runsOn (opens : Opens jobs jobs' jobId started) :
    started.runsOn workerId = true ↔ workerId ∈ started.assignedWorkers := by
  rw [runsOn_iff]
  exact and_iff_right opens.running

theorem Opens.held_eq {α : Type} (read : JobInfo → WorkerId → Option α)
    (opens : Opens jobs jobs' jobId started) (workerId : WorkerId) (other : JobId) :
    held read jobs' workerId other =
      if other = jobId then (if workerId ∈ started.assignedWorkers then read started workerId else none)
      else held read jobs workerId other := by
  split
  · rename_i same
    subst same
    simp [held, opens.opened, opens.runsOn]
  · rename_i different
    rw [held, held, opens.others other different]

theorem Opens.held_before {α : Type} (read : JobInfo → WorkerId → Option α)
    (opens : Opens jobs jobs' jobId started) (workerId : WorkerId) : held read jobs workerId jobId = none :=
  held_idle fun job found => runsOn_of_not_running (opens.idle job found) workerId

theorem Opens.sameOn (opens : Opens jobs jobs' jobId started) (elsewhere : workerId ∉ started.assignedWorkers) :
    SameOn jobs jobs' workerId := by
  intro other
  by_cases same : other = jobId
  · subst same
    refine .inr ⟨fun job found => runsOn_of_not_running (opens.idle job found) workerId, fun job found => ?_⟩
    cases opens.opened.symm.trans found
    exact Bool.eq_false_iff.mpr fun runs => elsewhere (opens.runsOn.mp runs)
  · exact .inl (by rw [opens.others other same])

theorem Opens.assigned_iff (opens : Opens jobs jobs' jobId started) (valid : Lists jobs workerId worker)
    (other : JobId) : (∃ job, jobs'.get? other = some job ∧ job.runsOn workerId = true) ↔
      (other = jobId ∧ workerId ∈ started.assignedWorkers) ∨ other ∈ worker.assignedJobs := by
  rw [valid other]
  by_cases same : other = jobId
  · subst same
    rw [opens.opened]
    constructor
    · rintro ⟨job, found, runs⟩
      cases found
      exact .inl ⟨rfl, opens.runsOn.mp runs⟩
    · rintro (⟨_, node⟩ | ⟨job, found, runs⟩)
      · exact ⟨started, rfl, opens.runsOn.mpr node⟩
      · exact absurd (runsOn_iff.mp runs).1 (opens.idle job found)
  · rw [opens.others other same]
    simp [same]

theorem allocateJob_eq (drained : worker.allocateJob job = some allocated) :
    job.reqCores ≤ worker.availableCoreIds.length ∧ allocated = { worker with
      assignedJobs := worker.assignedJobs.insert job.id
      allocatedMemory := addU64 worker.allocatedMemory job.reqMemory
      availableCoreIds := worker.availableCoreIds.drop job.reqCores
      jobCoreAssignments :=
        worker.jobCoreAssignments.insert job.id (worker.availableCoreIds.take job.reqCores)
      availableGresIds := job.gresReq.updateEntries
        (fun _ reqCount ids => ids.map (·.drop reqCount)) worker.availableGresIds
      jobGresAssignments := worker.jobGresAssignments.insert job.id
        (job.gresReq.updateEntries
          (fun name reqCount _ => (worker.availableGresIds.get? name).map (·.take reqCount)) ∅) } := by
  unfold WorkerHandle.allocateJob at drained
  simp only at drained
  split at drained
  · rename_i room
    exact ⟨room.1, (Option.some.inj drained).symm⟩
  · cases drained

/-- The record of the started job repeats what the worker drained for it. -/
structure Records (started : JobInfo) (jobId : JobId) (workerId : WorkerId) (allocated : WorkerHandle) :
    Prop where
  node : workerId ∈ started.assignedWorkers
  cores : started.allocatedCores.get? workerId = allocated.jobCoreAssignments.get? jobId
  gres : started.allocatedGres.get? workerId = allocated.jobGresAssignments.get? jobId

theorem Lists.allocate (valid : Lists jobs workerId worker) (opens : Opens jobs jobs' job.id started)
    (drained : worker.allocateJob job = some allocated) (node : workerId ∈ started.assignedWorkers) :
    Lists jobs' workerId allocated := by
  obtain ⟨_, same⟩ := allocateJob_eq drained
  subst same
  intro other
  rw [opens.assigned_iff valid, HashSet.mem_insert, and_iff_left node]

theorem Opens.heldCores_eq (opens : Opens jobs jobs' job.id started) (drained : worker.allocateJob job = some allocated)
    (records : Records started job.id workerId allocated) (other : JobId) : heldCores jobs' workerId other =
      if other = job.id then some (worker.availableCoreIds.take job.reqCores) else heldCores jobs workerId other := by
  obtain ⟨_, same⟩ := allocateJob_eq drained
  rw [heldCores, opens.held_eq, if_pos records.node, records.cores, same, HashMap.get?_insert_self]

theorem HandleOk.allocate (valid : HandleOk jobs workerId worker) (opens : Opens jobs jobs' job.id started)
    (drained : worker.allocateJob job = some allocated) (records : Records started job.id workerId allocated) :
    HandleOk jobs' workerId allocated := by
  have taken := opens.heldCores_eq drained records
  have assigned := valid.assigned.allocate opens drained records.node
  obtain ⟨_, same⟩ := allocateJob_eq drained
  subst same
  refine ⟨assigned, ?_, ?_⟩
  · intro other
    rw [taken, HashMap.get?_insert, valid.cores]
  · exact valid.apart.take job.reqCores taken

/-- Free GRES ids of one kind before and after the drains, and the job's share. -/
private theorem gres_drained (drained : worker.allocateJob job = some allocated) (name : String) :
    (allocated.freeGres name = worker.freeGres name ∧
      (allocated.jobGresAssignments.get? job.id).bind (·.get? name) = none) ∨
    ∃ amount, allocated.freeGres name = (worker.freeGres name).drop amount ∧
      (allocated.jobGresAssignments.get? job.id).bind (·.get? name) =
        some ((worker.freeGres name).take amount) := by
  obtain ⟨_, same⟩ := allocateJob_eq drained
  subst same
  simp only [WorkerHandle.freeGres, HashMap.get?_updateEntries, HashMap.get?_insert_self, Option.bind_some]
  cases job.gresReq.get? name with
  | none => exact .inl ⟨rfl, rfl⟩
  | some amount =>
    cases worker.availableGresIds.get? name with
    | none => exact .inl ⟨rfl, rfl⟩
    | some ids => exact .inr ⟨amount, rfl, rfl⟩

theorem Opens.heldGres_eq (opens : Opens jobs jobs' job.id started)
    (records : Records started job.id workerId allocated)
    (other : JobId) : heldGres jobs' workerId other =
      if other = job.id then allocated.jobGresAssignments.get? job.id else heldGres jobs workerId other := by
  rw [heldGres, opens.held_eq, if_pos records.node, records.gres]

theorem Opens.heldGresIds_before (opens : Opens jobs jobs' jobId started) (workerId : WorkerId) (name : String) :
    heldGresIds jobs workerId name jobId = none := by
  rw [heldGresIds, heldGres, opens.held_before]
  rfl

/-- Of each GRES kind the job takes a prefix of the free ids or nothing. -/
theorem Opens.gres_share (opens : Opens jobs jobs' job.id started) (drained : worker.allocateJob job = some allocated)
    (records : Records started job.id workerId allocated) (name : String) :
    (allocated.freeGres name = worker.freeGres name ∧
      ∀ other, heldGresIds jobs' workerId name other = heldGresIds jobs workerId name other) ∨
    ∃ amount, allocated.freeGres name = (worker.freeGres name).drop amount ∧
      ∀ other, heldGresIds jobs' workerId name other =
        if other = job.id then some ((worker.freeGres name).take amount)
        else heldGresIds jobs workerId name other := by
  have gresIds (other : JobId) : heldGresIds jobs' workerId name other =
      if other = job.id then (allocated.jobGresAssignments.get? job.id).bind (·.get? name)
      else heldGresIds jobs workerId name other := by
    rw [heldGresIds, opens.heldGres_eq records]
    split <;> rfl
  rcases gres_drained drained name with ⟨free, nothing⟩ | ⟨amount, free, taken⟩
  · refine .inl ⟨free, fun other => ?_⟩
    rw [gresIds, nothing]
    split
    · rename_i same
      rw [same, opens.heldGresIds_before]
    · rfl
  · refine .inr ⟨amount, free, fun other => ?_⟩
    rw [gresIds, taken]

theorem HandleMatches.allocate (valid : HandleMatches jobs workerId worker)
    (opens : Opens jobs jobs' job.id started) (drained : worker.allocateJob job = some allocated)
    (records : Records started job.id workerId allocated) : HandleMatches jobs' workerId allocated where
  toHandleOk := valid.toHandleOk.allocate opens drained records
  gres other := by
    obtain ⟨_, same⟩ := allocateJob_eq drained
    rw [opens.heldGres_eq records, same, HashMap.get?_insert, HashMap.get?_insert_self]
    split
    · rfl
    · exact valid.gres other
  gresApart name := by
    rcases opens.gres_share drained records name with ⟨free, same⟩ | ⟨amount, free, next⟩
    · rw [free]
      exact (valid.gresApart name).congr same
    · rw [free]
      exact (valid.gresApart name).take amount next

theorem HandleFull.allocate (valid : HandleFull jobs workerId worker)
    (opens : Opens jobs jobs' job.id started) (drained : worker.allocateJob job = some allocated)
    (records : Records started job.id workerId allocated) (memory : started.reqMemory = job.reqMemory)
    (room : worker.allocatedMemory + job.reqMemory ≤ worker.resources.totalMb) :
    HandleFull jobs' workerId allocated := by
  obtain ⟨ok, gres, gresApart⟩ := valid.matches.allocate opens drained records
  obtain ⟨_, same⟩ := allocateJob_eq drained
  have resources : allocated.resources = worker.resources := by rw [same]
  have fresh : job.id ∉ worker.assignedJobs := by
    intro member
    obtain ⟨job', found, runs⟩ := (valid.assigned job.id).mp member
    exact opens.idle job' found (runsOn_iff.mp runs).1
  refine ⟨ok, ?_, gres, gresApart, ?_, ?_, ?_⟩
  · rw [resources]
    have taken := opens.heldCores_eq drained records
    rw [same]
    exact valid.covers.take job.reqCores (opens.held_before _ workerId) taken
  · intro name
    rw [resources]
    rcases opens.gres_share drained records name with ⟨free, same⟩ | ⟨amount, free, next⟩
    · rw [free]
      exact (valid.gresCovers name).congr same
    · rw [free]
      exact (valid.gresCovers name).take amount (opens.heldGresIds_before workerId name) next
  · have charged : jobMemory jobs' job.id = job.reqMemory := by simp [jobMemory, opens.opened, memory]
    have others (other : JobId) (member : other ∈ worker.assignedJobs) :
        jobMemory jobs' other = jobMemory jobs other := by
      have different : other ≠ job.id := fun equal => fresh (equal ▸ member)
      rw [jobMemory, jobMemory, opens.others other different]
    rw [same, HashSet.sum_insert fresh, charged, HashSet.sum_congr others, ← valid.memory, Nat.add_comm]
    exact addU64_eq room worker.resources.totalMb_lt
  · rw [resources, same]
    exact (addU64_le _ _).trans room

end Veloce
