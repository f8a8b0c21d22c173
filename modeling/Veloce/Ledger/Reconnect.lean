import Veloce.Ledger.Exclusive

/-! Reconnecting changes no allocation: what a registration rebuilds from the job
table is what drains, releases and resets have left in the handle. -/

namespace Veloce

open Collections

/-- Beyond full ledgers, the handle has a free list for exactly the GRES kinds of
its worker, and jobs hold ids of these kinds only. -/
structure HandleExact (jobs : HashMap JobId JobInfo) (workerId : WorkerId) (worker : WorkerHandle) :
    Prop extends HandleFull jobs workerId worker where
  kinds : ∀ name, worker.availableGresIds.contains name = worker.resources.gres.contains name
  named : ∀ jobId gres, heldGres jobs workerId jobId = some gres →
    ∀ name, gres.contains name = true → worker.resources.gres.contains name = true

namespace HandleExact

variable {jobs jobs' : HashMap JobId JobInfo} {workerId : WorkerId} {worker allocated : WorkerHandle}
  {jobId : JobId} {job started : JobInfo}

theorem contains_gresIds (resources : Resources) (name : String) :
    resources.gresIds.contains name = resources.gres.contains name := by
  rw [Resources.gresIds, HashMap.contains, HashMap.get?_updateEntries, HashMap.contains]
  cases resources.gres.get? name <;> rfl

theorem keep (valid : HandleExact jobs workerId worker) (same : SameOn jobs jobs' workerId) :
    HandleExact jobs' workerId worker where
  toHandleFull := valid.toHandleFull.keep same
  kinds := valid.kinds
  named jobId gres taken := valid.named jobId gres ((same.gres jobId).symm.trans taken)

/-- A table in which the worker's jobs hold no more than before. -/
theorem named_of_fewer (valid : HandleExact jobs workerId worker)
    (fewer : ∀ jobId gres, heldGres jobs' workerId jobId = some gres → heldGres jobs workerId jobId = some gres) :
    ∀ jobId gres, heldGres jobs' workerId jobId = some gres →
      ∀ name, gres.contains name = true → worker.resources.gres.contains name = true :=
  fun jobId gres taken => valid.named jobId gres (fewer jobId gres taken)

theorem close_fewer (closes : Closes jobs jobs' jobId) (other : JobId) (gres : HashMap String (List Nat))
    (taken : heldGres jobs' workerId other = some gres) : heldGres jobs workerId other = some gres := by
  rw [heldGres, closes.held_eq] at taken
  split at taken
  · cases taken
  · exact taken

/-- The recovered ids are of kinds that have a free list already. -/
theorem recovered_kinds (valid : HandleExact jobs workerId worker) (found : jobs.get? jobId = some job)
    (listed : jobId ∈ worker.assignedJobs) (name : String) :
    (worker.recoveredGresIds workerId jobId job).contains name = worker.resources.gres.contains name := by
  obtain ⟨job', found', runs⟩ := (valid.assigned jobId).mp listed
  cases found.symm.trans found'
  have taken : heldGres jobs workerId jobId = job.allocatedGres.get? workerId := held_running found runs
  rw [WorkerHandle.recoveredGresIds, valid.gres, taken, Option.or_self]
  cases stored : job.allocatedGres.get? workerId with
  | none => exact valid.kinds name
  | some gres =>
    simp only [HashMap.contains, HashMap.get?_updateEntries]
    cases given : gres.get? name with
    | none => exact valid.kinds name
    | some ids =>
      have known := valid.named jobId gres (taken.trans stored) name (by simp [HashMap.contains, given])
      exact known.symm

theorem release (valid : HandleExact jobs workerId worker) (found : jobs.get? jobId = some job)
    (closes : Closes jobs jobs' jobId) : HandleExact jobs' workerId (worker.releaseJob workerId jobId job) := by
  by_cases listed : jobId ∈ worker.assignedJobs
  · refine ⟨valid.toHandleFull.release found closes, ?_, ?_⟩
    · intro name
      rw [WorkerHandle.releaseJob_resources]
      simp only [WorkerHandle.releaseJob, listed, ↓reduceIte]
      split
      · exact contains_gresIds worker.resources name
      · exact valid.recovered_kinds found listed name
    · rw [WorkerHandle.releaseJob_resources]
      exact valid.named_of_fewer (close_fewer closes)
  · rw [WorkerHandle.releaseJob_of_notMem listed]
    exact valid.keep (closes.sameOn (valid.assigned.not_running listed))

theorem allocate (valid : HandleExact jobs workerId worker) (opens : Opens jobs jobs' job.id started)
    (drained : worker.allocateJob job = some allocated) (records : Records started job.id workerId allocated)
    (memory : started.reqMemory = job.reqMemory)
    (room : worker.allocatedMemory + job.reqMemory ≤ worker.resources.totalMb) :
    HandleExact jobs' workerId allocated := by
  have full := valid.toHandleFull.allocate opens drained records memory room
  obtain ⟨_, same⟩ := allocateJob_eq drained
  have resources : allocated.resources = worker.resources := by rw [same]
  refine ⟨full, ?_, ?_⟩
  · intro name
    rw [resources, ← valid.kinds name, same]
    simp only [HashMap.contains, HashMap.get?_updateEntries]
    cases job.gresReq.get? name with
    | none => rfl
    | some amount => cases worker.availableGresIds.get? name <;> rfl
  · intro other gres taken name contained
    rw [resources]
    rw [heldGres, opens.held_eq, if_pos records.node] at taken
    split at taken
    · -- The share of the job is drained from the free lists, so it names no other kind.
      rw [records.gres, same, HashMap.get?_insert_self] at taken
      rw [← valid.kinds name]
      cases taken
      simp only [HashMap.contains, HashMap.get?_updateEntries] at contained ⊢
      cases free : worker.availableGresIds.get? name with
      | some ids => rfl
      | none =>
        rw [free] at contained
        cases asked : job.gresReq.get? name <;> simp [asked] at contained
    · exact valid.named other gres taken name contained

theorem ledger {worker' : WorkerHandle} (valid : HandleExact jobs workerId worker)
    (same : SameLedger worker worker') : HandleExact jobs workerId worker' where
  toHandleFull := valid.toHandleFull.ledger same
  kinds name := by
    rw [same.resources, same.availableGresIds]
    exact valid.kinds name
  named jobId gres taken := by
    rw [same.resources]
    exact valid.named jobId gres taken

theorem rebuild_kinds (workerId : WorkerId) (resources : Resources) (jobs : HashMap JobId JobInfo) (name : String) :
    (rebuildWorkerAllocations workerId resources jobs).availableGresIds.contains name =
      resources.gres.contains name := by
  have adopted (start : RebuiltWorkerAllocations) (job : JobInfo) :
      (start.adopt workerId job).availableGresIds.contains name = start.availableGresIds.contains name := by
    unfold RebuiltWorkerAllocations.adopt
    split
    · cases job.allocatedGres.get? workerId with
      | none => rfl
      | some gres =>
        simp only [HashMap.contains, HashMap.get?_updateEntries]
        cases gres.get? name with
        | none => rfl
        | some ids => cases start.availableGresIds.get? name <;> rfl
    · rfl
  rw [rebuildWorkerAllocations]
  refine List.foldlRecOn (motive := fun (rebuilt : RebuiltWorkerAllocations) =>
    rebuilt.availableGresIds.contains name = resources.gres.contains name) jobs.values _ ?_ ?_
  · exact contains_gresIds resources name
  · intro start same job _
    exact (adopted start job).trans same

theorem rebuild {old : WorkerHandle} (keyed : Keyed jobs) (valid : HandleExact jobs workerId old)
    (same : worker.resources = old.resources)
    (rebuilt : Rebuilt (rebuildWorkerAllocations workerId worker.resources jobs) worker) :
    HandleExact jobs workerId worker where
  toHandleFull := valid.toHandleFull.rebuild keyed same rebuilt
  kinds name := by
    rw [rebuilt.availableGresIds]
    exact rebuild_kinds workerId worker.resources jobs name
  named := by
    rw [same]
    exact valid.named

theorem idle (rebuilt : Rebuilt (.idle worker.resources) worker)
    (unused : ∀ jobId job, jobs.get? jobId = some job → job.runsOn workerId = false) :
    HandleExact jobs workerId worker where
  toHandleFull := HandleFull.idle rebuilt unused
  kinds name := by
    rw [rebuilt.availableGresIds]
    exact contains_gresIds worker.resources name
  named jobId gres taken := by
    rw [heldGres, held_idle (unused jobId)] at taken
    cases taken

theorem handles : HandleRule HandleExact where
  ledgers :=
    { congr := fun valid same => valid.keep (same.sameOn _)
      release := release
      closeElsewhere := fun valid closes elsewhere => valid.keep (closes.sameOn elsewhere)
      allocate := allocate
      openElsewhere := fun valid opens elsewhere => valid.keep (opens.sameOn elsewhere) }
  full valid := valid.toHandleFull
  ledger := ledger
  rebuild := rebuild
  idle := idle

end HandleExact

/-- The allocations a handle keeps, in the form in which they are rebuilt. -/
def WorkerHandle.allocations (worker : WorkerHandle) : RebuiltWorkerAllocations where
  assignedJobs := worker.assignedJobs
  allocatedMemory := worker.allocatedMemory
  availableCoreIds := worker.availableCoreIds
  jobCoreAssignments := worker.jobCoreAssignments
  availableGresIds := worker.availableGresIds
  jobGresAssignments := worker.jobGresAssignments

/-- Equal allocations: sets and maps by their members, lists by their order. -/
structure SameAllocations (allocations allocations' : RebuiltWorkerAllocations) : Prop where
  assignedJobs : ∀ jobId, jobId ∈ allocations.assignedJobs ↔ jobId ∈ allocations'.assignedJobs
  allocatedMemory : allocations.allocatedMemory = allocations'.allocatedMemory
  availableCoreIds : allocations.availableCoreIds = allocations'.availableCoreIds
  jobCoreAssignments : ∀ jobId,
    allocations.jobCoreAssignments.get? jobId = allocations'.jobCoreAssignments.get? jobId
  availableGresIds : ∀ name, allocations.availableGresIds.get? name = allocations'.availableGresIds.get? name
  jobGresAssignments : ∀ jobId,
    allocations.jobGresAssignments.get? jobId = allocations'.jobGresAssignments.get? jobId

structure RebuiltWorkerAllocations.Ascending (allocations : RebuiltWorkerAllocations) : Prop where
  cores : allocations.availableCoreIds.Pairwise (· < ·)
  gres : ∀ name ids, allocations.availableGresIds.get? name = some ids → ids.Pairwise (· < ·)

variable {jobs : HashMap JobId JobInfo}

variable {workerId : WorkerId}

theorem HandleExact.ascending {worker : WorkerHandle} (valid : HandleExact jobs workerId worker) :
    worker.allocations.Ascending where
  cores := valid.apart.ascending
  gres name ids found := by
    have ascending := (valid.gresApart name).ascending
    have free : worker.availableGresIds.get? name = some ids := found
    rwa [WorkerHandle.freeGres, free] at ascending

/-- Two handles that agree with the same table and report the same resources keep
the same allocations. -/
theorem HandleExact.unique {worker worker' : WorkerHandle} (valid : HandleExact jobs workerId worker)
    (valid' : HandleExact jobs workerId worker') (resources : worker'.resources = worker.resources) :
    SameAllocations worker.allocations worker'.allocations where
  assignedJobs jobId := (valid.assigned jobId).trans (valid'.assigned jobId).symm
  allocatedMemory := by
    have members (jobId : JobId) : jobId ∈ worker.assignedJobs ↔ jobId ∈ worker'.assignedJobs :=
      (valid.assigned jobId).trans (valid'.assigned jobId).symm
    exact valid.memory.trans ((HashSet.sum_eq_of_mem_iff members _).trans valid'.memory.symm)
  availableCoreIds := Pool.free_unique valid.apart valid'.apart valid.covers (resources ▸ valid'.covers)
  jobCoreAssignments jobId := (valid.cores jobId).trans (valid'.cores jobId).symm
  availableGresIds name := by
    have free : worker.freeGres name = worker'.freeGres name :=
      Pool.free_unique (valid.gresApart name) (valid'.gresApart name) (valid.gresCovers name)
        (resources ▸ valid'.gresCovers name)
    have kinds : worker.availableGresIds.contains name = worker'.availableGresIds.contains name := by
      rw [valid.kinds, valid'.kinds, resources]
    simp only [WorkerHandle.freeGres, HashMap.contains] at free kinds
    simp only [WorkerHandle.allocations]
    cases mine : worker.availableGresIds.get? name with
    | none =>
      cases yours : worker'.availableGresIds.get? name with
      | none => rfl
      | some ids' => simp [mine, yours] at kinds
    | some ids =>
      cases yours : worker'.availableGresIds.get? name with
      | none => simp [mine, yours] at kinds
      | some ids' => simpa [mine, yours] using free
  jobGresAssignments jobId := (valid.gres jobId).trans (valid'.gres jobId).symm

def WorkerHandle.adopting (worker : WorkerHandle) (rebuilt : RebuiltWorkerAllocations) : WorkerHandle :=
  { worker with
    assignedJobs := rebuilt.assignedJobs
    allocatedMemory := rebuilt.allocatedMemory
    availableCoreIds := rebuilt.availableCoreIds
    jobCoreAssignments := rebuilt.jobCoreAssignments
    availableGresIds := rebuilt.availableGresIds
    jobGresAssignments := rebuilt.jobGresAssignments }

theorem HandleExact.rebuilt {worker : WorkerHandle} (valid : HandleExact jobs workerId worker) (keyed : Keyed jobs) :
    SameAllocations (rebuildWorkerAllocations workerId worker.resources jobs) worker.allocations ∧
    (rebuildWorkerAllocations workerId worker.resources jobs).Ascending := by
  have again : HandleExact jobs workerId
      (worker.adopting (rebuildWorkerAllocations workerId worker.resources jobs)) :=
    valid.rebuild keyed rfl ⟨rfl, rfl, rfl, rfl, rfl, rfl⟩
  exact ⟨again.unique valid rfl, again.ascending⟩

def ConstantStep (reports : WorkerId → Resources) (ctx : ControllerContext) (op : LedgerOp)
    (next : ControllerContext) : Prop :=
  op.Constant reports ctx ∧ op.apply ctx = some next

theorem exact_of_reach {reports : WorkerId → Resources} {ctx : ControllerContext}
    (reached : Reach EmptyLeader (ConstantStep reports) ctx) : Balanced HandleExact reports [] ctx.state := by
  refine reached.invariant (fun ctx => Balanced HandleExact reports [] ctx.state) ?_ ?_
  · intro ctx empty
    exact balanced_empty empty
  · intro ctx op next valid step
    exact valid.apply HandleExact.handles step.1 step.2

/-- In every reachable state a rebuild of a worker's allocations returns the current
ones, with the free lists in the same ascending order, and a worker that registers
again keeps them. -/
theorem reconnect_keeps_allocations (reports : WorkerId → Resources) {ctx : ControllerContext}
    (reached : Reach EmptyLeader (ConstantStep reports) ctx) {workerId : WorkerId} {worker : WorkerHandle}
    (found : ctx.state.workers.get? workerId = some worker) :
    worker.resources = reports workerId ∧
    SameAllocations (rebuildWorkerAllocations workerId worker.resources ctx.state.jobs) worker.allocations ∧
    (rebuildWorkerAllocations workerId worker.resources ctx.state.jobs).Ascending ∧
    worker.allocations.Ascending ∧
    ∀ (registration : Registration) (now : Nat), registration.workerId = workerId →
      registration.resources = reports workerId →
      ∃ worker', (ctx.state.registerWorker registration now).workers.get? workerId = some worker' ∧
        SameAllocations worker'.allocations worker.allocations := by
  have balanced := exact_of_reach reached
  have valid := balanced.agrees workerId worker found
  have reported := balanced.reported workerId worker found
  obtain ⟨same, ascending⟩ := valid.rebuilt balanced.keyed
  refine ⟨reported, same, ascending, valid.ascending, ?_⟩
  intro registration now mine constant
  subst mine
  refine ⟨_, HashMap.get?_insert_self _ _ _, ?_⟩
  rw [reported] at same
  rw [constant]
  exact same

/-- The GPU worker registers again while it runs one job. -/
theorem reconnect_keeps_allocations_gpu_worker : ∃ ctx worker,
    Reach EmptyLeader (ConstantStep fun _ => sampleResources) ctx ∧
    ctx.state.workers.get? "w1" = some worker ∧ worker.availableCoreIds = [2, 3] ∧
    SameAllocations (rebuildWorkerAllocations "w1" worker.resources ctx.state.jobs) worker.allocations := by
  let job : JobInfo := { (sampleSubmission 1 .production 1 "sh").job with
    reqCores := 2, gresReq := HashMap.ofList [("gpu", 1)] }
  let submission : Submission := ⟨job, rfl, rfl, ⟨rfl, rfl⟩, rfl⟩
  let ops : List LedgerOp := [.register (sampleRegistration "w1") 100, .submit submission 2, .schedule { now := 100 }]
  obtain ⟨ctx, ran⟩ : ∃ ctx, runLabels LedgerOp.apply ops sampleLeader = some ctx :=
    Option.isSome_iff_exists.mp (by decide +kernel)
  have free : ((runLabels LedgerOp.apply ops sampleLeader).bind fun ctx =>
      (ctx.state.workers.get? "w1").map fun worker => worker.availableCoreIds) = some [2, 3] := by
    decide +kernel
  have permitted : AllowedRun (fun ctx op => LedgerOp.Constant (fun _ => sampleResources) ctx op) LedgerOp.apply
      ops sampleLeader := by
    refine ⟨rfl, fun registered taken => ?_⟩
    cases taken
    exact ⟨rfl, fun _ _ => ⟨trivial, fun _ _ => trivial⟩⟩
  have reached : Reach EmptyLeader (ConstantStep fun _ => sampleResources) ctx :=
    runLabels_reach (.start ⟨rfl, rfl, rfl⟩) permitted ran
  rw [ran] at free
  obtain ⟨worker, found, cores⟩ := Option.map_eq_some_iff.mp free
  exact ⟨ctx, worker, reached, found, cores, (reconnect_keeps_allocations _ reached found).2.1⟩

end Veloce
