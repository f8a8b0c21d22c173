import Veloce.Ledger.Balanced

/-! Exclusive allocation on one leader: over every run of submissions, passes,
finalizations, preemptions, registrations, disconnections and timeouts, the
cores, GRES ids and memory of each worker are accounted for exactly once. -/

namespace Veloce

open Collections

/-- The invariant of a run in which worker `w` always reports `reports w`. The
jobs in `owed` may still run on a worker that has just been removed. -/
structure Consistent (reports : WorkerId → Resources) (owed : List JobId) (state : GlobalState) : Prop where
  keyed : Keyed state.jobs
  positive : ∀ jobId job, state.jobs.get? jobId = some job → 1 ≤ job.reqNodes
  present : ∀ jobId job, state.jobs.get? jobId = some job → job.status = .running →
    ∀ workerId ∈ job.assignedWorkers, jobId ∈ owed ∨ ∃ worker, state.workers.get? workerId = some worker
  reported : ∀ workerId worker, state.workers.get? workerId = some worker →
    worker.resources = reports workerId
  agrees : Agrees HandleFull state

variable {reports : WorkerId → Resources} {owed : List JobId} {state state' : GlobalState} {jobId : JobId}

theorem Consistent.balanced (valid : Consistent reports owed state) : Balanced HandleFull reports owed state :=
  ⟨valid.keyed, valid.present, valid.reported, valid.agrees⟩

theorem Balanced.consistent (valid : Balanced HandleFull reports owed state)
    (positive : ∀ jobId job, state.jobs.get? jobId = some job → 1 ≤ job.reqNodes) : Consistent reports owed state :=
  ⟨valid.keyed, positive, valid.present, valid.reported, valid.agrees⟩

theorem Descends.positive {jobs jobs' : HashMap JobId JobInfo} (descends : Descends jobs jobs')
    (positive : ∀ jobId job, jobs.get? jobId = some job → 1 ≤ job.reqNodes) (jobId : JobId) (job : JobInfo)
    (found : jobs'.get? jobId = some job) : 1 ≤ job.reqNodes := by
  obtain ⟨before, stored, same⟩ := descends jobId job found
  have nodes : job.reqNodes = before.reqNodes := congrArg (·.2.1) same
  rw [nodes]
  exact positive jobId before stored

theorem HandleFull.idle {jobs : HashMap JobId JobInfo} {workerId : WorkerId} {worker : WorkerHandle}
    (rebuilt : Rebuilt (.idle worker.resources) worker)
    (unused : ∀ jobId job, jobs.get? jobId = some job → job.runsOn workerId = false) :
    HandleFull jobs workerId worker := by
  have nothing {α : Type} (read : JobInfo → WorkerId → Option α) (jobId : JobId) :
      held read jobs workerId jobId = none := held_idle (unused jobId)
  have noGres (name : String) (jobId : JobId) : heldGresIds jobs workerId name jobId = none := by
    rw [heldGresIds, heldGres, nothing]
    rfl
  have freeGres (name : String) : worker.freeGres name = List.range (worker.resources.gresCount name) := by
    rw [WorkerHandle.freeGres, rebuilt.availableGresIds]
    exact freeGres_idle worker.resources name
  refine ⟨⟨?_, ?_, ?_⟩, ?_, ?_, ?_, ?_, ?_, ?_⟩
  · intro jobId
    rw [rebuilt.assignedJobs]
    constructor
    · intro member
      exact absurd member (HashSet.notMem_empty jobId)
    · rintro ⟨job, found, runs⟩
      rw [unused jobId job found] at runs
      cases runs
  · intro jobId
    rw [rebuilt.jobCoreAssignments, heldCores, nothing]
    rfl
  · rw [rebuilt.availableCoreIds]
    exact Pool.apart_range _ (nothing _)
  · rw [rebuilt.availableCoreIds]
    exact Pool.covers_range _ (nothing _)
  · intro jobId
    rw [rebuilt.jobGresAssignments, heldGres, nothing]
    rfl
  · intro name
    rw [freeGres]
    exact Pool.apart_range _ (noGres name)
  · intro name
    rw [freeGres]
    exact Pool.covers_range _ (noGres name)
  · rw [rebuilt.allocatedMemory, rebuilt.assignedJobs]
    rfl
  · rw [rebuilt.allocatedMemory]
    exact Nat.zero_le _

theorem handleFull_handles : HandleRule HandleFull where
  ledgers := handleFull_rule
  full := id
  ledger := HandleFull.ledger
  rebuild keyed valid same rebuilt := valid.rebuild keyed same rebuilt
  idle := HandleFull.idle

/-- With complete ledgers a chosen placement starts: every drain is in range. -/
theorem Consistent.starts (valid : Consistent reports owed state) {input : PassInput} {turn : Nat}
    {job : JobInfo} {placement : Placement} (placed : placeJob input turn state job = some (some placement)) :
    ∃ final, startJob input state job placement = some final := by
  have ok := placeJob_ok placed
  obtain ⟨workers, allocated⟩ := allocateNodes_isSome ok.distinct fun workerId node worker present =>
    (placement_room valid.agrees ok node present).1
  rw [GlobalState.evictJobs] at allocated
  have some : (startJob input state job placement).isSome = true := by
    simp [startJob, allocated]
  exact Option.isSome_iff_exists.mp some

/-- A pass over consistent ledgers does not panic and keeps them consistent. -/
theorem Consistent.schedule (valid : Consistent reports owed state) (input : PassInput) :
    ∃ final, scheduleJobs input state = some final ∧ Consistent reports owed final := by
  have begins : Consistent reports owed (passStart input state) :=
    ⟨valid.keyed, valid.positive, valid.present, valid.reported, valid.agrees⟩
  have step (turn : Nat) (jobId : JobId) (pass : PassState) (valid : Consistent reports owed pass.state) :
      ∃ next, passTurn input turn pass jobId = some next ∧ Consistent reports owed next.state := by
    obtain ⟨next, taken⟩ : ∃ next, passTurn input turn pass jobId = some next := passTurn_isSome
      (fun job cleared found reworded => placeJob_isSome (valid.positive jobId job found))
      (fun job cleared placement found pending reworded placed => ((valid.balanced.reworded handleFull_handles reworded).consistent
        (reworded.descends.positive valid.positive)).starts placed)
    have outcome := passTurn_outcome taken
    exact ⟨next, taken, (valid.balanced.turn handleFull_handles outcome).consistent
      ((turn_descends outcome).positive valid.positive)⟩
  obtain ⟨pass, ran, ends⟩ := passTurns_isSome (fun pass => Consistent reports owed pass.state)
    (pendingOrder input state) (fun turn jobId _ pass => step turn jobId pass) { state := passStart input state } begins
  refine ⟨{ pass.state with queue := pass.stillPending }, by rw [scheduleJobs, ran]; rfl, ?_⟩
  exact ⟨ends.keyed, ends.positive, ends.present, ends.reported, ends.agrees⟩

namespace LedgerOp

/-- Submitted ids are fresh, jobs end in a terminal status, and a worker always
reports the same resources. -/
def Allowed (reports : WorkerId → Resources) (ctx : ControllerContext) : LedgerOp → Prop
  | .submit submission _ => ctx.state.jobs.get? submission.job.id = none ∧ 1 ≤ submission.job.reqNodes
  | .finalize _ newStatus _ _ => newStatus.terminal = true
  | .register registration _ => registration.resources = reports registration.workerId
  | .schedule _ | .preempt _ | .endWriter .. | .disconnect .. | .checkTimeouts .. => True

end LedgerOp

def LedgerStep (reports : WorkerId → Resources) (ctx : ControllerContext) (op : LedgerOp)
    (next : ControllerContext) : Prop :=
  op.Allowed reports ctx ∧ op.apply ctx = some next

/-- Free units and the units taken by jobs: no unit twice, and together `0..count`. -/
structure Partition (count : Nat) (free : List Nat) (taken : JobId → Option (List Nat)) : Prop where
  freeDistinct : free.Nodup
  distinct : ∀ jobId units, taken jobId = some units → units.Nodup
  apart : ∀ jobId jobId' units units', taken jobId = some units → taken jobId' = some units' →
    jobId ≠ jobId' → units.Disjoint units'
  freeApart : ∀ jobId units, taken jobId = some units → units.Disjoint free
  whole : ∀ unit, unit < count ↔ unit ∈ free ∨ ∃ jobId units, taken jobId = some units ∧ unit ∈ units

structure Exclusive (jobs : HashMap JobId JobInfo) (workerId : WorkerId) (worker : WorkerHandle) : Prop where
  cores : Partition worker.resources.cpuCores worker.availableCoreIds worker.jobCoreAssignments.get?
  gres : ∀ name, Partition (worker.resources.gres.getD name 0) (worker.availableGresIds.getD name [])
    fun jobId => (worker.jobGresAssignments.get? jobId).bind (·.get? name)
  assigned : ∀ jobId, jobId ∈ worker.assignedJobs ↔
    ∃ job, jobs.get? jobId = some job ∧ job.status = .running ∧ workerId ∈ job.assignedWorkers
  memory : worker.allocatedMemory =
    worker.assignedJobs.sum fun jobId => ((jobs.get? jobId).map JobInfo.reqMemory).getD 0
  memoryBound : worker.allocatedMemory ≤ worker.resources.totalMemory / 1024 / 1024

theorem partition_of_pool {count : Nat} {free : List Nat} {held taken : JobId → Option (List Nat)}
    (apart : Pool.Apart free held) (covers : Pool.Covers count free held)
    (same : ∀ jobId, taken jobId = held jobId) : Partition count free taken := by
  rw [funext same]
  refine ⟨apart.free_nodup, apart.distinct, ?_, ?_, covers⟩
  · intro jobId jobId' units units' mine yours different unit member member'
    exact apart.apart jobId jobId' units units' mine yours different unit member member'
  · intro jobId units mine unit member available
    exact apart.freeApart jobId units mine unit member available

theorem HandleFull.exclusive {jobs : HashMap JobId JobInfo} {workerId : WorkerId} {worker : WorkerHandle}
    (valid : HandleFull jobs workerId worker)
    (counts : ∀ name, worker.resources.gres.getD name 0 < 2 ^ 32) : Exclusive jobs workerId worker where
  cores := partition_of_pool valid.apart valid.covers valid.cores
  gres name := by
    have covers := valid.gresCovers name
    rw [Resources.gresCount, asU32, Nat.mod_eq_of_lt (counts name)] at covers
    refine partition_of_pool (valid.gresApart name) covers fun jobId => ?_
    rw [valid.gres, heldGresIds]
  assigned jobId := by simp only [valid.assigned jobId, runsOn_iff]
  memory := valid.memory
  memoryBound := valid.memoryBound.trans (Resources.totalMb_le _)

/-- Apart from submissions every operation leaves later versions of the records. -/
theorem LedgerOp.descends {op : LedgerOp} {ctx next : ControllerContext}
    (other : ∀ submission nextJobId, op ≠ .submit submission nextJobId) (taken : op.apply ctx = some next) :
    Descends ctx.state.jobs next.state.jobs := by
  cases op with
  | submit submission nextJobId => exact absurd rfl (other submission nextJobId)
  | schedule input =>
    obtain ⟨final, ran, same⟩ := Option.map_eq_some_iff.mp taken
    subst same
    exact schedule_descends ran
  | finalize jobId newStatus now removes =>
    cases taken
    have closed : Descends ctx.state.jobs (ctx.state.finalizeJob jobId newStatus now).1.jobs := by
      rw [GlobalState.finalizeJob_eq]
      exact descends_modify _ _ fun _ => rfl
    cases removes with
    | false => exact closed
    | true => exact closed.trans (descends_remove _ _)
  | preempt jobId =>
    cases taken
    exact evictJobs_descends ctx.state [jobId]
  | register | endWriter | disconnect =>
    cases taken
    exact .refl _
  | checkTimeouts order now =>
    cases taken
    exact ControllerContext.checkTimeouts_invariant (fun _ after => Descends ctx.state.jobs after.state.jobs)
      (fun _ => .refl _) (.refl _)
      (fun after jobId _ before => before.trans (timeoutJob_retires after jobId now).descends) (fun _ _ before => before)
      (fun after jobId _ before => before.trans (failOrphan_retires after jobId now).descends)

variable {ctx : ControllerContext}

theorem LedgerOp.Allowed.constant {op : LedgerOp} (allowed : op.Allowed reports ctx) :
    op.Constant reports ctx := by
  cases op with
  | submit => exact allowed.1
  | schedule | finalize | preempt | register | endWriter | disconnect | checkTimeouts => exact allowed

theorem Consistent.apply (valid : Consistent reports [] ctx.state) {op : LedgerOp} (allowed : op.Allowed reports ctx) :
    ∃ next, op.apply ctx = some next ∧ Consistent reports [] next.state := by
  obtain ⟨next, taken⟩ : ∃ next, op.apply ctx = some next := by
    cases op with
    | schedule input =>
      obtain ⟨final, ran, _⟩ := valid.schedule input
      exact ⟨{ ctx with state := final }, by simp only [LedgerOp.apply, ran, Option.map_some]⟩
    | submit | finalize | preempt | register | endWriter | disconnect | checkTimeouts => exact ⟨_, rfl⟩
  refine ⟨next, taken, (valid.balanced.apply handleFull_handles allowed.constant taken).consistent ?_⟩
  by_cases submits : ∃ submission nextJobId, op = .submit submission nextJobId
  · obtain ⟨submission, nextJobId, rfl⟩ := submits
    cases taken
    intro jobId job found
    simp only [GlobalState.acceptSubmission] at found
    split at found
    · rw [HashMap.get?_insert] at found
      split at found
      · cases found
        exact allowed.2
      · exact valid.positive jobId job found
    · exact valid.positive jobId job found
  · exact (LedgerOp.descends (fun submission nextJobId same => submits ⟨submission, nextJobId, same⟩) taken).positive
      valid.positive

theorem consistent_of_reach (reached : Reach EmptyLeader (LedgerStep reports) ctx) :
    Consistent reports [] ctx.state := by
  refine reached.invariant (fun ctx => Consistent reports [] ctx.state) ?_ ?_
  · intro ctx empty
    refine (balanced_empty empty).consistent fun jobId job found => ?_
    rw [empty.2.2] at found
    cases found
  · intro ctx op next valid step
    obtain ⟨next', applied, ends⟩ := valid.apply step.1
    cases applied.symm.trans step.2
    exact ends

/-- In every reachable state the resources of every worker are allocated
exclusively and completely, and no operation panics. -/
theorem allocations_exclusive (reports : WorkerId → Resources)
    (counts : ∀ workerId name, (reports workerId).gres.getD name 0 < 2 ^ 32) {ctx : ControllerContext}
    (reached : Reach EmptyLeader (LedgerStep reports) ctx) :
    (∀ workerId worker, ctx.state.workers.get? workerId = some worker →
      worker.resources = reports workerId ∧ Exclusive ctx.state.jobs workerId worker) ∧
    ∀ op : LedgerOp, op.Allowed reports ctx → ∃ next, op.apply ctx = some next := by
  have valid := consistent_of_reach reached
  constructor
  · intro workerId worker found
    have same := valid.reported workerId worker found
    exact ⟨same, (valid.agrees workerId worker found).exclusive fun name => same ▸ counts workerId name⟩
  · intro op allowed
    obtain ⟨next, applied, _⟩ := valid.apply allowed
    exact ⟨next, applied⟩

/-- A GPU worker that runs one job. -/
theorem allocations_exclusive_gpu_worker : ∃ ctx worker,
    Reach EmptyLeader (LedgerStep fun _ => sampleResources) ctx ∧
    ctx.state.workers.get? "w1" = some worker ∧ worker.assignedJobs.elems = [1] ∧
    Exclusive ctx.state.jobs "w1" worker := by
  let ops : List LedgerOp := [.register (sampleRegistration "w1") 100,
    .submit (sampleSubmission 1 .production 1 "sh") 2, .schedule { now := 100 }]
  obtain ⟨ctx, ran⟩ : ∃ ctx, runLabels LedgerOp.apply ops sampleLeader = some ctx :=
    Option.isSome_iff_exists.mp (by decide +kernel)
  have assigned : ((runLabels LedgerOp.apply ops sampleLeader).bind fun ctx =>
      (ctx.state.workers.get? "w1").map fun worker => worker.assignedJobs.elems) = some [1] := by
    decide +kernel
  have permitted : AllowedRun (fun ctx op => LedgerOp.Allowed (fun _ => sampleResources) ctx op) LedgerOp.apply
      ops sampleLeader := by
    refine ⟨rfl, fun registered taken => ?_⟩
    cases taken
    exact ⟨⟨rfl, Nat.le_refl 1⟩, fun _ _ => ⟨trivial, fun _ _ => trivial⟩⟩
  have reached : Reach EmptyLeader (LedgerStep fun _ => sampleResources) ctx :=
    runLabels_reach (.start ⟨rfl, rfl, rfl⟩) permitted ran
  have few (workerId : WorkerId) (name : String) : sampleResources.gres.getD name 0 < 2 ^ 32 := by
    by_cases gpu : name = "gpu"
    · subst gpu
      decide
    · simp [sampleResources, HashMap.ofList, HashMap.getD, HashMap.get?_insert, gpu]
  rw [ran] at assigned
  obtain ⟨worker, found, jobs⟩ := Option.map_eq_some_iff.mp assigned
  exact ⟨ctx, worker, reached, found, jobs, ((allocations_exclusive _ few reached).1 "w1" worker found).2⟩

end Veloce
