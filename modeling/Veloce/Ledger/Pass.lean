import Veloce.Ledger.State

/-! A scheduling pass keeps the ledgers. -/

namespace Veloce

open Collections

/-- What a handle knows about its connection; the scheduler never changes it. -/
structure Link where
  resources : Resources
  routing : WorkerRouting
  connectionId : Nat
  connected : Bool
  lastSeen : Nat
  draining : Bool

def WorkerHandle.link (worker : WorkerHandle) : Link :=
  ⟨worker.resources, worker.routing, worker.connectionId, worker.connected, worker.lastSeen, worker.draining⟩

def SameLinks (workers workers' : HashMap WorkerId WorkerHandle) : Prop :=
  ∀ workerId, (workers'.get? workerId).map WorkerHandle.link = (workers.get? workerId).map WorkerHandle.link

theorem SameLinks.trans {workers middle workers' : HashMap WorkerId WorkerHandle}
    (first : SameLinks workers middle) (second : SameLinks middle workers') : SameLinks workers workers' :=
  fun workerId => (second workerId).trans (first workerId)

theorem SameLinks.found {workers workers' : HashMap WorkerId WorkerHandle} (same : SameLinks workers workers')
    {workerId : WorkerId} {worker : WorkerHandle} (found : workers.get? workerId = some worker) :
    ∃ worker', workers'.get? workerId = some worker' ∧ worker'.link = worker.link := by
  have links := same workerId
  rw [found, Option.map_some] at links
  exact Option.map_eq_some_iff.mp links

theorem SameLinks.symm {workers workers' : HashMap WorkerId WorkerHandle} (same : SameLinks workers workers') :
    SameLinks workers' workers := fun workerId => (same workerId).symm

theorem releaseJob_link (worker : WorkerHandle) (workerId : WorkerId) (jobId : JobId) (job : JobInfo) :
    (worker.releaseJob workerId jobId job).link = worker.link := by
  unfold WorkerHandle.releaseJob
  split <;> rfl

theorem release_links (state : GlobalState) (jobId : JobId) :
    SameLinks state.workers (state.releaseJobResourcesInternal jobId).workers := by
  intro workerId
  rw [GlobalState.workers_release]
  split
  · rename_i job _
    split
    · rw [Option.map_map]
      exact congrArg (fun view => (state.workers.get? workerId).map view)
        (funext fun worker => releaseJob_link worker workerId jobId job)
    · rfl
  · rfl

theorem preempt_links (state : GlobalState) (jobId : JobId) :
    SameLinks state.workers (state.preemptJob jobId).workers := by
  rcases state.preemptJob_cases jobId with ⟨_, _, _, same⟩ | same
  · rw [same]
    exact release_links state jobId
  · rw [same]
    exact fun _ => rfl

theorem evict_links (evictions : List JobId) (state : GlobalState) :
    SameLinks state.workers (state.evictJobs evictions).workers :=
  GlobalState.evictJobs_invariant (fun after => SameLinks state.workers after.workers) evictions (fun _ => rfl)
    fun middle jobId before => before.trans (preempt_links middle jobId)

variable {input : PassInput}

theorem start_links {state final : GlobalState} {job : JobInfo} {placement : Placement}
    (distinct : placement.nodes.Nodup) (starts : startJob input state job placement = some final) :
    SameLinks state.workers final.workers := by
  obtain ⟨workers, allocated, same⟩ := startJob_eq starts
  have after : final.workers = workers := by rw [same]
  rw [after]
  refine (evict_links placement.evictions state).trans fun workerId => ?_
  obtain ⟨outside, inside⟩ := get?_allocateNodes distinct allocated workerId
  by_cases node : workerId ∈ placement.nodes
  · replace inside := inside node
    split at inside
    · rename_i worker found
      obtain ⟨updated, drained, present⟩ := inside
      rw [present, found, Option.map_some, Option.map_some, (allocateJob_eq drained).2]
      rfl
    · rename_i missing
      rw [inside, missing]
  · rw [outside node]

section Room

variable {state : GlobalState} {workerId : WorkerId} {worker worker' : WorkerHandle} {evictions : List JobId}

theorem evicted_not_running (job : JobInfo) : job.evicted.status ≠ .running := by
  unfold JobInfo.evicted
  split
  · simp [JobInfo.requeued]
  · assumption

/-- An evicted job holds nothing; the others hold what they held. -/
theorem held_evict {α : Type} (read : JobInfo → WorkerId → Option α) (state : GlobalState)
    (evictions : List JobId) (workerId : WorkerId) (jobId : JobId) :
    held read (state.evictJobs evictions).jobs workerId jobId =
      if jobId ∈ evictions then none else held read state.jobs workerId jobId := by
  split
  · rename_i gone
    apply held_idle
    intro job found
    rw [GlobalState.get?_evictJobs, if_pos gone] at found
    obtain ⟨before, _, same⟩ := Option.map_eq_some_iff.mp found
    exact runsOn_of_not_running (same ▸ evicted_not_running before) workerId
  · rename_i kept
    rw [held, held, GlobalState.get?_evictJobs, if_neg kept]

theorem held_evict_some {α : Type} {read : JobInfo → WorkerId → Option α} {jobId : JobId} {value : α}
    (taken : held read (state.evictJobs evictions).jobs workerId jobId = some value) :
    held read state.jobs workerId jobId = some value := by
  rw [held_evict] at taken
  split at taken
  · cases taken
  · exact taken

theorem heldGresIds_evict_some {name : String} {jobId : JobId} {units : List Nat}
    (taken : heldGresIds (state.evictJobs evictions).jobs workerId name jobId = some units) :
    heldGresIds state.jobs workerId name jobId = some units := by
  obtain ⟨gres, holds, listed⟩ := Option.bind_eq_some_iff.mp taken
  exact Option.bind_eq_some_iff.mpr ⟨gres, held_evict_some holds, listed⟩

theorem jobMemory_evict (state : GlobalState) (evictions : List JobId) (jobId : JobId) :
    jobMemory (state.evictJobs evictions).jobs jobId = jobMemory state.jobs jobId := by
  rw [jobMemory, jobMemory, GlobalState.get?_evictJobs]
  split
  · cases state.jobs.get? jobId with
    | none => rfl
    | some job =>
      simp only [Option.map_some, Option.getD_some, JobInfo.evicted]
      split <;> rfl
  · rfl

/-- A sum that may have wrapped is no larger than the true one. -/
theorem preemptibleMemory_le (state : GlobalState) (gone : List JobId) :
    preemptibleMemory state gone ≤ (gone.map (jobMemory state.jobs)).sum := by
  have folded (gone : List JobId) (start : Nat) :
      gone.foldl (fun memory jobId => addU64 memory (((state.jobs.get? jobId).map JobInfo.reqMemory).getD 0)) start ≤
        start + (gone.map (jobMemory state.jobs)).sum := by
    induction gone generalizing start with
    | nil => exact Nat.le_refl _
    | cons jobId rest ih =>
      have first := addU64_le start (jobMemory state.jobs jobId)
      rw [List.foldl_cons, List.map_cons, List.sum_cons]
      exact (ih _).trans (by rw [← Nat.add_assoc]; exact Nat.add_le_add_right first _)
  simpa [preemptibleMemory] using folded gone 0

variable {gone : List JobId} {job : JobInfo}

/-- Free cores after the evictions: the old ones and those of the evicted jobs. -/
theorem HandleFull.cores_evict (before : HandleFull state.jobs workerId worker)
    (after : HandleFull (state.evictJobs evictions).jobs workerId worker')
    (same : worker'.resources = worker.resources) (distinct : gone.Nodup)
    (evicted : ∀ jobId ∈ gone, jobId ∈ evictions) :
    worker.availableCoreIds.length + preemptibleCores worker gone ≤ worker'.availableCoreIds.length := by
  have whole := after.covers
  rw [same] at whole
  have bound := before.apart.length_le_free (before.covers.keeps whole) (fun jobId units taken => held_evict_some taken)
    distinct fun jobId member => by rw [heldCores, held_evict, if_pos (evicted jobId member)]
  simpa only [preemptibleCores, before.cores] using bound

theorem HandleFull.gres_evict (before : HandleFull state.jobs workerId worker)
    (after : HandleFull (state.evictJobs evictions).jobs workerId worker')
    (same : worker'.resources = worker.resources) (distinct : gone.Nodup)
    (evicted : ∀ jobId ∈ gone, jobId ∈ evictions) (name : String) :
    (worker.freeGres name).length + preemptibleGres worker gone name ≤ (worker'.freeGres name).length := by
  have whole := after.gresCovers name
  rw [same] at whole
  have bound := (before.gresApart name).length_le_free ((before.gresCovers name).keeps whole)
    (fun _ _ taken => heldGresIds_evict_some taken) distinct
    fun jobId member => by rw [heldGresIds, heldGres, held_evict, if_pos (evicted jobId member)]; rfl
  simpa only [preemptibleGres, before.gres, heldGresIds] using bound

theorem HandleFull.memory_evict (before : HandleFull state.jobs workerId worker)
    (after : HandleFull (state.evictJobs evictions).jobs workerId worker') (distinct : gone.Nodup)
    (evicted : ∀ jobId ∈ gone, jobId ∈ evictions) (assigned : ∀ jobId ∈ gone, jobId ∈ worker.assignedJobs) :
    preemptibleMemory state gone + worker'.allocatedMemory ≤ worker.allocatedMemory := by
  have remaining (jobId : JobId) (member : jobId ∈ worker'.assignedJobs) :
      jobId ∉ evictions ∧ jobId ∈ worker.assignedJobs := by
    obtain ⟨job, found, runs⟩ := (after.assigned jobId).mp member
    rw [GlobalState.get?_evictJobs] at found
    split at found
    · obtain ⟨old, _, same⟩ := Option.map_eq_some_iff.mp found
      exact absurd (runsOn_iff.mp runs).1 (same ▸ evicted_not_running old)
    · rename_i kept
      exact ⟨kept, (before.assigned jobId).mpr ⟨job, found, runs⟩⟩
  have together : (gone ++ worker'.assignedJobs.elems).Nodup := by
    refine List.nodup_append.mpr ⟨distinct, worker'.assignedJobs.nodup, ?_⟩
    intro jobId member other kept same
    subst same
    exact (remaining jobId kept).1 (evicted jobId member)
  have inside : ∀ jobId ∈ gone ++ worker'.assignedJobs.elems, jobId ∈ worker.assignedJobs := by
    intro jobId member
    rcases List.mem_append.mp member with out | kept
    · exact assigned jobId out
    · exact (remaining jobId kept).2
  have bound := HashSet.sum_le_of_subset together inside (jobMemory state.jobs)
  rw [List.map_append, List.sum_append, ← before.memory] at bound
  have rest : worker'.allocatedMemory = (worker'.assignedJobs.elems.map (jobMemory state.jobs)).sum := by
    rw [after.memory, HashSet.sum]
    congr 1
    exact List.map_congr_left fun jobId _ => jobMemory_evict state evictions jobId
  rw [rest]
  exact (Nat.add_le_add_right (preemptibleMemory_le state gone) _).trans bound

/-- Free memory and that of jobs to evict are together within the worker's own, so their sum does not wrap. -/
theorem HandleFull.memory_unwrapped (valid : HandleFull state.jobs workerId worker) (distinct : gone.Nodup)
    (assigned : ∀ jobId ∈ gone, jobId ∈ worker.assignedJobs) :
    worker.resources.totalMb - worker.allocatedMemory ≤
      addU64 (worker.resources.totalMb - worker.allocatedMemory) (preemptibleMemory state gone) := by
  have held := HashSet.sum_le_of_subset distinct assigned (jobMemory state.jobs)
  rw [← valid.memory] at held
  have freed := (preemptibleMemory_le state gone).trans held
  have bound := valid.memoryBound
  have fits : worker.resources.totalMb - worker.allocatedMemory + preemptibleMemory state gone ≤ worker.resources.totalMb := by
    omega
  rw [addU64_eq fits worker.resources.totalMb_lt]
  exact Nat.le_add_right _ _

theorem allocateJob_isSome (cores : job.reqCores ≤ worker.availableCoreIds.length)
    (gres : ∀ name count, job.gresReq.get? name = some count → count ≤ (worker.freeGres name).length) :
    ∃ allocated, worker.allocateJob job = some allocated := by
  unfold WorkerHandle.allocateJob
  simp only
  split
  · exact ⟨_, rfl⟩
  · rename_i short
    refine absurd ⟨cores, ?_⟩ short
    rw [List.all_eq_true]
    rintro ⟨name, count⟩ requested
    have enough := gres name count (HashMap.mem_toList.mp requested)
    rw [WorkerHandle.freeGres] at enough
    split
    · rename_i ids listed
      rw [listed, Option.getD_some] at enough
      exact decide_eq_true enough
    · rfl

theorem fits_now {now : Nat} (fits : workerFailReasons state now job workerId worker = []) :
    job.reqCores ≤ worker.availableCoreIds.length ∧
      job.reqMemory ≤ worker.resources.totalMb - worker.allocatedMemory ∧
      ∀ name count, job.gresReq.get? name = some count → count ≤ (worker.freeGres name).length := by
  simp only [workerFailReasons, List.append_eq_nil_iff, ite_eq_right_iff, reduceCtorEq, imp_false, not_lt,
    List.flatMap_eq_nil_iff] at fits
  obtain ⟨⟨⟨_, cores⟩, memory⟩, gres⟩ := fits
  refine ⟨Nat.le_trans cores (Nat.mod_le _ _), memory, ?_⟩
  intro name count requested
  have enough := gres (name, count) (HashMap.mem_toList.mpr requested)
  rw [WorkerHandle.freeGres]
  cases listed : worker.availableGresIds.get? name <;> simpa [listed] using enough

theorem fits_evicted {now : Nat} (fits : fitsAfterEviction state now job workerId worker gone = true) :
    job.reqCores ≤ worker.availableCoreIds.length + preemptibleCores worker gone ∧
      job.reqMemory ≤ worker.resources.totalMb - worker.allocatedMemory + preemptibleMemory state gone ∧
      ∀ name count, job.gresReq.get? name = some count →
        count ≤ (worker.freeGres name).length + preemptibleGres worker gone name := by
  simp only [fitsAfterEviction, Bool.and_eq_true, decide_eq_true_eq, List.all_eq_true] at fits
  obtain ⟨⟨⟨_, cores⟩, memory⟩, gres⟩ := fits
  refine ⟨cores, memory.trans (addU64_le _ _), ?_⟩
  intro name count requested
  have enough := gres (name, count) (HashMap.mem_toList.mpr requested)
  rw [WorkerHandle.freeGres]
  cases listed : worker.availableGresIds.get? name <;> simpa [listed] using enough

theorem placement_units {input : PassInput} {turn : Nat} {placement : Placement} (agrees : Agrees HandleFull state)
    (ok : PlacementOk input turn state job placement) (node : workerId ∈ placement.nodes)
    (found' : (state.evictJobs placement.evictions).workers.get? workerId = some worker') :
    job.reqCores ≤ worker'.availableCoreIds.length ∧
      worker'.allocatedMemory + job.reqMemory ≤ worker'.resources.totalMb ∧
      ∀ name count, job.gresReq.get? name = some count → count ≤ (worker'.freeGres name).length := by
  obtain ⟨worker, found, link⟩ := (evict_links placement.evictions state).symm.found found'
  have same : worker'.resources = worker.resources := (congrArg Link.resources link).symm
  have before := agrees workerId worker found
  have after := agrees.evict handleFull_rule placement.evictions workerId worker' found'
  have within := before.memoryBound
  rcases ok.fits with ⟨none, fits⟩ | fits
  · obtain ⟨stored, present, _, fitting⟩ := fits workerId node
    rw [none] at found'
    cases present.symm.trans found'
    obtain ⟨cores, memory, gres⟩ := fits_now fitting
    have bound := after.memoryBound
    exact ⟨cores, by omega, gres⟩
  · obtain ⟨stored, present, _, fitting, covered⟩ := fits workerId node
    cases present.symm.trans found
    have distinct := preemptibleJobs_nodup input turn state workerId worker
    obtain ⟨cores, memory, gres⟩ := fits_evicted fitting
    have moreCores := before.cores_evict after same distinct covered
    have lessMemory := before.memory_evict after distinct covered
      fun jobId member => (mem_preemptibleJobs.mp member).1
    refine ⟨by omega, by rw [same]; omega, ?_⟩
    intro name count requested
    exact Nat.le_trans (gres name count requested) (before.gres_evict after same distinct covered name)

theorem placement_room {input : PassInput} {turn : Nat} {placement : Placement} (agrees : Agrees HandleFull state)
    (ok : PlacementOk input turn state job placement) (node : workerId ∈ placement.nodes)
    (found' : (state.evictJobs placement.evictions).workers.get? workerId = some worker') :
    (∃ allocated, worker'.allocateJob job = some allocated) ∧
      worker'.allocatedMemory + job.reqMemory ≤ worker'.resources.totalMb := by
  obtain ⟨cores, memory, gres⟩ := placement_units agrees ok node found'
  exact ⟨allocateJob_isSome cores gres, memory⟩

end Room

/-- Every node of a placement has a handle, and lists the started job with its cores. -/
theorem startJob_node {turn : Nat} {state state' : GlobalState} {job : JobInfo} {placement : Placement}
    (ok : PlacementOk input turn state job placement) (starts : startJob input state job placement = some state')
    {workerId : WorkerId} (member : workerId ∈ placement.nodes) : ∃ worker, state'.workers.get? workerId = some worker ∧
      job.id ∈ worker.assignedJobs ∧ ∃ cores, worker.jobCoreAssignments.get? job.id = some cores := by
  obtain ⟨workers, allocated, same⟩ := startJob_eq starts
  have present : ∃ worker, state.workers.get? workerId = some worker := by
    rcases ok.fits with ⟨_, fits⟩ | fits
    · exact (fits workerId member).imp fun _ => And.left
    · exact (fits workerId member).imp fun _ => And.left
  obtain ⟨worker, present⟩ := present
  obtain ⟨before, present, _⟩ := (evict_links placement.evictions state).found present
  have inside := (get?_allocateNodes ok.distinct allocated workerId).2 member
  simp only [present] at inside
  obtain ⟨after, drained, there⟩ := inside
  obtain ⟨_, equal⟩ := allocateJob_eq drained
  refine ⟨after, by rw [same]; exact there, ?_, before.availableCoreIds.take job.reqCores, ?_⟩
  · rw [equal]
    exact HashSet.mem_insert.mpr (.inl rfl)
  · rw [equal, HashMap.get?_insert_self]

theorem turn_links {turn : Nat} {pass next : PassState} {jobId : JobId}
    (outcome : TurnOutcome input turn pass jobId next) : SameLinks pass.state.workers next.state.workers := by
  cases outcome with
  | skip _ _ => exact fun _ => rfl
  | wait _ _ _ reworded _ =>
    rw [reworded.workers]
    exact fun _ => rfl
  | start _ _ _ reworded placed starts =>
    rw [← reworded.workers]
    exact start_links (placeJob_ok placed).distinct starts

theorem turn_descends {turn : Nat} {pass next : PassState} {jobId : JobId}
    (outcome : TurnOutcome input turn pass jobId next) : Descends pass.state.jobs next.state.jobs := by
  cases outcome with
  | skip _ _ => exact .refl _
  | wait _ _ _ reworded _ => exact reworded.descends
  | start _ _ _ reworded _ starts => exact reworded.descends.trans (startJob_descends starts)

theorem schedule_descends {state state' : GlobalState} (ran : scheduleJobs input state = some state') :
    Descends state.jobs state'.jobs := by
  obtain ⟨pass, turns, same⟩ := Option.map_eq_some_iff.mp ran
  subst same
  refine passTurns_invariant (fun _ pass => Descends state.jobs pass.state.jobs) ?_ _ (.refl _) turns
  intro jobId rest pass next valid taken
  exact valid.trans (turn_descends (passTurn_outcome taken))

end Veloce
