import Veloce.Ledger.Exclusive
import Veloce.Scheduler.Starts

/-! The allocation invariant of a leader, and what it says in numbers: of every kind
of resource of a worker, the free units and those that its Running jobs asked for are
together what the worker has. -/

namespace Veloce

open Collections

/-- The worker gave the job exactly what it asks for. -/
structure JobInfo.Granted (job : JobInfo) (workerId : WorkerId) : Prop where
  cores : (job.allocatedCores.get? workerId).map List.length = some job.reqCores
  gres : ∃ share, job.allocatedGres.get? workerId = some share ∧
    ∀ name, ((share.get? name).map List.length).getD 0 = job.gresReq.getD name 0

/-- Every Running job names each of its workers once and was granted its request there. -/
def GrantedJobs (jobs : HashMap JobId JobInfo) : Prop :=
  ∀ jobId job, jobs.get? jobId = some job → job.status = .running →
    job.assignedWorkers.Nodup ∧ ∀ workerId ∈ job.assignedWorkers, job.Granted workerId

/-- The allocation invariant: the handles account for every unit of their workers
exactly once, and what they list as held is what the jobs asked for. -/
structure Allocation (state : GlobalState) : Prop where
  keyed : Keyed state.jobs
  agrees : Agrees HandleFull state
  granted : GrantedJobs state.jobs

namespace GrantedJobs

variable {jobs jobs' : HashMap JobId JobInfo} {jobId : JobId} {started : JobInfo} {state state' : GlobalState}

theorem close (valid : GrantedJobs jobs) (closes : Closes jobs jobs' jobId) : GrantedJobs jobs' := by
  intro other job found running
  by_cases same : other = jobId
  · subst same
    exact absurd running (closes.closed job found)
  · rw [closes.others other same] at found
    exact valid other job found running

theorem opened (valid : GrantedJobs jobs) (opens : Opens jobs jobs' jobId started)
    (distinct : started.assignedWorkers.Nodup)
    (granted : ∀ workerId ∈ started.assignedWorkers, started.Granted workerId) : GrantedJobs jobs' := by
  intro other job found running
  by_cases same : other = jobId
  · subst same
    cases opens.opened.symm.trans found
    exact ⟨distinct, granted⟩
  · rw [opens.others other same] at found
    exact valid other job found running

theorem reworded (valid : GrantedJobs state.jobs) (reworded : Reworded state state') : GrantedJobs state'.jobs := by
  intro jobId job' found running
  obtain ⟨job, stored, same⟩ := reworded.found_back found
  have status := congrArg JobInfo.status same
  obtain ⟨distinct, granted⟩ := valid jobId job stored (status.symm.trans running)
  have nodes : job'.assignedWorkers = job.assignedWorkers := by
    have whole := congrArg JobInfo.assignedWorkers same
    exact whole
  rw [nodes]
  refine ⟨distinct, fun workerId node => ?_⟩
  have grant : job'.unworded.Granted workerId := same ▸ ⟨(granted workerId node).cores, (granted workerId node).gres⟩
  exact ⟨grant.cores, grant.gres⟩

theorem preempt (valid : GrantedJobs state.jobs) (jobId : JobId) : GrantedJobs (state.preemptJob jobId).jobs := by
  rcases state.preemptJob_cases jobId with ⟨_, _, _, same⟩ | same
  · rw [same]
    exact valid.close (closes_modify fun _ _ => by simp [JobInfo.requeued])
  · rw [same]
    exact valid

theorem evict (valid : GrantedJobs state.jobs) (evictions : List JobId) :
    GrantedJobs (state.evictJobs evictions).jobs :=
  GlobalState.evictJobs_invariant (fun after => GrantedJobs after.jobs) evictions valid
    fun _ jobId before => before.preempt jobId

end GrantedJobs

/-- What a worker drains for a job is what the job asks for, if it has enough of it. -/
theorem allocateJob_grants {worker allocated : WorkerHandle} {job : JobInfo}
    (drained : worker.allocateJob job = some allocated)
    (enough : ∀ name count, job.gresReq.get? name = some count → count ≤ (worker.freeGres name).length) :
    (allocated.jobCoreAssignments.get? job.id).map List.length = some job.reqCores ∧
      ∃ share, allocated.jobGresAssignments.get? job.id = some share ∧
        ∀ name, ((share.get? name).map List.length).getD 0 = job.gresReq.getD name 0 := by
  obtain ⟨cores, same⟩ := allocateJob_eq drained
  subst same
  refine ⟨?_, _, HashMap.get?_insert_self _ _ _, fun name => ?_⟩
  · rw [HashMap.get?_insert_self, Option.map_some, List.length_take, Nat.min_eq_left cores]
  · rw [HashMap.get?_updateEntries, HashMap.getD]
    cases requested : job.gresReq.get? name with
    | none => rfl
    | some count =>
      have room := enough name count requested
      rw [WorkerHandle.freeGres] at room
      cases listed : worker.availableGresIds.get? name with
      | none =>
        rw [listed, Option.getD_none, List.length_nil, Nat.le_zero] at room
        subst room
        rfl
      | some ids =>
        rw [listed, Option.getD_some] at room
        simpa using room

namespace GrantedJobs

variable {state state' : GlobalState} {input : PassInput}

theorem start (valid : GrantedJobs state.jobs) (agrees : Agrees HandleFull state) {turn : Nat}
    {job stored : JobInfo} {placement : Placement}
    (placed : placeJob input turn state job = some (some placement))
    (starts : startJob input state job placement = some state') (found : state.jobs.get? job.id = some stored)
    (pending : stored.status = .pending) (cores : stored.reqCores = job.reqCores)
    (gres : stored.gresReq = job.gresReq) : GrantedJobs state'.jobs := by
  have ok := placeJob_ok placed
  obtain ⟨workers, allocated, same, opens⟩ := start_opens starts found pending
  refine (valid.evict placement.evictions).opened opens ok.distinct ?_
  intro workerId (node : workerId ∈ placement.nodes)
  have present : ∃ worker, state.workers.get? workerId = some worker := by
    rcases ok.fits with ⟨_, fits⟩ | fits
    · exact (fits workerId node).imp fun _ => And.left
    · exact (fits workerId node).imp fun _ => And.left
  obtain ⟨worker, present⟩ := present
  obtain ⟨before, present, _⟩ := (evict_links placement.evictions state).found present
  have inside := (get?_allocateNodes ok.distinct allocated workerId).2 node
  simp only [present] at inside
  obtain ⟨after, drained, there⟩ := inside
  obtain ⟨units, share, kinds⟩ := allocateJob_grants drained (placement_units agrees ok node present).2.2
  have collected {α : Type} (read : WorkerHandle → Option α) :
      (collectNodes workers placement.nodes read).get? workerId = read after := by
    rw [get?_collectNodes, if_pos node, there, Option.bind_some]
  refine ⟨?_, share, ?_, ?_⟩
  · rw [JobInfo.started, collected, cores]
    exact units
  · rw [JobInfo.started, collected]
    exact kinds.1
  · intro name
    rw [JobInfo.started, gres]
    exact kinds.2 name

end GrantedJobs

theorem Agrees.start_placed {input : PassInput} {turn : Nat} {state state' : GlobalState} {job stored : JobInfo}
    {placement : Placement} (agrees : Agrees HandleFull state)
    (placed : placeJob input turn state job = some (some placement))
    (starts : startJob input state job placement = some state') (found : state.jobs.get? job.id = some stored)
    (pending : stored.status = .pending) (memory : stored.reqMemory = job.reqMemory) : Agrees HandleFull state' := by
  have ok := placeJob_ok placed
  refine agrees.start handleFull_rule ok.distinct starts found pending memory ?_
  intro workerId node worker present
  exact (placement_units agrees ok node present).2.1

theorem Allocation.turn {input : PassInput} {turn : Nat} {pass next : PassState} {jobId : JobId}
    (valid : Allocation pass.state) (outcome : TurnOutcome input turn pass jobId next) : Allocation next.state := by
  have keyed := (turn_descends outcome).keyed valid.keyed
  cases outcome with
  | skip _ _ => exact valid
  | wait _ _ _ reworded _ =>
    exact ⟨keyed, valid.agrees.reworded handleFull_rule reworded, valid.granted.reworded reworded⟩
  | start found pending _ reworded placed starts =>
    obtain ⟨stored, found', same⟩ := reworded.found found
    have status := congrArg JobInfo.status same
    have memory := congrArg JobInfo.reqMemory same
    have cores := congrArg JobInfo.reqCores same
    have gres := congrArg JobInfo.gresReq same
    have agrees := valid.agrees.reworded handleFull_rule reworded
    have granted := valid.granted.reworded reworded
    exact ⟨keyed, agrees.start_placed placed starts found' (status.trans pending) memory,
      granted.start agrees placed starts found' (status.trans pending) cores gres⟩

theorem Allocation.schedule {input : PassInput} {state final : GlobalState} (valid : Allocation state)
    (ran : scheduleJobs input state = some final) : Allocation final := by
  obtain ⟨pass, turns, same⟩ := Option.map_eq_some_iff.mp ran
  subst same
  have ends : Allocation pass.state := by
    refine passTurns_invariant (fun _ pass => Allocation pass.state) ?_ _ ?_ turns
    · intro jobId rest pass next valid taken
      exact valid.turn (passTurn_outcome taken)
    · exact ⟨valid.keyed, valid.agrees, valid.granted⟩
  exact ⟨ends.keyed, ends.agrees, ends.granted⟩

/-- No operation changes what a Running job was granted. -/
theorem GrantedJobs.apply {reports : WorkerId → Resources} {ctx next : ControllerContext} {op : LedgerOp}
    (valid : Allocation ctx.state) (allowed : op.Allowed reports ctx) (taken : op.apply ctx = some next) :
    GrantedJobs next.state.jobs := by
  cases op with
  | submit submission nextJobId =>
    cases taken
    simp only [GlobalState.acceptSubmission]
    split
    · intro jobId job found running
      simp only [HashMap.get?_insert] at found
      split at found
      · cases found
        rw [submission.pending] at running
        cases running
      · exact valid.granted jobId job found running
    · exact valid.granted
  | schedule input =>
    obtain ⟨final, ran, same⟩ := Option.map_eq_some_iff.mp taken
    subst same
    exact (valid.schedule ran).granted
  | finalize jobId newStatus now removes =>
    have ends : newStatus ≠ .running := by
      intro same
      subst same
      cases allowed
    cases taken
    have closes : Closes ctx.state.jobs (ctx.state.finalizeJob jobId newStatus now).1.jobs jobId := by
      rw [GlobalState.finalizeJob_eq]
      exact closes_modify fun _ _ => ends
    cases removes with
    | false => exact valid.granted.close closes
    | true => exact valid.granted.close closes.remove
  | preempt jobId =>
    cases taken
    exact valid.granted.preempt jobId
  | register | endWriter | disconnect =>
    cases taken
    exact valid.granted
  | checkTimeouts order now =>
    cases taken
    exact ControllerContext.checkTimeouts_invariant (fun _ after => GrantedJobs after.state.jobs)
      (fun _ => valid.granted) valid.granted
      (fun after jobId _ before => before.close (timeoutJob_retires after jobId now).closes) (fun _ _ before => before)
      (fun after jobId _ before => before.close (failOrphan_retires after jobId now).closes)

theorem allocation_of_reach {reports : WorkerId → Resources} {ctx : ControllerContext}
    (reached : Reach EmptyLeader (LedgerStep reports) ctx) : Allocation ctx.state := by
  suffices both : Consistent reports [] ctx.state ∧ GrantedJobs ctx.state.jobs from
    ⟨both.1.keyed, both.1.agrees, both.2⟩
  refine reached.invariant (fun ctx => Consistent reports [] ctx.state ∧ GrantedJobs ctx.state.jobs) ?_ ?_
  · intro ctx empty
    refine ⟨(balanced_empty empty).consistent fun jobId job found => ?_, fun jobId job found => ?_⟩
    · rw [empty.2.2] at found
      cases found
    · rw [empty.2.2] at found
      cases found
  · intro ctx op next valid step
    obtain ⟨next', applied, ends⟩ := valid.1.apply step.1
    cases applied.symm.trans step.2
    exact ⟨ends, GrantedJobs.apply ⟨valid.1.keyed, valid.1.agrees, valid.2⟩ step.1 step.2⟩

inductive ResourceKind where
  | cores
  | memory
  | gres (name : String)

namespace ResourceKind

def requested (kind : ResourceKind) (job : JobInfo) : Nat :=
  match kind with
  | .cores => job.reqCores
  | .memory => job.reqMemory
  | .gres name => job.gresReq.getD name 0

def free (kind : ResourceKind) (worker : WorkerHandle) : Nat :=
  match kind with
  | .cores => worker.availableCoreIds.length
  | .memory => worker.resources.totalMb - worker.allocatedMemory
  | .gres name => (worker.freeGres name).length

def capacity (kind : ResourceKind) (resources : Resources) : Nat :=
  match kind with
  | .cores => resources.cpuCores
  | .memory => resources.totalMb
  | .gres name => resources.gresCount name

def load (kind : ResourceKind) (jobs : HashMap JobId JobInfo) (counts : JobInfo → Bool) : Nat :=
  jobs.total fun _ job => if counts job then kind.requested job else 0

end ResourceKind

variable {state : GlobalState} {workerId : WorkerId} {worker : WorkerHandle}

theorem Allocation.cores_add_load (valid : Allocation state)
    (found : state.workers.get? workerId = some worker) : worker.availableCoreIds.length +
      ResourceKind.cores.load state.jobs (·.runsOn workerId) = worker.resources.cpuCores := by
  have full := valid.agrees workerId worker found
  rw [← full.apart.length_add full.covers state.jobs.keys_nodup]
  · congr 1
    refine (HashMap.sum_keys fun jobId job stored => ?_).symm
    split
    · rename_i runs
      obtain ⟨running, node⟩ := runsOn_iff.mp runs
      rw [heldCores, held_running stored runs, ((valid.granted jobId job stored running).2 workerId node).cores]
      rfl
    · rename_i idle
      rw [heldCores, held_idle fun job' stored' => by cases stored.symm.trans stored'; exact eq_false_of_ne_true idle]
      rfl
  · intro jobId units taken
    obtain ⟨job, stored, _⟩ := held_some taken
    exact HashMap.mem_keys.mpr ⟨job, stored⟩

theorem Allocation.gres_add_load (valid : Allocation state) (found : state.workers.get? workerId = some worker)
    (name : String) : (worker.freeGres name).length +
      (ResourceKind.gres name).load state.jobs (·.runsOn workerId) = worker.resources.gresCount name := by
  have full := valid.agrees workerId worker found
  rw [← (full.gresApart name).length_add (full.gresCovers name) state.jobs.keys_nodup]
  · congr 1
    refine (HashMap.sum_keys fun jobId job stored => ?_).symm
    rw [heldGresIds, heldGres]
    split
    · rename_i runs
      obtain ⟨running, node⟩ := runsOn_iff.mp runs
      obtain ⟨share, given, counts⟩ := ((valid.granted jobId job stored running).2 workerId node).gres
      rw [held_running stored runs, given]
      exact counts name
    · rename_i idle
      rw [held_idle fun job' stored' => by cases stored.symm.trans stored'; exact eq_false_of_ne_true idle]
      rfl
  · intro jobId units taken
    obtain ⟨gres, holds, _⟩ := Option.bind_eq_some_iff.mp taken
    obtain ⟨job, stored, _⟩ := held_some holds
    exact HashMap.mem_keys.mpr ⟨job, stored⟩

theorem Allocation.memory_eq_load (valid : Allocation state) (found : state.workers.get? workerId = some worker) :
    worker.allocatedMemory = ResourceKind.memory.load state.jobs (·.runsOn workerId) := by
  have full := valid.agrees workerId worker found
  rw [full.memory, HashSet.sum, ← List.sum_toFinset _ worker.assignedJobs.nodup, ResourceKind.load,
    HashMap.total_eq_sum]
  have listed (jobId : JobId) (member : jobId ∈ worker.assignedJobs.elems) :
      ∃ job, state.jobs.get? jobId = some job ∧ job.runsOn workerId = true :=
    (full.assigned jobId).mp member
  have inside : worker.assignedJobs.elems.toFinset ⊆ state.jobs.keys.toFinset := by
    intro jobId member
    obtain ⟨job, stored, _⟩ := listed jobId (List.mem_toFinset.mp member)
    exact List.mem_toFinset.mpr (HashMap.mem_keys.mpr ⟨job, stored⟩)
  rw [← Finset.sum_subset inside]
  · apply Finset.sum_congr rfl
    intro jobId member
    obtain ⟨job, stored, runs⟩ := listed jobId (List.mem_toFinset.mp member)
    rw [jobMemory, stored]
    simp [runs, ResourceKind.requested]
  · intro jobId _ unlisted
    cases stored : state.jobs.get? jobId with
    | none => rfl
    | some job =>
      have idle : job.runsOn workerId ≠ true := by
        intro runs
        exact unlisted (List.mem_toFinset.mpr ((full.assigned jobId).mpr ⟨job, stored, runs⟩))
      simp [idle]

/-- The free units and those the Running jobs asked for are what the worker has. -/
theorem Allocation.free_add_load (valid : Allocation state) (found : state.workers.get? workerId = some worker)
    (kind : ResourceKind) :
    kind.free worker + kind.load state.jobs (·.runsOn workerId) = kind.capacity worker.resources := by
  cases kind with
  | cores => exact valid.cores_add_load found
  | gres name => exact valid.gres_add_load found name
  | memory =>
    have bound := (valid.agrees workerId worker found).memoryBound
    have load := valid.memory_eq_load found
    simp only [ResourceKind.free, ResourceKind.capacity]
    omega

end Veloce
