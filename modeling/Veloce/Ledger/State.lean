import Veloce.Ledger.Allocate
import Veloce.Ledger.Rebuild

/-! The ledgers of a whole state. -/

namespace Veloce

open Collections

/-- The parts of a record that no operation changes. -/
def JobInfo.identity (job : JobInfo) : JobId × Nat × String := (job.id, job.reqNodes, job.binary)

/-- Every record of the later table is a later version of an earlier one. -/
def Descends (jobs jobs' : HashMap JobId JobInfo) : Prop :=
  ∀ jobId job', jobs'.get? jobId = some job' →
    ∃ job, jobs.get? jobId = some job ∧ job'.identity = job.identity

theorem Descends.refl (jobs : HashMap JobId JobInfo) : Descends jobs jobs :=
  fun _ job found => ⟨job, found, rfl⟩

variable {state state' : GlobalState} {jobs jobs' : HashMap JobId JobInfo}

theorem Descends.absent (descends : Descends jobs jobs') (jobId : JobId) (gone : jobs.get? jobId = none) :
    jobs'.get? jobId = none := by
  cases found : jobs'.get? jobId with
  | none => rfl
  | some job' =>
    obtain ⟨job, stored, _⟩ := descends jobId job' found
    rw [gone] at stored
    cases stored

theorem Descends.trans {jobs middle jobs' : HashMap JobId JobInfo} (first : Descends jobs middle)
    (second : Descends middle jobs') : Descends jobs jobs' := by
  intro jobId job' found
  obtain ⟨job, found, same⟩ := second jobId job' found
  obtain ⟨origin, found, same'⟩ := first jobId job found
  exact ⟨origin, found, same.trans same'⟩

theorem descends_modify (jobs : HashMap JobId JobInfo) (jobId : JobId) {update : JobInfo → JobInfo}
    (keeps : ∀ job, (update job).identity = job.identity) : Descends jobs (jobs.modify jobId update) := by
  intro other job' found
  rw [HashMap.get?_modify] at found
  split at found
  · rename_i same
    obtain ⟨job, stored, updated⟩ := Option.map_eq_some_iff.mp found
    exact ⟨job, same ▸ stored, updated ▸ keeps job⟩
  · exact ⟨job', found, rfl⟩

theorem descends_remove (jobs : HashMap JobId JobInfo) (jobId : JobId) : Descends jobs (jobs.remove jobId) := by
  intro other job' found
  rw [HashMap.get?_remove] at found
  split at found
  · cases found
  · exact ⟨job', found, rfl⟩

theorem Descends.keyed (descends : Descends jobs jobs') (keyed : Keyed jobs) : Keyed jobs' := by
  intro jobId job' found
  obtain ⟨job, stored, same⟩ := descends jobId job' found
  exact (congrArg Prod.fst same).trans (keyed jobId job stored)

theorem unworded_identity {job job' : JobInfo} (same : job'.unworded = job.unworded) :
    job'.identity = job.identity := by
  have whole := congrArg JobInfo.identity same
  simpa only [JobInfo.identity, JobInfo.unworded] using whole

theorem unworded_footprint {job job' : JobInfo} (same : job'.unworded = job.unworded) :
    job'.footprint = job.footprint := by
  have whole := congrArg JobInfo.footprint same
  simpa only [JobInfo.footprint, JobInfo.unworded] using whole

theorem Reworded.descends (reworded : Reworded state state') :
    Descends state.jobs state'.jobs := by
  intro jobId job' found
  obtain ⟨job, stored, same⟩ := reworded.found_back found
  exact ⟨job, stored, unworded_identity same⟩

theorem Reworded.footprint (reworded : Reworded state state') :
    SameFootprint state.jobs state'.jobs :=
  reworded.map fun _ => rfl

theorem Reworded.pending (reworded : Reworded state state') {jobId : JobId} {job : JobInfo}
    (found : state.jobs.get? jobId = some job) (pending : job.status = .pending) :
    ∃ stored, state'.jobs.get? jobId = some stored ∧ stored.status = .pending ∧
      stored.reqMemory = job.reqMemory := by
  obtain ⟨stored, found', same⟩ := reworded.found found
  have footprint := unworded_footprint same
  simp only [JobInfo.footprint, Prod.mk.injEq] at footprint
  exact ⟨stored, found', footprint.1.trans pending, footprint.2.2.2.2⟩

theorem Reworded.workers (reworded : Reworded state state') :
    state'.workers = state.workers := by rw [reworded.rest]

theorem evicted_identity (job : JobInfo) : job.evicted.identity = job.identity := by
  unfold JobInfo.evicted
  split <;> rfl

theorem evictJobs_descends (state : GlobalState) (evictions : List JobId) :
    Descends state.jobs (state.evictJobs evictions).jobs := by
  intro jobId job' found
  rw [GlobalState.get?_evictJobs] at found
  split at found
  · obtain ⟨job, stored, updated⟩ := Option.map_eq_some_iff.mp found
    exact ⟨job, stored, updated ▸ evicted_identity job⟩
  · exact ⟨job', found, rfl⟩

theorem startJob_descends {input : PassInput} {state final : GlobalState} {job : JobInfo}
    {placement : Placement} (starts : startJob input state job placement = some final) :
    Descends state.jobs final.jobs := by
  obtain ⟨workers, _, same⟩ := startJob_eq starts
  rw [same]
  exact (evictJobs_descends _ _).trans (descends_modify _ _ fun _ => rfl)

/-- How a notion of handle agreement follows the table; `Room` is what an
allocation must leave. -/
structure LedgerRule (Valid : HashMap JobId JobInfo → WorkerId → WorkerHandle → Prop)
    (Room : WorkerHandle → JobInfo → Prop) : Prop where
  congr : ∀ {jobs jobs' workerId worker}, Valid jobs workerId worker → SameFootprint jobs jobs' →
    Valid jobs' workerId worker
  release : ∀ {jobs jobs' workerId worker jobId job}, Valid jobs workerId worker →
    jobs.get? jobId = some job → Closes jobs jobs' jobId →
    Valid jobs' workerId (worker.releaseJob workerId jobId job)
  closeElsewhere : ∀ {jobs jobs' workerId worker jobId}, Valid jobs workerId worker →
    Closes jobs jobs' jobId → (∀ job, jobs.get? jobId = some job → job.runsOn workerId = false) →
    Valid jobs' workerId worker
  allocate : ∀ {jobs jobs' workerId worker allocated job started}, Valid jobs workerId worker →
    Opens jobs jobs' job.id started → worker.allocateJob job = some allocated →
    Records started job.id workerId allocated → started.reqMemory = job.reqMemory → Room worker job →
    Valid jobs' workerId allocated
  openElsewhere : ∀ {jobs jobs' workerId worker jobId started}, Valid jobs workerId worker →
    Opens jobs jobs' jobId started → workerId ∉ started.assignedWorkers → Valid jobs' workerId worker

theorem lists_rule : LedgerRule Lists fun _ _ => True where
  congr valid same := valid.keep (same.sameOn _)
  release valid _ closes := valid.release closes _
  closeElsewhere valid closes elsewhere := valid.keep (closes.sameOn elsewhere)
  allocate valid opens drained records _ _ := valid.allocate opens drained records.node
  openElsewhere valid opens elsewhere := valid.keep (opens.sameOn elsewhere)

theorem handleFull_rule : LedgerRule HandleFull fun worker job =>
    worker.allocatedMemory + job.reqMemory ≤ worker.resources.totalMb where
  congr valid same := valid.keep (same.sameOn _)
  release := HandleFull.release
  closeElsewhere valid closes elsewhere := valid.keep (closes.sameOn elsewhere)
  allocate := HandleFull.allocate
  openElsewhere valid opens elsewhere := valid.keep (opens.sameOn elsewhere)

/-- Every handle of the state agrees with its table. -/
def Agrees (Valid : HashMap JobId JobInfo → WorkerId → WorkerHandle → Prop) (state : GlobalState) : Prop :=
  ∀ workerId worker, state.workers.get? workerId = some worker → Valid state.jobs workerId worker

theorem closes_modify {jobId : JobId} {update : JobInfo → JobInfo}
    (ends : ∀ job, jobs.get? jobId = some job → (update job).status ≠ .running) :
    Closes jobs (jobs.modify jobId update) jobId where
  closed job found := by
    rw [HashMap.get?_modify, if_pos rfl] at found
    obtain ⟨before, stored, same⟩ := Option.map_eq_some_iff.mp found
    exact same ▸ ends before stored
  others other different := by rw [HashMap.get?_modify, if_neg different]

theorem Closes.remove {jobId : JobId} (closes : Closes jobs jobs' jobId) :
    Closes jobs (jobs'.remove jobId) jobId where
  closed job found := by
    rw [HashMap.get?_remove_self] at found
    cases found
  others other different := by rw [HashMap.get?_remove, if_neg different, closes.others other different]

section Rule

variable {Valid : HashMap JobId JobInfo → WorkerId → WorkerHandle → Prop}
  {Room : WorkerHandle → JobInfo → Prop} {state state' : GlobalState} {jobId : JobId}

theorem Agrees.reworded (rule : LedgerRule Valid Room) (agrees : Agrees Valid state)
    (reworded : Reworded state state') : Agrees Valid state' := by
  intro workerId worker found
  rw [reworded.workers] at found
  exact rule.congr (agrees workerId worker found) reworded.footprint

/-- Whatever closes a job agrees with the handles after the job's release. -/
theorem Agrees.release (rule : LedgerRule Valid Room) (agrees : Agrees Valid state)
    (workers : state'.workers = (state.releaseJobResourcesInternal jobId).workers)
    (closes : Closes state.jobs state'.jobs jobId) : Agrees Valid state' := by
  intro workerId worker found
  rw [workers, GlobalState.workers_release] at found
  cases stored : state.jobs.get? jobId with
  | none =>
    rw [stored] at found
    exact rule.closeElsewhere (agrees workerId worker found) closes fun job found' => by
      rw [stored] at found'
      cases found'
  | some job =>
    simp only [stored] at found
    split at found
    · obtain ⟨before, present, released⟩ := Option.map_eq_some_iff.mp found
      subst released
      exact rule.release (agrees workerId before present) stored closes
    · rename_i elsewhere
      refine rule.closeElsewhere (agrees workerId worker found) closes fun job' found' => ?_
      cases stored.symm.trans found'
      simp [JobInfo.runsOn, elsewhere]

theorem Agrees.finalize (rule : LedgerRule Valid Room) (agrees : Agrees Valid state) {newStatus : JobStatus}
    (ends : newStatus ≠ .running) (now : Nat) : Agrees Valid (state.finalizeJob jobId newStatus now).1 := by
  rw [GlobalState.finalizeJob_eq]
  exact agrees.release rule rfl (closes_modify fun _ _ => ends)

theorem Agrees.preempt (rule : LedgerRule Valid Room) (agrees : Agrees Valid state) (jobId : JobId) :
    Agrees Valid (state.preemptJob jobId) := by
  rcases state.preemptJob_cases jobId with ⟨_, _, _, same⟩ | same
  · rw [same]
    exact agrees.release rule rfl (closes_modify fun _ _ => by simp [JobInfo.requeued])
  · rw [same]
    exact agrees

theorem Agrees.evict (rule : LedgerRule Valid Room) (evictions : List JobId) {state : GlobalState}
    (agrees : Agrees Valid state) : Agrees Valid (state.evictJobs evictions) :=
  GlobalState.evictJobs_invariant (Agrees Valid) evictions agrees fun _ jobId before => before.preempt rule jobId

theorem start_opens {input : PassInput} {job stored : JobInfo} {placement : Placement}
    (starts : startJob input state job placement = some state') (found : state.jobs.get? job.id = some stored)
    (pending : stored.status = .pending) :
    ∃ workers, allocateNodes job placement.nodes (state.evictJobs placement.evictions).workers = some workers ∧
      state'.workers = workers ∧
      Opens (state.evictJobs placement.evictions).jobs state'.jobs job.id
        (stored.started job.id placement.nodes workers input.now) := by
  obtain ⟨workers, allocated, same⟩ := startJob_eq starts
  have kept : (state.evictJobs placement.evictions).jobs.get? job.id = some stored := by
    rw [GlobalState.get?_evictJobs, found]
    simp [JobInfo.evicted, pending]
  refine ⟨workers, allocated, by rw [same], ?_, ?_, rfl, ?_⟩
  · intro before stillThere
    cases kept.symm.trans stillThere
    simp [pending]
  · rw [same]
    simp only [HashMap.get?_modify, ↓reduceIte, kept, Option.map_some]
  · intro other different
    rw [same]
    simp only [HashMap.get?_modify, different, ↓reduceIte]

theorem Agrees.start (rule : LedgerRule Valid Room) (agrees : Agrees Valid state) {input : PassInput}
    {job stored : JobInfo} {placement : Placement} (distinct : placement.nodes.Nodup)
    (starts : startJob input state job placement = some state') (found : state.jobs.get? job.id = some stored)
    (pending : stored.status = .pending) (memory : stored.reqMemory = job.reqMemory)
    (room : ∀ workerId ∈ placement.nodes, ∀ worker,
      (state.evictJobs placement.evictions).workers.get? workerId = some worker → Room worker job) :
    Agrees Valid state' := by
  obtain ⟨workers, allocated, same, opens⟩ := start_opens starts found pending
  have evicted := agrees.evict rule placement.evictions
  intro workerId worker present
  rw [same] at present
  obtain ⟨outside, inside⟩ := get?_allocateNodes distinct allocated workerId
  by_cases node : workerId ∈ placement.nodes
  · replace inside := inside node
    split at inside
    · rename_i before stored
      obtain ⟨updated, drained, after⟩ := inside
      cases present.symm.trans after
      refine rule.allocate (evicted workerId before stored) opens drained ?_ memory (room workerId node before stored)
      have collected {α : Type} (read : WorkerHandle → Option α) :
          (collectNodes workers placement.nodes read).get? workerId = read worker := by
        rw [get?_collectNodes, if_pos node, after, Option.bind_some]
      exact ⟨node, collected _, collected _⟩
    · rw [present] at inside
      cases inside
  · rw [outside node] at present
    exact rule.openElsewhere (evicted workerId worker present) opens node

end Rule

end Veloce
