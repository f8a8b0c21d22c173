import Veloce.Ledger.Pass

/-! When the drains of a scheduling pass stay in range. Evictions give back the units
of the evicted jobs as far as the worker still reports them, and a worker that becomes
idle is reset to what it reports. -/

namespace Veloce

open Collections

/-- No two Running jobs of the table share a core or a GRES id of a worker. -/
structure TableApart (jobs : HashMap JobId JobInfo) : Prop where
  cores : ∀ workerId, Pool.Apart [] (heldCores jobs workerId)
  gres : ∀ workerId name, Pool.Apart [] (heldGresIds jobs workerId name)

/-- Every free or assigned core and GRES id is one that the worker reports. -/
structure WorkerHandle.InRange (worker : WorkerHandle) : Prop where
  cores : Pool.Within worker.resources.cpuCores worker.availableCoreIds worker.jobCoreAssignments.get?
  gres : ∀ name, Pool.Within (worker.resources.gresCount name) (worker.freeGres name)
    fun jobId => (worker.jobGresAssignments.get? jobId).bind (·.get? name)

/-- Every queued job asks for a node, and every handle is in range. -/
structure GlobalState.InRange (state : GlobalState) : Prop where
  queued : ∀ jobId ∈ state.queue, ∀ job, state.jobs.get? jobId = some job → 1 ≤ job.reqNodes
  workers : ∀ workerId worker, state.workers.get? workerId = some worker → worker.InRange

instance (worker : WorkerHandle) : Decidable worker.InRange :=
  decidable_of_iff
    (((∀ unit ∈ worker.availableCoreIds, unit < worker.resources.cpuCores) ∧
      ∀ entry ∈ worker.jobCoreAssignments.toList, ∀ unit ∈ entry.2, unit < worker.resources.cpuCores) ∧
    (∀ entry ∈ worker.availableGresIds.toList, ∀ unit ∈ entry.2, unit < worker.resources.gresCount entry.1) ∧
      ∀ entry ∈ worker.jobGresAssignments.toList, ∀ share ∈ entry.2.toList, ∀ unit ∈ share.2,
        unit < worker.resources.gresCount share.1)
    (by
      constructor
      · rintro ⟨⟨free, taken⟩, freeGres, takenGres⟩
        refine ⟨?_, fun name => ?_⟩
        · rintro unit (available | ⟨jobId, units, entry, member⟩)
          · exact free unit available
          · exact taken (jobId, units) (HashMap.mem_toList.mpr entry) unit member
        · rintro unit (available | ⟨jobId, units, entry, member⟩)
          · rw [WorkerHandle.freeGres] at available
            cases listed : worker.availableGresIds.get? name with
            | none => simp [listed] at available
            | some ids =>
              rw [listed, Option.getD_some] at available
              exact freeGres (name, ids) (HashMap.mem_toList.mpr listed) unit available
          · obtain ⟨gres, stored, listed⟩ := Option.bind_eq_some_iff.mp entry
            exact takenGres (jobId, gres) (HashMap.mem_toList.mpr stored) (name, units)
              (HashMap.mem_toList.mpr listed) unit member
      · rintro ⟨cores, gres⟩
        refine ⟨⟨fun unit available => cores unit (.inl available), ?_⟩, ?_, ?_⟩
        · rintro ⟨jobId, units⟩ entry unit member
          exact cores unit (.inr ⟨jobId, units, HashMap.mem_toList.mp entry, member⟩)
        · rintro ⟨name, ids⟩ listed unit available
          refine gres name unit (.inl ?_)
          rw [WorkerHandle.freeGres, HashMap.mem_toList.mp listed]
          exact available
        · rintro ⟨jobId, jobGres⟩ stored ⟨name, units⟩ listed unit member
          refine gres name unit (.inr ⟨jobId, units, ?_, member⟩)
          exact Option.bind_eq_some_iff.mpr ⟨jobGres, HashMap.mem_toList.mp stored, HashMap.mem_toList.mp listed⟩)

instance (state : GlobalState) : Decidable state.InRange :=
  decidable_of_iff ((∀ jobId ∈ state.queue, ∀ job ∈ state.jobs.get? jobId, 1 ≤ job.reqNodes) ∧
      ∀ entry ∈ state.workers.toList, entry.2.InRange)
    ⟨fun both => ⟨both.1, fun workerId worker found => both.2 (workerId, worker) (HashMap.mem_toList.mpr found)⟩,
      fun range => ⟨range.queued, fun entry found => range.workers entry.1 entry.2 (HashMap.mem_toList.mp found)⟩⟩

structure HandleFits (jobs : HashMap JobId JobInfo) (workerId : WorkerId) (worker : WorkerHandle) :
    Prop extends HandleMatches jobs workerId worker where
  coresWithin : Pool.Within worker.resources.cpuCores worker.availableCoreIds (heldCores jobs workerId)
  gresWithin : ∀ name,
    Pool.Within (worker.resources.gresCount name) (worker.freeGres name) (heldGresIds jobs workerId name)

structure Retains (jobs jobs' : HashMap JobId JobInfo) (workerId : WorkerId) (worker worker' : WorkerHandle) :
    Prop where
  cores : Pool.Keeps worker.availableCoreIds (heldCores jobs workerId) worker'.availableCoreIds
    (heldCores jobs' workerId)
  gres : ∀ name, Pool.Keeps (worker.freeGres name) (heldGresIds jobs workerId name) (worker'.freeGres name)
    (heldGresIds jobs' workerId name)

variable {jobs jobs' : HashMap JobId JobInfo} {workerId : WorkerId} {worker worker' allocated : WorkerHandle}
  {jobId : JobId} {job started : JobInfo} {state state' : GlobalState}

theorem HandleMatches.fits (valid : HandleMatches jobs workerId worker) (range : worker.InRange) :
    HandleFits jobs workerId worker where
  toHandleMatches := valid
  coresWithin := range.cores.congr fun jobId => (valid.cores jobId).symm
  gresWithin name := (range.gres name).congr fun jobId => by rw [heldGresIds, valid.gres]

namespace HandleFits

theorem keep (valid : HandleFits jobs workerId worker) (same : SameOn jobs jobs' workerId) :
    HandleFits jobs' workerId worker where
  toHandleMatches := valid.toHandleMatches.keep same
  coresWithin := valid.coresWithin.congr same.cores
  gresWithin name := (valid.gresWithin name).congr (same.gresIds name)

theorem release (valid : HandleFits jobs workerId worker) (found : jobs.get? jobId = some job)
    (closes : Closes jobs jobs' jobId) : HandleFits jobs' workerId (worker.releaseJob workerId jobId job) := by
  by_cases listed : jobId ∈ worker.assignedJobs
  · refine ⟨valid.toHandleMatches.release found closes, ?_, fun name => ?_⟩
    · rw [WorkerHandle.releaseJob_resources]
      rcases valid.released found closes listed with ⟨free, _, idle, _⟩ | ⟨free, _⟩
      · rw [free]
        exact .range idle
      · rw [free]
        exact valid.coresWithin.give _ (closes.held_eq _ workerId)
    · rw [WorkerHandle.releaseJob_resources]
      rcases valid.released found closes listed with ⟨_, free, _, idle⟩ | ⟨_, free⟩
      · rw [free]
        exact .range (idle name)
      · rw [free]
        exact (valid.gresWithin name).give _ (closes.heldGresIds_eq workerId name)
  · rw [WorkerHandle.releaseJob_of_notMem listed]
    exact valid.keep (closes.sameOn (valid.assigned.not_running listed))

theorem allocate (valid : HandleFits jobs workerId worker) (opens : Opens jobs jobs' job.id started)
    (drained : worker.allocateJob job = some allocated) (records : Records started job.id workerId allocated) :
    HandleFits jobs' workerId allocated := by
  obtain ⟨_, same⟩ := allocateJob_eq drained
  have resources : allocated.resources = worker.resources := by rw [same]
  refine ⟨valid.toHandleMatches.allocate opens drained records, ?_, fun name => ?_⟩
  · rw [resources]
    have taken := opens.heldCores_eq drained records
    rw [same]
    exact valid.coresWithin.take job.reqCores taken
  · rw [resources]
    rcases opens.gres_share drained records name with ⟨free, same⟩ | ⟨amount, free, next⟩
    · rw [free]
      exact (valid.gresWithin name).congr same
    · rw [free]
      exact (valid.gresWithin name).take amount next

end HandleFits

theorem handleMatches_rule : LedgerRule HandleMatches fun _ _ => True where
  congr valid same := valid.keep (same.sameOn _)
  release := HandleMatches.release
  closeElsewhere valid closes elsewhere := valid.keep (closes.sameOn elsewhere)
  allocate valid opens drained records _ _ := valid.allocate opens drained records
  openElsewhere valid opens elsewhere := valid.keep (opens.sameOn elsewhere)

theorem handleFits_rule : LedgerRule HandleFits fun _ _ => True where
  congr valid same := valid.keep (same.sameOn _)
  release := HandleFits.release
  closeElsewhere valid closes elsewhere := valid.keep (closes.sameOn elsewhere)
  allocate valid opens drained records _ _ := valid.allocate opens drained records
  openElsewhere valid opens elsewhere := valid.keep (opens.sameOn elsewhere)

section Evictions

theorem Retains.trans {middle : HashMap JobId JobInfo} {between : WorkerHandle}
    (first : Retains jobs middle workerId worker between) (second : Retains middle jobs' workerId between worker') :
    Retains jobs jobs' workerId worker worker' where
  cores := first.cores.trans second.cores
  gres name := (first.gres name).trans (second.gres name)

theorem retains_elsewhere (same : SameOn jobs jobs' workerId) : Retains jobs jobs' workerId worker worker where
  cores := by
    rw [funext same.cores]
    exact fun _ there => there
  gres name := by
    rw [funext (same.gresIds name)]
    exact fun _ there => there

theorem HandleFits.retains (valid : HandleFits jobs workerId worker) (found : jobs.get? jobId = some job)
    (closes : Closes jobs jobs' jobId) :
    Retains jobs jobs' workerId worker (worker.releaseJob workerId jobId job) := by
  by_cases listed : jobId ∈ worker.assignedJobs
  · rcases valid.released found closes listed with ⟨cores, gres, _, _⟩ | ⟨cores, gres⟩
    · refine ⟨?_, fun name => ?_⟩
      · rw [cores]
        exact valid.coresWithin.keeps_range
      · rw [gres]
        exact (valid.gresWithin name).keeps_range
    · refine ⟨?_, fun name => ?_⟩
      · rw [cores]
        exact valid.coresWithin.keeps_give (closes.held_eq _ workerId)
      · rw [gres]
        exact (valid.gresWithin name).keeps_give (closes.heldGresIds_eq workerId name)
  · have elsewhere := valid.assigned.not_running listed
    rw [WorkerHandle.releaseJob_of_notMem listed]
    exact retains_elsewhere (closes.sameOn elsewhere)

theorem preempt_retains (agrees : Agrees HandleFits state) (jobId : JobId)
    (found : state.workers.get? workerId = some worker) :
    ∃ worker', (state.preemptJob jobId).workers.get? workerId = some worker' ∧
      Retains state.jobs (state.preemptJob jobId).jobs workerId worker worker' := by
  rcases state.preemptJob_cases jobId with ⟨job, stored, _, same⟩ | same
  · have closes : Closes state.jobs (state.preemptJob jobId).jobs jobId := by
      rw [same]
      exact closes_modify fun _ _ => by simp [JobInfo.requeued]
    have workers : (state.preemptJob jobId).workers.get? workerId =
        (state.releaseJobResourcesInternal jobId).workers.get? workerId := by rw [same]
    rw [workers, GlobalState.workers_release]
    simp only [stored]
    split
    · rw [found]
      exact ⟨_, rfl, (agrees workerId worker found).retains stored closes⟩
    · rename_i outside
      have elsewhere (job' : JobInfo) (found' : state.jobs.get? jobId = some job') : job'.runsOn workerId = false := by
        cases stored.symm.trans found'
        simp [JobInfo.runsOn, outside]
      exact ⟨worker, found, retains_elsewhere (closes.sameOn elsewhere)⟩
  · rw [same]
    exact ⟨worker, found, fun _ there => there, fun _ _ there => there⟩

theorem evict_retains (evictions : List JobId) : ∀ {state : GlobalState} {worker : WorkerHandle},
    Agrees HandleFits state → state.workers.get? workerId = some worker →
    ∃ worker', (state.evictJobs evictions).workers.get? workerId = some worker' ∧
      Retains state.jobs (state.evictJobs evictions).jobs workerId worker worker' := by
  induction evictions with
  | nil => intro state worker _ found; exact ⟨worker, found, fun _ there => there, fun _ _ there => there⟩
  | cons head rest ih =>
    intro state worker agrees found
    obtain ⟨between, present, first⟩ := preempt_retains agrees head found
    obtain ⟨worker', present', second⟩ := ih (agrees.preempt handleFits_rule head) present
    exact ⟨worker', present', first.trans second⟩

variable {evictions : List JobId} {gone : List JobId}

theorem Retains.cores_evict (retains : Retains state.jobs (state.evictJobs evictions).jobs workerId worker worker')
    (valid : HandleMatches state.jobs workerId worker) (distinct : gone.Nodup)
    (evicted : ∀ jobId ∈ gone, jobId ∈ evictions) :
    worker.availableCoreIds.length + preemptibleCores worker gone ≤ worker'.availableCoreIds.length := by
  have bound := valid.apart.length_le_free retains.cores (fun jobId units taken => held_evict_some taken) distinct
    fun jobId member => by rw [heldCores, held_evict, if_pos (evicted jobId member)]
  simpa only [preemptibleCores, valid.cores] using bound

theorem Retains.gres_evict (retains : Retains state.jobs (state.evictJobs evictions).jobs workerId worker worker')
    (valid : HandleMatches state.jobs workerId worker) (distinct : gone.Nodup)
    (evicted : ∀ jobId ∈ gone, jobId ∈ evictions) (name : String) :
    (worker.freeGres name).length + preemptibleGres worker gone name ≤ (worker'.freeGres name).length := by
  have bound := (valid.gresApart name).length_le_free (retains.gres name) (fun jobId units taken => heldGresIds_evict_some taken)
    distinct fun jobId member => by rw [heldGresIds, heldGres, held_evict, if_pos (evicted jobId member)]; rfl
  simpa only [preemptibleGres, valid.gres, heldGresIds] using bound

end Evictions

section Pass

variable {input : PassInput} {placement : Placement}

theorem placement_fits {turn : Nat} (agrees : Agrees HandleFits state) (ok : PlacementOk input turn state job placement)
    (node : workerId ∈ placement.nodes)
    (found' : (state.evictJobs placement.evictions).workers.get? workerId = some worker') :
    ∃ allocated, worker'.allocateJob job = some allocated := by
  rcases ok.fits with ⟨none, fits⟩ | fits
  · obtain ⟨stored, present, _, fitting⟩ := fits workerId node
    rw [none] at found'
    cases present.symm.trans found'
    obtain ⟨cores, _, gres⟩ := fits_now fitting
    exact allocateJob_isSome cores gres
  · obtain ⟨worker, present, _, fitting, covered⟩ := fits workerId node
    obtain ⟨after, there, retains⟩ := evict_retains placement.evictions agrees present
    cases there.symm.trans found'
    have valid := (agrees workerId worker present).toHandleMatches
    have distinct := preemptibleJobs_nodup input turn state workerId worker
    obtain ⟨cores, _, gres⟩ := fits_evicted fitting
    refine allocateJob_isSome (cores.trans (retains.cores_evict valid distinct covered)) fun name count requested => ?_
    exact (gres name count requested).trans (retains.gres_evict valid distinct covered name)

theorem Agrees.starts {turn : Nat} (agrees : Agrees HandleFits state)
    (placed : placeJob input turn state job = some (some placement)) :
    ∃ final, startJob input state job placement = some final := by
  have ok := placeJob_ok placed
  obtain ⟨workers, allocated⟩ := allocateNodes_isSome ok.distinct fun workerId node worker present =>
    placement_fits agrees ok node present
  rw [GlobalState.evictJobs] at allocated
  have some : (startJob input state job placement).isSome = true := by simp [startJob, allocated]
  exact Option.isSome_iff_exists.mp some

theorem Agrees.turn {Valid : HashMap JobId JobInfo → WorkerId → WorkerHandle → Prop} {turn : Nat}
    {pass next : PassState} (rule : LedgerRule Valid fun _ _ => True) (agrees : Agrees Valid pass.state)
    (outcome : TurnOutcome input turn pass jobId next) : Agrees Valid next.state := by
  cases outcome with
  | skip _ _ => exact agrees
  | wait _ _ _ reworded _ => exact agrees.reworded rule reworded
  | start found pending _ reworded placed starts =>
    obtain ⟨stored, found', status, memory⟩ := reworded.pending found pending
    exact (agrees.reworded rule reworded).start rule (placeJob_ok placed).distinct starts found' status memory
      fun _ _ _ _ => trivial

theorem GlobalState.InRange.schedules (range : state.InRange) (agrees : Agrees HandleMatches state)
    (input : PassInput) :
    ∃ final, scheduleJobs input state = some final := by
  have begins : Agrees HandleFits (passStart input state) := fun workerId worker found =>
    (agrees workerId worker found).fits (range.workers workerId worker found)
  let Inv (pass : PassState) : Prop := Agrees HandleFits pass.state ∧ Descends state.jobs pass.state.jobs
  have step (turn : Nat) (jobId : JobId) (listed : jobId ∈ pendingOrder input state) (pass : PassState) (valid : Inv pass) :
      ∃ next, passTurn input turn pass jobId = some next ∧ Inv next := by
    obtain ⟨agrees, descends⟩ := valid
    have queued : jobId ∈ state.queue := (List.perm_insertionSort _ _).mem_iff.mp listed
    have positive (job : JobInfo) (found : pass.state.jobs.get? jobId = some job) : 1 ≤ job.reqNodes := by
      obtain ⟨before, stored, same⟩ := descends jobId job found
      have nodes : job.reqNodes = before.reqNodes := congrArg (·.2.1) same
      exact nodes ▸ range.queued jobId queued before stored
    obtain ⟨next, taken⟩ : ∃ next, passTurn input turn pass jobId = some next := passTurn_isSome
      (fun job cleared found reworded => placeJob_isSome (positive job found))
      (fun job cleared placement found pending reworded placed => (agrees.reworded handleFits_rule reworded).starts placed)
    have outcome := passTurn_outcome taken
    exact ⟨next, taken, agrees.turn handleFits_rule outcome, descends.trans (turn_descends outcome)⟩
  obtain ⟨pass, ran, _⟩ := passTurns_isSome Inv (pendingOrder input state) step { state := passStart input state }
    ⟨begins, .refl _⟩
  exact ⟨{ pass.state with queue := pass.stillPending }, by rw [scheduleJobs, ran]; rfl⟩

end Pass

end Veloce
