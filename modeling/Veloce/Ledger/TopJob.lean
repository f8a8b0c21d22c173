import Veloce.Ledger.Projection

/-! Backfilling and the top job. -/

namespace Veloce

open Collections

/-- The first job that the turns cannot place, and the state its start is estimated in. -/
def firstBlocked (input : PassInput) : List JobId → PassState → Option (JobInfo × GlobalState)
  | [], _ => none
  | jobId :: rest, pass =>
    match passTurn input rest.length pass jobId with
    | none => none
    | some next =>
      if pass.topJobEarliestStart.isNone && next.topJobEarliestStart.isSome then
        (pass.state.jobs.get? jobId).map fun job => ({ job with id := jobId }, (pass.clearWaiting jobId).state)
      else firstBlocked input rest next

theorem firstBlocked_cons {input : PassInput} {jobId : JobId} {rest : List JobId} {pass next : PassState} {job : JobInfo}
    (found : pass.state.jobs.get? jobId = some job) (taken : passTurn input rest.length pass jobId = some next)
    (before : pass.topJobEarliestStart = none) {start : Nat} (after : next.topJobEarliestStart = some start) :
    firstBlocked input (jobId :: rest) pass =
      some ({ job with id := jobId }, (pass.clearWaiting jobId).state) := by
  rw [firstBlocked, taken]
  dsimp only
  rw [before, after, found]
  rfl

theorem passTurns_pair {input : PassInput} {first second : JobId} {pass middle next : PassState}
    (taken : passTurn input 1 pass first = some middle) (taken' : passTurn input 0 middle second = some next) :
    passTurns input [first, second] pass = some next := by
  rw [passTurns, List.length_singleton, taken]
  dsimp only
  rw [passTurns, List.length_nil, taken']
  rfl

section Turn

variable {input : PassInput} {turn : Nat} {pass next : PassState} {jobId : JobId}

theorem turn_top {start : Nat} (taken : passTurn input turn pass jobId = some next)
    (top : pass.topJobEarliestStart = some start) : next.topJobEarliestStart = some start := by
  unfold passTurn at taken
  split at taken
  · cases taken
    exact top
  · split at taken
    · split at taken
      · cases taken
        exact top
      · cases taken
        exact top
      · unfold placeTurn at taken
        split at taken
        · cases taken
          exact top
        · split at taken
          · cases taken
          · cases taken
            unfold blockJob
            have same : (pass.clearWaiting jobId).topJobEarliestStart = some start := top
            rw [same]
            exact top
          · obtain ⟨started, _, same⟩ := Option.map_eq_some_iff.mp taken
            subst same
            exact top
    · cases taken
      exact top

/-- The turn that sets the top job could not place it. -/
theorem turn_blocks (taken : passTurn input turn pass jobId = some next)
    (before : pass.topJobEarliestStart = none) (after : next.topJobEarliestStart ≠ none) :
    ∃ job, pass.state.jobs.get? jobId = some job ∧
      placeJob input turn (pass.clearWaiting jobId).state { job with id := jobId } = some none ∧
      next.topJobEarliestStart =
        some (calculateEarliestStartTime { job with id := jobId } (pass.clearWaiting jobId).state input.now) ∧
      Reworded (pass.clearWaiting jobId).state next.state := by
  unfold passTurn at taken
  split at taken
  · cases taken
    exact absurd before after
  · rename_i job found
    split at taken
    · split at taken
      · cases taken
        exact absurd before after
      · cases taken
        exact absurd before after
      · unfold placeTurn at taken
        split at taken
        · cases taken
          exact absurd before after
        · split at taken
          · cases taken
          · rename_i nowhere
            cases taken
            have unset : (pass.clearWaiting jobId).topJobEarliestStart = none := before
            refine ⟨job, found, nowhere, ?_, (blockJob_reworded input turn _ _).1⟩
            rw [blockJob, unset]
          · obtain ⟨started, _, same⟩ := Option.map_eq_some_iff.mp taken
            subst same
            exact absurd before after
    · cases taken
      exact absurd before after

theorem passTurn_unplaced {job : JobInfo} (found : pass.state.jobs.get? jobId = some job)
    (pending : job.status = .pending) (met : areDependenciesSatisfied job pass.state.jobs input.dbCache = .ok true)
    (granted : backfillDenial input (pass.clearWaiting jobId) { job with id := jobId } = none)
    (nowhere : placeJob input turn (pass.clearWaiting jobId).state { job with id := jobId } = some none) :
    passTurn input turn pass jobId = some (blockJob input turn (pass.clearWaiting jobId) { job with id := jobId }) := by
  unfold passTurn
  rw [found]
  dsimp only
  rw [if_pos pending, met]
  dsimp only
  rw [placeTurn, granted]
  dsimp only
  rw [nowhere]

theorem passTurn_placed {job : JobInfo} {placement : Placement} {started : GlobalState}
    (found : pass.state.jobs.get? jobId = some job)
    (pending : job.status = .pending) (met : areDependenciesSatisfied job pass.state.jobs input.dbCache = .ok true)
    (granted : backfillDenial input (pass.clearWaiting jobId) { job with id := jobId } = none)
    (placed : placeJob input turn (pass.clearWaiting jobId).state { job with id := jobId } = some (some placement))
    (starts : startJob input (pass.clearWaiting jobId).state { job with id := jobId } placement = some started) :
    passTurn input turn pass jobId = some { pass.clearWaiting jobId with state := started } := by
  unfold passTurn
  rw [found]
  dsimp only
  rw [if_pos pending, met]
  dsimp only
  rw [placeTurn, granted]
  dsimp only
  rw [placed]
  dsimp only
  rw [starts]
  rfl

/-- A job placed under a top job is expected to end by the top job's start. -/
theorem turnPlacement_short {placement : Placement} {start : Nat} {job : JobInfo}
    (found : pass.state.jobs.get? jobId = some job) (top : pass.topJobEarliestStart = some start)
    (chosen : turnPlacement input turn pass jobId = some placement) :
    addU64 input.now job.expectedDuration ≤ start := by
  unfold turnPlacement at chosen
  rw [found] at chosen
  dsimp only at chosen
  split at chosen
  · split at chosen
    · split at chosen
      · cases chosen
      · rename_i granted
        have same : (pass.clearWaiting jobId).topJobEarliestStart = some start := top
        rw [backfillDenial, same] at granted
        dsimp only at granted
        split at granted
        · cases granted
        · rename_i short
          exact Nat.le_of_not_lt short
    · cases chosen
  · cases chosen

end Turn

section Start

variable {state : GlobalState} {job : JobInfo} {now start : Nat} {workerId : WorkerId}

theorem mem_candidateWorkers : workerId ∈ candidateWorkers job state now start ↔
    ∃ worker, state.workers.get? workerId = some worker ∧ worker.draining = false ∧ worker.connected = true ∧
      state.isReserved workerId job start = false ∧
      (projectWorker state.runningJobs now start workerId worker).fits job = true := by
  rw [candidateWorkers, HashMap.mem_keys_filter]
  simp only [Bool.and_eq_true, Bool.not_eq_true', and_assoc]

theorem candidateWorkers_nodup : (candidateWorkers job state now start).Nodup := HashMap.keys_filter_nodup _ _

/-- Enough workers for a job, of one group if it asks for several. -/
def GlobalState.Hosts (state : GlobalState) (count : Nat) (workers : List WorkerId) : Prop :=
  count ≤ workers.length ∧
    (1 < count → ∃ group, count ≤ (workers.filter fun workerId => state.workerGroup workerId = some group).length)

theorem startsAt_iff : startsAt job state now start = true ↔
    state.Hosts job.reqNodes (candidateWorkers job state now start) := by
  rw [startsAt, GlobalState.Hosts]
  simp only [Bool.and_eq_true, Bool.or_eq_true, decide_eq_true_eq, List.any_eq_true]
  refine and_congr_right fun _ => ?_
  by_cases several : 1 < job.reqNodes
  · rw [HashMap.exists_group_iff (Nat.zero_lt_of_lt several)]
    simp [several, Nat.not_le.mpr several]
  · simp [several, Nat.le_of_not_lt several]

theorem GlobalState.Hosts.mono {state' : GlobalState} {count : Nat} {workers workers' : List WorkerId}
    (hosts : state.Hosts count workers) (distinct : workers.Nodup) (more : ∀ workerId ∈ workers, workerId ∈ workers')
    (groups : ∀ workerId, state'.workerGroup workerId = state.workerGroup workerId) :
    state'.Hosts count workers' := by
  refine ⟨hosts.1.trans (List.subperm_of_subset distinct more).length_le, fun several => ?_⟩
  obtain ⟨group, large⟩ := hosts.2 several
  refine ⟨group, large.trans (List.subperm_of_subset (distinct.filter _) ?_).length_le⟩
  intro workerId member
  obtain ⟨listed, grouped⟩ := List.mem_filter.mp member
  refine List.mem_filter.mpr ⟨more workerId listed, ?_⟩
  rw [groups]
  exact grouped

end Start

/-- The workers with room for the job at the moment, all their free cores counted. -/
def roomyWorkers (state : GlobalState) (now : Nat) (job : JobInfo) : List WorkerId :=
  (state.workers.toList.filter fun entry =>
    !entry.2.draining && entry.2.connected && !state.isReserved entry.1 job now &&
      (ProjectedWorkerResources.current entry.2).fits job).map Prod.fst

/-- The cast to `u32` hides the free cores of the worker: what it leaves is too few. -/
def coresHidden (state : GlobalState) (job : JobInfo) (workerId : WorkerId) : Bool :=
  match state.workers.get? workerId with
  | some worker => decide (asU32 worker.availableCoreIds.length < job.reqCores)
  | none => false

/-- If enough workers have room, enough remain without those whose cores the cast hides. -/
def CastHarmless (state : GlobalState) (now : Nat) (job : JobInfo) : Prop :=
  state.Hosts job.reqNodes (roomyWorkers state now job) →
    state.Hosts job.reqNodes ((roomyWorkers state now job).filter fun workerId => !coresHidden state job workerId)

section Selection

variable {input : PassInput} {turn : Nat} {state : GlobalState} {job : JobInfo} {workerId : WorkerId}

variable {now : Nat} {site : PassSite}

theorem projectWorker_now (clock : now + 1 < 2 ^ 64) (running : List JobInfo) (workerId : WorkerId)
    (worker : WorkerHandle) : projectWorker running now now workerId worker = .current worker := by
  have later (job : JobInfo) : ¬ projectedEnd job now ≤ now := by
    have sum : addU64 now 1 = now + 1 := Nat.mod_eq_of_lt clock
    rw [projectedEnd, sum]
    omega
  unfold projectWorker
  induction running with
  | nil => rfl
  | cons job rest ih =>
    rw [List.foldl_cons, if_neg (later job)]
    exact ih

theorem candidateWorkers_now (clock : now + 1 < 2 ^ 64) :
    candidateWorkers job state now now = roomyWorkers state now job := by
  simp only [candidateWorkers, roomyWorkers, projectWorker_now clock]

theorem roomyWorkers_nodup (state : GlobalState) (now : Nat) (job : JobInfo) : (roomyWorkers state now job).Nodup :=
  HashMap.keys_filter_nodup _ _

theorem mem_roomyWorkers : workerId ∈ roomyWorkers state now job ↔
    ∃ worker, state.workers.get? workerId = some worker ∧ worker.draining = false ∧ worker.connected = true ∧
      state.isReserved workerId job now = false ∧ (ProjectedWorkerResources.current worker).fits job = true := by
  rw [roomyWorkers, HashMap.mem_keys_filter]
  simp only [Bool.and_eq_true, Bool.not_eq_true', and_assoc]

theorem current_fits_iff {worker : WorkerHandle} : (ProjectedWorkerResources.current worker).fits job = true ↔
    job.reqCores ≤ worker.availableCoreIds.length ∧
      job.reqMemory ≤ worker.resources.totalMb - worker.allocatedMemory ∧
      ∀ name count, job.gresReq.get? name = some count →
        count ≤ ((worker.availableGresIds.get? name).map List.length).getD 0 := by
  have free (name : String) : (ProjectedWorkerResources.current worker).gresAvailable.getD name 0 =
      ((worker.availableGresIds.get? name).map List.length).getD 0 := by
    simp only [ProjectedWorkerResources.current, HashMap.getD, HashMap.get?_updateEntries]
    cases worker.availableGresIds.get? name <;> rfl
  simp only [ProjectedWorkerResources.fits, Bool.and_eq_true, decide_eq_true_eq, List.all_eq_true, and_assoc, free]
  refine and_congr_right fun _ => and_congr_right fun _ => ?_
  constructor
  · intro all name count requested
    exact all (name, count) (HashMap.mem_toList.mpr requested)
  · intro all entry listed
    exact all entry.1 entry.2 (HashMap.mem_toList.mp listed)

theorem workerFailReasons_eq_nil_iff {worker : WorkerHandle} :
    workerFailReasons state now job workerId worker = [] ↔
      state.isReserved workerId job now = false ∧ job.reqCores ≤ asU32 worker.availableCoreIds.length ∧
      job.reqMemory ≤ worker.resources.totalMb - worker.allocatedMemory ∧
      ∀ name count, job.gresReq.get? name = some count →
        count ≤ ((worker.availableGresIds.get? name).map List.length).getD 0 := by
  simp only [workerFailReasons, List.append_eq_nil_iff, ite_eq_right_iff, reduceCtorEq, imp_false, not_lt,
    List.flatMap_eq_nil_iff, and_assoc, Bool.not_eq_true]
  refine and_congr_right fun _ => and_congr_right fun _ => and_congr_right fun _ => ?_
  constructor
  · intro all name count requested
    exact all (name, count) (HashMap.mem_toList.mpr requested)
  · intro all entry listed
    exact all entry.1 entry.2 (HashMap.mem_toList.mp listed)

/-- The workers of the selection are those with room whose cores the cast leaves. -/
theorem mem_availableWorkers_iff : workerId ∈ availableWorkers input turn state job ↔
    workerId ∈ (roomyWorkers state input.now job).filter fun workerId => !coresHidden state job workerId := by
  rw [availableWorkers, (List.perm_insertionSort _ _).mem_iff, List.mem_map, List.mem_filter, mem_roomyWorkers]
  constructor
  · rintro ⟨⟨name, worker⟩, member, same⟩
    cases same
    obtain ⟨eligible, empty⟩ := List.mem_filter.mp member
    obtain ⟨found, draining, connected⟩ := mem_eligibleWorkers.mp eligible
    obtain ⟨unreserved, cores, memory, gres⟩ := workerFailReasons_eq_nil_iff.mp (List.isEmpty_iff.mp empty)
    have all := cores.trans (Nat.mod_le _ _)
    refine ⟨⟨worker, found, draining, connected, unreserved, current_fits_iff.mpr ⟨all, memory, gres⟩⟩, ?_⟩
    simp [coresHidden, found, cores]
  · rintro ⟨⟨worker, found, draining, connected, unreserved, fits⟩, kept⟩
    obtain ⟨_, memory, gres⟩ := current_fits_iff.mp fits
    have cores : job.reqCores ≤ asU32 worker.availableCoreIds.length := by simpa [coresHidden, found] using kept
    refine ⟨(workerId, worker), List.mem_filter.mpr ⟨mem_eligibleWorkers.mpr ⟨found, draining, connected⟩, ?_⟩, rfl⟩
    exact List.isEmpty_iff.mpr (workerFailReasons_eq_nil_iff.mpr ⟨unreserved, cores, memory, gres⟩)

theorem hosts_availableWorkers_iff : state.Hosts job.reqNodes (availableWorkers input turn state job) ↔
    state.Hosts job.reqNodes
      ((roomyWorkers state input.now job).filter fun workerId => !coresHidden state job workerId) :=
  ⟨fun hosts => hosts.mono availableWorkers_nodup (fun _ => mem_availableWorkers_iff.mp) fun _ => rfl,
    fun hosts => hosts.mono ((roomyWorkers_nodup state input.now job).filter _)
      (fun _ => mem_availableWorkers_iff.mpr) fun _ => rfl⟩

/-- Nodes are picked whenever the workers could host the job. -/
theorem not_hosts_of_pickNodes {count : Nat} {workers : List WorkerId}
    (nowhere : pickNodes input.order site state.workerGroup count workers = some none) :
    ¬ state.Hosts count workers := by
  intro hosts
  rw [pickNodes, if_pos hosts.1] at nowhere
  split at nowhere
  · rename_i several
    have empty := Option.map_eq_none_iff.mp (Option.some.inj nowhere)
    rw [List.find?_eq_none] at empty
    obtain ⟨group, member, large⟩ :=
      (HashMap.exists_group_iff (Nat.zero_lt_of_lt several)).mpr (hosts.2 several)
    exact empty group (IterOrder.mem_shuffle.mpr member) (decide_eq_true large)
  · obtain ⟨first, _, same⟩ := Option.map_eq_some_iff.mp nowhere
    cases same

theorem hosts_of_pickNodes {count : Nat} {workers nodes : List WorkerId}
    (picked : pickNodes input.order site state.workerGroup count workers = some (some nodes)) :
    state.Hosts count workers := by
  unfold pickNodes at picked
  split at picked
  · rename_i enough
    refine ⟨enough, fun several => ?_⟩
    rw [if_pos several] at picked
    obtain ⟨ids, first, _⟩ := Option.map_eq_some_iff.mp (Option.some.inj picked)
    have member := IterOrder.mem_shuffle.mp (List.mem_of_find?_eq_some first)
    have large : count ≤ ids.length := by simpa using List.find?_some first
    exact (HashMap.exists_group_iff (Nat.zero_lt_of_lt several)).mp ⟨ids, member, large⟩
  · cases picked

/-- The selection finds workers for a job exactly when those it considers could host it. -/
theorem selects_iff (positive : 1 ≤ job.reqNodes) :
    (∃ nodes, pickNodes input.order site state.workerGroup job.reqNodes (availableWorkers input turn state job) =
      some (some nodes)) ↔ state.Hosts job.reqNodes (availableWorkers input turn state job) := by
  constructor
  · rintro ⟨nodes, picked⟩
    exact hosts_of_pickNodes picked
  · intro hosts
    obtain ⟨choice, picked⟩ := pickNodes_isSome input.order site state.workerGroup
      (availableWorkers input turn state job) positive
    cases choice with
    | some nodes => exact ⟨nodes, picked⟩
    | none => exact absurd hosts (not_hosts_of_pickNodes picked)

/-- The cast is harmless where it makes no number of free cores too small that is not. -/
theorem castHarmless_of_counted (counted : ∀ workerId worker,
    state.workers.get? workerId = some worker → job.reqCores ≤ asU32 worker.availableCoreIds.length ∨
      worker.availableCoreIds.length < job.reqCores) : CastHarmless state now job := by
  intro hosts
  rwa [List.filter_eq_self.mpr]
  intro workerId roomy
  obtain ⟨worker, found, _, _, _, fits⟩ := mem_roomyWorkers.mp roomy
  have enough := (current_fits_iff.mp fits).1
  rcases counted workerId worker found with kept | few
  · simp [coresHidden, found, kept]
  · omega

end Selection

section Estimate

variable {state : GlobalState} {job : JobInfo} {now : Nat}

/-- The other candidate times are later than now, and so is the time of a job that never fits. -/
theorem earliest_eq_now_iff (clock : now + 1 < 2 ^ 64) :
    calculateEarliestStartTime job state now = now ↔ state.Hosts job.reqNodes (roomyWorkers state now job) := by
  have sum : addU64 now 1 = now + 1 := Nat.mod_eq_of_lt clock
  have later : ∀ time ∈ state.runningJobs.map (projectedEnd · now), now < time := by
    intro time member
    obtain ⟨other, _, same⟩ := List.mem_map.mp member
    rw [← same, projectedEnd, sum]
    omega
  have sorted : (now :: state.runningJobs.map (projectedEnd · now)).insertionSort (· ≤ ·) =
      now :: (state.runningJobs.map (projectedEnd · now)).insertionSort (· ≤ ·) :=
    List.insertionSort_cons_of_forall_rel (r := (· ≤ ·)) fun time member => Nat.le_of_lt (later time member)
  have apart : now ∉ (state.runningJobs.map (projectedEnd · now)).insertionSort (· ≤ ·) := fun member =>
    Nat.lt_irrefl now (later now ((List.perm_insertionSort _ _).mem_iff.mp member))
  rw [← candidateWorkers_now clock, ← startsAt_iff, calculateEarliestStartTime, sorted, List.dedup_cons_of_notMem apart,
    List.find?_cons]
  cases starts : startsAt job state now now with
  | true => simp
  | false =>
    refine iff_of_false (fun same => ?_) (fun hosted => by cases hosted)
    dsimp only at same
    cases found : ((state.runningJobs.map (projectedEnd · now)).insertionSort (· ≤ ·)).dedup.find?
        (startsAt job state now) with
    | none =>
      rw [found, Option.getD_none] at same
      omega
    | some start =>
      rw [found, Option.getD_some] at same
      have member := List.mem_dedup.mp (List.mem_of_find?_eq_some found)
      exact Nat.lt_irrefl now (same ▸ later start ((List.perm_insertionSort _ _).mem_iff.mp member))

theorem now_le_earliest (clock : now + 1 < 2 ^ 64) : now ≤ calculateEarliestStartTime job state now := by
  have sum : addU64 now 1 = now + 1 := Nat.mod_eq_of_lt clock
  rw [calculateEarliestStartTime]
  cases first : (((now :: state.runningJobs.map (projectedEnd · now)).insertionSort (· ≤ ·)).dedup.find?
      (startsAt job state now)) with
  | none =>
    rw [Option.getD_none]
    omega
  | some start =>
    rw [Option.getD_some]
    have member := List.mem_of_find?_eq_some first
    rw [List.mem_dedup, (List.perm_insertionSort _ _).mem_iff, List.mem_cons] at member
    rcases member with same | later
    · exact same.ge
    · obtain ⟨other, _, same⟩ := List.mem_map.mp later
      rw [← same, projectedEnd, sum]
      omega

variable {input : PassInput}

theorem not_hosts_of_unplaced {turn : Nat} (nowhere : placeJob input turn state job = some none) :
    ¬ state.Hosts job.reqNodes (availableWorkers input turn state job) := by
  unfold placeJob at nowhere
  split at nowhere
  · cases nowhere
  · cases nowhere
  · rename_i unpicked
    exact not_hosts_of_pickNodes unpicked

/-- A blocked job is estimated for now just when the cast hides the workers it needs. -/
theorem blocked_later_iff {turn : Nat} (clock : input.now + 1 < 2 ^ 64)
    (nowhere : placeJob input turn state job = some none) :
    calculateEarliestStartTime job state input.now ≠ input.now ↔ CastHarmless state input.now job := by
  rw [ne_eq, earliest_eq_now_iff clock, CastHarmless, ← hosts_availableWorkers_iff]
  exact ⟨fun unfit hosts => absurd hosts unfit, fun harmless hosts => not_hosts_of_unplaced nowhere (harmless hosts)⟩

/-- The estimate of a job that the selection does not place lies in the future, if the cast is harmless. -/
theorem now_lt_earliest {turn : Nat} (clock : input.now + 1 < 2 ^ 64) (harmless : CastHarmless state input.now job)
    (nowhere : placeJob input turn state job = some none) :
    input.now < calculateEarliestStartTime job state input.now := by
  have different := (blocked_later_iff clock nowhere).mpr harmless
  have least : input.now ≤ calculateEarliestStartTime job state input.now := now_le_earliest clock
  omega

end Estimate

/-- What a pass keeps under a top job: the workers, the reservations and the allocation
invariant, and no job outlasts the top job's start that did not do so before. -/
structure Undelayed (estimated : GlobalState) (now start : Nat) (state : GlobalState) : Prop where
  allocation : Allocation state
  links : SameLinks estimated.workers state.workers
  reservations : state.reservations = estimated.reservations
  outlasting : ∀ jobId job, state.jobs.get? jobId = some job → job.status = .running →
    start < projectedEnd job now → ∃ old, estimated.jobs.get? jobId = some old ∧ job.unworded = old.unworded

namespace Undelayed

variable {estimated state state' : GlobalState} {now start : Nat} {job : JobInfo}

theorem refl (allocation : Allocation estimated) : Undelayed estimated now start estimated :=
  ⟨allocation, fun _ => rfl, rfl, fun _ job found _ _ => ⟨job, found, rfl⟩⟩

theorem reworded (valid : Undelayed estimated now start state) (allocation : Allocation state')
    (reworded : Reworded state state') : Undelayed estimated now start state' where
  allocation := allocation
  links := by
    rw [reworded.workers]
    exact valid.links
  reservations := reworded.reservations.trans valid.reservations
  outlasting jobId job' found running late := by
    obtain ⟨job, stored, same⟩ := reworded.found_back found
    have status := congrArg JobInfo.status same
    have ends : projectedEnd job' now = projectedEnd job now := by
      have whole := congrArg (projectedEnd · now) same
      exact whole
    obtain ⟨old, first, equal⟩ := valid.outlasting jobId job stored (status.symm.trans running) (ends ▸ late)
    exact ⟨old, first, same.trans equal⟩

theorem turn {input : PassInput} {turn : Nat} {pass next : PassState} {jobId : JobId}
    (valid : Undelayed estimated input.now start pass.state) (top : pass.topJobEarliestStart = some start)
    (later : input.now < start) (outcome : TurnOutcome input turn pass jobId next) :
    Undelayed estimated input.now start next.state := by
  have allocation := valid.allocation.turn outcome
  cases outcome with
  | skip _ _ => exact valid
  | wait _ _ _ reworded _ => exact valid.reworded allocation reworded
  | @start record placement cleared started found pending chosen reworded placed starts =>
    have short := turnPlacement_short found top chosen
    have ok := placeJob_ok placed
    obtain ⟨stored, found', same⟩ := reworded.found found
    have status := congrArg JobInfo.status same
    obtain ⟨workers, _, _, opens⟩ := start_opens starts found' (status.trans pending)
    have cleared' := valid.reworded ⟨reworded.descends.keyed valid.allocation.keyed,
      valid.allocation.agrees.reworded handleFull_rule reworded, valid.allocation.granted.reworded reworded⟩ reworded
    refine ⟨allocation, cleared'.links.trans (start_links ok.distinct starts),
      (startJob_reservations starts).trans cleared'.reservations, fun other job' listed running late => ?_⟩
    by_cases own : other = jobId
    · subst own
      cases opens.opened.symm.trans listed
      have duration : stored.expectedDuration = record.expectedDuration := by
        have whole := congrArg JobInfo.expectedDuration same
        exact whole
      have ends : projectedEnd (stored.started other placement.nodes workers input.now) input.now =
          max (addU64 input.now stored.expectedDuration) (addU64 input.now 1) := rfl
      have sum : addU64 input.now 1 ≤ input.now + 1 := Nat.mod_le _ _
      rw [ends, duration] at late
      omega
    · rw [opens.others other own, GlobalState.get?_evictJobs] at listed
      split at listed
      · obtain ⟨before, _, evicted⟩ := Option.map_eq_some_iff.mp listed
        exact absurd running (evicted ▸ evicted_not_running before)
      · exact cleared'.outlasting other job' listed running late

theorem turns {input : PassInput} (later : input.now < start) (order : List JobId) {pass final : PassState}
    (valid : Undelayed estimated input.now start pass.state) (top : pass.topJobEarliestStart = some start)
    (ran : passTurns input order pass = some final) :
    Undelayed estimated input.now start final.state ∧ final.topJobEarliestStart = some start := by
  refine passTurns_invariant (fun _ pass =>
    Undelayed estimated input.now start pass.state ∧ pass.topJobEarliestStart = some start) ?_ order ⟨valid, top⟩ ran
  intro jobId rest pass next before taken
  exact ⟨before.1.turn before.2 later (passTurn_outcome taken), turn_top taken before.2⟩

theorem outlasting_le (valid : Undelayed estimated now start state) (kind : ResourceKind) (workerId : WorkerId) :
    state.outlasting kind workerId now start ≤ estimated.outlasting kind workerId now start := by
  rw [GlobalState.outlasting, GlobalState.outlasting, ResourceKind.load, ResourceKind.load]
  apply HashMap.total_le_total
  intro jobId job found heavy
  have counts : (job.runsOn workerId && decide (start < projectedEnd job now)) = true := by
    by_contra light
    exact heavy (if_neg light)
  have both := counts
  rw [Bool.and_eq_true, decide_eq_true_eq] at both
  obtain ⟨old, stored, same⟩ := valid.outlasting jobId job found (runsOn_iff.mp both.1).1 both.2
  have test : (old.runsOn workerId && decide (start < projectedEnd old now)) =
      (job.runsOn workerId && decide (start < projectedEnd job now)) := by
    have whole := congrArg (fun view => view.runsOn workerId && decide (start < projectedEnd view now)) same
    exact whole.symm
  have request : kind.requested job = kind.requested old := by
    have whole := congrArg kind.requested same
    cases kind <;> exact whole
  refine ⟨old, stored, ?_⟩
  rw [test, if_pos counts, if_pos counts, request]

theorem projected_le (valid : Undelayed estimated now start state) (before : Allocation estimated)
    {workerId : WorkerId} {worker worker' : WorkerHandle} (found : estimated.workers.get? workerId = some worker)
    (found' : state.workers.get? workerId = some worker') (same : worker'.resources = worker.resources)
    (machine : worker.resources.Representable) (kind : ResourceKind) :
    kind.projected (projectWorker estimated.runningJobs now start workerId worker) ≤
      kind.projected (projectWorker state.runningJobs now start workerId worker') := by
  have less := valid.outlasting_le kind workerId
  have old := before.projected_add_outlasting found machine kind now start
  have new := valid.allocation.projected_add_outlasting found' (same ▸ machine) kind now start
  rw [same] at new
  omega

theorem startsAt (valid : Undelayed estimated now start state) (before : Allocation estimated)
    (machines : Machines estimated.workers)
    (starts : Veloce.startsAt job estimated now start = true) : Veloce.startsAt job state now start = true := by
  refine startsAt_iff.mpr ((startsAt_iff.mp starts).mono candidateWorkers_nodup ?_ ?_)
  · intro workerId candidate
    obtain ⟨worker, found, draining, connected, unreserved, fits⟩ := mem_candidateWorkers.mp candidate
    obtain ⟨worker', found', link⟩ := valid.links.found found
    have resources := congrArg Link.resources link
    have reserved : state.isReserved workerId job start = estimated.isReserved workerId job start := by
      rw [GlobalState.isReserved, GlobalState.isReserved, valid.reservations]
    refine mem_candidateWorkers.mpr ⟨worker', found', (congrArg Link.draining link).trans draining,
      (congrArg Link.connected link).trans connected, reserved.trans unreserved, ?_⟩
    refine ResourceKind.fits_iff.mpr fun kind => (ResourceKind.fits_iff.mp fits kind).trans ?_
    exact valid.projected_le before found found' resources (machines workerId worker found) kind
  · intro workerId
    have links := congrArg (Option.map fun link => link.resources.group) (valid.links workerId)
    rw [Option.map_map, Option.map_map] at links
    exact links

end Undelayed

section Pass

variable {input : PassInput} {job : JobInfo} {estimated : GlobalState}

/-- The estimate of the top job is later than now if the cast is harmless in its turn, and from this turn
on the pass keeps its start feasible. -/
theorem passTurns_undelayed (clock : input.now + 1 < 2 ^ 64) (order : List JobId) :
    ∀ {pass final : PassState}, Allocation pass.state → Machines pass.state.workers →
      passTurns input order pass = some final → firstBlocked input order pass = some (job, estimated) →
      (calculateEarliestStartTime job estimated input.now ≠ input.now ↔ CastHarmless estimated input.now job) ∧
      (CastHarmless estimated input.now job →
        startsAt job estimated input.now (calculateEarliestStartTime job estimated input.now) = true →
        startsAt job final.state input.now (calculateEarliestStartTime job estimated input.now) = true) := by
  induction order with
  | nil =>
    intro pass final _ _ _ blocked
    cases blocked
  | cons jobId rest ih =>
    intro pass final valid machines ran blocked
    unfold passTurns at ran
    unfold firstBlocked at blocked
    split at ran
    · cases ran
    · rename_i next taken
      rw [taken] at blocked
      dsimp only at blocked
      have outcome := passTurn_outcome taken
      split at blocked
      · rename_i sets
        rw [Bool.and_eq_true, Option.isNone_iff_eq_none, Option.isSome_iff_ne_none] at sets
        obtain ⟨record, found, nowhere, top, reworded⟩ := turn_blocks taken sets.1 sets.2
        rw [found] at blocked
        cases blocked
        have cleared := clearWaiting_reworded pass jobId
        have links : (pass.clearWaiting jobId).state.workers = pass.state.workers := cleared.workers
        have before : Allocation (pass.clearWaiting jobId).state := ⟨cleared.descends.keyed valid.keyed,
          valid.agrees.reworded handleFull_rule cleared, valid.granted.reworded cleared⟩
        refine ⟨blocked_later_iff clock nowhere, fun harmless fits => ?_⟩
        have later := now_lt_earliest clock harmless nowhere
        obtain ⟨kept, _⟩ := Undelayed.turns later rest
          ((Undelayed.refl before).reworded (valid.turn outcome) reworded) top ran
        exact kept.startsAt before (links ▸ machines) fits
      · exact ih (valid.turn outcome) (machines.links (turn_links outcome)) ran blocked

/-- Backfilling never delays the top job unless the cast hides workers that it needs, which is when its
start is estimated for now although it is blocked: else, in the state after the pass it could still
start at the time that was estimated. -/
theorem schedule_keeps_top_start {state final : GlobalState} (valid : Allocation state)
    (machines : Machines state.workers) (clock : input.now + 1 < 2 ^ 64)
    (ran : scheduleJobs input state = some final)
    (blocked : firstBlocked input (pendingOrder input state) { state := passStart input state } =
      some (job, estimated)) :
    (calculateEarliestStartTime job estimated input.now ≠ input.now ↔ CastHarmless estimated input.now job) ∧
    (CastHarmless estimated input.now job →
      startsAt job estimated input.now (calculateEarliestStartTime job estimated input.now) = true →
      startsAt job final input.now (calculateEarliestStartTime job estimated input.now) = true) := by
  obtain ⟨pass, turns, same⟩ := Option.map_eq_some_iff.mp ran
  subst same
  have begins : Allocation (passStart input state) := ⟨valid.keyed, valid.agrees, valid.granted⟩
  exact passTurns_undelayed clock (pendingOrder input state) begins machines turns blocked

end Pass

/-- A leader whose only worker runs one job while another one waits for it. -/
def busyLeader : Option ControllerContext :=
  runLabels LedgerOp.apply [.register (sampleRegistration "w1") 100, .submit (sampleSubmission 1 .production 1 "sh") 2,
    .schedule { now := 100 }, .submit (sampleSubmission 2 .production 1 "sh") 3] sampleLeader

theorem allocation_twoJobs {qos qos' : QosLevel} {ctx : ControllerContext}
    (ran : runLabels LedgerOp.apply [.register (sampleRegistration "w1") 100, .submit (sampleSubmission 1 qos 1 "sh") 2,
      .schedule { now := 100 }, .submit (sampleSubmission 2 qos' 1 "sh") 3] sampleLeader = some ctx) :
    Allocation ctx.state := by
  have permitted : AllowedRun (fun ctx op => LedgerOp.Allowed (fun _ => sampleResources) ctx op) LedgerOp.apply
      [.register (sampleRegistration "w1") 100, .submit (sampleSubmission 1 qos 1 "sh") 2,
        .schedule { now := 100 }, .submit (sampleSubmission 2 qos' 1 "sh") 3] sampleLeader := by
    refine ⟨rfl, fun registered taken => ?_⟩
    cases taken
    refine ⟨⟨rfl, Nat.le_refl 1⟩, fun submitted taken => ?_⟩
    cases taken
    refine ⟨trivial, fun scheduled taken => ⟨⟨?_, Nat.le_refl 1⟩, fun _ _ => trivial⟩⟩
    exact (LedgerOp.descends (by simp) taken).absent 2 rfl
  exact allocation_of_reach (runLabels_reach (.start ⟨rfl, rfl, rfl⟩) permitted ran)

/-- The second job waits for the first one to end at 3700 and can start then. -/
theorem schedule_keeps_top_start_busyLeader : ∃ ctx job estimated final, busyLeader = some ctx ∧
    firstBlocked { now := 200 } (pendingOrder { now := 200 } ctx.state)
      { state := passStart { now := 200 } ctx.state } = some (job, estimated) ∧
    scheduleJobs { now := 200 } ctx.state = some final ∧
    calculateEarliestStartTime job estimated 200 = 3700 ∧
    startsAt job final 200 (calculateEarliestStartTime job estimated 200) = true := by
  obtain ⟨ctx, ran⟩ : ∃ ctx, busyLeader = some ctx := Option.isSome_iff_exists.mp (by decide +kernel)
  have checks : (busyLeader.bind fun ctx =>
      (firstBlocked { now := 200 } (pendingOrder { now := 200 } ctx.state)
        { state := passStart { now := 200 } ctx.state }).map fun top =>
      (calculateEarliestStartTime top.1 top.2 200,
        startsAt top.1 top.2 200 (calculateEarliestStartTime top.1 top.2 200),
        top.2.workers.toList.all fun entry => decide (entry.2.availableCoreIds.length < 2 ^ 32))) =
      some (3700, true, true) := by decide +kernel
  have machine : (busyLeader.map fun ctx => ctx.state.workers.toList.all fun entry =>
      decide (entry.2.resources.cpuCores < 2 ^ 64 ∧ entry.2.resources.totalMemory < 2 ^ 64)) = some true := by
    decide +kernel
  have runs : (busyLeader.bind fun ctx => scheduleJobs { now := 200 } ctx.state).isSome = true := by decide +kernel
  rw [ran, Option.bind_some] at checks runs
  rw [ran, Option.map_some] at machine
  obtain ⟨⟨job, estimated⟩, blocked, facts⟩ := Option.map_eq_some_iff.mp checks
  obtain ⟨final, finished⟩ := Option.isSome_iff_exists.mp runs
  simp only [Prod.mk.injEq, List.all_eq_true, decide_eq_true_eq] at facts
  obtain ⟨start, fits, small⟩ := facts
  have machines : Machines ctx.state.workers := by
    intro workerId worker found
    simp only [Option.some.injEq, List.all_eq_true, decide_eq_true_eq] at machine
    have values := machine (workerId, worker) (HashMap.mem_toList.mpr found)
    exact ⟨values.1, values.2⟩
  have harmless : CastHarmless estimated 200 job := by
    refine castHarmless_of_counted fun workerId worker found => ?_
    have few := small (workerId, worker) (HashMap.mem_toList.mpr found)
    rw [asU32, Nat.mod_eq_of_lt few]
    exact (Nat.lt_or_ge _ _).symm
  have clock : ({ now := 200 } : PassInput).now + 1 < 2 ^ 64 := by decide
  have kept := schedule_keeps_top_start (allocation_twoJobs ran) machines clock finished blocked
  exact ⟨ctx, job, estimated, final, ran, blocked, finished, start, kept.2 harmless fits⟩

def hugeResources : Resources :=
  { sampleResources with cpuCores := 2 ^ 32, totalMemory := 104857600, gres := ∅ }

def coreSubmission : Submission where
  job := { id := 1, binary := "sh", reqNodes := 1, reqCores := 1, reqMemory := 100, userId := "user" }
  pending := rfl
  unassigned := rfl
  unallocated := ⟨rfl, rfl⟩
  unstarted := rfl

/-- A job without cores, expected to end at once, that needs all of the memory as well. -/
def briefSubmission : Submission where
  job := { id := 2, binary := "sh", reqNodes := 1, reqCores := 0, reqMemory := 100, userId := "user",
           estimatedWalltime := some 0 }
  pending := rfl
  unassigned := rfl
  unallocated := ⟨rfl, rfl⟩
  unstarted := rfl

def hugeOps : List LedgerOp :=
  [.register { sampleRegistration "w1" with resources := hugeResources } 100, .submit coreSubmission 2,
    .submit briefSubmission 3]

def hugeLeader : ControllerContext :=
  { sampleLeader with
    state := ((sampleLeader.state.registerWorker
      { sampleRegistration "w1" with resources := hugeResources } 100).acceptSubmission coreSubmission 2).acceptSubmission
        briefSubmission 3 }

theorem hugeLeader_reached : Reach EmptyLeader (LedgerStep fun _ => hugeResources) hugeLeader := by
  have permitted : AllowedRun (fun ctx op => LedgerOp.Allowed (fun _ => hugeResources) ctx op) LedgerOp.apply
      hugeOps sampleLeader := by
    refine ⟨rfl, fun registered taken => ?_⟩
    cases taken
    refine ⟨⟨rfl, Nat.le_refl 1⟩, fun submitted taken => ?_⟩
    cases taken
    exact ⟨⟨rfl, Nat.le_refl 1⟩, fun _ _ => trivial⟩
  have ran : runLabels LedgerOp.apply hugeOps sampleLeader = some hugeLeader := rfl
  exact runLabels_reach (.start ⟨rfl, rfl, rfl⟩) permitted ran

def hugeWorker : WorkerHandle :=
  Registration.handle { sampleRegistration "w1" with resources := hugeResources } (.direct .live) 100 (.idle hugeResources)

theorem length_hugeWorker : hugeWorker.availableCoreIds.length = 2 ^ 32 := by
  rw [hugeWorker, Registration.handle, RebuiltWorkerAllocations.idle, List.length_range, hugeResources]

/-- What the turns of a pass over the huge worker have in common before a job starts. -/
structure HugeIdle (state : GlobalState) : Prop where
  workers : state.workers = hugeLeader.state.workers
  reservations : state.reservations = ∅

theorem hugeLeader_worker {workerId : WorkerId} {worker : WorkerHandle} :
    hugeLeader.state.workers.get? workerId = some worker ↔ workerId = "w1" ∧ worker = hugeWorker := by
  have table : hugeLeader.state.workers = (∅ : HashMap WorkerId WorkerHandle).insert "w1" hugeWorker := rfl
  rw [table, HashMap.get?_insert]
  split
  · rename_i same
    simp [same, eq_comm]
  · rename_i other
    simp [other]

theorem HugeIdle.startsAt {state : GlobalState} (idle : HugeIdle state) {job : JobInfo} (nodes : job.reqNodes = 1)
    (cores : job.reqCores ≤ 1) (memory : job.reqMemory ≤ 100) (gres : job.gresReq = ∅) :
    startsAt job state 100 100 = true := by
  have found : state.workers.get? "w1" = some hugeWorker := by
    rw [idle.workers]
    exact hugeLeader_worker.mpr ⟨rfl, rfl⟩
  have candidate : "w1" ∈ candidateWorkers job state 100 100 := by
    refine mem_candidateWorkers.mpr ⟨hugeWorker, found, rfl, rfl, ?_, ?_⟩
    · rw [GlobalState.isReserved, idle.reservations]
      rfl
    · rw [projectWorker_now (by decide)]
      refine ResourceKind.fits_iff.mpr fun kind => ?_
      rw [ResourceKind.projected_current]
      cases kind with
      | cores =>
        rw [ResourceKind.free, length_hugeWorker]
        exact cores.trans (by decide)
      | memory => exact memory.trans (by decide)
      | gres name =>
        rw [ResourceKind.requested, gres]
        exact Nat.zero_le _
  refine startsAt_iff.mpr ⟨?_, fun several => ?_⟩
  · rw [nodes]
    exact List.length_pos_of_mem candidate
  · rw [nodes] at several
    exact absurd several (Nat.lt_irrefl 1)

/-- Jobs of equal score stay in the order of their ids. -/
theorem scoreOrder_of_same {score : JobId → Float} {left right : JobId} (same : score left = score right)
    (before : left < right) : scoreOrder score left right = .lt := by
  have ids : compare left right = .lt := Nat.compare_eq_lt.mpr before
  unfold scoreOrder partialCmp
  rw [same, ids]
  by_cases less : score right < score right
  · simp [less]
  · by_cases equal : (score right == score right) = true
    · simp [less, equal]
    · simp [less, equal]

theorem hugeLeader_order : pendingOrder { now := 100 } hugeLeader.state = [1, 2] := by
  have queue : hugeLeader.state.queue = [1, 2] := rfl
  have order : scoreOrder (jobScore {} (passStart { now := 100 } hugeLeader.state) 100) 1 2 = .lt :=
    scoreOrder_of_same rfl (by decide)
  rw [pendingOrder, sortPending, queue]
  simp [order]

def hugePass : PassState := { state := passStart { now := 100 } hugeLeader.state }

def blockedPass : PassState := blockJob { now := 100 } 1 (hugePass.clearWaiting 1) { coreSubmission.job with id := 1 }

theorem hugePass_idle : HugeIdle (hugePass.clearWaiting 1).state := ⟨rfl, rfl⟩

theorem blockedPass_idle : HugeIdle (blockedPass.clearWaiting 2).state := ⟨rfl, rfl⟩

theorem hugePass_unplaced : placeJob { now := 100 } 1 (hugePass.clearWaiting 1).state
    { coreSubmission.job with id := 1 } = some none := by
  have nobody : availableWorkers { now := 100 } 1 (hugePass.clearWaiting 1).state
      { coreSubmission.job with id := 1 } = [] := by
    refine List.eq_nil_iff_forall_not_mem.mpr fun workerId available => ?_
    obtain ⟨worker, found, _, reasons⟩ := mem_availableWorkers available
    rw [hugePass_idle.workers] at found
    obtain ⟨_, same⟩ := hugeLeader_worker.mp found
    simp only [workerFailReasons, same, length_hugeWorker, List.append_eq_nil_iff] at reasons
    have cast : asU32 (2 ^ 32) < coreSubmission.job.reqCores := by decide
    have cores := reasons.1.1.2
    rw [if_pos cast] at cores
    cases cores
  have nodes : coreSubmission.job.reqNodes = 1 := rfl
  have qos : coreSubmission.job.qos ≠ .interactive := by decide
  rw [placeJob, nobody, pickNodes, nodes]
  simp [qos]

theorem hugePass_blocks : passTurn { now := 100 } 1 hugePass 1 = some blockedPass :=
  have found : hugePass.state.jobs.get? 1 = some coreSubmission.job := rfl
  passTurn_unplaced found rfl rfl rfl hugePass_unplaced

theorem hugePass_estimate :
    calculateEarliestStartTime { coreSubmission.job with id := 1 } (hugePass.clearWaiting 1).state 100 = 100 := by
  have idle : (hugePass.clearWaiting 1).state.runningJobs = [] := rfl
  have starts : startsAt { coreSubmission.job with id := 1 } (hugePass.clearWaiting 1).state 100 100 = true :=
    hugePass_idle.startsAt rfl (Nat.le_refl 1) (Nat.le_refl 100) rfl
  rw [calculateEarliestStartTime, idle]
  simp [starts]

theorem blockedPass_top : blockedPass.topJobEarliestStart = some 100 := by
  rw [← hugePass_estimate]
  rfl

theorem hugePass_consistent : Consistent (fun _ => hugeResources) [] (blockedPass.clearWaiting 2).state := by
  have valid := consistent_of_reach hugeLeader_reached
  have begins : Consistent (fun _ => hugeResources) [] hugePass.state :=
    ⟨valid.keyed, valid.positive, valid.present, valid.reported, valid.agrees⟩
  have blocked := (blockJob_reworded { now := 100 } 1 (hugePass.clearWaiting 1) { coreSubmission.job with id := 1 }).1
  have reworded : Reworded hugePass.state (blockedPass.clearWaiting 2).state :=
    (clearWaiting_reworded hugePass 1).trans (blocked.trans (clearWaiting_reworded blockedPass 2))
  exact (begins.balanced.reworded handleFull_handles reworded).consistent
    (reworded.descends.positive begins.positive)

theorem blockedPass_placed : ∃ placement, placeJob { now := 100 } 0 (blockedPass.clearWaiting 2).state
    { briefSubmission.job with id := 2 } = some (some placement) := by
  obtain ⟨choice, chosen⟩ : ∃ choice, placeJob { now := 100 } 0 (blockedPass.clearWaiting 2).state
      { briefSubmission.job with id := 2 } = some choice := placeJob_isSome (Nat.le_refl 1)
  cases choice with
  | some placement => exact ⟨placement, chosen⟩
  | none =>
    have harmless : CastHarmless (blockedPass.clearWaiting 2).state 100 { briefSubmission.job with id := 2 } :=
      castHarmless_of_counted fun _ _ _ => .inl (Nat.zero_le _)
    have clock : ({ now := 100 } : PassInput).now + 1 < 2 ^ 64 := by decide
    have starts : startsAt { briefSubmission.job with id := 2 } (blockedPass.clearWaiting 2).state 100 100 = true :=
      blockedPass_idle.startsAt rfl (Nat.zero_le 1) (Nat.le_refl 100) rfl
    rw [startsAt_iff, candidateWorkers_now clock] at starts
    exact absurd ((earliest_eq_now_iff clock).mpr starts) ((blocked_later_iff clock chosen).mpr harmless)

/-- While the second job holds the memory, the top job fits on no worker. -/
theorem startsAt_of_held {final : GlobalState} {brief : JobInfo} (valid : Allocation final)
    (links : SameLinks hugeLeader.state.workers final.workers) (found : final.jobs.get? 2 = some brief)
    (runs : brief.runsOn "w1" = true) (late : 100 < projectedEnd brief 100) (memory : brief.reqMemory = 100) :
    startsAt { coreSubmission.job with id := 1 } final 100 100 = false := by
  apply eq_false_of_ne_true
  intro starts
  obtain ⟨workerId, candidate⟩ := List.exists_mem_of_length_pos (startsAt_iff.mp starts).1
  obtain ⟨worker, listed, _, _, _, fits⟩ := mem_candidateWorkers.mp candidate
  obtain ⟨old, before, link⟩ := links.symm.found listed
  obtain ⟨name, same⟩ := hugeLeader_worker.mp before
  have resources : worker.resources = hugeResources := by
    have equal := congrArg Link.resources link
    rw [same] at equal
    exact equal.symm
  subst name
  have machine : worker.resources.Representable := by
    rw [resources]
    exact ⟨by decide, by decide⟩
  have whole := valid.projected_add_outlasting listed machine .memory 100 100
  have enough : 100 ≤ _ := ResourceKind.fits_iff.mp fits .memory
  have capacity : ResourceKind.memory.capacity worker.resources = 100 := by
    rw [resources]
    decide
  have held : 100 ≤ final.outlasting .memory "w1" 100 100 := by
    rw [GlobalState.outlasting, ResourceKind.load, HashMap.total_of_get? found]
    simp [runs, late, ResourceKind.requested, memory]
  omega

/-- The cast makes the pass delay its top job: its start was estimated for now, and the
job started after it takes the memory that the estimate counted on. -/
theorem schedule_delays_top_job : Allocation hugeLeader.state ∧ Machines hugeLeader.state.workers ∧
    (∀ jobId job, hugeLeader.state.jobs.get? jobId = some job →
      100 + job.expectedDuration < 2 ^ 64 ∧ 100 + job.reservedDuration < 2 ^ 64) ∧
    ∃ job estimated final, scheduleJobs { now := 100 } hugeLeader.state = some final ∧
      firstBlocked { now := 100 } (pendingOrder { now := 100 } hugeLeader.state)
        { state := passStart { now := 100 } hugeLeader.state } = some (job, estimated) ∧
      startsAt job estimated 100 (calculateEarliestStartTime job estimated 100) = true ∧
      startsAt job final 100 (calculateEarliestStartTime job estimated 100) = false := by
  have valid := allocation_of_reach hugeLeader_reached
  have table : hugeLeader.state.jobs =
      ((∅ : HashMap JobId JobInfo).insert 1 coreSubmission.job).insert 2 briefSubmission.job := rfl
  refine ⟨valid, ?_, ?_, ?_⟩
  · intro workerId worker found
    obtain ⟨_, same⟩ := hugeLeader_worker.mp found
    subst same
    exact ⟨by decide, by decide⟩
  · intro jobId job found
    rw [table, HashMap.get?_insert, HashMap.get?_insert] at found
    split at found
    · cases found
      decide
    · split at found
      · cases found
        decide
      · cases found
  obtain ⟨placement, placed⟩ := blockedPass_placed
  obtain ⟨started, starts⟩ := hugePass_consistent.starts placed
  have found : blockedPass.state.jobs.get? 2 = some briefSubmission.job := rfl
  have granted : backfillDenial { now := 100 } (blockedPass.clearWaiting 2) { briefSubmission.job with id := 2 } = none := by
    have top : (blockedPass.clearWaiting 2).topJobEarliestStart = some 100 := blockedPass_top
    rw [backfillDenial, top]
    rfl
  have second := passTurn_placed found rfl rfl granted placed starts
  have turns : passTurns { now := 100 } [1, 2] hugePass = some { blockedPass.clearWaiting 2 with state := started } := by
    exact passTurns_pair hugePass_blocks second
  have ran : scheduleJobs { now := 100 } hugeLeader.state =
      some { started with queue := (blockedPass.clearWaiting 2).stillPending } := by
    have pass : scheduleJobs { now := 100 } hugeLeader.state =
        (passTurns { now := 100 } (pendingOrder { now := 100 } hugeLeader.state) hugePass).map fun pass =>
          { pass.state with queue := pass.stillPending } := rfl
    rw [pass, hugeLeader_order, turns]
    rfl
  have blocked : firstBlocked { now := 100 } [1, 2] hugePass =
      some ({ coreSubmission.job with id := 1 }, (hugePass.clearWaiting 1).state) := by
    have unset : hugePass.topJobEarliestStart = none := rfl
    have first : hugePass.state.jobs.get? 1 = some coreSubmission.job := rfl
    exact firstBlocked_cons first hugePass_blocks unset blockedPass_top
  have stored : (blockedPass.clearWaiting 2).state.jobs.get? 2 = some briefSubmission.job := rfl
  obtain ⟨workers, _, _, opens⟩ := start_opens starts stored rfl
  have ok := placeJob_ok placed
  have node : "w1" ∈ placement.nodes := by
    obtain ⟨workerId, node⟩ := List.exists_mem_of_ne_nil _ ok.nonempty
    have present : ∃ worker, (blockedPass.clearWaiting 2).state.workers.get? workerId = some worker := by
      rcases ok.fits with ⟨_, fits⟩ | fits
      · exact (fits workerId node).imp fun _ => And.left
      · exact (fits workerId node).imp fun _ => And.left
    obtain ⟨worker, listed⟩ := present
    rw [blockedPass_idle.workers] at listed
    rw [← (hugeLeader_worker.mp listed).1]
    exact node
  have recorded : started.jobs.get? 2 = some (briefSubmission.job.started 2 placement.nodes workers 100) := opens.opened
  have runs : (briefSubmission.job.started 2 placement.nodes workers 100).runsOn "w1" = true :=
    runsOn_iff.mpr ⟨rfl, node⟩
  have late : 100 < projectedEnd (briefSubmission.job.started 2 placement.nodes workers 100) 100 := by
    have ends : projectedEnd (briefSubmission.job.started 2 placement.nodes workers 100) 100 = 101 := rfl
    omega
  have links : SameLinks hugeLeader.state.workers started.workers := by
    have steps := (turn_links (passTurn_outcome hugePass_blocks)).trans (turn_links (passTurn_outcome second))
    exact steps
  have ends : Allocation { started with queue := (blockedPass.clearWaiting 2).stillPending } := valid.schedule ran
  refine ⟨{ coreSubmission.job with id := 1 }, (hugePass.clearWaiting 1).state, _, ran, ?_, ?_, ?_⟩
  · rw [hugeLeader_order]
    exact blocked
  · rw [hugePass_estimate]
    exact hugePass_idle.startsAt rfl (Nat.le_refl 1) (Nat.le_refl 100) rfl
  · rw [hugePass_estimate]
    exact startsAt_of_held ends links recorded runs late rfl

end Veloce
