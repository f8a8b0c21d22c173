import Veloce.Scheduler.Pass

/-! What a turn of `schedule_jobs` can do. -/

namespace Veloce

open Collections

def JobInfo.unworded (job : JobInfo) : JobInfo := { job with reason := none }

/-- Two states that differ in the reasons of jobs only. -/
structure Reworded (state state' : GlobalState) : Prop where
  table : ∀ jobId, (state'.jobs.get? jobId).map JobInfo.unworded = (state.jobs.get? jobId).map JobInfo.unworded
  rest : state' = { state with jobs := state'.jobs }

variable {input : PassInput} {jobId : JobId} {state state' : GlobalState} {pass : PassState} {turn : Nat}

theorem Reworded.map (reworded : Reworded state state') {α : Type} {read : JobInfo → α}
    (ignores : ∀ job, read job.unworded = read job) (jobId : JobId) :
    (state'.jobs.get? jobId).map read = (state.jobs.get? jobId).map read := by
  have whole := congrArg (Option.map read) (reworded.table jobId)
  simpa only [Option.map_map, Function.comp_def, ignores] using whole

theorem Reworded.trans {state middle state' : GlobalState} (first : Reworded state middle)
    (second : Reworded middle state') : Reworded state state' := by
  refine ⟨fun jobId => (second.table jobId).trans (first.table jobId), ?_⟩
  rw [second.rest, first.rest]

theorem reworded_modify (state : GlobalState) (jobId : JobId) {update : JobInfo → JobInfo}
    (keeps : ∀ job, (update job).unworded = job.unworded) :
    Reworded state { state with jobs := state.jobs.modify jobId update } := by
  refine ⟨fun other => ?_, rfl⟩
  simp only [HashMap.get?_modify]
  split
  · rename_i same
    subst same
    rw [Option.map_map]
    exact congrArg (fun view => (state.jobs.get? other).map view) (funext keeps)
  · rfl

theorem Reworded.found (same : Reworded state state') {job : JobInfo} (found : state.jobs.get? jobId = some job) :
    ∃ job', state'.jobs.get? jobId = some job' ∧ job'.unworded = job.unworded := by
  have table := same.table jobId
  rw [found, Option.map_some] at table
  exact Option.map_eq_some_iff.mp table

theorem Reworded.found_back (same : Reworded state state') {job' : JobInfo}
    (found : state'.jobs.get? jobId = some job') :
    ∃ job, state.jobs.get? jobId = some job ∧ job'.unworded = job.unworded := by
  have table := same.table jobId
  rw [found, Option.map_some] at table
  obtain ⟨job, stored, equal⟩ := Option.map_eq_some_iff.mp table.symm
  exact ⟨job, stored, equal.symm⟩

/-- The placement a turn starts its job on, if it comes that far. -/
def turnPlacement (input : PassInput) (turn : Nat) (pass : PassState) (jobId : JobId) : Option Placement :=
  match pass.state.jobs.get? jobId with
  | none => none
  | some job =>
    if job.status = .pending then
      match areDependenciesSatisfied job pass.state.jobs input.dbCache with
      | .ok true =>
        match backfillDenial input (pass.clearWaiting jobId) { job with id := jobId } with
        | some _ => none
        | none => (placeJob input turn (pass.clearWaiting jobId).state { job with id := jobId }).join
      | _ => none
    else none

def turnVictims (input : PassInput) (turn : Nat) (pass : PassState) (jobId : JobId) : List JobId :=
  ((turnPlacement input turn pass jobId).map Placement.evictions).getD []

theorem turnPlacement_ready {job : JobInfo} (found : pass.state.jobs.get? jobId = some job)
    (pending : job.status = .pending) (met : areDependenciesSatisfied job pass.state.jobs input.dbCache = .ok true) :
    turnPlacement input turn pass jobId =
      match backfillDenial input (pass.clearWaiting jobId) { job with id := jobId } with
      | some _ => none
      | none => (placeJob input turn (pass.clearWaiting jobId).state { job with id := jobId }).join := by
  unfold turnPlacement
  rw [found]
  dsimp only
  rw [if_pos pending, met]

theorem turnPlacement_satisfied {job : JobInfo} {placement : Placement}
    (found : pass.state.jobs.get? jobId = some job) (chosen : turnPlacement input turn pass jobId = some placement) :
    areDependenciesSatisfied job pass.state.jobs input.dbCache = .ok true := by
  unfold turnPlacement at chosen
  rw [found] at chosen
  dsimp only at chosen
  split at chosen
  · split at chosen
    · assumption
    · cases chosen
  · cases chosen

/-- The three things a turn can do. -/
inductive TurnOutcome (input : PassInput) (turn : Nat) (pass : PassState) (jobId : JobId) :
    PassState → Prop where
  | skip (idle : ∀ job, pass.state.jobs.get? jobId = some job → job.status ≠ .pending)
      (unplaced : turnPlacement input turn pass jobId = none) : TurnOutcome input turn pass jobId pass
  | wait {job : JobInfo} {next : PassState} (found : pass.state.jobs.get? jobId = some job)
      (pending : job.status = .pending) (unplaced : turnPlacement input turn pass jobId = none)
      (reworded : Reworded pass.state next.state)
      (kept : next.stillPending = pass.stillPending ++ [jobId]) : TurnOutcome input turn pass jobId next
  | start {job : JobInfo} {placement : Placement} {cleared started : GlobalState}
      (found : pass.state.jobs.get? jobId = some job) (pending : job.status = .pending)
      (chosen : turnPlacement input turn pass jobId = some placement)
      (reworded : Reworded pass.state cleared)
      (placed : placeJob input turn cleared { job with id := jobId } = some (some placement))
      (starts : startJob input cleared { job with id := jobId } placement = some started) :
      TurnOutcome input turn pass jobId { pass with state := started }

theorem postpone_reworded (pass : PassState) (jobId : JobId) (reason : String) :
    Reworded pass.state (pass.postpone jobId reason).state :=
  reworded_modify _ _ fun _ => rfl

theorem clearWaiting_reworded (pass : PassState) (jobId : JobId) :
    Reworded pass.state (pass.clearWaiting jobId).state := by
  apply reworded_modify
  intro job
  split <;> rfl

theorem blockJob_reworded (input : PassInput) (turn : Nat) (pass : PassState) (job : JobInfo) :
    Reworded pass.state (blockJob input turn pass job).state ∧
      (blockJob input turn pass job).stillPending = pass.stillPending ++ [job.id] := by
  unfold blockJob
  split
  · exact ⟨postpone_reworded _ _ _, rfl⟩
  · exact ⟨postpone_reworded _ _ _, rfl⟩

theorem passTurn_outcome {pass next : PassState} (taken : passTurn input turn pass jobId = some next) :
    TurnOutcome input turn pass jobId next := by
  unfold passTurn at taken
  split at taken
  · rename_i missing
    cases taken
    refine .skip (fun job found => ?_) (by simp [turnPlacement, missing])
    rw [missing] at found
    cases found
  · rename_i job found
    split at taken
    · rename_i pending
      have cleared := clearWaiting_reworded pass jobId
      split at taken
      · rename_i unmet
        cases taken
        exact .wait found pending (by simp [turnPlacement, found, pending, unmet]) (postpone_reworded _ _ _) rfl
      · rename_i unmet
        cases taken
        exact .wait found pending (by simp [turnPlacement, found, pending, unmet]) (postpone_reworded _ _ _) rfl
      · rename_i met
        unfold placeTurn at taken
        split at taken
        · rename_i denied
          cases taken
          exact .wait found pending (by rw [turnPlacement_ready found pending met, denied])
            (cleared.trans (postpone_reworded _ _ _)) rfl
        · rename_i granted
          split at taken
          · cases taken
          · rename_i nowhere
            cases taken
            obtain ⟨reworded, kept⟩ := blockJob_reworded input turn (pass.clearWaiting jobId)
              { job with id := jobId }
            exact .wait found pending (by rw [turnPlacement_ready found pending met, granted, nowhere]; rfl)
              (cleared.trans reworded) kept
          · rename_i placement placed
            obtain ⟨started, starts, same⟩ := Option.map_eq_some_iff.mp taken
            subst same
            exact .start found pending (by rw [turnPlacement_ready found pending met, granted, placed]; rfl) cleared
              placed starts
    · rename_i busy
      cases taken
      refine .skip (fun job' found' => ?_) (by simp [turnPlacement, found, busy])
      cases found.symm.trans found'
      exact busy

theorem passTurn_isSome
    (places : ∀ job cleared, pass.state.jobs.get? jobId = some job → Reworded pass.state cleared →
      ∃ choice, placeJob input turn cleared { job with id := jobId } = some choice)
    (starts : ∀ job cleared placement, pass.state.jobs.get? jobId = some job → job.status = .pending →
      Reworded pass.state cleared →
      placeJob input turn cleared { job with id := jobId } = some (some placement) →
      ∃ started, startJob input cleared { job with id := jobId } placement = some started) :
    ∃ next, passTurn input turn pass jobId = some next := by
  unfold passTurn
  split
  · exact ⟨_, rfl⟩
  · rename_i job found
    split
    · rename_i pending
      split
      · exact ⟨_, rfl⟩
      · exact ⟨_, rfl⟩
      · have cleared := clearWaiting_reworded pass jobId
        unfold placeTurn
        split
        · exact ⟨_, rfl⟩
        · obtain ⟨choice, placed⟩ := places job _ found cleared
          rw [placed]
          cases choice with
          | none => exact ⟨_, rfl⟩
          | some placement =>
            obtain ⟨started, begun⟩ := starts job _ placement found pending cleared placed
            exact ⟨_, by simp only [begun]; rfl⟩
    · exact ⟨_, rfl⟩

/-- What every turn keeps, a pass keeps. The invariant may speak about the jobs
that are still to come. -/
theorem passTurns_invariant (Inv : List JobId → PassState → Prop)
    (step : ∀ jobId rest pass next, Inv (jobId :: rest) pass →
      passTurn input rest.length pass jobId = some next → Inv rest next) :
    ∀ (order : List JobId) {pass final : PassState}, Inv order pass →
      passTurns input order pass = some final → Inv [] final := by
  intro order
  induction order with
  | nil =>
    intro pass final valid ran
    cases ran
    exact valid
  | cons jobId rest ih =>
    intro pass final valid ran
    unfold passTurns at ran
    split at ran
    · cases ran
    · rename_i next taken
      exact ih (step jobId rest pass next valid taken) ran

theorem passTurns_isSome (Inv : PassState → Prop) : ∀ (order : List JobId),
    (∀ turn, ∀ jobId ∈ order, ∀ pass, Inv pass → ∃ next, passTurn input turn pass jobId = some next ∧ Inv next) →
    ∀ pass, Inv pass → ∃ final, passTurns input order pass = some final ∧ Inv final := by
  intro order
  induction order with
  | nil => intro _ pass valid; exact ⟨pass, rfl, valid⟩
  | cons jobId rest ih =>
    intro step pass valid
    obtain ⟨next, taken, valid⟩ := step rest.length jobId List.mem_cons_self pass valid
    obtain ⟨final, ran, valid⟩ := ih (fun turn other later => step turn other (List.mem_cons_of_mem _ later)) next valid
    exact ⟨final, by simp only [passTurns, taken, ran], valid⟩

section Placement

variable {input : PassInput} {turn : Nat} {state : GlobalState} {job : JobInfo}

variable {order : IterOrder PassSite} {workerId : WorkerId} {site : PassSite}

/-- The picked nodes are some of the candidates, in their order. -/
theorem pickNodes_sublist {α : Type} {group : α → Option (String × String)} {count : Nat} {items picked : List α}
    (chosen : pickNodes order site group count items = some (some picked)) :
    picked.Sublist items ∧ picked ≠ [] := by
  unfold pickNodes at chosen
  split at chosen
  · split at chosen
    · rename_i several
      obtain ⟨ids, first, same⟩ := Option.map_eq_some_iff.mp (Option.some.inj chosen)
      have large : count ≤ ids.length := by simpa using List.find?_some first
      have member := IterOrder.mem_shuffle.mp (List.mem_of_find?_eq_some first)
      subst same
      refine ⟨(List.take_sublist _ _).trans (HashMap.groupBy_sublist member), ?_⟩
      intro empty
      have none := congrArg List.length empty
      rw [List.length_take, List.length_nil] at none
      omega
    · obtain ⟨first, head, same⟩ := Option.map_eq_some_iff.mp chosen
      cases same
      exact ⟨List.singleton_sublist.mpr (List.mem_of_mem_head? head), by simp⟩
  · cases chosen

theorem pickNodes_length {α : Type} {group : α → Option (String × String)} {count : Nat} {items picked : List α}
    (chosen : pickNodes order site group count items = some (some picked)) : picked.length ≤ max count 1 := by
  unfold pickNodes at chosen
  split at chosen
  · split at chosen
    · obtain ⟨ids, _, same⟩ := Option.map_eq_some_iff.mp (Option.some.inj chosen)
      rw [← same]
      exact Nat.le_trans (List.length_take_le _ _) (Nat.le_max_left _ _)
    · obtain ⟨first, _, same⟩ := Option.map_eq_some_iff.mp chosen
      rw [← Option.some.inj same]
      exact Nat.le_max_right _ _
  · cases Option.some.inj chosen

theorem pickNodes_isSome {α : Type} (order : IterOrder PassSite) (site : PassSite)
    (group : α → Option (String × String)) {count : Nat} (items : List α) (positive : 1 ≤ count) :
    ∃ choice, pickNodes order site group count items = some choice := by
  unfold pickNodes
  split
  · split
    · exact ⟨_, rfl⟩
    · cases items with
      | nil => simp_all
      | cons first rest => exact ⟨_, rfl⟩
  · exact ⟨_, rfl⟩

theorem placeJob_isSome (positive : 1 ≤ job.reqNodes) :
    ∃ choice, placeJob input turn state job = some choice := by
  unfold placeJob
  obtain ⟨choice, picked⟩ := pickNodes_isSome input.order (.groups turn) state.workerGroup
    (availableWorkers input turn state job) positive
  rw [picked]
  cases choice with
  | some nodes => exact ⟨_, rfl⟩
  | none =>
    obtain ⟨choice, picked⟩ := pickNodes_isSome input.order (.preemptGroups turn)
      (fun node : WorkerId × List JobId => state.workerGroup node.1)
      (preemptCandidates input turn state job) positive
    simp only [picked]
    split
    · exact ⟨_, rfl⟩
    · exact ⟨_, rfl⟩

/-- A node with enough free resources for the job. -/
def FitsNow (input : PassInput) (state : GlobalState) (job : JobInfo) (workerId : WorkerId) : Prop :=
  ∃ worker, state.workers.get? workerId = some worker ∧ worker.connected = true ∧
    workerFailReasons state input.now job workerId worker = []

/-- A node that has enough once its Preemptible jobs are evicted. -/
def FitsEvicted (input : PassInput) (turn : Nat) (state : GlobalState) (job : JobInfo)
    (evictions : List JobId) (workerId : WorkerId) : Prop :=
  ∃ worker, state.workers.get? workerId = some worker ∧ worker.connected = true ∧
    fitsAfterEviction state input.now job workerId worker (preemptibleJobs input turn state workerId worker) = true ∧
    ∀ jobId ∈ preemptibleJobs input turn state workerId worker, jobId ∈ evictions

/-- What `placeJob` promises about its choice. -/
structure PlacementOk (input : PassInput) (turn : Nat) (state : GlobalState) (job : JobInfo)
    (placement : Placement) : Prop where
  distinct : placement.nodes.Nodup
  nonempty : placement.nodes ≠ []
  evictable : ∀ jobId ∈ placement.evictions, ∃ workerId worker evicted,
    state.workers.get? workerId = some worker ∧ jobId ∈ worker.assignedJobs ∧
      state.jobs.get? jobId = some evicted ∧ evicted.qos = .preemptible
  fits : (placement.evictions = [] ∧ ∀ workerId ∈ placement.nodes, FitsNow input state job workerId) ∨
    ∀ workerId ∈ placement.nodes, FitsEvicted input turn state job placement.evictions workerId

theorem mem_eligibleWorkers {worker : WorkerHandle} : (workerId, worker) ∈ eligibleWorkers state order site ↔
      state.workers.get? workerId = some worker ∧ worker.draining = false ∧ worker.connected = true := by
  rw [eligibleWorkers, List.mem_filter, IterOrder.mem_shuffle, HashMap.mem_toList]
  simp

theorem eligibleWorkers_nodup (state : GlobalState) (order : IterOrder PassSite) (site : PassSite) :
    ((eligibleWorkers state order site).map Prod.fst).Nodup :=
  (IterOrder.shuffle_map_nodup state.workers.toList_keys_nodup).sublist (List.filter_sublist.map Prod.fst)

theorem availableWorkers_nodup : (availableWorkers input turn state job).Nodup := by
  rw [availableWorkers, (List.perm_insertionSort _ _).nodup_iff]
  exact (eligibleWorkers_nodup _ _ _).sublist (List.filter_sublist.map Prod.fst)

theorem mem_availableWorkers (member : workerId ∈ availableWorkers input turn state job) :
    FitsNow input state job workerId := by
  rw [availableWorkers, (List.perm_insertionSort _ _).mem_iff, List.mem_map] at member
  obtain ⟨⟨name, worker⟩, listed, same⟩ := member
  cases same
  obtain ⟨eligible, fitting⟩ := List.mem_filter.mp listed
  obtain ⟨found, _, connected⟩ := mem_eligibleWorkers.mp eligible
  exact ⟨worker, found, connected, List.isEmpty_iff.mp fitting⟩

theorem preemptCandidates_nodup : ((preemptCandidates input turn state job).map Prod.fst).Nodup := by
  rw [preemptCandidates, ((List.perm_insertionSort _ _).map Prod.fst).nodup_iff]
  refine (eligibleWorkers_nodup state input.order (.preemptWorkers turn)).sublist ?_
  rw [List.map_filterMap]
  generalize eligibleWorkers state input.order (.preemptWorkers turn) = entries
  induction entries with
  | nil => exact List.Sublist.slnil
  | cons entry rest ih =>
    by_cases fits : fitsAfterEviction state input.now job entry.1 entry.2
        (preemptibleJobs input turn state entry.1 entry.2) = true
    · simpa [List.filterMap_cons, fits] using ih.cons_cons entry.1
    · simpa [List.filterMap_cons, fits] using ih.cons entry.1

theorem mem_preemptCandidates {evicted : List JobId}
    (member : (workerId, evicted) ∈ preemptCandidates input turn state job) :
    ∃ worker, state.workers.get? workerId = some worker ∧ worker.connected = true ∧
      evicted = preemptibleJobs input turn state workerId worker ∧
      fitsAfterEviction state input.now job workerId worker evicted = true := by
  rw [preemptCandidates, (List.perm_insertionSort _ _).mem_iff, List.mem_filterMap] at member
  obtain ⟨⟨name, worker⟩, eligible, chosen⟩ := member
  obtain ⟨found, _, connected⟩ := mem_eligibleWorkers.mp eligible
  simp only at chosen
  split at chosen
  · rename_i fits
    cases chosen
    exact ⟨worker, found, connected, rfl, fits⟩
  · cases chosen

theorem mem_preemptibleJobs {worker : WorkerHandle} {jobId : JobId} :
    jobId ∈ preemptibleJobs input turn state workerId worker ↔
      jobId ∈ worker.assignedJobs ∧
        ∃ evicted, state.jobs.get? jobId = some evicted ∧ evicted.qos = .preemptible := by
  rw [preemptibleJobs, List.mem_filter, IterOrder.mem_shuffle, ← HashSet.mem_def]
  cases state.jobs.get? jobId <;> simp

theorem preemptibleJobs_nodup (input : PassInput) (turn : Nat) (state : GlobalState) (workerId : WorkerId)
    (worker : WorkerHandle) : (preemptibleJobs input turn state workerId worker).Nodup :=
  (IterOrder.shuffle_nodup worker.assignedJobs.nodup).sublist List.filter_sublist

theorem placeJob_ok {placement : Placement} (placed : placeJob input turn state job = some (some placement)) :
    PlacementOk input turn state job placement := by
  unfold placeJob at placed
  split at placed
  · cases placed
  · rename_i nodes picked
    cases placed
    obtain ⟨sublist, nonempty⟩ := pickNodes_sublist picked
    refine ⟨availableWorkers_nodup.sublist sublist, nonempty, by simp, .inl ⟨rfl, ?_⟩⟩
    intro workerId member
    exact mem_availableWorkers (sublist.subset member)
  · split at placed
    · obtain ⟨choice, picked, chosen⟩ := Option.map_eq_some_iff.mp placed
      obtain ⟨nodes, same, built⟩ := Option.map_eq_some_iff.mp chosen
      subst same built
      obtain ⟨sublist, nonempty⟩ := pickNodes_sublist picked
      refine ⟨preemptCandidates_nodup.sublist (sublist.map Prod.fst), by simpa using nonempty, ?_, .inr ?_⟩
      · intro jobId member
        obtain ⟨⟨workerId, evicted⟩, node, listed⟩ :=
          List.mem_flatMap.mp (HashSet.mem_ofList.mp (IterOrder.mem_shuffle.mp member))
        obtain ⟨worker, found, _, same, _⟩ := mem_preemptCandidates (sublist.subset node)
        subst same
        obtain ⟨assigned, job, stored, qos⟩ := mem_preemptibleJobs.mp listed
        exact ⟨workerId, worker, job, found, assigned, stored, qos⟩
      · intro workerId member
        obtain ⟨⟨name, evicted⟩, node, same⟩ := List.mem_map.mp member
        cases same
        obtain ⟨worker, found, connected, same, fits⟩ := mem_preemptCandidates (sublist.subset node)
        subst same
        refine ⟨worker, found, connected, fits, ?_⟩
        intro jobId listed
        exact IterOrder.mem_shuffle.mpr (HashSet.mem_ofList.mpr (List.mem_flatMap.mpr ⟨_, node, listed⟩))
    · cases placed

theorem placeJob_length {placement : Placement}
    (placed : placeJob input turn state job = some (some placement)) : placement.nodes.length ≤ max job.reqNodes 1 := by
  unfold placeJob at placed
  split at placed
  · cases placed
  · rename_i nodes picked
    cases placed
    exact pickNodes_length picked
  · split at placed
    · obtain ⟨choice, picked, chosen⟩ := Option.map_eq_some_iff.mp placed
      obtain ⟨nodes, same, built⟩ := Option.map_eq_some_iff.mp chosen
      subst same built
      rw [List.length_map]
      exact pickNodes_length picked
    · cases placed

end Placement

section Start

/-- The record of a job that is to be evicted: only a Running job is requeued. -/
def JobInfo.evicted (job : JobInfo) : JobInfo := if job.status = .running then job.requeued else job

theorem JobInfo.evicted_settled (job : JobInfo) : job.evicted.evicted = job.evicted := by
  unfold JobInfo.evicted
  split
  · rfl
  · rfl

namespace GlobalState

theorem get?_preemptJob (state : GlobalState) (jobId other : JobId) :
    (state.preemptJob jobId).jobs.get? other =
      if other = jobId then (state.jobs.get? jobId).map JobInfo.evicted else state.jobs.get? other := by
  cases found : state.jobs.get? jobId with
  | none =>
    rw [preemptJob_of_not_running fun job stored => by rw [found] at stored; cases stored]
    split
    · rename_i same
      rw [same, found]
      rfl
    · rfl
  | some job =>
    by_cases running : job.status = .running
    · rw [preemptJob_of_running found running]
      simp only [HashMap.get?_modify, found, Option.map_some, JobInfo.evicted, running, ↓reduceIte]
    · rw [preemptJob_of_not_running fun job' stored => by cases found.symm.trans stored; exact running]
      split
      · rename_i same
        rw [same, found, Option.map_some, JobInfo.evicted, if_neg running]
      · rfl

/-- A preemption touches handles, records, the queue and the outbox. -/
theorem preemptJob_frame (state : GlobalState) (jobId : JobId) :
    state.preemptJob jobId = { state with
      workers := (state.preemptJob jobId).workers
      jobs := (state.preemptJob jobId).jobs
      queue := (state.preemptJob jobId).queue
      outbox := (state.preemptJob jobId).outbox } := by
  rcases state.preemptJob_cases jobId with ⟨_, _, _, same⟩ | same
  · rw [same]
  · rw [same]

def evictJobs (state : GlobalState) (evictions : List JobId) : GlobalState :=
  evictions.foldl preemptJob state

/-- What every preemption keeps, the loop keeps. -/
theorem evictJobs_invariant (Inv : GlobalState → Prop) {state : GlobalState} (evictions : List JobId)
    (base : Inv state) (preempted : ∀ middle jobId, Inv middle → Inv (middle.preemptJob jobId)) :
    Inv (state.evictJobs evictions) :=
  List.foldlRecOn evictions preemptJob base fun middle valid jobId _ => preempted middle jobId valid

theorem get?_evictJobs (evictions : List JobId) (jobId : JobId) : ∀ state : GlobalState,
    (state.evictJobs evictions).jobs.get? jobId =
      if jobId ∈ evictions then (state.jobs.get? jobId).map JobInfo.evicted else state.jobs.get? jobId := by
  induction evictions with
  | nil => intro state; simp [evictJobs]
  | cons head rest ih =>
    intro state
    have next : state.evictJobs (head :: rest) = (state.preemptJob head).evictJobs rest := rfl
    rw [next, ih, get?_preemptJob]
    by_cases same : jobId = head
    · subst same
      by_cases later : jobId ∈ rest
      · simp only [later, ↓reduceIte, List.mem_cons, or_true, Option.map_map]
        exact congrArg (fun view => (state.jobs.get? jobId).map view) (funext JobInfo.evicted_settled)
      · simp [later]
    · simp [same]

theorem evictJobs_frame (evictions : List JobId) : ∀ state : GlobalState,
    state.evictJobs evictions = { state with
      workers := (state.evictJobs evictions).workers
      jobs := (state.evictJobs evictions).jobs
      queue := (state.evictJobs evictions).queue
      outbox := (state.evictJobs evictions).outbox } := by
  induction evictions with
  | nil => intro state; rfl
  | cons head rest ih =>
    intro state
    have next : state.evictJobs (head :: rest) = (state.preemptJob head).evictJobs rest := rfl
    rw [next, ih, preemptJob_frame]

end GlobalState

theorem dispatchJob_eq (state : GlobalState) (job : JobInfo) (nodes : List WorkerId) :
    dispatchJob state job nodes = { state with outbox := (dispatchJob state job nodes).outbox } := by
  unfold dispatchJob
  generalize (dispatchTargets job nodes).zipIdx = targets
  induction targets generalizing state with
  | nil => rfl
  | cons target rest ih =>
    rw [List.foldl_cons, ih]
    unfold sendRunJob
    split
    · rw [GlobalState.trySend_outbox]
    · rfl

/-- The record of a job that starts on the given workers. -/
def JobInfo.started (job : JobInfo) (jobId : JobId) (nodes : List WorkerId)
    (workers : HashMap WorkerId WorkerHandle) (now : Nat) : JobInfo :=
  { job with
    status := .running
    assignedWorkers := nodes
    allocatedCores := collectNodes workers nodes (·.jobCoreAssignments.get? jobId)
    allocatedGres := collectNodes workers nodes (·.jobGresAssignments.get? jobId)
    startTime := some now
    reason := none }

/-- A start is an eviction followed by an allocation. -/
theorem startJob_eq {input : PassInput} {state final : GlobalState} {job : JobInfo} {placement : Placement}
    (starts : startJob input state job placement = some final) :
    ∃ workers, allocateNodes job placement.nodes (state.evictJobs placement.evictions).workers = some workers ∧
      final = { state.evictJobs placement.evictions with
        workers := workers
        jobs := (state.evictJobs placement.evictions).jobs.modify job.id
          (·.started job.id placement.nodes workers input.now)
        multinodeJobTracking := { state.multinodeJobTracking with
          dispatchedWorkers := state.multinodeJobTracking.dispatchedWorkers.insert job.id
            (dispatchTargets job placement.nodes) }
        outbox := (dispatchJob { state.evictJobs placement.evictions with workers := workers } job
          placement.nodes).outbox } := by
  obtain ⟨workers, allocated, same⟩ := Option.map_eq_some_iff.mp starts
  refine ⟨workers, allocated, same.symm.trans ?_⟩
  have untouched : (state.evictJobs placement.evictions).multinodeJobTracking = state.multinodeJobTracking := by
    rw [GlobalState.evictJobs_frame]
  rw [← untouched]
  dsimp only
  rw [dispatchJob_eq]
  rfl

end Start

end Veloce
