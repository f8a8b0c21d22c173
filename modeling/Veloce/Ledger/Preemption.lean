import Veloce.Ledger.Estimate

/-! Preemption. -/

namespace Veloce

open Collections

/-- The turn finds no free workers for the job and places it by preemption. -/
structure Preempts (input : PassInput) (turn : Nat) (state : GlobalState) (job : JobInfo) (placement : Placement) :
    Prop where
  unselected : pickNodes input.order (.groups turn) state.workerGroup job.reqNodes
    (availableWorkers input turn state job) = some none
  placed : placeJob input turn state job = some (some placement)

/-- After the evictions every selected worker has what the job asks for, and the drains
stay in range. -/
def RoomMade (state : GlobalState) (job : JobInfo) (placement : Placement) : Prop :=
  ∀ workerId ∈ placement.nodes, ∃ worker, (state.evictJobs placement.evictions).workers.get? workerId = some worker ∧
    job.reqCores ≤ worker.availableCoreIds.length ∧
    job.reqMemory ≤ worker.resources.totalMb - worker.allocatedMemory ∧
    (∀ name count, job.gresReq.get? name = some count → count ≤ (worker.freeGres name).length) ∧
    (worker.allocateJob job).isSome = true

/-- As many different workers as asked for, all usable and of one group. -/
structure NodesSelected (state : GlobalState) (now : Nat) (job : JobInfo) (nodes : List WorkerId) : Prop where
  count : nodes.length = job.reqNodes
  distinct : nodes.Nodup
  usable : ∀ workerId ∈ nodes, ∃ worker, state.workers.get? workerId = some worker ∧ worker.connected = true ∧
    worker.draining = false ∧ state.isReserved workerId job now = false
  group : ∃ group, ∀ workerId ∈ nodes, state.workerGroup workerId = some group

/-- Preemption releases enough, only Preemptible jobs of the selected workers, and only
when the job could not be placed without it. -/
structure PreemptionSound (state : GlobalState) (now : Nat) (job : JobInfo) (placement : Placement) : Prop where
  room : RoomMade state job placement
  nodes : NodesSelected state now job placement.nodes
  evicted : ∀ jobId ∈ placement.evictions, ∃ victim, state.jobs.get? jobId = some victim ∧
    victim.status = .running ∧ victim.qos = .preemptible ∧ ∃ workerId ∈ placement.nodes, workerId ∈ victim.assignedWorkers
  needed : placement.evictions ≠ [] → ¬ state.Hosts job.reqNodes (roomyWorkers state now job)

section Placement

variable {input : PassInput} {turn : Nat} {state : GlobalState} {job : JobInfo} {placement : Placement}

theorem pickNodes_count {α : Type} {order : IterOrder PassSite} {site : PassSite}
    {group : α → Option (String × String)} {count : Nat} {items picked : List α} (positive : 1 ≤ count)
    (chosen : pickNodes order site group count items = some (some picked)) : picked.length = count := by
  unfold pickNodes at chosen
  split at chosen
  · split at chosen
    · obtain ⟨ids, first, same⟩ := Option.map_eq_some_iff.mp (Option.some.inj chosen)
      have large : count ≤ ids.length := by simpa using List.find?_some first
      rw [← same, List.length_take, Nat.min_eq_left large]
    · rename_i few
      obtain ⟨first, _, same⟩ := Option.map_eq_some_iff.mp chosen
      rw [← Option.some.inj same, List.length_singleton]
      omega
  · cases chosen

/-- Several nodes are picked from one group. -/
theorem pickNodes_group {α : Type} {order : IterOrder PassSite} {site : PassSite}
    {group : α → Option (String × String)} {count : Nat} {items picked : List α}
    (grouped : ∀ item ∈ items, (group item).isSome = true)
    (chosen : pickNodes order site group count items = some (some picked)) :
    ∃ name, ∀ item ∈ picked, group item = some name := by
  unfold pickNodes at chosen
  split at chosen
  · split at chosen
    · obtain ⟨ids, first, same⟩ := Option.map_eq_some_iff.mp (Option.some.inj chosen)
      have member := IterOrder.mem_shuffle.mp (List.mem_of_find?_eq_some first)
      obtain ⟨name, found⟩ := HashMap.mem_values.mp member
      refine ⟨name, fun item listed => ?_⟩
      rw [← same] at listed
      have inside := List.mem_of_mem_take listed
      have whole := HashMap.getD_groupBy group items name
      rw [HashMap.getD, found, Option.getD_some] at whole
      rw [whole, List.mem_filter, decide_eq_true_eq] at inside
      exact inside.2
    · obtain ⟨first, head, same⟩ := Option.map_eq_some_iff.mp chosen
      obtain ⟨name, own⟩ := Option.isSome_iff_exists.mp (grouped first (List.mem_of_mem_head? head))
      refine ⟨name, fun item listed => ?_⟩
      rw [← Option.some.inj same, List.mem_singleton] at listed
      rw [listed, own]
  · cases chosen

theorem preemptCandidates_usable {workerId : WorkerId} {gone : List JobId}
    (member : (workerId, gone) ∈ preemptCandidates input turn state job) :
    ∃ worker, state.workers.get? workerId = some worker ∧ worker.connected = true ∧ worker.draining = false ∧
      state.isReserved workerId job input.now = false ∧ gone = preemptibleJobs input turn state workerId worker := by
  rw [preemptCandidates, (List.perm_insertionSort _ _).mem_iff, List.mem_filterMap] at member
  obtain ⟨⟨name, worker⟩, eligible, chosen⟩ := member
  obtain ⟨found, draining, connected⟩ := mem_eligibleWorkers.mp eligible
  dsimp only at chosen
  split at chosen
  · rename_i fits
    cases chosen
    have open' : state.isReserved workerId job input.now = false := by
      simp only [fitsAfterEviction, Bool.and_eq_true, Bool.not_eq_true'] at fits
      exact fits.1.1.1
    exact ⟨worker, found, connected, draining, open', rfl⟩
  · cases chosen

theorem Preempts.selected (preempts : Preempts input turn state job placement) :
    ∃ picked, pickNodes input.order (.preemptGroups turn) (fun node : WorkerId × List JobId => state.workerGroup node.1)
        job.reqNodes (preemptCandidates input turn state job) = some (some picked) ∧
      placement.nodes = picked.map Prod.fst ∧
      ∀ jobId, jobId ∈ placement.evictions ↔ ∃ node ∈ picked, jobId ∈ node.2 := by
  have placed := preempts.placed
  rw [placeJob, preempts.unselected] at placed
  dsimp only at placed
  split at placed
  · obtain ⟨choice, picked, chosen⟩ := Option.map_eq_some_iff.mp placed
    obtain ⟨nodes, same, built⟩ := Option.map_eq_some_iff.mp chosen
    subst same built
    refine ⟨nodes, picked, rfl, fun jobId => ?_⟩
    rw [IterOrder.mem_shuffle, ← HashSet.mem_def, HashSet.mem_ofList, List.mem_flatMap]
  · cases placed

theorem Preempts.nodes (preempts : Preempts input turn state job placement) (positive : 1 ≤ job.reqNodes) :
    NodesSelected state input.now job placement.nodes := by
  obtain ⟨picked, chosen, same, _⟩ := preempts.selected
  have inside := (pickNodes_sublist chosen).1.subset
  refine ⟨?_, (placeJob_ok preempts.placed).distinct, ?_, ?_⟩
  · rw [same, List.length_map]
    exact pickNodes_count positive chosen
  · intro workerId member
    rw [same] at member
    obtain ⟨⟨name, gone⟩, node, rfl⟩ := List.mem_map.mp member
    obtain ⟨worker, found, connected, draining, open', _⟩ := preemptCandidates_usable (inside node)
    exact ⟨worker, found, connected, draining, open'⟩
  · have grouped : ∀ node ∈ preemptCandidates input turn state job, (state.workerGroup node.1).isSome = true := by
      intro node member
      obtain ⟨worker, found, _⟩ := preemptCandidates_usable member
      rw [GlobalState.workerGroup, found]
      rfl
    obtain ⟨name, all⟩ := pickNodes_group grouped chosen
    refine ⟨name, fun workerId member => ?_⟩
    rw [same] at member
    obtain ⟨node, listed, rfl⟩ := List.mem_map.mp member
    exact all node listed

theorem Preempts.evicted (preempts : Preempts input turn state job placement) (agrees : Agrees HandleFull state) :
    ∀ jobId ∈ placement.evictions, ∃ victim, state.jobs.get? jobId = some victim ∧ victim.status = .running ∧
      victim.qos = .preemptible ∧ ∃ workerId ∈ placement.nodes, workerId ∈ victim.assignedWorkers := by
  obtain ⟨picked, chosen, same, victims⟩ := preempts.selected
  have inside := (pickNodes_sublist chosen).1.subset
  intro jobId member
  obtain ⟨⟨workerId, gone⟩, node, listed⟩ := (victims jobId).mp member
  obtain ⟨worker, found, _, _, _, own⟩ := preemptCandidates_usable (inside node)
  dsimp only at listed
  rw [own] at listed
  obtain ⟨assigned, victim, stored, qos⟩ := mem_preemptibleJobs.mp listed
  obtain ⟨victim', stored', runs⟩ := ((agrees workerId worker found).assigned jobId).mp assigned
  cases stored.symm.trans stored'
  obtain ⟨running, there⟩ := runsOn_iff.mp runs
  exact ⟨victim, stored, running, qos, workerId, same ▸ List.mem_map_of_mem (f := Prod.fst) node, there⟩

theorem Preempts.room (preempts : Preempts input turn state job placement) (agrees : Agrees HandleFull state) :
    RoomMade state job placement := by
  have ok := placeJob_ok preempts.placed
  intro workerId node
  have present : ∃ worker, state.workers.get? workerId = some worker := by
    rcases ok.fits with ⟨_, fits⟩ | fits
    · exact (fits workerId node).imp fun _ => And.left
    · exact (fits workerId node).imp fun _ => And.left
  obtain ⟨before, present⟩ := present
  obtain ⟨worker, found, _⟩ := (evict_links placement.evictions state).found present
  obtain ⟨cores, memory, gres⟩ := placement_units agrees ok node found
  exact ⟨worker, found, cores, by omega, gres, Option.isSome_iff_exists.mpr (allocateJob_isSome cores gres)⟩

theorem Preempts.unhosted (preempts : Preempts input turn state job placement) :
    CastHarmless state input.now job ↔ ¬ state.Hosts job.reqNodes (roomyWorkers state input.now job) := by
  have none : ¬ state.Hosts job.reqNodes (availableWorkers input turn state job) :=
    not_hosts_of_pickNodes preempts.unselected
  rw [CastHarmless, ← hosts_availableWorkers_iff]
  exact ⟨fun harmless hosts => none (harmless hosts), fun unfit hosts => absurd hosts unfit⟩

/-- An Interactive job of one node is placed if there is a candidate. -/
theorem exists_preempts (interactive : job.qos = .interactive) (single : job.reqNodes = 1)
    (unselected : pickNodes input.order (.groups turn) state.workerGroup job.reqNodes
      (availableWorkers input turn state job) = some none)
    {node : WorkerId × List JobId} (candidate : node ∈ preemptCandidates input turn state job) :
    ∃ placement, Preempts input turn state job placement := by
  have filled : 1 ≤ (preemptCandidates input turn state job).length := List.length_pos_of_mem candidate
  obtain ⟨first, rest, shape⟩ := List.exists_cons_of_ne_nil (List.ne_nil_of_mem candidate)
  have picked : pickNodes input.order (.preemptGroups turn) (fun node : WorkerId × List JobId => state.workerGroup node.1)
      job.reqNodes (preemptCandidates input turn state job) = some (some [first]) := by
    rw [single, pickNodes, if_pos filled, if_neg (Nat.lt_irrefl 1), shape]
    rfl
  refine ⟨⟨[first.1], input.order.shuffle (.evictions turn) (HashSet.ofList ([first].flatMap Prod.snd)).elems⟩,
    unselected, ?_⟩
  rw [placeJob, unselected]
  dsimp only
  rw [if_pos interactive, picked]
  rfl

/-- Preemption is sound unless it evicts a job although the cast only hides workers that
have room for the Interactive job. -/
theorem preemption_sound_iff (agrees : Agrees HandleFull state) (positive : 1 ≤ job.reqNodes)
    (preempts : Preempts input turn state job placement) :
    (placement.evictions = [] → PreemptionSound state input.now job placement) ∧
    (placement.evictions ≠ [] →
      (PreemptionSound state input.now job placement ↔ CastHarmless state input.now job)) := by
  refine ⟨fun none => ?_, fun some => ?_⟩
  · exact ⟨preempts.room agrees, preempts.nodes positive, preempts.evicted agrees, fun some => absurd none some⟩
  · rw [preempts.unhosted]
    refine ⟨fun sound => sound.needed some, fun unfit => ?_⟩
    exact ⟨preempts.room agrees, preempts.nodes positive, preempts.evicted agrees, fun _ => unfit⟩

end Placement

section Sample

/-- A leader whose only worker runs a Preemptible job while an Interactive one waits. -/
def evictableOps : List LedgerOp :=
  [.register (sampleRegistration "w1") 100, .submit (sampleSubmission 1 .preemptible 1 "sh") 2,
    .schedule { now := 100 }, .submit (sampleSubmission 2 .interactive 1 "sh") 3]

theorem preemption_sound_iff_evictableOps : ∃ ctx placement,
    runLabels LedgerOp.apply evictableOps sampleLeader = some ctx ∧
    Preempts { now := 200 } 0 ctx.state (sampleSubmission 2 .interactive 1 "sh").job placement ∧
    placement.evictions ≠ [] ∧ PreemptionSound ctx.state 200 (sampleSubmission 2 .interactive 1 "sh").job placement := by
  obtain ⟨ctx, ran⟩ : ∃ ctx, runLabels LedgerOp.apply evictableOps sampleLeader = some ctx :=
    Option.isSome_iff_exists.mp (by decide +kernel)
  have facts : ((runLabels LedgerOp.apply evictableOps sampleLeader).bind fun ctx =>
      (placeJob { now := 200 } 0 ctx.state (sampleSubmission 2 .interactive 1 "sh").job).join.map fun placement =>
        (placement.evictions,
          pickNodes .stored (.groups 0) ctx.state.workerGroup 1
            (availableWorkers { now := 200 } 0 ctx.state (sampleSubmission 2 .interactive 1 "sh").job),
          roomyWorkers ctx.state 200 (sampleSubmission 2 .interactive 1 "sh").job)) =
      some ([1], some none, []) := by decide +kernel
  rw [ran, Option.bind_some] at facts
  obtain ⟨placement, placed, same⟩ := Option.map_eq_some_iff.mp facts
  simp only [Prod.mk.injEq] at same
  obtain ⟨victims, unselected, roomy⟩ := same
  have some : placement.evictions ≠ [] := by rw [victims]; exact List.cons_ne_nil 1 []
  have preempts : Preempts { now := 200 } 0 ctx.state (sampleSubmission 2 .interactive 1 "sh").job placement :=
    ⟨unselected, Option.join_eq_some_iff.mp placed⟩
  have harmless : CastHarmless ctx.state 200 (sampleSubmission 2 .interactive 1 "sh").job := by
    intro hosts
    rw [roomy] at hosts
    exact absurd hosts.1 (by decide)
  have sound := preemption_sound_iff (allocation_twoJobs ran).agrees (by decide) preempts
  exact ⟨ctx, placement, ran, preempts, some, (sound.2 some).mpr harmless⟩

def vastResources : Resources := { hugeResources with cpuCores := 2 ^ 32 + 1 }

def vastWorker : WorkerHandle :=
  Registration.handle { sampleRegistration "w1" with resources := vastResources } (.direct .live) 100 (.idle vastResources)

def oneCoreJob (jobId : JobId) (qos : QosLevel) : JobInfo :=
  { id := jobId, binary := "sh", reqNodes := 1, reqCores := 1, reqMemory := 1, userId := "user", qos }

def runningJob (allocated : WorkerHandle) : JobInfo :=
  { oneCoreJob 1 .preemptible with
    status := .running
    assignedWorkers := ["w1"]
    allocatedCores := HashMap.insert ∅ "w1" ((allocated.jobCoreAssignments.get? 1).getD [])
    allocatedGres := HashMap.insert ∅ "w1" ((allocated.jobGresAssignments.get? 1).getD ∅) }

def vastState (allocated : WorkerHandle) : GlobalState where
  workers := HashMap.insert ∅ "w1" allocated
  jobs := HashMap.insert (HashMap.insert ∅ 2 (oneCoreJob 2 .interactive)) 1 (runningJob allocated)

theorem length_vastWorker : vastWorker.availableCoreIds.length = 2 ^ 32 + 1 := by
  rw [vastWorker, Registration.handle, RebuiltWorkerAllocations.idle, List.length_range, vastResources]

theorem vastWorker_drained : ∃ allocated, vastWorker.allocateJob (oneCoreJob 1 .preemptible) = some allocated := by
  have cores : (oneCoreJob 1 .preemptible).reqCores ≤ vastWorker.availableCoreIds.length :=
    length_vastWorker ▸ Nat.le_add_left 1 (2 ^ 32)
  exact allocateJob_isSome cores fun _ _ requested => nomatch requested

theorem idle_handle (registration : Registration) (routing : WorkerRouting) (now : Nat) :
    Rebuilt (.idle registration.resources) (registration.handle routing now (.idle registration.resources)) :=
  ⟨rfl, rfl, rfl, rfl, rfl, rfl⟩

theorem rebuilt_vastWorker : Rebuilt (.idle vastWorker.resources) vastWorker :=
  idle_handle { sampleRegistration "w1" with resources := vastResources } (.direct .live) 100

section Vast

variable {allocated : WorkerHandle} (drained : vastWorker.allocateJob (oneCoreJob 1 .preemptible) = some allocated)
include drained

omit drained in
theorem vastState_worker {workerId : WorkerId} {worker : WorkerHandle} :
    (vastState allocated).workers.get? workerId = some worker ↔ workerId = "w1" ∧ worker = allocated := by
  rw [vastState, HashMap.get?_insert]
  split
  · rename_i same
    simp [same, eq_comm]
  · rename_i other
    simp [other]

theorem length_drained : allocated.availableCoreIds.length = 2 ^ 32 := by
  obtain ⟨_, same⟩ := allocateJob_eq drained
  have rest : allocated.availableCoreIds =
      vastWorker.availableCoreIds.drop (oneCoreJob 1 .preemptible).reqCores := by rw [same]
  rw [rest, List.length_drop, length_vastWorker]
  exact Nat.add_sub_cancel (2 ^ 32) 1

theorem vastState_agrees : Agrees HandleFull (vastState allocated) := by
  intro workerId worker found
  obtain ⟨rfl, rfl⟩ := vastState_worker.mp found
  obtain ⟨_, same⟩ := allocateJob_eq drained
  have idle : HandleFull (HashMap.insert ∅ 2 (oneCoreJob 2 .interactive)) "w1" vastWorker := by
    refine .idle rebuilt_vastWorker fun jobId job stored => ?_
    rw [HashMap.get?_insert] at stored
    split at stored
    · cases stored
      rfl
    · cases stored
  have opens : Opens (HashMap.insert ∅ 2 (oneCoreJob 2 .interactive)) (vastState worker).jobs 1 (runningJob worker) := by
    refine ⟨fun job stored => ?_, HashMap.get?_insert_self .., rfl, fun other apart => ?_⟩
    · cases stored
    · rw [vastState, HashMap.get?_insert, if_neg apart]
  have cores : ∃ units, worker.jobCoreAssignments.get? 1 = some units := by
    rw [same]
    exact ⟨_, HashMap.get?_insert_self ..⟩
  have gres : ∃ share, worker.jobGresAssignments.get? 1 = some share := by
    rw [same]
    exact ⟨_, HashMap.get?_insert_self ..⟩
  obtain ⟨units, cores⟩ := cores
  obtain ⟨share, gres⟩ := gres
  have records : Records (runningJob worker) 1 "w1" worker := by
    refine ⟨List.mem_singleton_self _, ?_, ?_⟩
    · rw [runningJob, cores]
      exact HashMap.get?_insert_self ..
    · rw [runningJob, gres]
      exact HashMap.get?_insert_self ..
  exact idle.allocate opens drained records rfl (by decide)

theorem vastState_unselected : pickNodes .stored (.groups 0) (vastState allocated).workerGroup 1
    (availableWorkers { now := 200 } 0 (vastState allocated) (oneCoreJob 2 .interactive)) = some none := by
  have nobody : availableWorkers { now := 200 } 0 (vastState allocated) (oneCoreJob 2 .interactive) = [] := by
    refine List.eq_nil_iff_forall_not_mem.mpr fun workerId available => ?_
    obtain ⟨worker, found, _, reasons⟩ := mem_availableWorkers available
    obtain ⟨_, same⟩ := vastState_worker.mp found
    have cores := (workerFailReasons_eq_nil_iff.mp reasons).2.1
    rw [same, length_drained drained] at cores
    exact absurd cores (by decide)
  rw [nobody]
  rfl

theorem vastState_roomy : "w1" ∈ roomyWorkers (vastState allocated) 200 (oneCoreJob 2 .interactive) := by
  obtain ⟨_, same⟩ := allocateJob_eq drained
  refine mem_roomyWorkers.mpr ⟨allocated, vastState_worker.mpr ⟨rfl, rfl⟩, ?_, ?_, rfl, current_fits_iff.mpr ⟨?_, ?_, ?_⟩⟩
  · rw [same]
    rfl
  · rw [same]
    rfl
  · rw [length_drained drained]
    exact Nat.one_le_two_pow
  · rw [same]
    decide
  · intro _ _ requested
    cases requested

theorem vastState_candidate : ∃ gone,
    ("w1", gone) ∈ preemptCandidates { now := 200 } 0 (vastState allocated) (oneCoreJob 2 .interactive) := by
  obtain ⟨worker, found, draining, connected, unreserved, fits⟩ := mem_roomyWorkers.mp (vastState_roomy drained)
  obtain ⟨cores, memory, gres⟩ := current_fits_iff.mp fits
  refine ⟨preemptibleJobs { now := 200 } 0 (vastState allocated) "w1" worker, ?_⟩
  rw [preemptCandidates, (List.perm_insertionSort _ _).mem_iff, List.mem_filterMap]
  refine ⟨("w1", worker), mem_eligibleWorkers.mpr ⟨found, draining, connected⟩, ?_⟩
  have room : fitsAfterEviction (vastState allocated) 200 (oneCoreJob 2 .interactive) "w1" worker
      (preemptibleJobs { now := 200 } 0 (vastState allocated) "w1" worker) = true := by
    simp only [fitsAfterEviction, unreserved, Bool.not_false, Bool.true_and, Bool.and_eq_true, decide_eq_true_eq]
    refine ⟨⟨cores.trans (Nat.le_add_right _ _), memory.trans ?_⟩, rfl⟩
    exact (vastState_agrees drained "w1" worker found).memory_unwrapped (preemptibleJobs_nodup _ _ _ _ _)
      fun jobId member => (mem_preemptibleJobs.mp member).1
  exact if_pos room

theorem vastState_victim {gone : List JobId}
    (candidate : ("w1", gone) ∈ preemptCandidates { now := 200 } 0 (vastState allocated) (oneCoreJob 2 .interactive)) :
    1 ∈ gone := by
  obtain ⟨worker, found, _, _, _, own⟩ := preemptCandidates_usable candidate
  have listed : 1 ∈ worker.assignedJobs := by
    refine ((vastState_agrees drained "w1" worker found).assigned 1).mpr ⟨runningJob allocated, ?_, rfl⟩
    exact HashMap.get?_insert_self ..
  rw [own]
  exact mem_preemptibleJobs.mpr ⟨listed, runningJob allocated, HashMap.get?_insert_self .., rfl⟩

theorem vastState_preempts : ∃ placement,
    Preempts { now := 200 } 0 (vastState allocated) (oneCoreJob 2 .interactive) placement ∧ placement.evictions ≠ [] := by
  obtain ⟨gone, candidate⟩ := vastState_candidate drained
  obtain ⟨placement, preempts⟩ := exists_preempts rfl rfl (vastState_unselected drained) candidate
  refine ⟨placement, preempts, fun none => ?_⟩
  obtain ⟨picked, chosen, _, victims⟩ := preempts.selected
  obtain ⟨sublist, filled⟩ := pickNodes_sublist chosen
  obtain ⟨⟨workerId, own⟩, node⟩ := List.exists_mem_of_ne_nil picked filled
  obtain ⟨worker, found, _⟩ := preemptCandidates_usable (sublist.subset node)
  obtain ⟨rfl, _⟩ := vastState_worker.mp found
  have victim := (victims 1).mpr ⟨_, node, vastState_victim drained (sublist.subset node)⟩
  rw [none] at victim
  cases victim

end Vast

/-- A job is evicted for an Interactive one that fits beside it. -/
theorem preemption_not_needed : ∃ state job placement, Agrees HandleFull state ∧ job.qos = .interactive ∧
    1 ≤ job.reqNodes ∧ Preempts { now := 200 } 0 state job placement ∧ placement.evictions ≠ [] ∧
    state.Hosts job.reqNodes (roomyWorkers state 200 job) ∧ ¬ PreemptionSound state 200 job placement := by
  obtain ⟨allocated, drained⟩ := vastWorker_drained
  obtain ⟨placement, preempts, some⟩ := vastState_preempts drained
  have hosts : (vastState allocated).Hosts 1 (roomyWorkers (vastState allocated) 200 (oneCoreJob 2 .interactive)) :=
    ⟨List.length_pos_of_mem (vastState_roomy drained), fun several => absurd several (Nat.lt_irrefl 1)⟩
  exact ⟨vastState allocated, oneCoreJob 2 .interactive, placement, vastState_agrees drained, rfl, Nat.le_refl 1, preempts,
    some, hosts, fun sound => sound.needed some hosts⟩

end Sample

end Veloce
