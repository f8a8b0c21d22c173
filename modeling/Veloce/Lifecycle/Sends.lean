import Veloce.Lifecycle.Moves

/-! What a pass sends. -/

namespace Veloce

open Collections

theorem runJobsFor_append (jobId : JobId) (sent sent' : List (WorkerId × Message)) :
    runJobsFor jobId (sent ++ sent') = runJobsFor jobId sent ++ runJobsFor jobId sent' := List.filterMap_append

def Quiet (state state' : GlobalState) : Prop :=
  ∃ sent, state'.outbox = state.outbox ++ sent ∧ ∀ jobId, runJobsFor jobId sent = []

theorem Quiet.refl (state : GlobalState) : Quiet state state := ⟨[], by simp, fun _ => rfl⟩

theorem Quiet.trans {state middle state' : GlobalState} (first : Quiet state middle) (second : Quiet middle state') :
    Quiet state state' := by
  obtain ⟨sent, same, none⟩ := first
  obtain ⟨sent', same', none'⟩ := second
  refine ⟨sent ++ sent', by rw [same', same, List.append_assoc], fun jobId => ?_⟩
  rw [runJobsFor_append, none, none']
  rfl

theorem quiet_notify (state : GlobalState) (jobId target : JobId) :
    Quiet state (state.notifyHead jobId (.preemptJob target)) := by
  unfold GlobalState.notifyHead
  split
  · rw [GlobalState.trySend_eq]
    split
    · exact ⟨_, rfl, fun _ => rfl⟩
    · exact .refl state
  · exact .refl state

theorem quiet_preempt (state : GlobalState) (jobId : JobId) : Quiet state (state.preemptJob jobId) := by
  rcases state.preemptJob_cases jobId with ⟨_, _, _, same⟩ | same
  · rw [same]
    exact quiet_notify state jobId jobId
  · rw [same]
    exact .refl state

theorem quiet_evict (evictions : List JobId) (state : GlobalState) : Quiet state (state.evictJobs evictions) :=
  GlobalState.evictJobs_invariant (Quiet state) evictions (.refl state)
    fun middle jobId before => before.trans (quiet_preempt middle jobId)

theorem routable_links {state state' : GlobalState} (links : SameLinks state.workers state'.workers)
    (peers : state'.peers = state.peers) (workerId : WorkerId) :
    state'.routable workerId = state.routable workerId := by
  have routing := congrArg (Option.map Link.routing) (links workerId)
  simp only [Option.map_map, Function.comp_def, WorkerHandle.link] at routing
  unfold GlobalState.routable
  rw [peers]
  cases found : state.workers.get? workerId with
  | none =>
    rw [found, Option.map_none, Option.map_eq_none_iff] at routing
    rw [routing]
  | some worker =>
    rw [found, Option.map_some] at routing
    obtain ⟨worker', found', same⟩ := Option.map_eq_some_iff.mp routing
    rw [found', Option.map_some, Option.map_some, same]

theorem routable_present {state : GlobalState} {workerId : WorkerId} (reached : state.routable workerId = true) :
    ∃ worker, state.workers.get? workerId = some worker := by
  cases found : state.workers.get? workerId with
  | none => simp [GlobalState.routable, found] at reached
  | some worker => exact ⟨worker, rfl⟩

theorem sendRunJob_of_routable {state : GlobalState} (job : JobInfo) (nodes : List WorkerId)
    {target : WorkerId × Nat} (reached : state.routable target.1 = true) :
    ∃ order, order.jobId = job.id ∧ sendRunJob job nodes state target = state.hand target.1 (.runJob order) := by
  obtain ⟨worker, found⟩ := routable_present reached
  refine ⟨runMessage state job nodes target.2 worker, rfl, ?_⟩
  simp only [sendRunJob, found, GlobalState.trySend_eq, reached, ↓reduceIte]

theorem sendRunJob_of_not_routable {state : GlobalState} (job : JobInfo) (nodes : List WorkerId)
    {target : WorkerId × Nat} (unreached : state.routable target.1 = false) :
    sendRunJob job nodes state target = state := by
  unfold sendRunJob
  split
  · simp only [GlobalState.trySend_eq, unreached, Bool.false_eq_true, ↓reduceIte]
  · rfl

/-- A dispatch sends RunJob to exactly the targets that are routable. -/
theorem dispatchJob_sends (state : GlobalState) (job : JobInfo) (nodes : List WorkerId) :
    ∃ sent, (dispatchJob state job nodes).outbox = state.outbox ++ sent ∧
      runJobsFor job.id sent = (dispatchTargets job nodes).filter state.routable ∧
      ∀ entry ∈ sent, ∃ order, entry.2 = .runJob order ∧ order.jobId = job.id := by
  have sends : ∀ (targets : List (WorkerId × Nat)) (state' : GlobalState),
      (∀ workerId, state'.routable workerId = state.routable workerId) →
      ∃ sent, (targets.foldl (sendRunJob job nodes) state').outbox = state'.outbox ++ sent ∧
        runJobsFor job.id sent = (targets.map Prod.fst).filter state.routable ∧
        ∀ entry ∈ sent, ∃ order, entry.2 = .runJob order ∧ order.jobId = job.id := by
    intro targets
    induction targets with
    | nil => intro state' _; exact ⟨[], by simp, rfl, fun _ member => absurd member List.not_mem_nil⟩
    | cons target rest ih =>
      intro state' same
      rw [List.foldl_cons, List.map_cons]
      cases reached : state.routable target.1 with
      | true =>
        obtain ⟨order, about, sends⟩ := sendRunJob_of_routable job nodes ((same target.1).trans reached)
        obtain ⟨sent, outbox, filtered, orders⟩ := ih (state'.hand target.1 (.runJob order)) same
        refine ⟨(target.1, .runJob order) :: sent, ?_, ?_, ?_⟩
        · rw [sends, outbox, GlobalState.hand, List.append_assoc]
          rfl
        · rw [List.filter_cons_of_pos reached, ← filtered]
          simp [runJobsFor, about]
        · intro entry member
          rcases List.mem_cons.mp member with first | later
          · exact ⟨order, congrArg Prod.snd first, about⟩
          · exact orders entry later
      | false =>
        rw [sendRunJob_of_not_routable job nodes ((same target.1).trans reached),
          List.filter_cons_of_neg (by simp [reached])]
        exact ih state' same
  obtain ⟨sent, outbox, filtered, orders⟩ := sends (dispatchTargets job nodes).zipIdx state fun _ => rfl
  refine ⟨sent, outbox, ?_, orders⟩
  rw [filtered, List.zipIdx_map_fst]

theorem startJob_sends {input : PassInput} {state final : GlobalState} {job : JobInfo} {placement : Placement}
    (distinct : placement.nodes.Nodup) (starts : startJob input state job placement = some final) :
    ∃ sent, final.outbox = (state.evictJobs placement.evictions).outbox ++ sent ∧
      sentBetween state final job.id = runJobsFor job.id sent ∧
      runJobsFor job.id sent = (dispatchTargets job placement.nodes).filter state.routable ∧
      ∀ entry ∈ sent, ∃ order, entry.2 = .runJob order ∧ order.jobId = job.id := by
  have links := start_links distinct starts
  obtain ⟨workers, _, same⟩ := startJob_eq starts
  obtain ⟨quiet, before, none⟩ := quiet_evict placement.evictions state
  obtain ⟨sent, outbox, filtered, orders⟩ := dispatchJob_sends
    { state.evictJobs placement.evictions with workers := workers } job placement.nodes
  have after : final.outbox = (state.evictJobs placement.evictions).outbox ++ sent := by
    rw [same]
    exact outbox
  refine ⟨sent, after, ?_, ?_, orders⟩
  · rw [sentBetween, after, before, List.append_assoc, List.drop_left, runJobsFor_append, none, List.nil_append]
  · rw [filtered]
    refine List.filter_congr fun workerId _ => ?_
    have peers : (state.evictJobs placement.evictions).peers = state.peers := by
      rw [GlobalState.evictJobs_frame]
    rw [same] at links
    exact routable_links links peers workerId

end Veloce
