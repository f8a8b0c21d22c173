import Veloce.Scheduler.PassSpec
import Veloce.Handlers.Client
import Veloce.Handlers.Worker

/-! Pending jobs and the queue. -/

namespace Veloce

open Collections

def GlobalState.hasStatus (state : GlobalState) (jobId : JobId) (status : JobStatus) : Prop :=
  ∃ job, state.jobs.get? jobId = some job ∧ job.status = status

/-- The queue has no duplicates and contains every Pending job. -/
def QueueCovers (state : GlobalState) : Prop :=
  state.queue.Nodup ∧ ∀ jobId, state.hasStatus jobId .pending → jobId ∈ state.queue

/-- Before the turn of a job: it is Pending, ready and Interactive, the free workers do not suffice
for it, and one of the workers picked to be emptied for it lists this victim. -/
def Displaces (input : PassInput) (turn : Nat) (pass : PassState) (jobId victim : JobId) : Prop :=
  let state := (pass.clearWaiting jobId).state
  ∃ job, pass.state.jobs.get? jobId = some job ∧ job.status = .pending ∧ job.qos = .interactive ∧
    areDependenciesSatisfied job pass.state.jobs input.dbCache = .ok true ∧
    (∀ earliest ∈ pass.topJobEarliestStart, addU64 input.now job.expectedDuration ≤ earliest) ∧
    pickNodes input.order (.groups turn) state.workerGroup job.reqNodes
      (availableWorkers input turn state { job with id := jobId }) = some none ∧
    ∃ nodes, pickNodes input.order (.preemptGroups turn) (fun node => state.workerGroup node.1) job.reqNodes
      (preemptCandidates input turn state { job with id := jobId }) = some (some nodes) ∧ ∃ node ∈ nodes, victim ∈ node.2

/-- A pass comes to the turns of these jobs in this state. -/
inductive AtTurns (input : PassInput) (state : GlobalState) : List JobId → PassState → Prop where
  | start : AtTurns input state (pendingOrder input state) { state := passStart input state }
  | next {jobId : JobId} {rest : List JobId} {pass next : PassState} (before : AtTurns input state (jobId :: rest) pass)
      (taken : passTurn input rest.length pass jobId = some next) : AtTurns input state rest next

theorem Reworded.hasStatus {state state' : GlobalState} (reworded : Reworded state state') (jobId : JobId)
    (status : JobStatus) : state'.hasStatus jobId status ↔ state.hasStatus jobId status := by
  have kept {job job' : JobInfo} (same : job'.unworded = job.unworded) : job'.status = job.status := by
    have whole := congrArg JobInfo.status same
    exact whole
  constructor
  · rintro ⟨job', found, holds⟩
    obtain ⟨job, stored, same⟩ := reworded.found_back found
    exact ⟨job, stored, (kept same).symm.trans holds⟩
  · rintro ⟨job, found, holds⟩
    obtain ⟨job', stored, same⟩ := reworded.found found
    exact ⟨job', stored, (kept same).trans holds⟩

variable {input : PassInput} {pass next : PassState} {state final : GlobalState} {rest : List JobId} {job : JobInfo}
  {placement : Placement}

theorem granted_iff : backfillDenial input pass job = none ↔
    ∀ earliest ∈ pass.topJobEarliestStart, addU64 input.now job.expectedDuration ≤ earliest := by
  unfold backfillDenial
  cases pass.topJobEarliestStart with
  | none => simp
  | some earliest => simp

theorem placeJob_full {turn : Nat} (interactive : job.qos = .interactive)
    (full : pickNodes input.order (.groups turn) state.workerGroup job.reqNodes (availableWorkers input turn state job) = some none) :
    placeJob input turn state job =
      (pickNodes input.order (.preemptGroups turn) (fun node => state.workerGroup node.1) job.reqNodes
        (preemptCandidates input turn state job)).map fun selected => selected.map fun nodes =>
          ⟨nodes.map Prod.fst, input.order.shuffle (.evictions turn) (HashSet.ofList (nodes.flatMap Prod.snd)).elems⟩ := by
  rw [placeJob, full]
  exact if_pos interactive

theorem mem_evictions {turn : Nat} {victim : JobId} {nodes : List (WorkerId × List JobId)} :
    victim ∈ input.order.shuffle (.evictions turn) (HashSet.ofList (nodes.flatMap Prod.snd)).elems ↔
      ∃ node ∈ nodes, victim ∈ node.2 := by
  rw [IterOrder.mem_shuffle]
  exact HashSet.mem_ofList.trans List.mem_flatMap

/-- These are the victims of the turn. -/
theorem displaces_iff {turn : Nat} {jobId victim : JobId} :
    Displaces input turn pass jobId victim ↔
      ∃ placement, turnPlacement input turn pass jobId = some placement ∧ victim ∈ placement.evictions := by
  constructor
  · rintro ⟨job, found, pending, interactive, ready, granted, full, nodes, picked, listed⟩
    have free : backfillDenial input (pass.clearWaiting jobId) { job with id := jobId } = none := granted_iff.mpr granted
    have victims : victim ∈ input.order.shuffle (.evictions turn) (HashSet.ofList (nodes.flatMap Prod.snd)).elems :=
      mem_evictions.mpr listed
    refine ⟨⟨nodes.map Prod.fst, _⟩, ?_, victims⟩
    rw [turnPlacement_ready found pending ready, free]
    dsimp only
    rw [@placeJob_full input _ { job with id := jobId } turn interactive full, picked]
    rfl
  · rintro ⟨placement, chosen, member⟩
    unfold turnPlacement at chosen
    split at chosen
    · cases chosen
    · rename_i job found
      split at chosen
      · rename_i pending
        split at chosen
        · rename_i ready
          split at chosen
          · cases chosen
          · rename_i granted
            have placed := Option.join_eq_some_iff.mp chosen
            unfold placeJob at placed
            split at placed
            · cases placed
            · cases placed
              cases member
            · rename_i full
              split at placed
              · rename_i interactive
                obtain ⟨selected, picked, same⟩ := Option.map_eq_some_iff.mp placed
                obtain ⟨nodes, rfl, rfl⟩ := Option.map_eq_some_iff.mp same
                exact ⟨job, found, pending, interactive, ready, granted_iff.mp granted, full, nodes, picked, mem_evictions.mp member⟩
              · cases placed
        · cases chosen
      · cases chosen

theorem startJob_others (starts : startJob input state job placement = some final) {other : JobId}
    (different : other ≠ job.id) :
    final.jobs.get? other = if other ∈ placement.evictions then (state.jobs.get? other).map JobInfo.evicted
      else state.jobs.get? other := by
  obtain ⟨workers, _, same⟩ := startJob_eq starts
  rw [same]
  simp only [HashMap.get?_modify, different, ↓reduceIte, GlobalState.get?_evictJobs]

theorem startJob_running (starts : startJob input state job placement = some final) {started : JobInfo}
    (found : final.jobs.get? job.id = some started) : started.status = .running := by
  obtain ⟨workers, _, same⟩ := startJob_eq starts
  rw [same] at found
  simp only [HashMap.get?_modify, ↓reduceIte] at found
  obtain ⟨before, _, updated⟩ := Option.map_eq_some_iff.mp found
  exact updated ▸ rfl

theorem startJob_pending (starts : startJob input state job placement = some final) {other : JobId} :
    final.hasStatus other .pending ↔ other ≠ job.id ∧
      (state.hasStatus other .pending ∨ other ∈ placement.evictions ∧ state.hasStatus other .running) := by
  constructor
  · rintro ⟨after, found, pending⟩
    have different : other ≠ job.id := by
      intro same
      subst same
      rw [startJob_running starts found] at pending
      cases pending
    refine ⟨different, ?_⟩
    rw [startJob_others starts different] at found
    split at found
    · rename_i chosen
      obtain ⟨before, stored, updated⟩ := Option.map_eq_some_iff.mp found
      by_cases running : before.status = .running
      · exact .inr ⟨chosen, before, stored, running⟩
      · rw [JobInfo.evicted, if_neg running] at updated
        exact .inl ⟨before, stored, updated ▸ pending⟩
    · exact .inl ⟨after, found, pending⟩
  · rintro ⟨different, ⟨before, stored, pending⟩ | ⟨chosen, before, stored, running⟩⟩
    · refine ⟨before, ?_, pending⟩
      rw [startJob_others starts different, stored]
      simp [JobInfo.evicted, pending]
    · refine ⟨before.evicted, ?_, by simp [JobInfo.evicted, running, JobInfo.requeued]⟩
      rw [startJob_others starts different, if_pos chosen, stored, Option.map_some]

/-- The locals of a pass over a covered queue: the waiting jobs are Pending and
have no turn left. -/
structure Waiting (rest : List JobId) (pass : PassState) : Prop where
  distinct : (pass.stillPending ++ rest).Nodup
  pending : ∀ jobId ∈ pass.stillPending, pass.state.hasStatus jobId .pending

theorem Waiting.turn {jobId : JobId} (valid : Waiting (jobId :: rest) pass)
    (outcome : TurnOutcome input rest.length pass jobId next) :
    Waiting rest next := by
  have fewer : (pass.stillPending ++ rest).Nodup :=
    valid.distinct.sublist ((List.sublist_cons_self jobId rest).append_left _)
  have outside : jobId ∉ pass.stillPending := by
    intro member
    exact (List.disjoint_of_nodup_append valid.distinct) member List.mem_cons_self
  cases outcome with
  | skip _ _ => exact ⟨fewer, valid.pending⟩
  | wait found pending _ reworded kept =>
    refine ⟨?_, ?_⟩
    · rw [kept, List.append_assoc]
      exact valid.distinct
    · intro other member
      rw [reworded.hasStatus]
      rw [kept, List.mem_append, List.mem_singleton] at member
      rcases member with old | new
      · exact valid.pending other old
      · exact new ▸ ⟨_, found, pending⟩
  | start found pending _ reworded placed starts =>
    refine ⟨fewer, fun other member => ?_⟩
    have different : other ≠ jobId := fun same => outside (same ▸ member)
    exact (startJob_pending starts).mpr
      ⟨different, .inl ((reworded.hasStatus other .pending).mpr (valid.pending other member))⟩

def Accounted (rest : List JobId) (pass : PassState) : Prop :=
  ∀ jobId, pass.state.hasStatus jobId .pending → jobId ∈ pass.stillPending ∨ jobId ∈ rest

theorem Accounted.turn {jobId : JobId} (valid : Accounted (jobId :: rest) pass)
    (ahead : ∀ victim, Displaces input rest.length pass jobId victim → pass.state.hasStatus victim .running → victim ∈ rest)
    (outcome : TurnOutcome input rest.length pass jobId next) : Accounted rest next := by
  intro other pending
  cases outcome with
  | skip idle _ =>
    refine (valid other pending).imp_right fun member => ?_
    refine (List.mem_cons.mp member).resolve_left fun same => ?_
    subst same
    obtain ⟨job, found, waits⟩ := pending
    exact idle job found waits
  | wait _ _ _ reworded kept =>
    rw [kept, List.mem_append, List.mem_singleton]
    rw [reworded.hasStatus] at pending
    rcases valid other pending with old | member
    · exact .inl (.inl old)
    · exact (List.mem_cons.mp member).imp_left .inr
  | start _ _ chosen reworded placed starts =>
    obtain ⟨different, before⟩ := (startJob_pending starts).mp pending
    rw [reworded.hasStatus, reworded.hasStatus] at before
    rcases before with waits | ⟨victim, running⟩
    · exact (valid other waits).imp_right fun member => (List.mem_cons.mp member).resolve_left different
    · exact .inr (ahead other (displaces_iff.mpr ⟨_, chosen, victim⟩) running)

/-- A Pending job that neither waits nor has a turn. -/
def Lost (victim : JobId) (rest : List JobId) (pass : PassState) : Prop :=
  pass.state.hasStatus victim .pending ∧ victim ∉ pass.stillPending ∧ victim ∉ rest

theorem Lost.turn {victim jobId : JobId} (lost : Lost victim (jobId :: rest) pass)
    (outcome : TurnOutcome input rest.length pass jobId next) :
    Lost victim rest next := by
  obtain ⟨pending, unlisted, none⟩ := lost
  obtain ⟨different, later⟩ := not_or.mp (mt List.mem_cons.mpr none)
  cases outcome with
  | skip _ _ => exact ⟨pending, unlisted, later⟩
  | wait _ _ _ reworded kept =>
    refine ⟨(reworded.hasStatus victim .pending).mpr pending, ?_, later⟩
    rw [kept, List.mem_append, List.mem_singleton]
    exact fun member => member.elim unlisted different
  | start _ _ _ reworded placed starts =>
    refine ⟨(startJob_pending starts).mpr ⟨different, .inl ?_⟩, unlisted, later⟩
    exact (reworded.hasStatus victim .pending).mpr pending

/-- A job that a turn evicts after its own is lost in the rest of the pass. -/
theorem Waiting.loses {jobId victim : JobId} (valid : Waiting (jobId :: rest) pass)
    (displaces : Displaces input rest.length pass jobId victim) (running : pass.state.hasStatus victim .running)
    (behind : victim ∉ rest) (outcome : TurnOutcome input rest.length pass jobId next) : Lost victim rest next := by
  obtain ⟨placement, chosen, member⟩ := displaces_iff.mp displaces
  obtain ⟨job, found, runs⟩ := running
  cases outcome with
  | skip _ unplaced =>
    rw [unplaced] at chosen
    cases chosen
  | wait _ _ unplaced _ _ =>
    rw [unplaced] at chosen
    cases chosen
  | start ready pending chosen' reworded placed starts =>
    cases chosen.symm.trans chosen'
    have different : victim ≠ jobId := by
      intro same
      subst same
      cases found.symm.trans ready
      rw [pending] at runs
      cases runs
    refine ⟨(startJob_pending starts).mpr
      ⟨different, .inr ⟨member, (reworded.hasStatus victim .running).mpr ⟨job, found, runs⟩⟩⟩, ?_, behind⟩
    intro listed
    obtain ⟨job', found', pending'⟩ := valid.pending victim listed
    cases found.symm.trans found'
    rw [runs] at pending'
    cases pending'

theorem AtTurns.continues {order : List JobId} {pass final : PassState} (reached : AtTurns input state order pass)
    (begins : Waiting (pendingOrder input state) { state := passStart input state })
    (ran : passTurns input (pendingOrder input state) { state := passStart input state } = some final) :
    Waiting order pass ∧ passTurns input order pass = some final := by
  induction reached with
  | start => exact ⟨begins, ran⟩
  | next _ taken ih =>
    obtain ⟨valid, more⟩ := ih
    rw [passTurns, taken] at more
    exact ⟨valid.turn (passTurn_outcome taken), more⟩

/-- A pass over a covered queue keeps every Pending job in the queue exactly once
if and only if, at each of its turns, the Running jobs that the turn displaces have their own turn
still to come. -/
theorem schedule_keeps_pending_iff {input : PassInput} {state final : GlobalState} (covers : QueueCovers state)
    (ran : scheduleJobs input state = some final) :
    (∀ jobId, final.hasStatus jobId .pending → final.queue.count jobId = 1) ↔
      ∀ jobId rest pass, AtTurns input state (jobId :: rest) pass →
        ∀ victim, Displaces input rest.length pass jobId victim → pass.state.hasStatus victim .running → victim ∈ rest := by
  obtain ⟨pass, turns, same⟩ := Option.map_eq_some_iff.mp ran
  have order : (pendingOrder input state).Perm state.queue := List.perm_insertionSort _ _
  have begins : Waiting (pendingOrder input state) { state := passStart input state } :=
    ⟨order.nodup_iff.mpr covers.1, fun _ member => absurd member List.not_mem_nil⟩
  have ends : Waiting [] pass := by
    refine passTurns_invariant Waiting ?_ _ begins turns
    intro jobId rest pass next valid taken
    exact valid.turn (passTurn_outcome taken)
  subst same
  constructor
  · intro kept jobId rest before reached victim displaces running
    by_contra behind
    obtain ⟨valid, more⟩ := reached.continues begins turns
    unfold passTurns at more
    split at more
    · cases more
    · rename_i next taken
      have lost := valid.loses displaces running behind (passTurn_outcome taken)
      have last : Lost victim [] pass := by
        refine passTurns_invariant (Lost victim) ?_ rest lost more
        intro jobId rest pass next lost taken
        exact lost.turn (passTurn_outcome taken)
      have once := kept victim last.1
      rw [List.count_eq_zero.mpr last.2.1] at once
      cases once
  · intro ahead jobId pending
    have accounted : Accounted [] pass ∧ AtTurns input state [] pass := by
      refine passTurns_invariant (fun rest pass => Accounted rest pass ∧ AtTurns input state rest pass) ?_ _ ?_ turns
      · intro jobId rest pass next valid taken
        exact ⟨valid.1.turn (ahead jobId rest pass valid.2) (passTurn_outcome taken), valid.2.next taken⟩
      · exact ⟨fun jobId pending => .inr (order.mem_iff.mpr (covers.2 jobId pending)), .start⟩
    have listed := (accounted.1 jobId pending).resolve_right List.not_mem_nil
    have distinct : pass.stillPending.Nodup := by simpa using ends.distinct
    exact List.count_eq_one_of_mem distinct listed

/-- A leader with one queued job and no workers. -/
def waitingState : GlobalState :=
  sampleLeader.state.acceptSubmission (sampleSubmission 2 .interactive 1 "sh") 3

theorem queueCovers_waitingState : QueueCovers waitingState := by
  refine ⟨by decide, ?_⟩
  rintro jobId ⟨job, found, _⟩
  have stored : ((∅ : HashMap JobId JobInfo).insert 2 (sampleSubmission 2 .interactive 1 "sh").job).get? jobId =
      some job := found
  rw [HashMap.get?_insert] at stored
  split at stored
  · rename_i same
    rw [same]
    decide
  · cases stored

theorem schedule_keeps_pending_waitingState : ∃ final, scheduleJobs { now := 100 } waitingState = some final ∧
    ∀ jobId, final.hasStatus jobId .pending → final.queue.count jobId = 1 := by
  obtain ⟨final, ran⟩ : ∃ final, scheduleJobs { now := 100 } waitingState = some final :=
    Option.isSome_iff_exists.mp (by decide +kernel)
  refine ⟨final, ran, (schedule_keeps_pending_iff queueCovers_waitingState ran).mpr ?_⟩
  have order : pendingOrder { now := 100 } waitingState = [2] := by decide +kernel
  have only {order' : List JobId} {pass : PassState} (reached : AtTurns { now := 100 } waitingState order' pass) :
      order' = [2] ∧ pass = { state := passStart { now := 100 } waitingState } ∨ order' = [] := by
    induction reached with
    | start => exact .inl ⟨order, rfl⟩
    | next _ _ ih =>
      rcases ih with ⟨same, _⟩ | none
      · cases same
        exact .inr rfl
      · cases none
  intro jobId rest pass reached victim displaces _
  obtain ⟨placement, chosen, _⟩ := displaces_iff.mp displaces
  rcases only reached with ⟨same, rfl⟩ | none
  · cases same
    have unplaced : (turnPlacement { now := 100 } 0 { state := passStart { now := 100 } waitingState } 2).isNone =
        true := by decide +kernel
    rw [List.length_nil] at chosen
    rw [chosen] at unplaced
    cases unplaced
  · cases none

def evictableJob : JobInfo :=
  { (sampleSubmission 1 .preemptible 1 "sh").job with
    status := .running
    assignedWorkers := ["w1"]
    allocatedCores := HashMap.ofList [("w1", [0, 1, 2, 3])]
    allocatedGres := HashMap.ofList [("w1", ∅)]
    startTime := some 50 }

/-- The same leader while the only worker runs the Preemptible job. -/
def evictionState : GlobalState :=
  { waitingState with
    jobs := waitingState.jobs.insert 1 evictableJob }.registerWorker (sampleRegistration "w1") 100

/-- The evicted job is Pending and in no queue. -/
theorem schedule_loses_evicted_job : QueueCovers evictionState ∧
    ∃ final, scheduleJobs { now := 100 } evictionState = some final ∧
      final.hasStatus 1 .pending ∧ final.queue.count 1 = 0 := by
  refine ⟨⟨by decide, ?_⟩, ?_⟩
  · rintro jobId ⟨job, found, pending⟩
    have stored : (waitingState.jobs.insert 1 evictableJob).get? jobId = some job := found
    rw [HashMap.get?_insert] at stored
    split at stored
    · cases stored
      cases pending
    · exact queueCovers_waitingState.2 jobId ⟨job, stored, pending⟩
  · obtain ⟨final, ran⟩ : ∃ final, scheduleJobs { now := 100 } evictionState = some final :=
      Option.isSome_iff_exists.mp (by decide +kernel)
    have status : ((scheduleJobs { now := 100 } evictionState).bind fun final =>
        (final.jobs.get? 1).map JobInfo.status) = some .pending := by decide +kernel
    have queue : (scheduleJobs { now := 100 } evictionState).map (·.queue.count 1) = some 0 := by
      decide +kernel
    rw [ran] at status queue
    exact ⟨final, ran, Option.map_eq_some_iff.mp status, Option.some.inj queue⟩

end Veloce
