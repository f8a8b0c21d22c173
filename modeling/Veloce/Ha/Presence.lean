import Veloce.Ha.Course
import Veloce.Ledger.Pass

/-! The workers of the Running jobs. -/

namespace Veloce

open Collections

variable {state state' : GlobalState} {owed : List JobId} {jobId : JobId}

/-- Every worker of a Running job has a handle that lists the job. The jobs in `owed`
are still to be failed. -/
def Attends (owed : List JobId) (state : GlobalState) : Prop :=
  ∀ jobId job, state.jobs.get? jobId = some job → job.status = .running → ∀ workerId ∈ job.assignedWorkers,
    jobId ∈ owed ∨ ∃ worker, state.workers.get? workerId = some worker ∧ jobId ∈ worker.assignedJobs

variable {workerId : WorkerId}

theorem Attends.handle (attends : Attends [] state) {job : JobInfo} (found : state.jobs.get? jobId = some job)
    (running : job.status = .running) (node : workerId ∈ job.assignedWorkers) :
    ∃ worker, state.workers.get? workerId = some worker ∧ jobId ∈ worker.assignedJobs :=
  (attends jobId job found running workerId node).resolve_left List.not_mem_nil

theorem Attends.owing (attends : Attends [] state) (owed : List JobId) : Attends owed state :=
  fun _ _ found running _ node => .inr (attends.handle found running node)

theorem Attends.wanes (attends : Attends owed state) (jobs : Wanes state.jobs state'.jobs)
    (workers : ∀ workerId worker, state.workers.get? workerId = some worker →
      ∃ worker', state'.workers.get? workerId = some worker' ∧ worker'.assignedJobs = worker.assignedJobs) :
    Attends owed state' := by
  intro jobId job' found running workerId node
  obtain ⟨job, stored, same⟩ := (jobs jobId).running found running
  simp only [JobInfo.footprint, Prod.mk.injEq] at same
  refine (attends jobId job stored (same.1 ▸ running) workerId (same.2.1 ▸ node)).imp_right ?_
  rintro ⟨worker, present, listed⟩
  obtain ⟨worker', present', assigned⟩ := workers workerId worker present
  exact ⟨worker', present', assigned ▸ listed⟩

theorem release_lists (state : GlobalState) {jobId other : JobId} (different : other ≠ jobId)
    (listed : ∃ worker, state.workers.get? workerId = some worker ∧ other ∈ worker.assignedJobs) :
    ∃ worker, (state.releaseJobResourcesInternal jobId).workers.get? workerId = some worker ∧
      other ∈ worker.assignedJobs := by
  obtain ⟨worker, present, listed⟩ := listed
  rw [GlobalState.workers_release]
  split
  · split
    · exact ⟨_, by rw [present]; rfl, WorkerHandle.mem_releaseJob.mpr ⟨different, listed⟩⟩
    · exact ⟨worker, present, listed⟩
  · exact ⟨worker, present, listed⟩

theorem Attends.close (attends : Attends (jobId :: owed) state)
    (workers : state'.workers = (state.releaseJobResourcesInternal jobId).workers)
    (closes : Closes state.jobs state'.jobs jobId) : Attends owed state' := by
  intro other job found running workerId node
  have different : other ≠ jobId := by
    rintro rfl
    exact closes.closed job found running
  rw [closes.others other different] at found
  rw [workers]
  rcases attends other job found running workerId node with due | listed
  · exact .inl ((List.mem_cons.mp due).resolve_left different)
  · exact .inr (release_lists state different listed)

theorem Attends.shift (attends : Attends [] state) (shift : Shift state state') : Attends [] state' := by
  cases shift with
  | wane workers jobs =>
    refine attends.wanes jobs fun workerId worker present => ?_
    obtain ⟨worker', present', same⟩ := workers.found present
    exact ⟨worker', present', same.assignedJobs⟩
  | close workers record others => exact (attends.owing _).close workers (closes_of_closed record others)

theorem Attends.shifts (attends : Attends [] state) (shifts : Shifts state state') : Attends [] state' := by
  induction shifts with
  | refl => exact attends
  | tail _ shift before => exact before.shift shift

theorem Attends.stirs (attends : Attends [] state) (stirs : Stirs state state') : Attends [] state' := by
  induction stirs with
  | refl => exact attends
  | tail _ stir before =>
    cases stir with
    | shift shift => exact before.shift shift
    | refresh workers jobs =>
      refine before.wanes (fun jobId => jobs ▸ .refl jobId _) fun workerId worker present => ?_
      obtain ⟨worker', present', same⟩ := workers.found present
      exact ⟨worker', present', same.assignedJobs⟩

theorem Attends.start (attends : Attends [] state) {input : PassInput} {turn : Nat} {job stored : JobInfo}
    {placement : Placement} (placed : placeJob input turn state job = some (some placement))
    (starts : startJob input state job placement = some state') (found : state.jobs.get? job.id = some stored)
    (pending : stored.status = .pending) : Attends [] state' := by
  have ok := placeJob_ok placed
  have evicted := attends.shifts (shifts_evict placement.evictions state)
  obtain ⟨workers, allocated, same, opens⟩ := start_opens starts found pending
  intro other job' found' running workerId node
  refine .inr ?_
  by_cases equal : other = job.id
  · subst equal
    cases opens.opened.symm.trans found'
    obtain ⟨worker, present, listed, _⟩ := startJob_node ok starts node
    exact ⟨worker, present, listed⟩
  · rw [opens.others other equal] at found'
    obtain ⟨worker, present, listed⟩ := evicted.handle found' running node
    obtain ⟨outside, inside⟩ := get?_allocateNodes ok.distinct allocated workerId
    rw [same]
    by_cases member : workerId ∈ placement.nodes
    · replace inside := inside member
      simp only [present] at inside
      obtain ⟨updated, drained, there⟩ := inside
      obtain ⟨_, shape⟩ := allocateJob_eq drained
      refine ⟨updated, there, ?_⟩
      rw [shape]
      exact HashSet.mem_insert.mpr (.inr listed)
    · exact ⟨worker, outside member ▸ present, listed⟩

theorem Attends.schedule (attends : Attends [] state) {input : PassInput}
    (ran : scheduleJobs input state = some state') : Attends [] state' := by
  obtain ⟨pass, turns, same⟩ := Option.map_eq_some_iff.mp ran
  subst same
  refine passTurns_invariant (fun _ pass => Attends [] pass.state) ?_ _ attends turns
  intro jobId rest pass next before taken
  cases passTurn_outcome taken with
  | skip _ _ => exact before
  | wait _ _ _ reworded _ => exact before.shift reworded.shift
  | start found pending _ reworded placed starts =>
    obtain ⟨stored, found', status, _⟩ := reworded.pending found pending
    exact (before.shift reworded.shift).start placed starts found' status

/-- Removing a worker leaves exactly the jobs of its handle to be failed. -/
theorem Attends.removeWorker (attends : Attends [] state) {orphans : List JobId}
    (listed : ∀ worker, state.workers.get? workerId = some worker →
      ∀ jobId ∈ worker.assignedJobs, jobId ∈ orphans) :
    Attends orphans { state with workers := state.workers.remove workerId } := by
  intro jobId job found running other node
  obtain ⟨worker, present, member⟩ := attends.handle found running node
  by_cases same : other = workerId
  · subst same
    exact .inl (listed worker present jobId member)
  · refine .inr ⟨worker, ?_, member⟩
    simp only [HashMap.get?_remove, same, ↓reduceIte, present]

theorem Attends.checkTimeouts {ctx : ControllerContext} (attends : Attends [] ctx.state)
    (order : IterOrder ControllerContext.TimeoutSite) (now : Nat) :
    Attends [] (ControllerContext.checkTimeouts order ctx now).state := by
  refine ControllerContext.checkTimeouts_invariant (fun owed ctx => Attends owed ctx.state) (fun _ => attends)
    (attends.owing _) ?_ ?_ ?_
  · intro ctx jobId rest attends
    have retires := timeoutJob_retires ctx jobId now
    exact attends.close retires.workers retires.closes
  · intro ctx workerId attends
    refine attends.removeWorker fun worker found jobId member => ?_
    exact ControllerContext.mem_orphans.mpr ⟨worker, found, member⟩
  · intro ctx jobId rest attends
    have retires := failOrphan_retires ctx jobId now
    exact attends.close retires.workers retires.closes

section Restart

theorem foldl_establishes {α β : Type} {step : β → α → β} (Holds : β → Prop)
    (keeps : ∀ made item, Holds made → Holds (step made item)) (item : α) (adds : ∀ made, Holds (step made item)) :
    ∀ {items : List α} (made : β), item ∈ items → Holds (items.foldl step made) := by
  have kept : ∀ (items : List α) (made : β), Holds made → Holds (items.foldl step made) := by
    intro items
    induction items with
    | nil => intro made holds; exact holds
    | cons head rest ih => intro made holds; exact ih _ (keeps made head holds)
  intro items
  induction items with
  | nil => intro made member; cases member
  | cons head rest ih =>
    intro made member
    rcases List.mem_cons.mp member with same | later
    · exact same ▸ kept rest _ (adds made)
    · exact ih _ later

def ListsJob (workers : HashMap WorkerId WorkerHandle) (workerId : WorkerId) (jobId : JobId) : Prop :=
  ∃ worker, workers.get? workerId = some worker ∧ jobId ∈ worker.assignedJobs

theorem reconstitute_keeps (now : Nat) (jobId : JobId) (job : JobInfo) (workers : HashMap WorkerId WorkerHandle)
    (workerId : WorkerId) {node : WorkerId} {other : JobId} (listed : ListsJob workers node other) :
    ListsJob (reconstitute now jobId job workers workerId) node other := by
  obtain ⟨worker, present, member⟩ := listed
  simp only [ListsJob, reconstitute, HashMap.get?_insert]
  split
  · rename_i same
    subst same
    refine ⟨_, rfl, HashSet.mem_insert.mpr (.inr ?_)⟩
    rw [HashMap.getD, present]
    exact member
  · exact ⟨worker, present, member⟩

theorem reconstitute_adds (now : Nat) (jobId : JobId) (job : JobInfo) (workers : HashMap WorkerId WorkerHandle)
    (workerId : WorkerId) : ListsJob (reconstitute now jobId job workers workerId) workerId jobId :=
  ⟨_, HashMap.get?_insert_self _ _ _, HashSet.mem_insert.mpr (.inl rfl)⟩

/-- A restarted controller has a handle for every worker of its Running jobs. -/
theorem reconstituted_lists (now : Nat) {jobs : HashMap JobId JobInfo} {job : JobInfo}
    (found : jobs.get? jobId = some job) (running : job.status = .running) {workerId : WorkerId}
    (node : workerId ∈ job.assignedWorkers) : ListsJob (reconstitutedWorkers now jobs) workerId jobId := by
  have keeps (entry : JobId × JobInfo) (nodes : List WorkerId) : ∀ workers : HashMap WorkerId WorkerHandle,
      ListsJob workers workerId jobId → ListsJob (nodes.foldl (reconstitute now entry.1 entry.2) workers) workerId jobId := by
    induction nodes with
    | nil => intro workers listed; exact listed
    | cons head rest ih => intro workers listed; exact ih _ (reconstitute_keeps _ _ _ _ _ listed)
  refine foldl_establishes (ListsJob · workerId jobId) (fun workers entry listed => ?_) (jobId, job)
    (fun workers => ?_) _ (HashMap.mem_toList.mpr found)
  · split
    · exact keeps entry _ workers listed
    · exact listed
  · rw [if_pos running]
    exact foldl_establishes (ListsJob · workerId jobId)
      (fun made node listed => reconstitute_keeps now jobId job made node listed) workerId
      (fun made => reconstitute_adds now jobId job made workerId) workers node

end Restart

def GlobalState.Listed (state : GlobalState) : Prop :=
  ∀ job ∈ state.jobs.values, job.status = .running → ∀ workerId ∈ job.assignedWorkers,
    (state.workers.get? workerId).any (job.id ∈ ·.assignedJobs) = true

instance (state : GlobalState) : Decidable state.Listed := by
  unfold GlobalState.Listed
  infer_instance

/-- A controller takes over a table only with handles that list its Running jobs, a
worker is deregistered only when nothing runs on it, and no report of a start finds an
ended job. -/
def TakesOverListed (_ : String) (controller : Controller) : ControllerEvent → Prop
  | .promote _ => controller.state.Listed
  | .receive _ _ _ _ (.stateSync newState) =>
    controller.leads = true → (controller.state.receiveStateSync newState).Listed
  | .receive _ _ _ _ (.deregisterWorker workerId) =>
    controller.leads = true → ∀ job ∈ controller.state.jobs.values, job.runsOn workerId = false
  | .act (.jobStarted report) => ∀ job ∈ controller.state.jobs.get? report.jobId, job.status.terminal = false
  | _ => True

instance (id : String) (controller : Controller) : (event : ControllerEvent) →
    Decidable (TakesOverListed id controller event)
  | .promote _ => inferInstanceAs (Decidable controller.state.Listed)
  | .receive _ _ _ _ (.stateSync newState) =>
    inferInstanceAs (Decidable (controller.leads = true → (controller.state.receiveStateSync newState).Listed))
  | .receive _ _ _ _ (.deregisterWorker workerId) => inferInstanceAs
    (Decidable (controller.leads = true → ∀ job ∈ controller.state.jobs.values, job.runsOn workerId = false))
  | .act (.jobStarted report) => inferInstanceAs
    (Decidable (∀ job ∈ controller.state.jobs.get? report.jobId, job.status.terminal = false))
  | .act (.submit ..) | .act (.register ..) | .act (.endWriter ..) | .act (.disconnect ..) | .act (.schedule _) | .act (.preempt _)
  | .act (.reconcile ..) | .act (.jobDone ..) | .act (.mergeDone _) | .act (.finishDone ..) | .act (.jobError ..)
  | .act (.jobKilled ..) | .act (.cancel ..) | .act (.checkTimeouts ..) | .act (.prune ..)
  | .desk _ | .hear _ | .drain _ | .reserve _ | .syncActiveState | .connect _ | .hangUp _ | .beat _ | .restart ..
  | .receive _ _ _ _ (.heartbeat _) | .receive _ _ _ _ (.registerWorker _)
  | .receive _ _ _ _ (.batchWorkerHeartbeats _) => isTrue trivial

theorem GlobalState.Listed.attends (listed : state.Listed) (keyed : Keyed state.jobs) : Attends [] state := by
  intro jobId job found running workerId node
  have same := keyed jobId job found
  subst same
  have any := listed job (keyed.mem_values.mpr found) running workerId node
  obtain ⟨worker, present, member⟩ := (Option.any_eq_true _ _).mp any
  exact .inr ⟨worker, present, by simpa using member⟩

theorem Attends.register (attends : Attends [] state) (keyed : Keyed state.jobs) {worker : WorkerHandle}
    (rebuilt : Rebuilt (rebuildWorkerAllocations workerId worker.resources state.jobs) worker)
    (workers : state'.workers = state.workers.insert workerId worker) (jobs : state'.jobs = state.jobs) :
    Attends [] state' := by
  intro jobId job found running node member
  rw [jobs] at found
  rw [workers, HashMap.get?_insert]
  split
  · rename_i same
    subst same
    refine .inr ⟨worker, rfl, ?_⟩
    rw [rebuilt.assignedJobs, rebuild_assigned keyed]
    exact ⟨job, found, runsOn_iff.mpr ⟨running, member⟩⟩
  · exact attends jobId job found running node member

/-- The handles of a leader, after any event under the conditions. -/
theorem Attends.course {controller : Controller} {id : String} {event : ControllerEvent}
    (orderly : Orderly controller.state.jobs)
    (attends : controller.state.role = .leader → Attends [] controller.state)
    (snapshot : ∀ snapshot, event.snapshot = some snapshot → Orderly snapshot.jobs)
    (allowed : TakesOverListed id controller event) (course : Course controller event state')
    (lead : state'.role = .leader) : Attends [] state' := by
  cases course with
  | quiet stirs role => exact (attends (role ▸ lead)).stirs stirs
  | registered rebuilt workers jobs role => exact (attends (role ▸ lead)).register orderly.keyed rebuilt workers jobs
  | scheduled lead ran => exact (attends (Controller.leads_iff.mp lead)).schedule ran
  | claimed report =>
    intro jobId job' found running workerId node
    obtain ⟨job, stored, was, node', _⟩ := jobStarted_was orderly allowed found running node
    exact attends lead jobId job stored was workerId node'
  | expired order now =>
    have was : controller.state.role = .leader :=
      (congrArg Prod.fst (checkTimeouts_standing order controller.ctx now)).symm.trans lead
    exact (attends was).checkTimeouts order now
  | promoted now _ => exact GlobalState.Listed.attends allowed orderly.keyed
  | followed _ _ role =>
    rw [role] at lead
    cases lead
  | synced source peerHost order now newState =>
    exact GlobalState.Listed.attends (allowed (Controller.leads_iff.mpr lead)) (snapshot newState rfl).keyed
  | deregistered source peerHost order now workerId leads =>
    intro jobId job found running node member
    obtain ⟨worker, present, listed⟩ := (attends lead).handle found running member
    refine .inr ⟨worker, ?_, listed⟩
    have different : node ≠ workerId := by
      rintro rfl
      have idle := allowed leads job (HashMap.mem_values.mpr ⟨jobId, found⟩)
      rw [runsOn_iff.mpr ⟨running, member⟩] at idle
      cases idle
    simp only [HashMap.get?_remove, different, ↓reduceIte, present]
  | restarted file standalone maxDbId now =>
    cases file with
    | none =>
      intro jobId job found
      cases found
    | some file =>
      intro jobId job found running workerId node
      exact .inr (reconstituted_lists now found running node)

/-- In every run of any number of controllers under these conditions, each worker of a
Running job of a leader is in its `workers`. -/
theorem running_jobs_keep_workers {cluster : Cluster} (reached : Cluster.Run TakesOverListed cluster)
    {id : String} {controller : Controller} (found : cluster.controllers.get? id = some controller)
    (lead : controller.leads = true) {job : JobInfo} (stored : controller.state.jobs.get? jobId = some job)
    (running : job.status = .running) {workerId : WorkerId} (node : workerId ∈ job.assignedWorkers) :
    ∃ worker, controller.state.workers.get? workerId = some worker := by
  have attends : Orderly controller.state.jobs ∧ (controller.state.role = .leader → Attends [] controller.state) := by
    refine Cluster.invariant (fun _ controller => Orderly controller.state.jobs ∧
      (controller.state.role = .leader → Attends [] controller.state)) (fun snapshot => Orderly snapshot.jobs)
      ?_ ?_ ?_ reached found
    · intro id controller fresh
      refine ⟨fresh.jobs ▸ orderly_empty, fun _ jobId job found => ?_⟩
      rw [fresh.jobs] at found
      cases found
    · intro id controller valid _
      exact valid.1
    · rintro id controller event history next sent history' ⟨orderly, attends⟩ snapshot allowed taken
      have course := step_course taken
      exact ⟨orderly.course snapshot course, Attends.course orderly attends snapshot allowed course⟩
  obtain ⟨worker, present, _⟩ := (attends.2 (Controller.leads_iff.mp lead)).handle stored running node
  exact ⟨worker, present⟩

/-- The promoted follower has the worker of the job it took over. -/
theorem running_jobs_keep_workers_takeover : ∃ cluster controller job,
    Cluster.Run TakesOverListed cluster ∧ cluster.controllers.get? "b" = some controller ∧
    controller.leads = true ∧ controller.state.jobs.get? 1 = some job ∧ job.status = .running ∧
    job.assignedWorkers = ["w1"] ∧ ∃ worker, controller.state.workers.get? "w1" = some worker := by
  have allowed : AllowedRun (Cluster.Meets TakesOverListed) Cluster.apply takeoverRun sampleCluster := by
    decide +kernel
  have facts : ((runLabels Cluster.apply takeoverRun sampleCluster).bind fun cluster =>
      (cluster.controllers.get? "b").bind fun controller => (controller.state.jobs.get? 1).map fun job =>
        (controller.leads, job.status, job.assignedWorkers)) = some (true, .running, ["w1"]) := by decide +kernel
  obtain ⟨cluster, reached, _, facts⟩ := exists_reach_of_bind sampleCluster_fresh allowed facts
  obtain ⟨controller, found, facts⟩ := Option.bind_eq_some_iff.mp facts
  obtain ⟨job, stored, facts⟩ := Option.map_eq_some_iff.mp facts
  simp only [Prod.mk.injEq] at facts
  obtain ⟨lead, running, nodes⟩ := facts
  exact ⟨cluster, controller, job, reached, found, lead, stored, running, nodes,
    running_jobs_keep_workers reached found lead stored running (by rw [nodes]; exact List.mem_cons_self)⟩

/-- The connection of `w1` to its gateway ends: the leader forgets the worker and keeps
the job Running. -/
theorem deregistered_worker_leaves_job : ∃ cluster controller job,
    Cluster.Run (fun _ _ _ => True) cluster ∧ cluster.controllers.get? "a" = some controller ∧
    controller.leads = true ∧ controller.state.jobs.get? 1 = some job ∧ job.status = .running ∧
    job.assignedWorkers = ["w1"] ∧ controller.state.workers.get? "w1" = none := by
  let events := gatewayRun ++ [.on "b" (.act (.disconnect "w1" 1 120)), .deliver 2 "b" .stored 121]
  have allowed : AllowedRun (Cluster.Meets fun _ _ _ => True) Cluster.apply events sampleCluster := by decide +kernel
  have facts : ((runLabels Cluster.apply events sampleCluster).bind fun cluster =>
      (cluster.controllers.get? "a").bind fun controller => (controller.state.jobs.get? 1).map fun job =>
        (controller.leads && (controller.state.workers.get? "w1").isNone, job.status, job.assignedWorkers)) =
          some (true, .running, ["w1"]) := by decide +kernel
  obtain ⟨cluster, reached, _, facts⟩ := exists_reach_of_bind sampleCluster_fresh allowed facts
  obtain ⟨controller, found, facts⟩ := Option.bind_eq_some_iff.mp facts
  obtain ⟨job, stored, facts⟩ := Option.map_eq_some_iff.mp facts
  simp only [Prod.mk.injEq, Bool.and_eq_true, Option.isNone_iff_eq_none] at facts
  obtain ⟨⟨lead, gone⟩, running, nodes⟩ := facts
  exact ⟨cluster, controller, job, reached, found, lead, stored,
    running, nodes, gone⟩

end Veloce
