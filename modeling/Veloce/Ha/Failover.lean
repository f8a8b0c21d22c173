import Veloce.Ha.Course
import Veloce.Ledger.Pass

/-! Exclusive cores across failover. -/

namespace Veloce

open Collections

variable {state state' : GlobalState}

/-- The table and the handles of a leader. -/
structure CoreSafe (state : GlobalState) : Prop where
  table : TableOk state.jobs
  pooled : Agrees (fun _ _ worker => Pooled worker) state
  covered : Agrees Covered state

theorem CoreSafe.stirs (safe : CoreSafe state) (stirs : Stirs state state') : CoreSafe state' where
  table := safe.table.stirs stirs
  pooled := safe.pooled.stirs pooled_poolRule stirs
  covered := safe.covered.stirs covered_poolRule stirs

theorem CoreSafe.shifts (safe : CoreSafe state) (shifts : Shifts state state') : CoreSafe state' :=
  safe.stirs (stirs_of_shifts shifts)

theorem Agrees.fewer {Valid : HashMap JobId JobInfo → WorkerId → WorkerHandle → Prop} (agrees : Agrees Valid state)
    (jobs : state'.jobs = state.jobs) (fewer : ∀ workerId worker, state'.workers.get? workerId = some worker →
      state.workers.get? workerId = some worker) : Agrees Valid state' := by
  intro workerId worker found
  rw [jobs]
  exact agrees workerId worker (fewer workerId worker found)

theorem CoreSafe.fewer (safe : CoreSafe state) (jobs : state'.jobs = state.jobs)
    (fewer : ∀ workerId worker, state'.workers.get? workerId = some worker →
      state.workers.get? workerId = some worker) : CoreSafe state' where
  table := jobs ▸ safe.table
  pooled := safe.pooled.fewer jobs fewer
  covered := safe.covered.fewer jobs fewer

theorem remove_fewer (workers : HashMap WorkerId WorkerHandle) (workerId other : WorkerId) (worker : WorkerHandle)
    (found : (workers.remove workerId).get? other = some worker) : workers.get? other = some worker := by
  rw [HashMap.get?_remove] at found
  split at found
  · cases found
  · exact found

theorem CoreSafe.start (safe : CoreSafe state) {input : PassInput} {turn : Nat} {job stored : JobInfo}
    {placement : Placement} (placed : placeJob input turn state job = some (some placement))
    (starts : startJob input state job placement = some state') (found : state.jobs.get? job.id = some stored)
    (pending : stored.status = .pending) (memory : stored.reqMemory = job.reqMemory) : CoreSafe state' := by
  have ok := placeJob_ok placed
  have evicted := safe.shifts (shifts_evict placement.evictions state)
  obtain ⟨workers, allocated, same, opens⟩ := start_opens starts found pending
  have pooled := safe.pooled.start pooled_rule ok.distinct starts found pending memory fun _ _ _ _ => trivial
  have covered := safe.covered.start covered_rule ok.distinct starts found pending memory fun _ _ _ _ => trivial
  refine ⟨⟨safe.table.toOrderly.start starts found pending, fun workerId => ?_, ?_⟩, pooled, covered⟩
  · by_cases member : workerId ∈ placement.nodes
    · obtain ⟨worker, present, _⟩ := startJob_node ok starts member
      exact (pooled workerId worker present).coresApart (covered workerId worker present)
    · refine (evicted.table.apart workerId).holders fun other cores taken => ?_
      rwa [(opens.sameOn member).cores] at taken
  · intro other job' found' running workerId member
    by_cases equal : other = job.id
    · subst equal
      cases opens.opened.symm.trans found'
      obtain ⟨worker, present, _, cores, entry⟩ := startJob_node ok starts member
      refine ⟨cores, ?_⟩
      simp only [JobInfo.started] at member ⊢
      rw [get?_collectNodes, if_pos member, ← same, present, Option.bind_some, entry]
    · rw [opens.others other equal] at found'
      exact evicted.table.recorded other job' found' running workerId member

theorem CoreSafe.schedule (safe : CoreSafe state) {input : PassInput} (ran : scheduleJobs input state = some state') :
    CoreSafe state' := by
  obtain ⟨pass, turns, same⟩ := Option.map_eq_some_iff.mp ran
  have ends : CoreSafe pass.state := by
    refine passTurns_invariant (fun _ pass => CoreSafe pass.state) ?_ _ ?_ turns
    · intro jobId rest pass next safe taken
      cases passTurn_outcome taken with
      | skip _ _ => exact safe
      | wait _ _ _ reworded _ => exact safe.shifts (.single reworded.shift)
      | start found pending _ reworded placed starts =>
        obtain ⟨stored, found', status, memory⟩ := reworded.pending found pending
        exact (safe.shifts (.single reworded.shift)).start placed starts found' status memory
    · exact safe.fewer rfl fun _ _ found => found
  subst same
  exact ends.fewer rfl fun _ _ found => found

theorem CoreSafe.checkTimeouts {ctx : ControllerContext} (safe : CoreSafe ctx.state)
    (order : IterOrder ControllerContext.TimeoutSite) (now : Nat) :
    CoreSafe (ControllerContext.checkTimeouts order ctx now).state :=
  ControllerContext.checkTimeouts_invariant (fun _ ctx => CoreSafe ctx.state) (fun _ => safe) safe
    (fun ctx jobId _ safe => safe.shifts (.single (timeoutJob_retires ctx jobId now).shift))
    (fun _ workerId safe => safe.fewer rfl (remove_fewer _ workerId))
    (fun ctx jobId _ safe => safe.shifts (.single (failOrphan_retires ctx jobId now).shift))

/-- Every Running job is entered, with the cores of its record, in the handles that the
controller has of its workers. -/
def GlobalState.Entered (state : GlobalState) : Prop :=
  ∀ job ∈ state.jobs.values, job.status = .running → ∀ workerId ∈ job.assignedWorkers,
    ∀ worker ∈ state.workers.get? workerId, worker.jobCoreAssignments.get? job.id = job.allocatedCores.get? workerId

instance (state : GlobalState) : Decidable state.Entered := by
  unfold GlobalState.Entered
  infer_instance

/-- A controller takes over a table only with handles that cover it, and no report of a
start finds an ended job. -/
def TakesOverEntered (_ : String) (controller : Controller) : ControllerEvent → Prop
  | .promote _ => controller.state.Entered
  | .receive _ _ _ _ (.stateSync newState) =>
    controller.leads = true → (controller.state.receiveStateSync newState).Entered
  | .act (.jobStarted report) => ∀ job ∈ controller.state.jobs.get? report.jobId, job.status.terminal = false
  | .restart .. => False
  | _ => True

instance (id : String) (controller : Controller) : (event : ControllerEvent) →
    Decidable (TakesOverEntered id controller event)
  | .promote _ => inferInstanceAs (Decidable controller.state.Entered)
  | .receive _ _ _ _ (.stateSync newState) =>
    inferInstanceAs (Decidable (controller.leads = true → (controller.state.receiveStateSync newState).Entered))
  | .act (.jobStarted report) => inferInstanceAs
    (Decidable (∀ job ∈ controller.state.jobs.get? report.jobId, job.status.terminal = false))
  | .restart .. => isFalse not_false
  | .act (.submit ..) | .act (.register ..) | .act (.endWriter ..) | .act (.disconnect ..) | .act (.schedule _) | .act (.preempt _)
  | .act (.reconcile ..) | .act (.jobDone ..) | .act (.mergeDone _) | .act (.finishDone ..) | .act (.jobError ..)
  | .act (.jobKilled ..) | .act (.cancel ..) | .act (.checkTimeouts ..) | .act (.prune ..)
  | .desk _ | .hear _ | .drain _ | .reserve _ | .syncActiveState | .connect _ | .hangUp _ | .beat _
  | .receive _ _ _ _ (.heartbeat _) | .receive _ _ _ _ (.registerWorker _) | .receive _ _ _ _ (.deregisterWorker _)
  | .receive _ _ _ _ (.batchWorkerHeartbeats _) => isTrue trivial

theorem GlobalState.Entered.covered (entered : state.Entered) (keyed : Keyed state.jobs) : Agrees Covered state := by
  intro workerId worker found jobId cores taken
  obtain ⟨job, stored, runs, allocated⟩ := held_some taken
  obtain ⟨running, node⟩ := runsOn_iff.mp runs
  have same := keyed jobId job stored
  subst same
  rw [entered job ((keyed.mem_values).mpr stored) running workerId node worker found]
  exact allocated

/-- The invariant of one controller: only a leader needs handles that cover its table. -/
structure Guarded (state : GlobalState) : Prop where
  table : TableOk state.jobs
  pooled : Agrees (fun _ _ worker => Pooled worker) state
  covered : state.role = .leader → Agrees Covered state

theorem CoreSafe.guarded (safe : CoreSafe state) : Guarded state := ⟨safe.table, safe.pooled, fun _ => safe.covered⟩

theorem Guarded.register (guarded : Guarded state) {workerId : WorkerId} {worker : WorkerHandle}
    (rebuilt : Rebuilt (rebuildWorkerAllocations workerId worker.resources state.jobs) worker)
    (workers : state'.workers = state.workers.insert workerId worker) (jobs : state'.jobs = state.jobs)
    (role : state'.role = state.role) : Guarded state' := by
  have handle {Valid : HashMap JobId JobInfo → WorkerId → WorkerHandle → Prop} (agrees : Agrees Valid state)
      (new : Valid state.jobs workerId worker) : Agrees Valid state' := by
    intro other worker' found
    rw [workers, HashMap.get?_insert] at found
    rw [jobs]
    split at found
    · rename_i same
      cases found
      exact same ▸ new
    · exact agrees other worker' found
  exact ⟨jobs ▸ guarded.table, handle guarded.pooled (.rebuild guarded.table rebuilt),
    fun lead => handle (guarded.covered (role ▸ lead)) (.rebuild guarded.table.keyed rebuilt)⟩

theorem Guarded.checkTimeouts {ctx : ControllerContext} (guarded : Guarded ctx.state)
    (order : IterOrder ControllerContext.TimeoutSite) (now : Nat) :
    Guarded (ControllerContext.checkTimeouts order ctx now).state := by
  by_cases lead : ctx.state.role = .leader
  · have safe : CoreSafe ctx.state := ⟨guarded.table, guarded.pooled, guarded.covered lead⟩
    exact (safe.checkTimeouts order now).guarded
  · unfold ControllerContext.checkTimeouts
    rw [if_neg lead]
    exact guarded

theorem Guarded.course {controller : Controller} {id : String} {event : ControllerEvent}
    (guarded : Guarded controller.state)
    (snapshot : ∀ snapshot, event.snapshot = some snapshot → TableOk snapshot.jobs)
    (allowed : TakesOverEntered id controller event) (course : Course controller event state') : Guarded state' := by
  cases course with
  | quiet stirs role =>
    exact ⟨guarded.table.stirs stirs, guarded.pooled.stirs pooled_poolRule stirs,
      fun lead => (guarded.covered (role ▸ lead)).stirs covered_poolRule stirs⟩
  | registered rebuilt workers jobs role => exact guarded.register rebuilt workers jobs role
  | scheduled lead ran =>
    have safe : CoreSafe controller.state :=
      ⟨guarded.table, guarded.pooled, guarded.covered (Controller.leads_iff.mp lead)⟩
    exact (safe.schedule ran).guarded
  | claimed report =>
    refine ⟨guarded.table.jobStarted allowed, guarded.pooled, fun lead => ?_⟩
    intro workerId worker found jobId cores taken
    exact guarded.covered lead workerId worker found jobId cores (jobStarted_held guarded.table.toOrderly allowed taken)
  | expired order now => exact guarded.checkTimeouts order now
  | promoted now _ =>
    exact ⟨guarded.table, guarded.pooled, fun _ => GlobalState.Entered.covered allowed guarded.table.keyed⟩
  | followed workers jobs role =>
    refine ⟨jobs ▸ guarded.table, guarded.pooled.fewer jobs fun workerId worker found => ?_, fun lead => ?_⟩
    · rw [workers] at found
      simp only [GlobalState.retainDirect, HashMap.get?_retain, Option.filter_eq_some_iff] at found
      exact found.1
    · rw [role] at lead
      cases lead
  | synced source peerHost order now newState =>
    have table : TableOk newState.jobs := snapshot newState rfl
    refine ⟨table, guarded.pooled, fun lead => ?_⟩
    exact GlobalState.Entered.covered (allowed (Controller.leads_iff.mpr lead)) table.keyed
  | deregistered source peerHost order now workerId lead =>
    exact ⟨guarded.table, guarded.pooled.fewer rfl (remove_fewer _ workerId),
      fun lead => (guarded.covered lead).fewer rfl (remove_fewer _ workerId)⟩
  | restarted file standalone maxDbId now => exact allowed.elim

def ExclusiveCores (state : GlobalState) : Prop :=
  ∀ jobId job workerId cores, state.jobs.get? jobId = some job → job.status = .running →
    workerId ∈ job.assignedWorkers → job.allocatedCores.get? workerId = some cores →
    (∀ worker, state.workers.get? workerId = some worker → cores.Disjoint worker.availableCoreIds) ∧
    ∀ other job' cores', other ≠ jobId → state.jobs.get? other = some job' → job'.status = .running →
      workerId ∈ job'.assignedWorkers → job'.allocatedCores.get? workerId = some cores' → cores.Disjoint cores'

theorem CoreSafe.exclusive (safe : CoreSafe state) : ExclusiveCores state := by
  have taken {jobId : JobId} {job : JobInfo} {workerId : WorkerId} {cores : List Nat}
      (found : state.jobs.get? jobId = some job) (running : job.status = .running)
      (node : workerId ∈ job.assignedWorkers) (allocated : job.allocatedCores.get? workerId = some cores) :
      heldCores state.jobs workerId jobId = some cores := by
    rw [heldCores, held_running found (runsOn_iff.mpr ⟨running, node⟩), allocated]
  intro jobId job workerId cores found running node allocated
  have mine := taken found running node allocated
  refine ⟨fun worker present => ?_, fun other job' cores' different found' running' node' allocated' => ?_⟩
  · have entry := safe.covered workerId worker present jobId cores mine
    exact fun core member => (safe.pooled workerId worker present).apart.freeApart jobId cores entry core member
  · have yours := taken found' running' node' allocated'
    exact fun core member => (safe.table.apart workerId).apart jobId other cores cores' mine yours different.symm core member

/-- In every run of any number of controllers without restarts, whose leaders take over
tables that their handles cover, the cores of a leader are exclusive. -/
theorem failover_keeps_cores_exclusive {cluster : Cluster} (reached : Cluster.Run TakesOverEntered cluster)
    {id : String} {controller : Controller} (found : cluster.controllers.get? id = some controller)
    (lead : controller.leads = true) : ExclusiveCores controller.state := by
  have guarded : Guarded controller.state := by
    refine Cluster.invariant (fun _ controller => Guarded controller.state) (fun snapshot => TableOk snapshot.jobs)
      ?_ ?_ ?_ reached found
    · intro id controller fresh
      refine ⟨fresh.jobs ▸ tableOk_empty, ?_, fun _ => ?_⟩
      all_goals
        intro workerId worker present
        rw [fresh.workers] at present
        cases present
    · intro id controller guarded _
      exact guarded.table
    · intro id controller event history next sent history' guarded snapshot allowed taken
      exact guarded.course snapshot allowed (step_course taken)
  have safe : CoreSafe controller.state :=
    ⟨guarded.table, guarded.pooled, guarded.covered (Controller.leads_iff.mp lead)⟩
  exact safe.exclusive

/-- What a controller knows about a worker and a job on it. -/
structure CoreView where
  leads : Bool
  free : List Nat
  status : JobStatus
  nodes : List WorkerId
  cores : Option (List Nat)
deriving DecidableEq

def Controller.coreView (controller : Controller) (workerId : WorkerId) (jobId : JobId) : Option CoreView :=
  (controller.state.workers.get? workerId).bind fun worker =>
    (controller.state.jobs.get? jobId).map fun job =>
      ⟨controller.leads, worker.availableCoreIds, job.status, job.assignedWorkers, job.allocatedCores.get? workerId⟩

/-- A worker that registered again after the snapshot came: the promoted follower
knows which cores are taken. -/
theorem failover_keeps_cores_exclusive_reregistered : ∃ cluster controller,
    Cluster.Run TakesOverEntered cluster ∧ cluster.controllers.get? "b" = some controller ∧
    controller.leads = true ∧ controller.state.isRunning 1 = true ∧ ExclusiveCores controller.state := by
  have allowed : AllowedRun (Cluster.Meets TakesOverEntered) Cluster.apply takeoverRun sampleCluster := by
    decide +kernel
  have facts : ((runLabels Cluster.apply takeoverRun sampleCluster).bind fun cluster =>
      (cluster.controllers.get? "b").map fun controller =>
        (controller.leads, controller.state.isRunning 1)) = some (true, true) := by decide +kernel
  obtain ⟨cluster, reached, _, facts⟩ := exists_reach_of_bind sampleCluster_fresh allowed facts
  obtain ⟨controller, found, facts⟩ := Option.map_eq_some_iff.mp facts
  obtain ⟨lead, running⟩ := Prod.mk.inj facts
  exact ⟨cluster, controller, reached, found, lead, running, failover_keeps_cores_exclusive reached found lead⟩

/-- Promoted with the handle of its old registration, `b` offers the cores of a
Running job as free. -/
theorem failover_offers_held_cores : ∃ cluster controller, Cluster.Run (fun _ _ _ => True) cluster ∧
    cluster.controllers.get? "b" = some controller ∧ controller.leads = true ∧ ¬ ExclusiveCores controller.state := by
  let events := gatewayRun ++ [.deliver 1 "a" .stored 101, .on "b" (.promote 200)]
  have allowed : AllowedRun (Cluster.Meets fun _ _ _ => True) Cluster.apply events sampleCluster := by decide +kernel
  have facts : ((runLabels Cluster.apply events sampleCluster).bind fun cluster =>
      (cluster.controllers.get? "b").map (·.coreView "w1" 1)) =
        some (some ⟨true, [0, 1, 2, 3], .running, ["w1"], some [0, 1, 2, 3]⟩) := by decide +kernel
  obtain ⟨cluster, reached, _, facts⟩ := exists_reach_of_bind sampleCluster_fresh allowed facts
  obtain ⟨controller, found, facts⟩ := Option.map_eq_some_iff.mp facts
  obtain ⟨worker, present, facts⟩ := Option.bind_eq_some_iff.mp facts
  obtain ⟨job, stored, facts⟩ := Option.map_eq_some_iff.mp facts
  obtain ⟨lead, free, running, nodes, cores⟩ := CoreView.mk.inj facts
  refine ⟨cluster, controller, reached, found, lead, fun exclusive => ?_⟩
  have node : "w1" ∈ job.assignedWorkers := by simp [nodes]
  have apart := (exclusive 1 job "w1" [0, 1, 2, 3] stored running node cores).1 worker present
  rw [free] at apart
  exact apart (List.mem_cons_self (a := 0)) List.mem_cons_self

end Veloce
