import Veloce.Controller.JobLogs
import Veloce.Scheduler.Backfill
import Veloce.Scheduler.Dependencies
import Veloce.Scheduler.Finalize

/-! The scheduling pass `schedule_jobs`. A pass takes one turn for every queued
job in priority order; a turn either leaves the job pending with a reason or
evicts, allocates, dispatches and marks it Running. `none` is a panic: an index
or a `drain` out of range. -/

namespace Veloce

open Collections

/-- The iterations over unordered collections of one turn of a pass. -/
inductive PassSite where
  | workers (turn : Nat)
  | groups (turn : Nat)
  | preemptWorkers (turn : Nat)
  | assignedJobs (turn : Nat) (workerId : WorkerId)
  | preemptGroups (turn : Nat)
  | evictions (turn : Nat)

/-- What a pass reads besides the state. -/
structure PassInput where
  order : IterOrder PassSite := .stored
  tuning : PriorityTuning := {}
  now : Nat
  dbCache : HashMap JobId JobStatus := ∅

/-- The locals of a pass that change from turn to turn. -/
structure PassState where
  state : GlobalState
  stillPending : List JobId := []
  topJobEarliestStart : Option Nat := none
  topJobId : Option JobId := none

def GlobalState.setReason (state : GlobalState) (jobId : JobId) (reason : Option String) : GlobalState :=
  { state with jobs := state.jobs.modify jobId fun job => { job with reason := reason } }

def PassState.postpone (pass : PassState) (jobId : JobId) (reason : String) : PassState :=
  { pass with
    state := pass.state.setReason jobId (some reason)
    stillPending := pass.stillPending ++ [jobId] }

/-- Why the worker cannot take the job now; empty if it can. -/
def workerFailReasons (state : GlobalState) (now : Nat) (job : JobInfo) (workerId : WorkerId)
    (worker : WorkerHandle) : List String :=
  (if state.isReserved workerId job now then ["Reserved"] else []) ++
  (if asU32 worker.availableCoreIds.length < job.reqCores then ["CPU"] else []) ++
  (if worker.resources.totalMb - worker.allocatedMemory < job.reqMemory then ["Mem"] else []) ++
  job.gresReq.toList.flatMap fun entry =>
    if ((worker.availableGresIds.get? entry.1).map List.length).getD 0 < entry.2 then ["GRES"] else []

/-- The workers that can be considered at all, in iteration order. -/
def eligibleWorkers (state : GlobalState) (order : IterOrder PassSite) (site : PassSite) :
    List (WorkerId × WorkerHandle) :=
  (order.shuffle site state.workers.toList).filter fun entry => !entry.2.draining && entry.2.connected

def GlobalState.freeCores (state : GlobalState) (workerId : WorkerId) : Nat :=
  ((state.workers.get? workerId).map (·.availableCoreIds.length)).getD 0

/-- Workers with enough free resources, most free cores first. -/
def availableWorkers (input : PassInput) (turn : Nat) (state : GlobalState) (job : JobInfo) :
    List WorkerId :=
  let fitting := (eligibleWorkers state input.order (.workers turn)).filter fun entry =>
    (workerFailReasons state input.now job entry.1 entry.2).isEmpty
  (fitting.map Prod.fst).insertionSort fun left right => state.freeCores right ≤ state.freeCores left

def failReasons (input : PassInput) (turn : Nat) (state : GlobalState) (job : JobInfo) : List String :=
  (eligibleWorkers state input.order (.workers turn)).filterMap fun entry =>
    let reasons := workerFailReasons state input.now job entry.1 entry.2
    if reasons.isEmpty then none else some (entry.1 ++ ": [" ++ ",".intercalate reasons ++ "]")

/-- The first group, in iteration order, with enough members, cut to `count`. -/
def homogeneousGroup {α : Type} (order : IterOrder PassSite) (site : PassSite)
    (group : α → Option (String × String)) (count : Nat) (items : List α) : Option (List α) :=
  ((order.shuffle site (HashMap.groupBy group items).values).find? fun ids =>
    decide (count ≤ ids.length)).map (·.take count)

/-- Pick `count` of the candidates: one group for several nodes, else the first.
The outer `none` is the index panic on an empty list. -/
def pickNodes {α : Type} (order : IterOrder PassSite) (site : PassSite)
    (group : α → Option (String × String)) (count : Nat) (items : List α) : Option (Option (List α)) :=
  if count ≤ items.length then
    if count > 1 then some (homogeneousGroup order site group count items)
    else items.head?.map fun first => some [first]
  else some none

def preemptibleJobs (input : PassInput) (turn : Nat) (state : GlobalState) (workerId : WorkerId)
    (worker : WorkerHandle) : List JobId :=
  (input.order.shuffle (.assignedJobs turn workerId) worker.assignedJobs.elems).filter fun jobId =>
    match state.jobs.get? jobId with
    | some job => job.qos = .preemptible
    | none => false

def preemptibleCores (worker : WorkerHandle) (jobs : List JobId) : Nat :=
  (jobs.map fun jobId => ((worker.jobCoreAssignments.get? jobId).map List.length).getD 0).sum

def preemptibleMemory (state : GlobalState) (jobs : List JobId) : Nat :=
  jobs.foldl (fun memory jobId => addU64 memory (((state.jobs.get? jobId).map JobInfo.reqMemory).getD 0)) 0

def preemptibleGres (worker : WorkerHandle) (jobs : List JobId) (name : String) : Nat :=
  (jobs.map fun jobId =>
    (((worker.jobGresAssignments.get? jobId).bind (·.get? name)).map List.length).getD 0).sum

/-- Whether the job fits on the worker once these jobs are evicted. -/
def fitsAfterEviction (state : GlobalState) (now : Nat) (job : JobInfo) (workerId : WorkerId)
    (worker : WorkerHandle) (evicted : List JobId) : Bool :=
  !state.isReserved workerId job now &&
    decide (job.reqCores ≤ worker.availableCoreIds.length + preemptibleCores worker evicted) &&
    decide (job.reqMemory ≤
      addU64 (worker.resources.totalMb - worker.allocatedMemory) (preemptibleMemory state evicted)) &&
    job.gresReq.toList.all fun entry => decide (entry.2 ≤
      ((worker.availableGresIds.get? entry.1).map List.length).getD 0 +
        preemptibleGres worker evicted entry.1)

/-- Workers that could take the job by evicting all their Preemptible jobs,
fewest evictions first. -/
def preemptCandidates (input : PassInput) (turn : Nat) (state : GlobalState) (job : JobInfo) :
    List (WorkerId × List JobId) :=
  let candidates := (eligibleWorkers state input.order (.preemptWorkers turn)).filterMap fun entry =>
    let evicted := preemptibleJobs input turn state entry.1 entry.2
    if fitsAfterEviction state input.now job entry.1 entry.2 evicted then some (entry.1, evicted) else none
  candidates.insertionSort fun left right => left.2.length ≤ right.2.length

/-- The nodes of a job and the jobs to evict for it. -/
structure Placement where
  nodes : List WorkerId
  evictions : List JobId

/-- Choose the nodes of a job: free workers first and, for an Interactive job
that finds none, workers of Preemptible jobs. The outer `none` is a panic. -/
def placeJob (input : PassInput) (turn : Nat) (state : GlobalState) (job : JobInfo) :
    Option (Option Placement) :=
  match pickNodes input.order (.groups turn) state.workerGroup job.reqNodes
      (availableWorkers input turn state job) with
  | none => none
  | some (some nodes) => some (some ⟨nodes, []⟩)
  | some none =>
    if job.qos = .interactive then
      (pickNodes input.order (.preemptGroups turn) (fun node => state.workerGroup node.1) job.reqNodes
        (preemptCandidates input turn state job)).map fun selected =>
          selected.map fun nodes =>
            ⟨nodes.map Prod.fst,
              input.order.shuffle (.evictions turn) (HashSet.ofList (nodes.flatMap Prod.snd)).elems⟩
    else some none

/-- Drain the job's cores and GRES ids from one worker; `none` if one of the
drains is out of range. -/
def WorkerHandle.allocateJob (worker : WorkerHandle) (job : JobInfo) : Option WorkerHandle :=
  let gresInRange := job.gresReq.toList.all fun entry =>
    match worker.availableGresIds.get? entry.1 with
    | some ids => decide (entry.2 ≤ ids.length)
    | none => true
  if job.reqCores ≤ worker.availableCoreIds.length ∧ gresInRange then
    some { worker with
      assignedJobs := worker.assignedJobs.insert job.id
      allocatedMemory := addU64 worker.allocatedMemory job.reqMemory
      availableCoreIds := worker.availableCoreIds.drop job.reqCores
      jobCoreAssignments :=
        worker.jobCoreAssignments.insert job.id (worker.availableCoreIds.take job.reqCores)
      availableGresIds := job.gresReq.updateEntries
        (fun _ reqCount ids => ids.map (·.drop reqCount)) worker.availableGresIds
      jobGresAssignments := worker.jobGresAssignments.insert job.id
        (job.gresReq.updateEntries
          (fun name reqCount _ => (worker.availableGresIds.get? name).map (·.take reqCount)) ∅) }
  else none

def allocateNodes (job : JobInfo) : List WorkerId → HashMap WorkerId WorkerHandle →
    Option (HashMap WorkerId WorkerHandle)
  | [], workers => some workers
  | workerId :: rest, workers =>
    match workers.get? workerId with
    | none => allocateNodes job rest workers
    | some worker =>
      match worker.allocateJob job with
      | none => none
      | some allocated => allocateNodes job rest (workers.insert workerId allocated)

/-- The entries `read` finds on the selected workers, keyed by worker. -/
def collectNodes {α : Type} (workers : HashMap WorkerId WorkerHandle) (nodes : List WorkerId)
    (read : WorkerHandle → Option α) : HashMap WorkerId α :=
  .ofList (nodes.filterMap fun workerId =>
    ((workers.get? workerId).bind read).map fun value => (workerId, value))

def isMpiLauncher (job : JobInfo) : Bool := job.binary = "mpirun" || job.binary = "mpiexec"

def hostfilePath (job : JobInfo) : String := s!"/scratch/jobs/{job.id}/hostfile"

def GlobalState.controllerUrl (state : GlobalState) : String :=
  s!"https://veloce-controller-ha-1:{state.apiPort}"

def launchArgs (job : JobInfo) : List String :=
  if job.reqNodes > 1 && isMpiLauncher job then
    ["--mca", "plm_rsh_agent", "veloce-exec", "--hostfile", hostfilePath job, "--mca", "btl", "tcp,self"] ++
      job.args
  else job.args

def launchEnv (state : GlobalState) (job : JobInfo) : List (String × String) :=
  job.envVars ++ [("OMPI_ALLOW_RUN_AS_ROOT", "1"), ("OMPI_ALLOW_RUN_AS_ROOT_CONFIRM", "1")] ++
    if job.reqNodes > 1 then
      [("OMPI_MCA_plm_rsh_agent", "veloce-exec"), ("OMPI_MCA_ras_base_nodefile", hostfilePath job),
        ("VELOCE_CONTROLLER_URL", state.controllerUrl)]
    else []

/-- The launch order of a job for the selected worker of the given rank. -/
def runMessage (state : GlobalState) (job : JobInfo) (nodes : List WorkerId) (rank : Nat)
    (worker : WorkerHandle) : RunJob where
  jobId := job.id
  binary := job.binary
  args := launchArgs job
  nodeList := nodes.filterMap fun workerId => (state.workers.get? workerId).map WorkerHandle.addr
  assignedCores := worker.jobCoreAssignments.get? job.id
  reqMemory := job.reqMemory
  workingDirectory := job.workingDirectory
  userId := job.userId
  walltime := job.walltime
  submissionTime := job.queuedTime
  arrayId := job.arrayId
  arrayTaskId := job.arrayTaskId
  inputs := job.inputs
  allocatedGres := worker.jobGresAssignments.getD job.id ∅
  gresReq := job.gresReq
  secret := job.secret
  controllerUrl := state.controllerUrl
  envVars := launchEnv state job ++
    [("VELOCE_RANK", toString rank), ("VELOCE_SIZE", toString nodes.length)]
  waitForLicenses := job.waitForLicenses
  estimatedWalltime := job.estimatedWalltime
  priorityOffset := job.priorityOffset
  dependencies := job.dependencies
  dependencySpecs := job.dependencySpecs
  qos := job.qos
  containerAsset := job.containerAsset
  vncEnabled := job.vncEnabled
  inheritHostEnv := job.inheritHostEnv
  envAllowlist := job.envAllowlist
  jobProfile := job.jobProfile

/-- An MPI launcher is dispatched to the head node only. -/
def dispatchTargets (job : JobInfo) (nodes : List WorkerId) : List WorkerId :=
  if isMpiLauncher job then nodes.take 1 else nodes

/-- Send RunJob to one target; a failed send is ignored. -/
def sendRunJob (job : JobInfo) (nodes : List WorkerId) (state : GlobalState) (target : WorkerId × Nat) :
    GlobalState :=
  match state.workers.get? target.1 with
  | some worker => state.trySend target.1 (.runJob (runMessage state job nodes target.2 worker))
  | none => state

def dispatchJob (state : GlobalState) (job : JobInfo) (nodes : List WorkerId) : GlobalState :=
  (dispatchTargets job nodes).zipIdx.foldl (sendRunJob job nodes) state

def startJob (input : PassInput) (state : GlobalState) (job : JobInfo) (placement : Placement) :
    Option GlobalState :=
  let evicted := placement.evictions.foldl GlobalState.preemptJob state
  (allocateNodes job placement.nodes evicted.workers).map fun workers =>
    let allocated := { evicted with workers := workers }
    let dispatched := dispatchJob allocated job placement.nodes
    let recorded := recordDispatchedWorkers dispatched job.id (dispatchTargets job placement.nodes)
    { recorded with
      jobs := recorded.jobs.modify job.id fun entry =>
        { entry with
          status := .running
          assignedWorkers := placement.nodes
          allocatedCores := collectNodes workers placement.nodes (·.jobCoreAssignments.get? job.id)
          allocatedGres := collectNodes workers placement.nodes (·.jobGresAssignments.get? job.id)
          startTime := some input.now
          reason := none } }

def waitReason (input : PassInput) (turn : Nat) (state : GlobalState) (job : JobInfo) : String :=
  let available := (availableWorkers input turn state job).length
  if available < job.reqNodes then
    let reasons := failReasons input turn state job
    let summary := s!"Waiting for resources (CPU/Mem/GRES). Nodes: {available}/{job.reqNodes}"
    if reasons.isEmpty then summary
    else summary ++ ". Detail: " ++ "; ".intercalate (reasons.take 3)
  else s!"Waiting for {job.reqNodes} homogeneous nodes"

/-- A job that finds no nodes stays pending; the first one sets the start time
that later jobs must not delay. -/
def blockJob (input : PassInput) (turn : Nat) (pass : PassState) (job : JobInfo) : PassState :=
  let reason := waitReason input turn pass.state job
  match pass.topJobEarliestStart with
  | some _ => pass.postpone job.id reason
  | none =>
    let earliest := calculateEarliestStartTime job pass.state input.now
    { pass.postpone job.id s!"{reason} (Earliest start: {earliest})" with
      topJobEarliestStart := some earliest
      topJobId := some job.id }

/-- The backfill fit test: the reason a job is held back for the top job. -/
def backfillDenial (input : PassInput) (pass : PassState) (job : JobInfo) : Option String :=
  match pass.topJobEarliestStart with
  | some earliest =>
    if addU64 input.now job.expectedDuration > earliest then
      some s!"Backfill denied: would delay top job {pass.topJobId.getD 0} (earliest start: {earliest})"
    else none
  | none => none

/-- Dependencies turn a stale waiting reason off once they are satisfied. -/
def PassState.clearWaiting (pass : PassState) (jobId : JobId) : PassState :=
  { pass with state := { pass.state with
    jobs := pass.state.jobs.modify jobId fun job =>
      if job.reason = some "Waiting for dependencies" then { job with reason := none } else job } }

/-- The turn of a job whose dependencies are satisfied. -/
def placeTurn (input : PassInput) (turn : Nat) (pass : PassState) (job : JobInfo) : Option PassState :=
  match backfillDenial input pass job with
  | some reason => some (pass.postpone job.id reason)
  | none =>
    match placeJob input turn pass.state job with
    | none => none
    | some none => some (blockJob input turn pass job)
    | some (some placement) =>
      (startJob input pass.state job placement).map fun state => { pass with state := state }

def passTurn (input : PassInput) (turn : Nat) (pass : PassState) (jobId : JobId) : Option PassState :=
  match pass.state.jobs.get? jobId with
  | none => some pass
  | some job =>
    if job.status = .pending then
      match areDependenciesSatisfied job pass.state.jobs input.dbCache with
      | .ok false => some (pass.postpone jobId "Waiting for dependencies")
      | .error error => some (pass.postpone jobId error)
      | .ok true => placeTurn input turn (pass.clearWaiting jobId) { job with id := jobId }
    else some pass

/-- Turns are numbered by the jobs that are still to come. -/
def passTurns (input : PassInput) : List JobId → PassState → Option PassState
  | [], pass => some pass
  | jobId :: rest, pass =>
    match passTurn input rest.length pass jobId with
    | none => none
    | some next => passTurns input rest next

/-- The state in which a pass takes its turns: expired reservations are gone,
usage has decayed and the queue is drained. -/
def passStart (input : PassInput) (state : GlobalState) : GlobalState :=
  { state with
    reservations := state.reservations.retain fun _ reservation => decide (reservation.endTime > input.now)
    usageTracker := state.usageTracker.applyDecay input.now
    queue := [] }

def pendingOrder (input : PassInput) (state : GlobalState) : List JobId :=
  sortPending input.tuning (passStart input state) input.now state.queue

def scheduleJobs (input : PassInput) (state : GlobalState) : Option GlobalState :=
  (passTurns input (pendingOrder input state) { state := passStart input state }).map fun pass =>
    { pass.state with queue := pass.stillPending }

end Veloce
