import Veloce.Common.JobPolicy
import Veloce.Handlers.Client
import Veloce.Scheduler.Dependencies

/-! The paths on which jobs are submitted: Submit and SubmitDag of the client protocol, and the
REST handlers for jobs and CWL workflows. -/

namespace Veloce

open Collections

structure SubmitMessage where
  jobName : Option String := none
  jobComment : Option String := none
  binary : String
  args : List String := []
  reqNodes : Nat := 1
  reqCores : Nat := 1
  reqMemory : Nat := 1024
  walltime : Nat := 0
  priority : Nat := 0
  userId : String := ""
  workingDirectory : String := ""
  arrayIndices : Option (List Nat) := none
  inputs : List FileHandle := []
  gresReq : HashMap String Nat := ∅
  envVars : List (String × String) := []
  waitForLicenses : Bool := false
  estimatedWalltime : Option Nat := none
  priorityOffset : Option Int := none
  dependencies : Option (List JobId) := none
  dependencySpecs : Option (List String) := none
  qos : QosLevel := .production
  imageUri : Option String := none
  vncEnabled : Bool := false
  inheritHostEnv : Bool := false
  envAllowlist : Option (List String) := none
  jobProfile : Option String := none

structure SubmitJobRequest where
  jobName : Option String := none
  jobComment : Option String := none
  binary : String
  args : List String := []
  reqNodes : Nat := 1
  reqCores : Nat := 1
  reqMemory : Nat := 1024
  walltime : Nat := 0
  priority : Nat := 0
  userId : String := ""
  workingDirectory : String := ""
  arrayIndices : Option (List Nat) := none
  inputs : List FileHandle := []
  gresReq : HashMap String Nat := ∅
  envVars : List (String × String) := []
  waitForLicenses : Bool := false
  dependencies : Option (List JobId) := none
  dependencySpecs : Option (List String) := none
  qos : QosLevel := .production
  imageUri : Option String := none
  vncEnabled : Option Bool := none
  inheritHostEnv : Bool := false
  envAllowlist : Option (List String) := none
  jobProfile : Option String := none

structure DagNode where
  nodeId : String
  task : Option SubmitMessage
  dependsOn : List String := []

structure CwlStep where
  run : String
  inputs : Option (HashMap String String) := none
  reqNodes : Option Nat := none
  reqCores : Option Nat := none
  reqMemory : Option Nat := none
  args : Option (List String) := none
  imageUri : Option String := none

/-- A parsed CWL document; the steps in the order of their map. -/
structure CwlWorkflow where
  name : Option String := none
  steps : List (String × CwlStep)

structure AuthenticatedPrincipal where
  userId : String
  roles : List String

/-- What the handlers look up besides the request. -/
structure SubmissionSite where
  config : AdmissionConfig := {}
  /-- The container registry; an error reads as no entry. -/
  getContainer : String → Option ContainerAsset := fun _ => none
  /-- The executables of the solver configurations. -/
  solverConfigs : HashMap String String := ∅
  now : Nat := 0
  /-- The random secret of each new job. -/
  newSecret : JobId → String := fun _ => ""

inductive SubmitRequest where
  | submit (msg : SubmitMessage)
  | submitDag (nodes : List DagNode)
  | apiSubmitJob (payload : SubmitJobRequest)
  | apiSubmitCwl (workflow : CwlWorkflow) (userId workingDirectory : String)

/-- What a caller is told in the end. -/
inductive SubmitAnswer where
  | jobId (jobId : JobId)
  | arrayJobSubmitted (baseJobId taskCount : Nat)
  | dagSubmitted (baseJobId taskCount : Nat)
  | created (baseJobId taskCount : Nat)
deriving DecidableEq, Repr

namespace AuthenticatedPrincipal

def isAdminOrOperator (principal : AuthenticatedPrincipal) : Bool :=
  "admin" ∈ principal.roles || "operator" ∈ principal.roles

def resolveUserId (principal : AuthenticatedPrincipal) (payloadUserId : String) : Except String String :=
  if principal.isAdminOrOperator then
    .ok (if payloadUserId.isEmpty then principal.userId else payloadUserId)
  else if payloadUserId.isEmpty then .ok principal.userId
  else if payloadUserId != principal.userId then
    .error s!"Forbidden: cannot override user ID '{principal.userId}' with '{payloadUserId}'"
  else .ok principal.userId

end AuthenticatedPrincipal

/-- The jobs that a record names as its parents: raw dependencies and parsable specs. -/
def parentIds (dependencies : Option (List JobId)) (dependencySpecs : Option (List String)) : List JobId :=
  dependencies.getD [] ++ (dependencySpecs.getD []).filterMap fun spec =>
    match DependencySpec.parse spec with
    | .ok parsed => some parsed.parentId
    | .error _ => none

def JobInfo.parents (job : JobInfo) : List JobId := parentIds job.dependencies job.dependencySpecs

/-- The loop over the parents of one record; the ids visited so far go from one search
to the next. -/
def hasCycleAny (search : JobId → List JobId → Bool × List JobId) :
    (parents : List JobId) → (visited : List JobId) → Bool × List JobId
  | [], visited => (false, visited)
  | parent :: rest, visited =>
    match search parent visited with
    | (true, visited) => (true, visited)
    | (false, visited) => hasCycleAny search rest visited

/-- `has_cycle`: search from `current` for `target` along the dependencies in the
table; `fuel` bounds how many records of the table are entered below each other. -/
def hasCycle (jobs : HashMap JobId JobInfo) (target : JobId) :
    (fuel : Nat) → (current : JobId) → (visited : List JobId) → Bool × List JobId
  | 0, current, visited => (current = target, visited)
  | fuel + 1, current, visited =>
    if current = target then (true, visited)
    else if current ∈ visited then (false, visited)
    else match jobs.get? current with
      | some job => hasCycleAny (hasCycle jobs target fuel) job.parents (current :: visited)
      | none => (false, current :: visited)

/-- The check of a single Submit: every parent starts a search of its own. -/
def isCircular (jobs : HashMap JobId JobInfo) (jobId : JobId) (parents : List JobId) : Bool :=
  parents.any fun parent => (hasCycle jobs jobId (jobs.keys.length + 1) parent []).1

structure ArrayPlace where
  arrayId : JobId
  taskId : Nat

/-- The record of a Submit with what the handler has resolved. -/
def SubmitMessage.record (msg : SubmitMessage) (site : SubmissionSite) (jobId : JobId) (userId : String)
    (containerAsset : Option ContainerAsset) (vncEnabled : Bool) (place : Option ArrayPlace)
    (dependencies : Option (List JobId)) (dependencySpecs : Option (List String)) : Submission where
  job := {
    id := jobId
    jobName := msg.jobName
    jobComment := msg.jobComment
    binary := msg.binary
    args := msg.args
    reqNodes := msg.reqNodes
    reqCores := msg.reqCores
    reqMemory := msg.reqMemory
    walltime := msg.walltime
    priority := msg.priority
    userId := userId
    workingDirectory := msg.workingDirectory
    queuedTime := site.now
    containerAsset := containerAsset
    arrayId := place.map ArrayPlace.arrayId
    arrayTaskId := place.map ArrayPlace.taskId
    inputs := msg.inputs
    gresReq := msg.gresReq
    secret := site.newSecret jobId
    envVars := msg.envVars
    waitForLicenses := msg.waitForLicenses
    estimatedWalltime := msg.estimatedWalltime
    priorityOffset := msg.priorityOffset
    dependencies := dependencies
    dependencySpecs := dependencySpecs
    qos := msg.qos
    vncEnabled := vncEnabled
    inheritHostEnv := msg.inheritHostEnv
    envAllowlist := msg.envAllowlist
    jobProfile := msg.jobProfile }
  pending := rfl
  unassigned := rfl
  unallocated := ⟨rfl, rfl⟩
  unstarted := rfl

def isWhitespace (char : Char) : Bool :=
  let code := char.toNat
  (9 ≤ code && code ≤ 13) || code ∈ [0x20, 0x85, 0xA0, 0x1680, 0x2028, 0x2029, 0x202F, 0x205F, 0x3000] ||
    (0x2000 ≤ code && code ≤ 0x200A)

def scratchIfBlank (workingDirectory : String) : String :=
  if workingDirectory.toList.all isWhitespace then "/scratch" else workingDirectory

/-- The same fields as in a Submit; the REST handler sets no estimate and no offset. -/
def SubmitJobRequest.message (payload : SubmitJobRequest) (vncEnabled : Bool) : SubmitMessage where
  jobName := payload.jobName
  jobComment := payload.jobComment
  binary := payload.binary
  args := payload.args
  reqNodes := payload.reqNodes
  reqCores := payload.reqCores
  reqMemory := payload.reqMemory
  walltime := payload.walltime
  priority := payload.priority
  userId := payload.userId
  workingDirectory := scratchIfBlank payload.workingDirectory
  arrayIndices := payload.arrayIndices
  inputs := payload.inputs
  gresReq := payload.gresReq
  envVars := payload.envVars
  waitForLicenses := payload.waitForLicenses
  dependencies := payload.dependencies
  dependencySpecs := payload.dependencySpecs
  qos := payload.qos
  imageUri := payload.imageUri
  vncEnabled := vncEnabled
  inheritHostEnv := payload.inheritHostEnv
  envAllowlist := payload.envAllowlist
  jobProfile := payload.jobProfile

/-- The records of one request with the answer, before any of them is sent. `checks`
tells that the circularity check of a single Submit is still to come. -/
structure Admitted where
  jobs : List Submission
  checks : Bool
  answer : Except String SubmitAnswer

/-- How many ids a request takes from the counter, and what it makes of the first one. -/
structure Admission where
  idCount : Nat
  build : (baseId : JobId) → Admitted

def resolvedVnc (vncEnabled : Bool) (asset : Option ContainerAsset) : Bool :=
  vncEnabled || (asset.map (·.manifest.vncEnabled)).getD false

def checkInteractive (qos : QosLevel) (walltime reqCores : Nat) : Except String Unit :=
  if qos = .interactive ∧ (walltime = 0 ∨ walltime > 1800) then
    .error "Interactive jobs must have a walltime limit of 30 minutes (1800 seconds) or less"
  else if qos = .interactive ∧ reqCores > 4 then
    .error "Interactive jobs are limited to a maximum of 4 CPU cores per node"
  else .ok ()

/-- One record for each index, or a single one. -/
def SubmitMessage.admission (msg : SubmitMessage) (site : SubmissionSite) (userId : String)
    (asset : Option ContainerAsset) (vncEnabled checks : Bool) (answer : JobId → SubmitAnswer)
    (arrayAnswer : JobId → Nat → SubmitAnswer) : Except String Admission :=
  match msg.arrayIndices with
  | some [] => .error "Empty array indices"
  | some indices => .ok {
      idCount := indices.length
      build := fun baseId => {
        jobs := indices.zipIdx.map fun (taskId, offset) =>
          msg.record site (baseId + offset) userId asset vncEnabled (some ⟨baseId, taskId⟩)
            msg.dependencies msg.dependencySpecs
        checks := false
        answer := .ok (arrayAnswer baseId indices.length) } }
  | none => .ok {
      idCount := 1
      build := fun jobId => {
        jobs := [msg.record site jobId userId asset vncEnabled none msg.dependencies msg.dependencySpecs]
        checks := checks
        answer := .ok (answer jobId) } }

def handleSubmit (site : SubmissionSite) (principal : AuthenticatedPrincipal) (msg : SubmitMessage) :
    Except String Admission := do
  let asset := site.getContainer (msg.imageUri.getD msg.binary)
  match msg.imageUri, asset with
  | some uri, none => .error s!"Container image '{uri}' not found in registry"
  | _, _ =>
    let userId ← principal.resolveUserId msg.userId
    validateJobSubmission site.config msg.binary msg.envVars ⟨msg.inheritHostEnv, msg.envAllowlist, msg.jobProfile⟩
    checkInteractive msg.qos msg.walltime msg.reqCores
    msg.admission site userId asset (resolvedVnc msg.vncEnabled asset) true .jobId .arrayJobSubmitted

/-- The ids of the nodes that a node waits for; names that are no node are dropped. -/
def DagNode.dependencyIds (node : DagNode) (baseId : JobId) (nodes : List DagNode) : List JobId :=
  let nodeToJob := HashMap.ofList (nodes.zipIdx.map fun (other, offset) => (other.nodeId, baseId + offset))
  node.dependsOn.filterMap nodeToJob.get?

def DagNode.record (node : DagNode) (site : SubmissionSite) (userId : SubmitMessage → String)
    (vnc : SubmitMessage → Option ContainerAsset → Bool) (emptyToNone : Bool) (nodes : List DagNode)
    (baseId offset : Nat) : Option Submission :=
  node.task.map fun msg =>
    let deps := node.dependencyIds baseId nodes
    let asset := site.getContainer (msg.imageUri.getD msg.binary)
    let finalDeps := msg.dependencies.getD [] ++ deps
    let finalSpecs := msg.dependencySpecs.getD [] ++ deps.map fun target => s!"AfterOk:{target}"
    msg.record site (baseId + offset) (userId msg) asset (vnc msg asset) none
      (if emptyToNone && finalDeps.isEmpty then none else some finalDeps)
      (if emptyToNone && finalSpecs.isEmpty then none else some finalSpecs)

/-- The ids are taken for all nodes, the records built for those with a Submit. -/
def dagAdmission (nodes : List DagNode) (record : (baseId offset : Nat) → DagNode → Option Submission)
    (answer : JobId → Nat → SubmitAnswer) (failure : String) : Except String Admission :=
  if nodes.isEmpty then .error "DAG has no nodes"
  else .ok {
    idCount := nodes.length
    build := fun baseId =>
      let jobs := nodes.zipIdx.filterMap fun (node, offset) => record baseId offset node
      { jobs := jobs
        checks := false
        answer := if jobs.isEmpty then .error failure else .ok (answer baseId jobs.length) } }

def handleSubmitDag (site : SubmissionSite) (principal : AuthenticatedPrincipal) (nodes : List DagNode) :
    Except String Admission := do
  if nodes.isEmpty then .error "DAG has no nodes"
  else
    let _ ← (nodes.filterMap DagNode.task).mapM fun msg => principal.resolveUserId msg.userId
    dagAdmission nodes (fun baseId offset node => node.record site
        (fun msg => match principal.resolveUserId msg.userId with
          | .ok userId => userId
          | .error _ => "")
        (fun msg asset => resolvedVnc msg.vncEnabled asset) true nodes baseId offset)
      .dagSubmitted "Failed to submit any tasks of the DAG"

def AuthenticatedPrincipal.maySubmit (principal : AuthenticatedPrincipal) : Bool :=
  principal.roles.any fun role => role = "admin" || role = "operator" || role = "submitter"

/-- A virtual container stands for the executable of a solver, which runs natively. -/
def resolveVirtual (site : SubmissionSite) (payload : SubmitJobRequest) : Except String SubmitJobRequest :=
  match payload.imageUri with
  | some uri =>
    if beginsWith uri "veloce://virtual://" then
      let name := trimStartMatches uri "veloce://virtual://"
      match site.solverConfigs.get? name with
      | some executable => .ok { payload with binary := executable, imageUri := none }
      | none => .error s!"Virtual container '{name}' not found"
    else .ok payload
  | none => .ok payload

/-- The container of a REST submission. -/
def resolveContainer (site : SubmissionSite) (payload : SubmitJobRequest) : Except String (Option ContainerAsset) :=
  match payload.imageUri with
  | some uri =>
    match site.getContainer (if beginsWith uri "veloce://" then trimStartMatches uri "veloce://" else uri) with
    | some asset => .ok (some asset)
    | none => .error s!"Container image '{uri}' not found in registry"
  | none => .ok (if payload.binary.isEmpty then none else site.getContainer payload.binary)

/-- The REST handler checks the binary before it resolves a virtual container. -/
def apiSubmitJob (site : SubmissionSite) (principal : AuthenticatedPrincipal) (payload : SubmitJobRequest) :
    Except String Admission := do
  if !principal.maySubmit then .error "Forbidden: insufficient role"
  else
    let userId ← principal.resolveUserId payload.userId
    validateJobSubmission site.config payload.binary payload.envVars
      ⟨payload.inheritHostEnv, payload.envAllowlist, payload.jobProfile⟩
    checkInteractive payload.qos payload.walltime payload.reqCores
    let native ← resolveVirtual site payload
    let asset ← resolveContainer site native
    let vncEnabled := resolvedVnc (native.vncEnabled.getD false) asset
    (native.message vncEnabled).admission site userId asset vncEnabled false (.created · 1) .created

/-- The steps that a CWL step reads from. -/
def CwlStep.dependsOn (step : CwlStep) (stepId : String) (steps : List (String × CwlStep)) : List String :=
  ((step.inputs.map HashMap.values).getD []).foldl (fun found source =>
    if '/' ∈ source.toList then
      let name := String.ofList (source.toList.takeWhile (· ≠ '/'))
      if name ≠ stepId ∧ name ∈ steps.map Prod.fst ∧ name ∉ found then found ++ [name] else found
    else found) []

def CwlWorkflow.toDag (workflow : CwlWorkflow) (userId workingDirectory : String) : List DagNode :=
  workflow.steps.map fun (stepId, step) => {
    nodeId := stepId
    task := some {
      jobName := some stepId
      jobComment := workflow.name
      binary := step.run
      args := step.args.getD []
      reqNodes := step.reqNodes.getD 1
      reqCores := step.reqCores.getD 1
      reqMemory := step.reqMemory.getD 1024
      userId := userId
      workingDirectory := workingDirectory
      imageUri := step.imageUri }
    dependsOn := step.dependsOn stepId workflow.steps }

def apiSubmitCwl (site : SubmissionSite) (principal : AuthenticatedPrincipal) (workflow : CwlWorkflow)
    (userId workingDirectory : String) : Except String Admission := do
  if !principal.maySubmit then .error "Forbidden: insufficient role"
  else
    let resolved ← principal.resolveUserId userId
    let nodes := workflow.toDag resolved workingDirectory
    dagAdmission nodes (fun baseId offset node => node.record site SubmitMessage.userId
        (fun msg _ => msg.vncEnabled) false nodes baseId offset)
      .created "Submission failed for CWL workflow"

def SubmitRequest.handle (request : SubmitRequest) (site : SubmissionSite) (principal : AuthenticatedPrincipal) :
    Except String Admission :=
  match request with
  | .submit msg => handleSubmit site principal msg
  | .submitDag nodes => handleSubmitDag site principal nodes
  | .apiSubmitJob payload => Veloce.apiSubmitJob site principal payload
  | .apiSubmitCwl workflow userId workingDirectory =>
    Veloce.apiSubmitCwl site principal workflow userId workingDirectory

structure SubmitTask where
  jobs : List Submission
  checks : Bool
  ids : List JobId
  answer : Except String SubmitAnswer

/-- The id counter of the process, its submission handlers, the channel to
`submission_processor` and the ids that callers were told. -/
structure Desk where
  nextJobId : Nat := 1
  tasks : List SubmitTask := []
  channel : List Submission := []
  answered : List JobId := []

/-- One section of a submission handler, or a batch of `submission_processor`. -/
inductive DeskEvent where
  | accept (site : SubmissionSite) (principal : AuthenticatedPrincipal) (request : SubmitRequest)
  | check (index : Nat)
  | send (index : Nat)
  | answer (index : Nat)
  | process (count : Nat)

namespace Desk

def accept (desk : Desk) (site : SubmissionSite) (principal : AuthenticatedPrincipal) (request : SubmitRequest) :
    Desk :=
  match request.handle site principal with
  | .error _ => desk
  | .ok admission =>
    let admitted := admission.build desk.nextJobId
    { desk with
      nextJobId := addU64 desk.nextJobId admission.idCount
      tasks := desk.tasks ++ [{
        jobs := admitted.jobs
        checks := admitted.checks
        ids := admitted.jobs.map (·.job.id)
        answer := admitted.answer }] }

/-- The circularity check of a single Submit, against the table of this moment. -/
def check (desk : Desk) (jobs : HashMap JobId JobInfo) (index : Nat) : Option Desk :=
  match desk.tasks[index]? with
  | some task =>
    if task.checks then
      some { desk with tasks :=
        if task.jobs.any fun submission => isCircular jobs submission.job.id submission.job.parents then
          desk.tasks.eraseIdx index
        else desk.tasks.set index { task with checks := false } }
    else none
  | none => none

/-- Hand the next record to the channel. -/
def send (desk : Desk) (index : Nat) : Option Desk :=
  match desk.tasks[index]? with
  | some task =>
    match task.checks, task.jobs with
    | false, submission :: rest => some { desk with
        channel := desk.channel ++ [submission]
        tasks := desk.tasks.set index { task with jobs := rest } }
    | _, _ => none
  | none => none

def reply (desk : Desk) (index : Nat) : Option Desk :=
  match desk.tasks[index]? with
  | some task =>
    if !task.checks && task.jobs.isEmpty then
      some { desk with
        tasks := desk.tasks.eraseIdx index
        answered := match task.answer with
          | .ok _ => desk.answered ++ task.ids
          | .error _ => desk.answered }
    else none
  | none => none

end Desk

def processBatch (state : GlobalState) (desk : Desk) (count : Nat) : Option (GlobalState × Desk) :=
  if 0 < count ∧ count ≤ 100 ∧ count ≤ desk.channel.length then
    some ((desk.channel.take count).foldl (fun state submission =>
        state.acceptSubmission submission desk.nextJobId) state,
      { desk with channel := desk.channel.drop count })
  else none

def DeskEvent.apply (event : DeskEvent) (state : GlobalState) (desk : Desk) : Option (GlobalState × Desk) :=
  match event with
  | .accept site principal request => some (state, desk.accept site principal request)
  | .check index => (desk.check state.jobs index).map (state, ·)
  | .send index => (desk.send index).map (state, ·)
  | .answer index => (desk.reply index).map (state, ·)
  | .process count => processBatch state desk count

end Veloce
