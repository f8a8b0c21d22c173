import Veloce.Collections.Run
import Veloce.Handlers.Desk

/-! The admission policy on the four paths of submission. -/

namespace Veloce

open Collections

structure Conforms (config : AdmissionConfig) (binary : String) (envVars : List (String × String))
    (exec : JobExecutionOptions) (qos : QosLevel) (walltime reqCores : Nat) : Prop where
  policy : validateJobSubmission config binary envVars exec = .ok ()
  interactive : qos = .interactive → 0 < walltime ∧ walltime ≤ 1800 ∧ reqCores ≤ 4

def JobInfo.Conforms (job : JobInfo) (config : AdmissionConfig) : Prop :=
  Veloce.Conforms config job.binary job.envVars ⟨job.inheritHostEnv, job.envAllowlist, job.jobProfile⟩ job.qos
    job.walltime job.reqCores

def SubmitMessage.Conforms (msg : SubmitMessage) (config : AdmissionConfig) : Prop :=
  Veloce.Conforms config msg.binary msg.envVars ⟨msg.inheritHostEnv, msg.envAllowlist, msg.jobProfile⟩ msg.qos
    msg.walltime msg.reqCores

/-- The executable that a REST submission names as a virtual container. -/
def SubmitJobRequest.virtualExecutable (payload : SubmitJobRequest) (site : SubmissionSite) : Option String :=
  payload.imageUri.bind fun uri =>
    if beginsWith uri "veloce://virtual://" then
      site.solverConfigs.get? (trimStartMatches uri "veloce://virtual://")
    else none

/-- What a caller must have seen to itself where the handler does not check it. -/
def SubmitRequest.MeetsPolicy (site : SubmissionSite) : SubmitRequest → Prop
  | .submit _ => True
  | .submitDag nodes => ∀ node ∈ nodes, ∀ msg ∈ node.task, msg.Conforms site.config
  | .apiSubmitJob payload => ∀ executable ∈ payload.virtualExecutable site,
      validateBinaryPrefix executable site.config.allowedBinariesPrefixes = .ok ()
  | .apiSubmitCwl workflow _ _ => ∀ entry ∈ workflow.steps,
      validateBinaryPrefix entry.2.run site.config.allowedBinariesPrefixes = .ok ()

/-- A record that the request brings into the table of a leader. -/
def Admission.Brings (admission : Admission) (job : JobInfo) : Prop :=
  ∃ baseId, ∃ submission ∈ (admission.build baseId).jobs, ∃ (state : GlobalState) (nextJobId : Nat),
    state.role = .leader ∧
      (state.acceptSubmission submission nextJobId).jobs.get? submission.job.id = some job

section Checks

variable {config : AdmissionConfig} {binary : String} {envVars : List (String × String)} {exec : JobExecutionOptions}

theorem validateJobSubmission_ok_iff : validateJobSubmission config binary envVars exec = .ok () ↔
    validateBinaryPrefix binary config.allowedBinariesPrefixes = .ok () ∧
      validateSubmittedEnvVars envVars exec config.envAllowlistEnabled = .ok () := by
  unfold validateJobSubmission
  cases validateBinaryPrefix binary config.allowedBinariesPrefixes with
  | error reason => exact ⟨fun done => (nomatch done), fun both => (nomatch both.1)⟩
  | ok checked => exact ⟨fun done => ⟨rfl, done⟩, And.right⟩

theorem checkInteractive_ok_iff {qos : QosLevel} {walltime reqCores : Nat} :
    checkInteractive qos walltime reqCores = .ok () ↔
      (qos = .interactive → 0 < walltime ∧ walltime ≤ 1800 ∧ reqCores ≤ 4) := by
  unfold checkInteractive
  by_cases interactive : qos = .interactive
  · simp only [interactive, true_and, forall_const]
    split
    · rename_i limit
      exact ⟨fun done => (nomatch done), fun both => absurd limit (by omega)⟩
    · rename_i limit
      split
      · rename_i cores
        exact ⟨fun done => (nomatch done), fun both => absurd cores (by omega)⟩
      · exact ⟨fun _ => by omega, fun _ => rfl⟩
  · simp [interactive]

end Checks

section Paths

variable {site : SubmissionSite} {principal : AuthenticatedPrincipal} {admission : Admission}

theorem SubmitMessage.records_conform_iff {msg : SubmitMessage} {userId : String} {asset : Option ContainerAsset}
    {vncEnabled checks : Bool} {answer : JobId → SubmitAnswer} {arrayAnswer : JobId → Nat → SubmitAnswer}
    (done : msg.admission site userId asset vncEnabled checks answer arrayAnswer = .ok admission)
    (config : AdmissionConfig) :
    (∀ baseId, ∀ submission ∈ (admission.build baseId).jobs, submission.job.Conforms config) ↔ msg.Conforms config := by
  constructor
  · intro conform
    have filled : 0 < admission.idCount := by
      unfold SubmitMessage.admission at done
      split at done
      · cases done
      · rename_i indices nonempty _
        cases done
        exact List.length_pos_iff.mpr fun empty => nonempty (by rw [empty])
      · cases done
        exact Nat.one_pos
    have first : 0 ∈ (admission.build 0).jobs.map (·.job.id) := by
      rw [SubmitMessage.admission_ids done]
      exact List.mem_range'_1.mpr ⟨le_rfl, by omega⟩
    obtain ⟨submission, member, _⟩ := List.mem_map.mp first
    obtain ⟨jobId, place, same⟩ := SubmitMessage.mem_admission done member
    have holds := conform 0 submission member
    rw [same] at holds
    exact holds
  · intro conforms baseId submission member
    obtain ⟨jobId, place, same⟩ := SubmitMessage.mem_admission done member
    rw [same]
    exact conforms

theorem dag_records_conform_iff {nodes : List DagNode} {userId : SubmitMessage → String}
    {vnc : SubmitMessage → Option ContainerAsset → Bool} {emptyToNone : Bool}
    {answer : JobId → Nat → SubmitAnswer} {failure : String}
    (done : dagAdmission nodes (fun baseId offset node => node.record site userId vnc emptyToNone nodes baseId offset)
      answer failure = .ok admission) (config : AdmissionConfig) :
    (∀ baseId, ∀ submission ∈ (admission.build baseId).jobs, submission.job.Conforms config) ↔
      ∀ node ∈ nodes, ∀ msg ∈ node.task, msg.Conforms config := by
  constructor
  · intro conform node listed msg task
    obtain ⟨offset, bound, there⟩ := List.mem_iff_getElem.mp listed
    have place : (node, offset) ∈ nodes.zipIdx :=
      List.mem_zipIdx_iff_getElem?.mpr (List.getElem?_eq_some_iff.mpr ⟨bound, there⟩)
    obtain ⟨submission, made⟩ : ∃ submission,
        node.record site userId vnc emptyToNone nodes 0 offset = some submission := by
      rw [DagNode.record, Option.mem_def.mp task]
      exact ⟨_, rfl⟩
    have holds := conform 0 submission ((mem_dagAdmission done).mpr ⟨node, offset, place, made⟩)
    obtain ⟨msg', task', same⟩ := Option.map_eq_some_iff.mp made
    cases (Option.mem_def.mp task).symm.trans task'
    rw [← same] at holds
    exact holds
  · intro conforms baseId submission member
    obtain ⟨node, offset, place, made⟩ := (mem_dagAdmission done).mp member
    obtain ⟨msg, task, same⟩ := Option.map_eq_some_iff.mp made
    rw [← same]
    exact conforms node (List.fst_mem_of_mem_zipIdx place) msg task

theorem resolveVirtual_ok {payload native : SubmitJobRequest} (resolved : resolveVirtual site payload = .ok native) :
    native = payload ∧ payload.virtualExecutable site = none ∨
      ∃ executable, payload.virtualExecutable site = some executable ∧
        native = { payload with binary := executable, imageUri := none } := by
  unfold resolveVirtual at resolved
  simp only [SubmitJobRequest.virtualExecutable]
  split at resolved
  · rename_i uri image
    rw [image, Option.bind_some]
    split at resolved
    · rename_i isVirtual
      rw [if_pos isVirtual]
      simp only at resolved
      split at resolved
      · rename_i executable found
        cases resolved
        exact .inr ⟨executable, found, rfl⟩
      · cases resolved
    · rename_i isVirtual
      cases resolved
      rw [if_neg isVirtual]
      exact .inl ⟨rfl, rfl⟩
  · rename_i image
    cases resolved
    rw [image, Option.bind_none]
    exact .inl ⟨rfl, rfl⟩

theorem records_conform_iff {request : SubmitRequest} (admitted : request.handle site principal = .ok admission) :
    (∀ baseId, ∀ submission ∈ (admission.build baseId).jobs, submission.job.Conforms site.config) ↔
      request.MeetsPolicy site := by
  cases request with
  | submit msg =>
    obtain ⟨policy, limits, _, _, _, done⟩ := handleSubmit_ok admitted
    rw [SubmitMessage.records_conform_iff done]
    exact ⟨fun _ => trivial, fun _ => ⟨policy, checkInteractive_ok_iff.mp limits⟩⟩
  | submitDag nodes =>
    obtain ⟨_, _, done⟩ := handleSubmitDag_ok admitted
    exact dag_records_conform_iff done site.config
  | apiSubmitJob payload =>
    obtain ⟨policy, limits, native, _, _, vncEnabled, resolved, done⟩ := apiSubmitJob_ok admitted
    rw [SubmitMessage.records_conform_iff done]
    have vars := (validateJobSubmission_ok_iff.mp policy).2
    rcases resolveVirtual_ok resolved with ⟨rfl, native⟩ | ⟨executable, isVirtual, rfl⟩
    · simp only [SubmitRequest.MeetsPolicy, native]
      exact ⟨fun _ _ => fun member => (nomatch member), fun _ => ⟨policy, checkInteractive_ok_iff.mp limits⟩⟩
    · simp only [SubmitRequest.MeetsPolicy, isVirtual, Option.mem_some_iff, forall_eq']
      refine ⟨fun conforms => (validateJobSubmission_ok_iff.mp conforms.policy).1, fun allowed => ⟨?_, ?_⟩⟩
      · exact validateJobSubmission_ok_iff.mpr ⟨allowed, vars⟩
      · exact checkInteractive_ok_iff.mp limits
  | apiSubmitCwl workflow userId workingDirectory =>
    obtain ⟨resolved, done⟩ := apiSubmitCwl_ok admitted
    rw [dag_records_conform_iff done]
    simp only [SubmitRequest.MeetsPolicy, CwlWorkflow.toDag, List.forall_mem_map, Option.mem_some_iff, forall_eq']
    -- a step has no variables and is not interactive, so only its binary can offend
    refine forall₂_congr fun entry listed => ?_
    constructor
    · intro conforms
      exact (validateJobSubmission_ok_iff.mp conforms.policy).1
    · intro allowed
      refine ⟨validateJobSubmission_ok_iff.mpr ⟨allowed, ?_⟩, fun interactive => (nomatch interactive)⟩
      unfold validateSubmittedEnvVars
      split <;> rfl

theorem brings_iff {job : JobInfo} : admission.Brings job ↔
    ∃ baseId, ∃ submission ∈ (admission.build baseId).jobs, submission.job = job := by
  have entered (state : GlobalState) (submission : Submission) (nextJobId : Nat) (lead : state.role = .leader) :
      (state.acceptSubmission submission nextJobId).jobs.get? submission.job.id = some submission.job := by
    rw [GlobalState.acceptSubmission, if_pos lead]
    exact HashMap.get?_insert_self ..
  constructor
  · rintro ⟨baseId, submission, member, state, nextJobId, lead, found⟩
    rw [entered state submission nextJobId lead] at found
    exact ⟨baseId, submission, member, Option.some.inj found⟩
  · rintro ⟨baseId, submission, member, rfl⟩
    exact ⟨baseId, submission, member, { role := .leader }, 0, rfl, entered _ _ _ rfl⟩

/-- Every record that an admitted request brings into a table conforms to the policy if
and only if the caller has kept to the policy where the handler of its path does not
check it. -/
theorem admitted_jobs_conform_iff {request : SubmitRequest} (admitted : request.handle site principal = .ok admission) :
    (∀ job, admission.Brings job → job.Conforms site.config) ↔ request.MeetsPolicy site := by
  rw [← records_conform_iff admitted]
  constructor
  · intro conform baseId submission member
    exact conform submission.job (brings_iff.mpr ⟨baseId, submission, member, rfl⟩)
  · intro conform job brings
    obtain ⟨baseId, submission, member, rfl⟩ := brings_iff.mp brings
    exact conform baseId submission member

end Paths

section Sample

/-- Only binaries under `/opt` are allowed. -/
def strictSite : SubmissionSite where
  config := { allowedBinariesPrefixes := ["/opt/"] }
  solverConfigs := HashMap.ofList [("shell", "/bin/sh")]

def sampleDag (binary : String) : SubmitRequest := .submitDag [{ nodeId := "n", task := some { binary } }]

theorem admitted_jobs_conform_iff_dag : ∃ admission, (sampleDag "/opt/solver").handle strictSite ⟨"user", []⟩ =
    .ok admission ∧ (sampleDag "/opt/solver").MeetsPolicy strictSite ∧
    ∀ job, admission.Brings job → job.Conforms strictSite.config := by
  have meets : (sampleDag "/opt/solver").MeetsPolicy strictSite := by
    simp only [sampleDag, SubmitRequest.MeetsPolicy, List.mem_singleton, forall_eq, Option.mem_some_iff, forall_eq']
    exact ⟨by decide +kernel, fun interactive => (nomatch interactive)⟩
  cases admitted : (sampleDag "/opt/solver").handle strictSite ⟨"user", []⟩ with
  | error reason =>
    have passes : ((sampleDag "/opt/solver").handle strictSite ⟨"user", []⟩).toOption.isSome = true := by decide +kernel
    rw [admitted] at passes
    cases passes
  | ok admission => exact ⟨admission, rfl, meets, (admitted_jobs_conform_iff admitted).mpr meets⟩

def serveRequest (request : SubmitRequest) : Option (GlobalState × Desk) :=
  runLabels (fun (event : DeskEvent) (served : GlobalState × Desk) => event.apply served.1 served.2)
    [.accept strictSite ⟨"user", ["submitter"]⟩ request, .send 0, .answer 0, .process 1] ({ role := .leader }, {})

/-- The request was answered with an id, and its job in the table violates the policy. -/
def Bypasses (request : SubmitRequest) : Prop :=
  ∃ state desk job, serveRequest request = some (state, desk) ∧ desk.answered = [1] ∧
    state.jobs.get? 1 = some job ∧ ¬ job.Conforms strictSite.config

theorem bypasses {request : SubmitRequest} (facts : ((serveRequest request).bind fun served =>
      (served.1.jobs.get? 1).map fun job => (served.2.answered, job.binary)) = some ([1], "/bin/sh")) :
    Bypasses request := by
  obtain ⟨⟨state, desk⟩, ran, facts⟩ := Option.bind_eq_some_iff.mp facts
  obtain ⟨job, found, facts⟩ := Option.map_eq_some_iff.mp facts
  simp only [Prod.mk.injEq] at facts
  refine ⟨state, desk, job, ran, facts.1, found, fun conforms => ?_⟩
  have allowed := (validateJobSubmission_ok_iff.mp conforms.policy).1
  rw [facts.2] at allowed
  revert allowed
  decide +kernel

/-- `/bin/sh` reaches the table as a node of a graph, as a virtual container and as a
step of a workflow. -/
theorem paths_bypass_policy : Bypasses (sampleDag "/bin/sh") ∧
    Bypasses (.apiSubmitJob { binary := "/opt/solver", imageUri := some "veloce://virtual://shell" }) ∧
    Bypasses (.apiSubmitCwl { steps := [("n", { run := "/bin/sh" })] } "user" "/scratch") :=
  ⟨bypasses (by decide +kernel), bypasses (by decide +kernel), bypasses (by decide +kernel)⟩

end Sample

end Veloce
