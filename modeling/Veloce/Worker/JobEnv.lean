import Veloce.Collections.ProcessEnv
import Veloce.Common.JobPolicy
import Veloce.Handlers.Launch
import Veloce.Scheduler.Steps

/-! The environment of the processes of a job. -/

namespace Veloce

open Collections

def parseEnvDefaults (raw : String) : List String :=
  ((splitChar ',' raw).map trimWhitespace).filter fun name => name ≠ ""

def effectiveAllowlistKeys (clusterDefaults : List String) (job : JobExecutionOptions) : HashSet String :=
  HashSet.ofList (clusterDefaults ++ job.envAllowlist.getD [])

/-- The variables of the worker that a job may see. -/
def filterHostEnvForJob (hostEnv : List (String × String)) (clusterAllowlistEnabled : Bool) (clusterDefaults : List String)
    (job : JobExecutionOptions) (impersonating : Bool) : HashMap String String :=
  if job.inheritHostEnv || !clusterAllowlistEnabled then
    (∅ : HashMap String String).extend (hostEnv.filter fun entry => !isBlockedEnvKey entry.1)
  else
    let allowed := effectiveAllowlistKeys clusterDefaults job
    let out := (∅ : HashMap String String).extend
      (hostEnv.filter fun entry => allowed.contains entry.1 && !isBlockedEnvKey entry.1)
    if impersonating then
      ["HOME", "USER", "TMPDIR"].foldl (fun out key =>
        if out.contains key then out
        else
          match hostEnv.find? fun entry => entry.1 = key with
          | some entry => out.insert key entry.2
          | none => out) out
    else out

def envVar (hostEnv : List (String × String)) (name : String) : Option String :=
  (hostEnv.find? fun entry => entry.1 = name).map Prod.snd

/-- Whether the allowlist is on, its default names, and whether users must exist. -/
def workerEnvPolicy (hostEnv : List (String × String)) : Bool × List String × Bool :=
  let isOn (name : String) : Bool := ((envVar hostEnv name).map fun value => value = "true" || value = "1").getD false
  (isOn "VELOCE_JOB_ENV_ALLOWLIST",
    parseEnvDefaults ((envVar hostEnv "VELOCE_JOB_ENV_DEFAULTS").getD "PATH,LANG,LC_ALL,TMPDIR"),
    isOn "VELOCE_REQUIRE_USER_IMPERSONATION")

def filteredHostEnvForLaunch (hostEnv : List (String × String)) (exec : JobExecutionOptions) (impersonating : Bool) :
    HashMap String String :=
  let (allowlistEnabled, defaults, _) := workerEnvPolicy hostEnv
  filterHostEnvForJob hostEnv allowlistEnabled defaults exec impersonating

/-- What a launch knows beside its order: the variables of the worker, its settings, free ports,
and the JSON text of the devices. -/
structure LaunchSite where
  hostEnv : List (String × String)
  workerId : WorkerId
  runAsWorkerUser : Bool
  tempDir : String
  baseUrl : String
  apiKey : String
  vncPort : Nat
  pmixServerUri : JobId → Option String
  pmiPort : Nat
  serdeJson : HashMap String (List Nat) → Except String String

def joinPath (dir file : String) : String :=
  if dir = "" || dir.toList.getLast? = some '/' then dir ++ file else dir ++ "/" ++ file

section Prepare

variable (site : LaunchSite) (jobId : JobId) (nodeList : List String) (workingDirectory hostfilePath : String)
  (arrayId arrayTaskId : Option Nat) (userId : String) (allocatedGres : HashMap String (List Nat))

/-- The variables of a launch, in the order in which they are set. -/
def prepareJobEnv : List (String × String) :=
  [("VELOCE_NODES", ",".intercalate nodeList), ("VELOCE_JOB_ID", toString jobId),
    ("VELOCE_NODE_COUNT", toString nodeList.length), ("VELOCE_MASTER_ADDR", nodeList.headD ""),
    ("VELOCE_WORKING_DIR", workingDirectory), ("VELOCE_HOSTFILE", hostfilePath),
    ("OMPI_MCA_orte_default_hostfile", hostfilePath), ("HYDRA_HOST_FILE", hostfilePath),
    ("VELOCE_SUBMITTING_USER", userId)] ++
  (if allocatedGres.isEmpty then []
    else match site.serdeJson allocatedGres with
      | .ok json => [("VELOCE_ALLOCATED_GRES", json)]
      | .error _ => []) ++
  (arrayId.toList.map fun id => ("VELOCE_ARRAY_JOB_ID", toString id)) ++
  (arrayTaskId.toList.map fun id => ("VELOCE_ARRAY_TASK_ID", toString id))

end Prepare

def replaceIn (pattern new : List Char) : (fuel : Nat) → List Char → List Char
  | 0, text => text
  | _ + 1, [] => []
  | fuel + 1, char :: rest =>
    if pattern.isPrefixOf (char :: rest) then new ++ replaceIn pattern new fuel ((char :: rest).drop pattern.length)
    else char :: replaceIn pattern new fuel rest

def replaceAll (text pattern new : String) : String :=
  String.ofList (replaceIn pattern.toList new.toList text.length text.toList)

/-- The variables of a container, under the names that Apptainer hands on. -/
def buildEnvironmentVars (manifest : SolverManifest) : List (String × String) :=
  manifest.environmentVars.map fun (name, value) =>
    ("APPTAINERENV_" ++ name, replaceAll value "\x7b\x7blicense_server\x7d\x7d" "1055@licserver")

/-- Commands and assignments before the program of a step, with semicolons between them. -/
def parseShellPrefixCommand (hostEnv : List (String × String)) (binary : String) (args : List String) :
    String × List String × HashMap String String :=
  if ';' ∈ binary.toList then
    ((splitChar ';' binary).map trimWhitespace).foldl (fun (realBinary, realArgs, extraEnv) part =>
      if part = "" || beginsWith part "export " then (realBinary, realArgs, extraEnv)
      else if '=' ∈ part.toList then
        let key := trimWhitespace (String.ofList (part.toList.takeWhile (· ≠ '=')))
        let val := trimWhitespace (String.ofList ((part.toList.dropWhile (· ≠ '=')).drop 1))
        let val := if key ∈ ["PATH", "LD_LIBRARY_PATH", "DYLD_LIBRARY_PATH"] then
            let inherited := (envVar hostEnv key).getD ""
            replaceAll (replaceAll val ("$" ++ key) inherited) ("$\x7b" ++ key ++ ":-\x7d") inherited
          else val
        (realBinary, realArgs, extraEnv.insert key val)
      else
        match (part.toList.splitOnP isWhitespace).filter (· ≠ []) with
        | [] => (realBinary, realArgs, extraEnv)
        | program :: more => (String.ofList program, more.map String.ofList ++ realArgs, extraEnv)) (binary, args, ∅)
  else (binary, args, ∅)

section Launches

variable (site : LaunchSite)

def effectiveWorkingDir (workingDirectory : String) : String :=
  if site.runAsWorkerUser then site.tempDir else workingDirectory

section RunJob

variable (order : RunJob)

def jobExecutionOptions : JobExecutionOptions := ⟨order.inheritHostEnv, order.envAllowlist, order.jobProfile⟩

def runJobPrepared : List (String × String) :=
  prepareJobEnv site order.jobId order.nodeList (effectiveWorkingDir site order.workingDirectory)
    (joinPath site.tempDir s!"veloce_hostfile_{order.jobId}.txt") order.arrayId order.arrayTaskId order.userId order.allocatedGres

/-- The variables of the launch with those of the job over them. -/
def runJobEnv : HashMap String String :=
  (∅ : HashMap String String).extend (runJobPrepared site order ++ order.envVars)

def runJobRank : Nat :=
  (((runJobEnv site order).get? "VELOCE_RANK").bind fun value => parseU64 value.toList).getD
    ((order.nodeList.idxOf? site.workerId).getD 0)

def runJobSize : Nat :=
  (((runJobEnv site order).get? "VELOCE_SIZE").bind fun value => parseU64 value.toList).getD order.nodeList.length

/-- PMIx is for jobs on one node. -/
def pmixUri : Option String :=
  if (runJobEnv site order).get? "VELOCE_USE_PMIX" = some "1" ∧ order.nodeList.length ≤ 1 then site.pmixServerUri order.jobId
  else none

def executionEnvVars : List (String × String) :=
  match order.containerAsset with
  | some asset => buildEnvironmentVars asset.manifest
  | none => []

/-- What is set on the command before the filtered variables. -/
def runJobFirstSettings : List (String × String) :=
  (if order.vncEnabled then [("APPTAINERENV_VELOCE_VNC_PORT", toString site.vncPort)] else []) ++
  match pmixUri site order with
  | some uri =>
    if order.containerAsset.isSome then
      [("APPTAINERENV_PMIX_SERVER_URI", uri), ("APPTAINERENV_PMIX_NAMESPACE", s!"pmix-job-{order.jobId}"),
        ("APPTAINERENV_PMIX_RANK", toString (runJobRank site order))]
    else
      [("PMIX_SERVER_URI", uri), ("PMIX_NAMESPACE", s!"pmix-job-{order.jobId}"),
        ("PMIX_RANK", toString (runJobRank site order))]
  | none => []

def runJobLastSettings : List (String × String) :=
  [("VELOCE_JOB_ID", toString order.jobId), ("VELOCE_RANK", toString (runJobRank site order)),
    ("VELOCE_SIZE", toString (runJobSize site order)), ("VELOCE_SECRET", order.secret),
    ("VELOCE_CONTROLLER_URL", order.controllerUrl), ("VELOCE_CA_CERT", "/app/certs/ca.pem"),
    ("VELOCE_FILESERVER_URL", site.baseUrl), ("VELOCE_FILESERVER_KEY", site.apiKey)]

def runJobCommand : Command :=
  (((((({} : Command).envs (runJobFirstSettings site order)).envs
    (filteredHostEnvForLaunch site.hostEnv (jobExecutionOptions order) (!site.runAsWorkerUser)).toList).envs
    (runJobEnv site order).toList).envs (executionEnvVars order)).envs (runJobLastSettings site order))

end RunJob

section RunStep

variable (order : RunStep) (rank : Nat)

def stepExecutionOptions : JobExecutionOptions := ⟨false, none, none⟩

def runStepPrepared : List (String × String) :=
  prepareJobEnv site order.parentJobId order.nodeList (effectiveWorkingDir site order.workingDirectory)
    (joinPath site.tempDir s!"veloce_hostfile_{order.parentJobId}_{order.stepId}.txt") none none order.userId ∅

def pmiSettings : List (String × String) :=
  [("VELOCE_STEP_ID", toString order.stepId), ("PMI_PORT", s!"127.0.0.1:{site.pmiPort}"),
    ("PMI_SIZE", toString order.totalRanks), ("PMI2_PORT", s!"127.0.0.1:{site.pmiPort}"), ("PMI_VERSION", "2"),
    ("PMI_SUBVERSION", "0"), ("PMI_ID", toString rank), ("PMI_RANK", toString rank), ("VELOCE_RANK", toString rank),
    ("VELOCE_SIZE", toString order.totalRanks)]

/-- The variables of the launch, those of the step over them, and then those of PMI and of the rank. -/
def runStepEnv : HashMap String String :=
  (∅ : HashMap String String).extend (runStepPrepared site order ++ order.envVars ++ pmiSettings site order rank)

def runStepLastSettings : List (String × String) :=
  [("VELOCE_JOB_ID", toString order.parentJobId), ("VELOCE_STEP_ID", toString order.stepId), ("VELOCE_SECRET", order.secret),
    ("VELOCE_CONTROLLER_URL", order.controllerUrl), ("VELOCE_CA_CERT", "/app/certs/ca.pem"),
    ("VELOCE_FILESERVER_URL", site.baseUrl), ("VELOCE_FILESERVER_KEY", site.apiKey)]

def runStepCommand : Command :=
  ((((({} : Command).envs
    (filteredHostEnvForLaunch site.hostEnv stepExecutionOptions (!site.runAsWorkerUser)).toList).envs
    (runStepEnv site order rank).toList).envs (parseShellPrefixCommand site.hostEnv order.binary order.args).2.2.toList).envs
    (runStepLastSettings site order))

end RunStep

/-- A process that the worker spawns: a job, or a rank of a step. -/
inductive Launch where
  | job (order : RunJob)
  | rank (order : RunStep) (number : Nat)

namespace Launch

variable (launch : Launch)

def exec : Launch → JobExecutionOptions
  | .job order => jobExecutionOptions order
  | .rank _ _ => stepExecutionOptions

def command : Launch → Command
  | .job order => runJobCommand site order
  | .rank order number => runStepCommand site order number

def env : HashMap String String := (launch.command site).childEnv site.hostEnv

def filtered : HashMap String String := filteredHostEnvForLaunch site.hostEnv launch.exec (!site.runAsWorkerUser)

/-- The variables and the container manifest that were submitted. -/
def jobVars : Launch → List (String × String)
  | .job order => order.envVars ++ executionEnvVars order
  | .rank order _ => order.envVars

def lastSettings : Launch → List (String × String)
  | .job order => runJobLastSettings site order
  | .rank order _ => runStepLastSettings site order

def workerVars : Launch → List (String × String)
  | .job order => runJobFirstSettings site order ++ runJobPrepared site order ++ runJobLastSettings site order
  | .rank order number => runStepPrepared site order ++ pmiSettings site order number ++ runStepLastSettings site order

/-- The assignments before the program of a step. -/
def shellPrefix : Launch → HashMap String String
  | .job _ => ∅
  | .rank order _ => (parseShellPrefixCommand site.hostEnv order.binary order.args).2.2

/-- A name of the worker's own settings, also as Apptainer hands it on. -/
def isWorkerName (name : String) : Bool :=
  ["VELOCE_", "PMI_", "PMI2_", "PMIX_", "OMPI_", "HYDRA_"].any fun start =>
    beginsWith name start || beginsWith name ("APPTAINERENV_" ++ start)

/-- The variable is let through by the filter, or set by the job or by the worker. -/
def Explained (name value : String) : Prop :=
  (launch.filtered site).get? name = some value ∨ (name, value) ∈ launch.jobVars ∨
    (name, value) ∈ launch.workerVars site ∧ isWorkerName name

/-- The filter lets a variable of the worker with this name through. -/
def Passes (name : String) : Prop :=
  (name ∈ (workerEnvPolicy site.hostEnv).2.1 ∨ name ∈ launch.exec.envAllowlist.getD []) ∧ isBlockedEnvKey name = false ∨
    site.runAsWorkerUser = false ∧ name ∈ ["HOME", "USER", "TMPDIR"]

/-- Every variable of the worker passes the filter or is set anew, and an assignment before the
program that stands to the end is one that is found elsewhere, too. -/
structure Sealed : Prop where
  host : ∀ entry ∈ site.hostEnv, launch.Passes site entry.1 ∨ ∃ value, (entry.1, value) ∈ launch.jobVars ∨
    (entry.1, value) ∈ launch.workerVars site ∨ (launch.shellPrefix site).get? entry.1 = some value
  shell : ∀ name value, (launch.shellPrefix site).get? name = some value →
    (∃ last, (name, last) ∈ launch.lastSettings site) ∨ launch.Explained site name value

section Filter

variable {hostEnv : List (String × String)} {name : String}

theorem sets_extend_filter (hostEnv : List (String × String)) (keep : String → Bool) (name : String) :
    ((∅ : HashMap String String).extend (hostEnv.filter fun entry => keep entry.1)).contains name = true ↔
      (∃ value, (name, value) ∈ hostEnv) ∧ keep name = true := by
  rw [HashMap.contains_iff]
  constructor
  · rintro ⟨value, found⟩
    rcases HashMap.get?_extend_cases found with member | ⟨_, absurd⟩
    · obtain ⟨inside, kept⟩ := List.mem_filter.mp member
      exact ⟨⟨value, inside⟩, kept⟩
    · cases absurd
  · rintro ⟨⟨value, inside⟩, kept⟩
    obtain ⟨last, _, found⟩ := HashMap.exists_get?_extend (∅ : HashMap String String)
      (List.mem_filter.mpr ⟨inside, kept⟩ : (name, value) ∈ hostEnv.filter fun entry => keep entry.1)
    exact ⟨last, found⟩

theorem contains_insert_iff (map : HashMap String String) (key value name : String) :
    (map.insert key value).contains name = true ↔ name = key ∨ map.contains name = true := by
  rw [HashMap.contains, HashMap.get?_insert]
  split
  · rename_i same
    simp [same]
  · rename_i other
    simp [HashMap.contains, other]

/-- Names that are put in from the worker's variables if they are not there. -/
theorem contains_homes (keys : List String) (out : HashMap String String) :
    (keys.foldl (fun out key =>
      if out.contains key then out
      else
        match hostEnv.find? fun entry => entry.1 = key with
        | some entry => out.insert key entry.2
        | none => out) out).contains name = true ↔
      out.contains name = true ∨ name ∈ keys ∧ ∃ value, (name, value) ∈ hostEnv := by
  induction keys generalizing out with
  | nil => simp
  | cons key rest ih =>
    rw [List.foldl_cons, ih]
    by_cases there : out.contains key = true
    · rw [if_pos there, List.mem_cons, or_and_right, ← or_assoc]
      refine or_congr_left (or_iff_left_of_imp ?_).symm
      rintro ⟨rfl, _⟩
      exact there
    · rw [if_neg there]
      split
      · rename_i entry found
        have same : entry.1 = key := by simpa using List.find?_some found
        have given : ∃ value, (key, value) ∈ hostEnv := ⟨entry.2, same ▸ List.mem_of_find?_eq_some found⟩
        rw [contains_insert_iff, List.mem_cons, or_and_right, or_comm (b := out.contains name = true), or_assoc]
        refine or_congr_right (or_congr_left ⟨fun same => ⟨same, same ▸ given⟩, And.left⟩)
      · rename_i missing
        have absent : ∀ value, (key, value) ∉ hostEnv := fun value member => by
          simpa using List.find?_eq_none.mp missing _ member
        rw [List.mem_cons, or_and_right]
        refine or_congr_right (or_iff_right ?_).symm
        rintro ⟨rfl, value, member⟩
        exact absent value member

theorem contains_filterHostEnvForJob {clusterDefaults : List String} {job : JobExecutionOptions} {impersonating : Bool}
    (isolated : job.inheritHostEnv = false) :
    (filterHostEnvForJob hostEnv true clusterDefaults job impersonating).contains name = true ↔
      (∃ value, (name, value) ∈ hostEnv) ∧
        ((name ∈ clusterDefaults ∨ name ∈ job.envAllowlist.getD []) ∧ isBlockedEnvKey name = false ∨
          impersonating = true ∧ name ∈ ["HOME", "USER", "TMPDIR"]) := by
  have kept : ((∅ : HashMap String String).extend (hostEnv.filter fun entry =>
      (effectiveAllowlistKeys clusterDefaults job).contains entry.1 && !isBlockedEnvKey entry.1)).contains name = true ↔
      (∃ value, (name, value) ∈ hostEnv) ∧ (name ∈ clusterDefaults ∨ name ∈ job.envAllowlist.getD []) ∧
        isBlockedEnvKey name = false := by
    refine (sets_extend_filter hostEnv (fun name => (effectiveAllowlistKeys clusterDefaults job).contains name && !isBlockedEnvKey name) name).trans ?_
    simp [HashSet.contains, effectiveAllowlistKeys, HashSet.mem_ofList]
  unfold filterHostEnvForJob
  simp only [isolated, Bool.false_or, Bool.not_true, Bool.false_eq_true, if_false]
  cases impersonating with
  | false => simpa using kept
  | true =>
    rw [if_pos rfl, contains_homes, kept, and_or_left]
    exact or_congr_right (and_comm.trans (and_congr_right fun _ => (and_iff_right rfl).symm))

end Filter

section Layers

variable {site} {launch} {name value : String}

def layers (site : LaunchSite) (launch : Launch) : List (List (String × String)) :=
  match launch with
  | .job order => [runJobFirstSettings site order, (launch.filtered site).toList, (runJobEnv site order).toList, executionEnvVars order]
  | .rank order number => [(launch.filtered site).toList, (runStepEnv site order number).toList, (launch.shellPrefix site).toList]

theorem command_eq : launch.command site = ((launch.layers site).foldl Command.envs {}).envs (launch.lastSettings site) := by
  cases launch <;> rfl

structure Named (settings : List (String × String)) : Prop where
  named : ∀ entry ∈ settings, isWorkerName entry.1 = true

theorem named_of_names {settings : List (String × String)} (names : List String) (all : ∀ name ∈ names, isWorkerName name = true)
    (same : settings.map Prod.fst = names) : Named settings :=
  ⟨fun _ member => all _ (same ▸ List.mem_map_of_mem member)⟩

theorem Named.append {settings others : List (String × String)} (named : Named settings) (named' : Named others) :
    Named (settings ++ others) :=
  ⟨fun entry member => (List.mem_append.mp member).elim (named.named entry) (named'.named entry)⟩

theorem named_map {α : Type} {start : String} (named : isWorkerName start = true) (value : α → String) (items : List α) :
    Named (items.map fun item => (start, value item)) := by
  refine ⟨fun entry member => ?_⟩
  obtain ⟨item, _, rfl⟩ := List.mem_map.mp member
  exact named

theorem named_prepareJobEnv (site : LaunchSite) (jobId : JobId) (nodeList : List String) (workingDirectory hostfilePath : String)
    (arrayId arrayTaskId : Option Nat) (userId : String) (allocatedGres : HashMap String (List Nat)) :
    Named (prepareJobEnv site jobId nodeList workingDirectory hostfilePath arrayId arrayTaskId userId allocatedGres) := by
  refine .append (.append (.append ?_ ?_) (named_map (by decide) _ _)) (named_map (by decide) _ _)
  · exact named_of_names ["VELOCE_NODES", "VELOCE_JOB_ID", "VELOCE_NODE_COUNT", "VELOCE_MASTER_ADDR", "VELOCE_WORKING_DIR",
      "VELOCE_HOSTFILE", "OMPI_MCA_orte_default_hostfile", "HYDRA_HOST_FILE", "VELOCE_SUBMITTING_USER"] (by decide) rfl
  · split
    · exact named_of_names [] (by decide) rfl
    · split
      · exact named_of_names ["VELOCE_ALLOCATED_GRES"] (by decide) rfl
      · exact named_of_names [] (by decide) rfl

theorem named_runJobFirstSettings (site : LaunchSite) (order : RunJob) : Named (runJobFirstSettings site order) := by
  refine .append ?_ ?_
  · split
    · exact named_of_names ["APPTAINERENV_VELOCE_VNC_PORT"] (by decide) rfl
    · exact named_of_names [] (by decide) rfl
  · split
    · split
      · exact named_of_names ["APPTAINERENV_PMIX_SERVER_URI", "APPTAINERENV_PMIX_NAMESPACE", "APPTAINERENV_PMIX_RANK"]
          (by decide) rfl
      · exact named_of_names ["PMIX_SERVER_URI", "PMIX_NAMESPACE", "PMIX_RANK"] (by decide) rfl
    · exact named_of_names [] (by decide) rfl

theorem named_workerVars (site : LaunchSite) (launch : Launch) : Named (launch.workerVars site) := by
  cases launch with
  | job order =>
    refine .append (.append (named_runJobFirstSettings site order) (named_prepareJobEnv ..)) ?_
    exact named_of_names ["VELOCE_JOB_ID", "VELOCE_RANK", "VELOCE_SIZE", "VELOCE_SECRET", "VELOCE_CONTROLLER_URL",
      "VELOCE_CA_CERT", "VELOCE_FILESERVER_URL", "VELOCE_FILESERVER_KEY"] (by decide) rfl
  | rank order number =>
    refine .append (.append (named_prepareJobEnv ..) ?_) ?_
    · exact named_of_names ["VELOCE_STEP_ID", "PMI_PORT", "PMI_SIZE", "PMI2_PORT", "PMI_VERSION", "PMI_SUBVERSION", "PMI_ID",
        "PMI_RANK", "VELOCE_RANK", "VELOCE_SIZE"] (by decide) rfl
    · exact named_of_names ["VELOCE_JOB_ID", "VELOCE_STEP_ID", "VELOCE_SECRET", "VELOCE_CONTROLLER_URL", "VELOCE_CA_CERT",
        "VELOCE_FILESERVER_URL", "VELOCE_FILESERVER_KEY"] (by decide) rfl

theorem explained_of_worker (member : (name, value) ∈ launch.workerVars site) : launch.Explained site name value :=
  .inr (.inr ⟨member, (named_workerVars site launch).named _ member⟩)

theorem mem_of_toList_extend {vars : List (String × String)}
    (member : (name, value) ∈ ((∅ : HashMap String String).extend vars).toList) : (name, value) ∈ vars := by
  rcases HashMap.get?_extend_cases (HashMap.mem_toList.mp member) with inside | ⟨_, absurd⟩
  · exact inside
  · cases absurd

theorem layers_cases {layer : List (String × String)} (member : layer ∈ launch.layers site) (inside : (name, value) ∈ layer) :
    launch.Explained site name value ∨ (launch.shellPrefix site).get? name = some value := by
  cases launch with
  | job order =>
    simp only [layers, List.mem_cons, List.not_mem_nil, or_false] at member
    rcases member with rfl | rfl | rfl | rfl
    · exact .inl (explained_of_worker (List.mem_append_left _ (List.mem_append_left _ inside)))
    · exact .inl (.inl (HashMap.mem_toList.mp inside))
    · rcases List.mem_append.mp (mem_of_toList_extend inside) with prepared | submitted
      · exact .inl (explained_of_worker (List.mem_append_left _ (List.mem_append_right _ prepared)))
      · exact .inl (.inr (.inl (List.mem_append_left _ submitted)))
    · exact .inl (.inr (.inl (List.mem_append_right _ inside)))
  | rank order number =>
    simp only [layers, List.mem_cons, List.not_mem_nil, or_false] at member
    rcases member with rfl | rfl | rfl
    · exact .inl (.inl (HashMap.mem_toList.mp inside))
    · rcases List.mem_append.mp (mem_of_toList_extend inside) with earlier | pmi
      · rcases List.mem_append.mp earlier with prepared | submitted
        · exact .inl (explained_of_worker (List.mem_append_left _ (List.mem_append_left _ prepared)))
        · exact .inl (.inr (.inl submitted))
      · exact .inl (explained_of_worker (List.mem_append_left _ (List.mem_append_right _ pmi)))
    · exact .inr (HashMap.mem_toList.mp inside)

theorem mem_workerVars_of_last (member : (name, value) ∈ launch.lastSettings site) : (name, value) ∈ launch.workerVars site := by
  cases launch <;> exact List.mem_append_right _ member

/-- Everything that is set on a command is explained, or stands before the program. -/
theorem vars_cases (found : (launch.command site).vars.get? name = some value) : launch.Explained site name value ∨
    (launch.shellPrefix site).get? name = some value ∧ ∀ last, (name, last) ∉ launch.lastSettings site := by
  rw [command_eq] at found
  rcases HashMap.get?_extend_cases found with last | ⟨absent, earlier⟩
  · exact .inl (explained_of_worker (mem_workerVars_of_last last))
  · rcases Command.vars_layers earlier with ⟨layer, member, inside⟩ | absurd
    · exact (layers_cases member inside).imp_right fun shell => ⟨shell, absent⟩
    · cases absurd

theorem mem_toList_extend {vars : List (String × String)} (member : (name, value) ∈ vars) :
    ∃ last, (name, last) ∈ ((∅ : HashMap String String).extend vars).toList := by
  obtain ⟨last, _, found⟩ := HashMap.exists_get?_extend (∅ : HashMap String String) member
  exact ⟨last, HashMap.mem_toList.mpr found⟩

theorem sets_of_mem (given : (launch.filtered site).get? name = some value ∨ (name, value) ∈ launch.jobVars ∨
    (name, value) ∈ launch.workerVars site ∨ (launch.shellPrefix site).get? name = some value) : (launch.command site).Sets name := by
  rw [command_eq, Command.sets_envs, Command.sets_layers]
  have layered {layer : List (String × String)} {last : String} (member : layer ∈ launch.layers site) (inside : (name, last) ∈ layer) :
      (∃ value, (name, value) ∈ launch.lastSettings site) ∨
        (∃ layer ∈ launch.layers site, ∃ value, (name, value) ∈ layer) ∨ Command.Sets {} name :=
    .inr (.inl ⟨layer, member, last, inside⟩)
  cases launch with
  | job order =>
    rcases given with passed | submitted | own | shell
    · exact layered (by simp [layers]) (HashMap.mem_toList.mpr passed)
    · rcases List.mem_append.mp submitted with var | manifest
      · obtain ⟨last, inside⟩ : ∃ last, (name, last) ∈ (runJobEnv site order).toList :=
          mem_toList_extend (List.mem_append_right _ var)
        exact layered (by simp [layers]) inside
      · exact layered (by simp [layers]) manifest
    · rcases List.mem_append.mp own with earlier | last
      · rcases List.mem_append.mp earlier with first | prepared
        · exact layered (by simp [layers]) first
        · obtain ⟨last, inside⟩ : ∃ last, (name, last) ∈ (runJobEnv site order).toList :=
            mem_toList_extend (List.mem_append_left _ prepared)
          exact layered (by simp [layers]) inside
      · exact .inl ⟨_, last⟩
    · cases shell
  | rank order number =>
    rcases given with passed | submitted | own | shell
    · exact layered (by simp [layers]) (HashMap.mem_toList.mpr passed)
    · obtain ⟨last, inside⟩ : ∃ last, (name, last) ∈ (runStepEnv site order number).toList :=
        mem_toList_extend (List.mem_append_left _ (List.mem_append_right _ submitted))
      exact layered (by simp [layers]) inside
    · rcases List.mem_append.mp own with earlier | last
      · obtain ⟨last, inside⟩ : ∃ last, (name, last) ∈ (runStepEnv site order number).toList := by
          rcases List.mem_append.mp earlier with prepared | pmi
          · exact mem_toList_extend (List.mem_append_left _ (List.mem_append_left _ prepared))
          · exact mem_toList_extend (List.mem_append_right _ pmi)
        exact layered (by simp [layers]) inside
      · exact .inl ⟨_, last⟩
    · exact layered (by simp [layers]) (HashMap.mem_toList.mpr shell)

/-- An assignment before the program stands if no last setting replaces it. -/
theorem vars_of_shell (shell : (launch.shellPrefix site).get? name = some value) (stands : ∀ last, (name, last) ∉ launch.lastSettings site) :
    (launch.command site).vars.get? name = some value := by
  rw [command_eq]
  refine (HashMap.get?_extend_of_notMem stands).trans ?_
  cases launch with
  | job order => cases shell
  | rank order number =>
    obtain ⟨last, member, found⟩ := HashMap.exists_get?_extend
      (([(filtered site (.rank order number)).toList, (runStepEnv site order number).toList].foldl Command.envs {}).vars)
      (HashMap.mem_toList.mpr shell)
    exact found.trans ((HashMap.mem_toList.mp member).symm.trans shell)

theorem contains_filtered (allowlist : (workerEnvPolicy site.hostEnv).1 = true) (isolated : launch.exec.inheritHostEnv = false) :
    (launch.filtered site).contains name = true ↔ (∃ value, (name, value) ∈ site.hostEnv) ∧ launch.Passes site name := by
  have policy : launch.filtered site = filterHostEnvForJob site.hostEnv true (workerEnvPolicy site.hostEnv).2.1 launch.exec
      (!site.runAsWorkerUser) := allowlist ▸ rfl
  rw [policy]
  refine (contains_filterHostEnvForJob isolated).trans (and_congr_right fun _ => ?_)
  rw [Passes, Bool.not_eq_true']

end Layers

theorem env_explained_iff (site : LaunchSite) (launch : Launch) (allowlist : (workerEnvPolicy site.hostEnv).1 = true)
    (isolated : launch.exec.inheritHostEnv = false) :
    (∀ name value, (launch.env site).get? name = some value → launch.Explained site name value) ↔ launch.Sealed site := by
  constructor
  · intro explained
    refine ⟨fun entry member => ?_, fun name value shell => ?_⟩
    · by_contra exposed
      rw [not_or, not_exists] at exposed
      obtain ⟨stopped, unset⟩ := exposed
      have passes (found : (launch.filtered site).contains entry.1 = true) : False :=
        stopped ((contains_filtered allowlist isolated).mp found).2
      have unexplained (value : String) : ¬ launch.Explained site entry.1 value := by
        rintro (passed | submitted | ⟨own, _⟩)
        · exact passes (HashMap.contains_iff.mpr ⟨value, passed⟩)
        · exact unset value (.inl submitted)
        · exact unset value (.inr (.inl own))
      have inherits : ¬ (launch.command site).Sets entry.1 := by
        rintro ⟨value, found⟩
        rcases vars_cases found with stated | ⟨shell, _⟩
        · exact unexplained value stated
        · exact unset value (.inr (.inr shell))
      obtain ⟨last, found⟩ := Command.childEnv_of_parent member inherits
      exact unexplained last (explained _ _ found)
    · by_cases replaced : ∃ last, (name, last) ∈ launch.lastSettings site
      · exact .inl replaced
      · exact .inr (explained _ _ (Command.childEnv_of_set (vars_of_shell shell (not_exists.mp replaced))))
  · intro closed name value found
    rcases Command.childEnv_cases found with set | ⟨unset, inherited⟩
    · rcases vars_cases set with stated | ⟨shell, stands⟩
      · exact stated
      · exact (closed.shell name value shell).resolve_left fun ⟨last, member⟩ => stands last member
    · rcases closed.host _ inherited with passes | ⟨value, given⟩
      · obtain ⟨value, passed⟩ := HashMap.contains_iff.mp ((contains_filtered allowlist isolated).mpr ⟨⟨_, inherited⟩, passes⟩)
        exact (unset (sets_of_mem (.inl passed))).elim
      · exact (unset (sets_of_mem (.inr given))).elim

end Launch

end Launches

/-- A worker in allowlist mode, with other variables. -/
def sampleSite (others : List (String × String)) : LaunchSite where
  hostEnv := ("VELOCE_JOB_ENV_ALLOWLIST", "1") :: others
  workerId := "w1"
  runAsWorkerUser := true
  tempDir := "/tmp"
  baseUrl := "http://files"
  apiKey := "key"
  vncPort := 5901
  pmixServerUri _ := none
  pmiPort := 4000
  serdeJson _ := .ok "{}"

/-- A step of one rank whose program is written without a prefix. -/
def sampleStep : RunStep where
  parentJobId := 1
  stepId := 1
  binary := "env"
  args := []
  nodeList := ["w1"]
  assignedCores := none
  workingDirectory := "/work"
  userId := "alice"
  assignedRanks := [0]
  totalRanks := 1
  inputs := []
  allocatedGres := ∅
  gresReq := ∅
  secret := "s"
  controllerUrl := "https://c"
  envVars := [("VELOCE_JOB_ENV_ALLOWLIST", "1")]

namespace Launch

/-- A step that sets the only variable of the worker itself sees nothing of the worker. -/
theorem env_explained_sampleStep : (Launch.rank sampleStep 0).Explained (sampleSite []) "PMI_RANK" "0" := by
  refine (env_explained_iff (sampleSite []) (.rank sampleStep 0) rfl rfl).mpr ⟨?_, ?_⟩ "PMI_RANK" "0" (by decide +kernel)
  · intro entry member
    rw [List.mem_singleton.mp member]
    exact .inr ⟨"1", .inl List.mem_cons_self⟩
  · intro name value shell
    have none : (Launch.rank sampleStep 0).shellPrefix (sampleSite []) = ∅ := rfl
    rw [none] at shell
    cases shell

/-- A variable of the worker that is not on the list reaches the process. -/
theorem secret_reaches_process :
    ¬ ∀ name value, ((Launch.rank sampleStep 0).env (sampleSite [("SECRET", "leak")])).get? name = some value →
      (Launch.rank sampleStep 0).Explained (sampleSite [("SECRET", "leak")]) name value := by
  intro explained
  have leaks : ((Launch.rank sampleStep 0).env (sampleSite [("SECRET", "leak")])).get? "SECRET" = some "leak" := by decide +kernel
  rcases explained _ _ leaks with passed | submitted | ⟨_, own⟩
  · revert passed
    decide +kernel
  · revert submitted
    decide
  · revert own
    decide

end Launch

end Veloce
