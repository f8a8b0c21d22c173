import Veloce.Collections.HashMap

/-! The shared data model: job records, worker resources and the accounting record built from a
job. -/

namespace Veloce

open Collections

abbrev JobId := Nat

abbrev WorkerId := String

theorem toString_inj {number number' : Nat} : toString number = toString number' ↔ number = number' := by
  refine ⟨fun same => ?_, congrArg toString⟩
  have digits := congrArg String.toList same
  rw [Nat.toString_eq_ofList_toDigits, Nat.toString_eq_ofList_toDigits, String.toList_ofList, String.toList_ofList] at digits
  rw [← Nat.ofDigitChars_toDigits (b := 10) (n := number) (by decide) (by decide), digits,
    Nat.ofDigitChars_toDigits (by decide) (by decide)]

def asU32 (value : Nat) : Nat := value % 2 ^ 32

def addU64 (left right : Nat) : Nat := (left + right) % 2 ^ 64

theorem addU64_le (left right : Nat) : addU64 left right ≤ left + right := Nat.mod_le _ _

theorem addU64_eq {left right bound : Nat} (fits : left + right ≤ bound) (small : bound < 2 ^ 64) :
    addU64 left right = left + right := Nat.mod_eq_of_lt (Nat.lt_of_le_of_lt fits small)

inductive JobStatus where
  | pending
  | running
  | completed (code : Int)
  | failed (error : String)
  | killed
deriving DecidableEq, Repr

/-- The statuses a job never leaves through the scheduler. -/
def JobStatus.terminal : JobStatus → Bool
  | .pending | .running => false
  | .completed _ | .failed _ | .killed => true

inductive QosLevel where
  | background
  | preemptible
  | production
  | interactive
deriving DecidableEq, Repr

structure Resources where
  cpuCores : Nat
  totalMemory : Nat
  cpuModel : String
  arch : String
  gres : HashMap String Nat
  cgroupEnabled : Bool

/-- Of the `u64` with the bytes. -/
def Resources.totalMb (resources : Resources) : Nat := resources.totalMemory % 2 ^ 64 / 1024 / 1024

theorem Resources.totalMb_lt (resources : Resources) : resources.totalMb < 2 ^ 64 := by
  rw [Resources.totalMb]
  omega

theorem Resources.totalMb_le (resources : Resources) : resources.totalMb ≤ resources.totalMemory / 1024 / 1024 := by
  rw [Resources.totalMb]
  omega

structure FileHandle where
  fileId : String
  originalName : String
  isExecutable : Bool
  isArchive : Bool
deriving DecidableEq, Repr

structure Reservation where
  id : String
  nodes : HashSet String
  startTime : Nat
  endTime : Nat
  owner : String

structure WorkerLogFiles where
  stdoutFileId : Option String
  stderrFileId : Option String
deriving DecidableEq, Repr

structure JobOutputArtifact where
  path : String
  outputType : String
  fileId : Option String
  size : Option Nat
  updatedAt : Option Nat
deriving DecidableEq, Repr

structure OutputCollection where
  path : String
  outputType : String
deriving DecidableEq, Repr

structure SolverManifest where
  entrypoint : String
  launchWrapper : Option String
  commandTemplate : String
  environmentVars : List (String × String) := []
  workingDir : String
  outputCollection : List OutputCollection
  vncEnabled : Bool
deriving DecidableEq, Repr

structure ContainerAsset where
  id : String
  name : String
  imageUri : String
  manifest : SolverManifest
deriving DecidableEq, Repr

structure JobInfo where
  id : JobId
  jobName : Option String := none
  jobComment : Option String := none
  binary : String
  args : List String := []
  status : JobStatus := .pending
  reqNodes : Nat
  reqCores : Nat
  reqMemory : Nat
  assignedWorkers : List WorkerId := []
  walltime : Nat := 0
  startTime : Option Nat := none
  priority : Nat := 0
  userId : String
  workingDirectory : String := ""
  queuedTime : Nat := 0
  currentMemoryUsage : Nat := 0
  isIdle : Bool := false
  idleDuration : Nat := 0
  endTime : Option Nat := none
  envVars : List (String × String) := []
  reason : Option String := none
  arrayId : Option Nat := none
  arrayTaskId : Option Nat := none
  inputs : List FileHandle := []
  cgroupActive : Bool := false
  gresReq : HashMap String Nat := ∅
  allocatedCores : HashMap WorkerId (List Nat) := ∅
  allocatedGres : HashMap WorkerId (HashMap String (List Nat)) := ∅
  secret : String := ""
  stdoutFileId : Option String := none
  stderrFileId : Option String := none
  workdirFileId : Option String := none
  workerLogFiles : HashMap WorkerId WorkerLogFiles := ∅
  outputArtifacts : List JobOutputArtifact := []
  waitForLicenses : Bool := false
  estimatedWalltime : Option Nat := none
  priorityOffset : Option Int := none
  dependencies : Option (List JobId) := none
  dependencySpecs : Option (List String) := none
  qos : QosLevel := .production
  containerAsset : Option ContainerAsset := none
  vncEnabled : Bool := false
  inheritHostEnv : Bool := false
  envAllowlist : Option (List String) := none
  jobProfile : Option String := none

/-- The launch order sent to a worker. -/
structure RunJob where
  jobId : JobId
  binary : String
  args : List String
  nodeList : List String
  assignedCores : Option (List Nat)
  reqMemory : Nat
  workingDirectory : String
  userId : String
  walltime : Nat
  submissionTime : Nat
  arrayId : Option Nat
  arrayTaskId : Option Nat
  inputs : List FileHandle
  allocatedGres : HashMap String (List Nat)
  gresReq : HashMap String Nat
  secret : String
  controllerUrl : String
  envVars : List (String × String)
  waitForLicenses : Bool
  estimatedWalltime : Option Nat
  priorityOffset : Option Int
  dependencies : Option (List JobId)
  dependencySpecs : Option (List String)
  qos : QosLevel
  containerAsset : Option ContainerAsset
  vncEnabled : Bool
  inheritHostEnv : Bool
  envAllowlist : Option (List String)
  jobProfile : Option String

inductive Message where
  | runJob (order : RunJob)
  | terminateJob (jobId : JobId)
  | preemptJob (jobId : JobId)
  | jobStarted (jobId : JobId)
  | jobDone (jobId : JobId) (exitCode : Int)
  | jobError (jobId : JobId) (error : String)
  | jobKilled (jobId : JobId)

structure JobUsage where
  jobId : JobId
  jobName : Option String
  jobComment : Option String
  commandLine : String
  userId : String
  submissionTime : Nat
  startTime : Option Nat
  endTime : Option Nat
  exitCode : Option Int
  status : JobStatus
  cpuTimeMs : Nat
  maxMemoryBytes : Nat
  reqNodes : Nat
  reqCores : Nat
  reqMemory : Nat
  arrayId : Option Nat
  arrayTaskId : Option Nat
  assignedWorkers : List WorkerId
  gresReq : HashMap String Nat
  cgroupActive : Bool
  secret : String
  stdoutFileId : Option String
  stderrFileId : Option String
  workdirFileId : Option String
  workerLogFiles : HashMap WorkerId WorkerLogFiles
  outputArtifacts : List JobOutputArtifact
  waitForLicenses : Bool
  estimatedWalltime : Option Nat
  priorityOffset : Option Int
  dependencies : Option (List JobId)
  dependencySpecs : Option (List String)
  qos : QosLevel
  containerAsset : Option ContainerAsset

def jobToUsage (job : JobInfo) : JobUsage where
  containerAsset := job.containerAsset
  jobId := job.id
  jobName := job.jobName
  jobComment := job.jobComment
  userId := job.userId
  commandLine := job.binary ++ " " ++ " ".intercalate job.args
  submissionTime := job.queuedTime
  startTime := job.startTime
  endTime := job.endTime
  exitCode := match job.status with
    | .completed code => some code
    | _ => none
  status := job.status
  cpuTimeMs := 0
  maxMemoryBytes := 0
  reqNodes := job.reqNodes
  reqCores := job.reqCores
  reqMemory := job.reqMemory
  arrayId := job.arrayId
  arrayTaskId := job.arrayTaskId
  assignedWorkers := job.assignedWorkers
  gresReq := job.gresReq
  cgroupActive := job.cgroupActive
  secret := job.secret
  stdoutFileId := job.stdoutFileId
  stderrFileId := job.stderrFileId
  workdirFileId := job.workdirFileId
  workerLogFiles := job.workerLogFiles
  outputArtifacts := job.outputArtifacts
  waitForLicenses := job.waitForLicenses
  estimatedWalltime := job.estimatedWalltime
  priorityOffset := job.priorityOffset
  dependencies := job.dependencies
  dependencySpecs := job.dependencySpecs
  qos := job.qos

/-- Usage charged to each user, decayed over time. -/
structure UsageTracker where
  usage : HashMap String Float := ∅
  lastDecay : Nat := 0

namespace UsageTracker

def getUsage (tracker : UsageTracker) (user : String) : Float := tracker.usage.getD user 0.0

def accrue (tracker : UsageTracker) (user : String) (cost : Float) : UsageTracker :=
  { tracker with usage := tracker.usage.insert user (tracker.getUsage user + cost) }

def applyDecay (tracker : UsageTracker) (now : Nat) : UsageTracker :=
  let elapsed := now - tracker.lastDecay
  if elapsed > 60 then
    let factor := Float.pow 0.9 (elapsed.toFloat / 60.0)
    { usage := .ofList (tracker.usage.toList.map fun entry => (entry.1, entry.2 * factor))
      lastDecay := now }
  else tracker

end UsageTracker

end Veloce
