import Mathlib.Data.List.Induction
import Veloce.Common.JobPolicy
import Veloce.Controller.State

/-! The accounting stores. -/

namespace Veloce

open Collections

/-- Union per-worker log ids: a report without an id keeps the one that is known. -/
def mergeWorkerLogFileMaps (base extra : HashMap WorkerId WorkerLogFiles) : HashMap WorkerId WorkerLogFiles :=
  extra.updateEntries (fun _ files existing =>
    match existing with
    | some existing => some {
        stdoutFileId := files.stdoutFileId.or existing.stdoutFileId
        stderrFileId := files.stderrFileId.or existing.stderrFileId }
    | none => some files) base

theorem get?_mergeWorkerLogFileMaps (base extra : HashMap WorkerId WorkerLogFiles) (workerId : WorkerId) :
    (mergeWorkerLogFileMaps base extra).get? workerId =
      match extra.get? workerId, base.get? workerId with
      | some files, some existing => some {
          stdoutFileId := files.stdoutFileId.or existing.stdoutFileId
          stderrFileId := files.stderrFileId.or existing.stderrFileId }
      | some files, none => some files
      | none, known => known := by
  rw [mergeWorkerLogFileMaps, HashMap.get?_updateEntries]
  cases extra.get? workerId with
  | none => rfl
  | some files => cases base.get? workerId <;> rfl

theorem mergeWorkerLogFileMaps_same {base base' extra extra' : HashMap WorkerId WorkerLogFiles}
    (same : base.Same base') (same' : extra.Same extra') :
    (mergeWorkerLogFileMaps base extra).Same (mergeWorkerLogFileMaps base' extra') := by
  intro workerId
  rw [get?_mergeWorkerLogFileMaps, get?_mergeWorkerLogFileMaps, same workerId, same' workerId]

def JobStatus.column : JobStatus → String
  | .pending => "Pending"
  | .running => "Running"
  | .completed code => "Completed(" ++ toString code ++ ")"
  | .failed error => "Failed(" ++ error ++ ")"
  | .killed => "Cancelled"

/-- `str::trim_end_matches` of one character. -/
def trimEndMatches (text : String) (char : Char) : String :=
  String.ofList (text.toList.reverse.dropWhile (· = char)).reverse

def parseJobStatus (statusStr : String) (exitCode : Option Int) : JobStatus :=
  if statusStr = "Pending" then .pending
  else if statusStr = "Running" then .running
  else if statusStr = "Cancelled" ∨ statusStr = "Killed" then .killed
  else if beginsWith statusStr "Failed" then .failed (trimEndMatches (trimStartMatches statusStr "Failed(") ')')
  else .completed (exitCode.getD 0)

/-- A record on its way to the store or in it. `final` tells the record of a finished
job from the usage report of a worker; the stores never look at it. -/
structure Entry where
  usage : JobUsage
  final : Bool

inductive Backend where
  | file
  | database
deriving DecidableEq

/-- The rows that a store has taken, in the order of the writes. -/
inductive Log where
  | backend
  | fallback
deriving DecidableEq

/-- `ResilientAccountingStore` and the stores behind it. With the file as the backend
there is no other file to fall back to. -/
structure AccountingStore where
  backend : Backend := .file
  rows : List Entry := []
  fallback : List Entry := []
  buffer : List Entry := []
  /-- The records that the retry loop has drained from the buffer and not tried yet. -/
  retrying : List Entry := []
  /-- Those that it tried in vain. -/
  failed : List Entry := []

def sampleRecord (jobId : JobId) (cpuTimeMs : Nat) : JobUsage :=
  { jobToUsage { id := jobId, binary := "sh", reqNodes := 1, reqCores := 1, reqMemory := 1, userId := "user" } with
    cpuTimeMs := cpuTimeMs }

/-- A later record of a job replaces the earlier one, except for its log files. -/
def JobUsage.over (usage : JobUsage) : Option JobUsage → JobUsage
  | some prev => { usage with workerLogFiles := mergeWorkerLogFileMaps prev.workerLogFiles usage.workerLogFiles }
  | none => usage

/-- The history of one job in a log: its last record, with the log files of all. -/
def queryHistory (rows : List Entry) (jobId : JobId) : Option JobUsage :=
  rows.foldl (fun prev entry => if entry.usage.jobId = jobId then some (entry.usage.over prev) else prev) none

namespace AccountingStore

def log (store : AccountingStore) : Log → List Entry
  | .backend => store.rows
  | .fallback => store.fallback

def fileLog (store : AccountingStore) : Log :=
  match store.backend with
  | .file => .backend
  | .database => .fallback

def write (store : AccountingStore) (entry : Entry) : Log → AccountingStore
  | .backend => { store with rows := store.rows ++ [entry] }
  | .fallback => { store with fallback := store.fallback ++ [entry] }

def pushBuffer (store : AccountingStore) (entry : Entry) : AccountingStore :=
  { store with buffer := (if store.buffer.length < 1000 then store.buffer else store.buffer.tail) ++ [entry] }

/-- `record_job`: what the backend refuses is buffered and appended to the file. `up` says
whether the backend takes the record, `writable` whether the file does. -/
def recordJob (store : AccountingStore) (entry : Entry) (up writable : Bool) : AccountingStore :=
  if up then store.write entry .backend
  else if writable then (store.pushBuffer entry).write entry store.fileLog
  else store.pushBuffer entry

/-- The status that a row of the log is read back with: the database stores it as text. -/
def readStatus (store : AccountingStore) (log : Log) (usage : JobUsage) : JobStatus :=
  match store.backend, log with
  | .database, .backend => parseJobStatus usage.status.column usage.exitCode
  | _, _ => usage.status

/-- The log that answers a query, if any does: a query that the database refuses goes to
the file, and a file that cannot be opened has no rows. -/
def answering (store : AccountingStore) (up readable : Bool) : Option Log :=
  match store.backend with
  | .database => if up then some .backend else if readable then some .fallback else none
  | .file => if readable then some .backend else none

/-- The status of the first row of `query_history` for one job. -/
def lookUp (store : AccountingStore) (up readable : Bool) (jobId : JobId) : Option JobStatus :=
  (store.answering up readable).bind fun log =>
    (queryHistory (store.log log) jobId).map (store.readStatus log)

def drain (store : AccountingStore) : Option AccountingStore :=
  if store.retrying.isEmpty ∧ store.failed.isEmpty then
    some { store with retrying := store.buffer, buffer := [] }
  else none

def retry (store : AccountingStore) (up : Bool) : Option AccountingStore :=
  match store.retrying with
  | [] => none
  | entry :: rest =>
    if up then some ({ store with retrying := rest }.write entry .backend)
    else some { store with retrying := rest, failed := store.failed ++ [entry] }

def rebuffer (store : AccountingStore) : Option AccountingStore :=
  if store.retrying.isEmpty then some { store with buffer := store.failed ++ store.buffer, failed := [] }
  else none

end AccountingStore

/-- The last row of the job decides what a lookup returns. -/
def lastRow (rows : List Entry) (jobId : JobId) : Option Entry :=
  (rows.filter (·.usage.jobId = jobId)).getLast?

theorem lastRow_append (rows : List Entry) (entry : Entry) (jobId : JobId) :
    lastRow (rows ++ [entry]) jobId = if entry.usage.jobId = jobId then some entry else lastRow rows jobId := by
  rw [lastRow, List.filter_append]
  by_cases own : entry.usage.jobId = jobId
  · simp [own]
  · simp [own, lastRow]

theorem lastRow_jobId {rows : List Entry} {entry : Entry} {jobId : JobId} (last : lastRow rows jobId = some entry) :
    entry.usage.jobId = jobId := by
  have member := List.mem_of_getLast? last
  exact of_decide_eq_true (List.mem_filter.mp member).2

/-- A lookup reads the status and the exit code of the last row. -/
theorem queryHistory_lastRow (rows : List Entry) (jobId : JobId) :
    (queryHistory rows jobId).map (fun usage => (usage.status, usage.exitCode)) =
      (lastRow rows jobId).map fun entry => (entry.usage.status, entry.usage.exitCode) := by
  induction rows using List.reverseRecOn with
  | nil => rfl
  | append_singleton rows entry ih =>
    have added : queryHistory (rows ++ [entry]) jobId =
        if entry.usage.jobId = jobId then some (entry.usage.over (queryHistory rows jobId))
        else queryHistory rows jobId := by
      rw [queryHistory, List.foldl_append]
      rfl
    rw [added, lastRow_append]
    split
    · cases queryHistory rows jobId with
      | none => rfl
      | some prev => rfl
    · exact ih

theorem AccountingStore.lookUp_eq (store : AccountingStore) (up readable : Bool) (jobId : JobId) :
    store.lookUp up readable jobId = (store.answering up readable).bind fun log =>
      (lastRow (store.log log) jobId).map fun entry => store.readStatus log entry.usage := by
  unfold lookUp
  congr 1
  funext log
  -- Both readings of a row are functions of its status and its exit code.
  obtain ⟨read, same⟩ : ∃ read : JobStatus × Option Int → JobStatus,
      ∀ usage, store.readStatus log usage = read (usage.status, usage.exitCode) := by
    unfold readStatus
    split
    · exact ⟨fun columns => parseJobStatus columns.1.column columns.2, fun _ => rfl⟩
    · exact ⟨Prod.fst, fun _ => rfl⟩
  have columns := congrArg (Option.map read) (queryHistory_lastRow (store.log log) jobId)
  rw [Option.map_map, Option.map_map] at columns
  rw [funext same]
  exact columns

/-- A text that starts like none of the fixed ones is read by its beginning. -/
theorem parseJobStatus_of_start {text : String} {start : List Char} (starts : start <+: text.toList)
    (apart : ∀ fixed ∈ ["Pending", "Running", "Cancelled", "Killed"], ¬ start <+: fixed.toList) (exitCode : Option Int) :
    parseJobStatus text exitCode =
      if beginsWith text "Failed" then .failed (trimEndMatches (trimStartMatches text "Failed(") ')')
      else .completed (exitCode.getD 0) := by
  have differs (fixed : String) (member : fixed ∈ ["Pending", "Running", "Cancelled", "Killed"]) : text ≠ fixed :=
    fun same => apart fixed member (same ▸ starts)
  unfold parseJobStatus
  rw [if_neg (differs "Pending" (by decide)), if_neg (differs "Running" (by decide)),
    if_neg (not_or.mpr ⟨differs "Cancelled" (by decide), differs "Killed" (by decide)⟩)]

theorem parse_completed (code : Int) (exitCode : Option Int) :
    parseJobStatus (JobStatus.completed code).column exitCode = .completed (exitCode.getD 0) := by
  have text : (JobStatus.completed code).column.toList = "Co".toList ++
      ("mpleted(".toList ++ (toString code).toList ++ ")".toList) := by
    simp [JobStatus.column, String.toList_append]
  rw [parseJobStatus_of_start (text ▸ List.prefix_append ..) (by decide), if_neg (by simp [beginsWith, text])]

theorem parse_failed (error : String) (exitCode : Option Int) :
    parseJobStatus (JobStatus.failed error).column exitCode =
      .failed (trimEndMatches (trimStartMatches (JobStatus.failed error).column "Failed(") ')') := by
  have text : (JobStatus.failed error).column.toList = "Failed".toList ++ ('(' :: (error.toList ++ ")".toList)) := by
    simp [JobStatus.column, String.toList_append]
  have starts : "Failed".toList <+: (JobStatus.failed error).column.toList := text ▸ List.prefix_append ..
  rw [parseJobStatus_of_start starts (by decide), if_pos (beginsWith_iff.mpr starts)]

theorem parseJobStatus_column {job : JobInfo} (ended : job.status.terminal = true) :
    (parseJobStatus job.status.column (jobToUsage job).exitCode = .completed 0 ↔ job.status = .completed 0) := by
  cases status : job.status with
  | pending | running => rw [status] at ended; cases ended
  | killed => exact ⟨fun same => (by cases same), fun same => (by cases same)⟩
  | completed code =>
    have exit : (jobToUsage job).exitCode = some code := by simp [jobToUsage, status]
    rw [exit, parse_completed]
    rfl
  | failed error =>
    rw [parse_failed]
    exact ⟨fun same => (by cases same), fun same => (by cases same)⟩

end Veloce
