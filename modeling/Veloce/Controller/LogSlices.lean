import Mathlib.Algebra.Order.Floor.Div
import Veloce.Collections.Slices
import Veloce.Collections.Utf8Lossy
import Veloce.Controller.State

/-! Logs are read by offset and length: a part of an uploaded file, or of the text that is
merged from the workers of a job. -/

namespace Veloce

open Collections Collections.Slices

inductive LogType where
  | stdout
  | stderr
deriving DecidableEq, Repr

section Reading

variable {α : Type}

def logSlice (room : α → Nat) (content : List α) (offset : UInt64) (length : Option UInt64) : Option (List α) :=
  if offset.toNat < size room content then
    match length with
    | some len => slice room content offset.toNat (min (offset + len).toNat (size room content))
    | none => slice room content offset.toNat (size room content)
  else some []

/-- The log is read at the position, and reads of `n` one after the other give all of it. -/
def ReadsLog (room : α → Nat) (content : List α) (read : UInt64 → Option UInt64 → Option (List α))
    (offset : UInt64) (length : Option UInt64) (n : UInt64) : Prop :=
  (read offset length).isSome ∧
    (0 < n → gather (fun index => read (.ofNat (index * n.toNat)) (some n)) (size room content ⌈/⌉ n.toNat) = some content)

/-- The end of the part can be counted. -/
def EndFits (room : α → Nat) (content : List α) (offset : UInt64) (length : Option UInt64) : Prop :=
  offset.toNat < size room content → ∀ len, length = some len → offset.toNat + len.toNat < 2 ^ 64

/-- No item is cut where the part begins or ends, or where one of the reads of `n` begins. -/
def WholeItems (room : α → Nat) (content : List α) (offset : UInt64) (length : Option UInt64) (n : UInt64) : Prop :=
  (offset.toNat < size room content → Boundary room content offset.toNat ∧
    ∀ len, length = some len → Boundary room content (min (offset.toNat + len.toNat) (size room content))) ∧
  ∀ index, index * n.toNat < size room content → Boundary room content (index * n.toNat)

end Reading

section Handlers

def workerOrderForLogs (job : JobInfo) (tracking : MultinodeJobTracking) : List WorkerId :=
  match tracking.dispatchedWorkers.get? job.id with
  | some dispatched => if !dispatched.isEmpty then dispatched else job.assignedWorkers
  | none => job.assignedWorkers

/-- The line above the log of a worker. -/
def rankHeader (rank : Nat) (workerId : WorkerId) : List Char :=
  "=== rank ".toList ++ (toString rank).toList ++ " (".toList ++ workerId.toList ++ ") ===\n".toList

variable (download : String → Option (List UInt8))

def mergeWorkerLogBytes (workerOrder : List WorkerId) (logFiles : HashMap WorkerId WorkerLogFiles) (logType : LogType) :
    List UInt8 :=
  workerOrder.zipIdx.flatMap fun (workerId, rank) =>
    let fileId := (logFiles.get? workerId).bind fun files =>
      match logType with
      | .stdout => files.stdoutFileId
      | .stderr => files.stderrFileId
    match fileId.bind download with
    | none => []
    | some bytes =>
      let header := if workerOrder.length > 1 then (rankHeader rank workerId).flatMap String.utf8EncodeChar else []
      header ++ bytes ++ if bytes.getLast? = some 10 then [] else [10]

/-- The log that `fetch_multinode_log_text` slices, if there is one. -/
def multinodeLog (job : JobInfo) (tracking : MultinodeJobTracking) (logType : LogType) : Option (List UInt8) :=
  let workerOrder := workerOrderForLogs job tracking
  if workerOrder.length ≤ 1 then none
  else
    (tracking.workerLogFiles.get? job.id).bind fun logFiles =>
      if logFiles.isEmpty then none
      else
        let bytes := mergeWorkerLogBytes download workerOrder logFiles logType
        if bytes.isEmpty then none else some bytes

/-- The outer `none` is a panic. -/
def fetchMultinodeLogText (job : JobInfo) (tracking : MultinodeJobTracking) (logType : LogType) (offset : UInt64)
    (length : Option UInt64) : Option (Option (List Char)) :=
  match multinodeLog download job tracking logType with
  | none => some none
  | some bytes => (logSlice Char.utf8Size (Utf8.lossy bytes) offset length).map some

def apiGetJobLogs (bytes : List UInt8) (offset : UInt64) (length : Option UInt64) : Option (List Char) :=
  logSlice Char.utf8Size (Utf8.lossy bytes) offset length

def mergeAnswers (answers : List (WorkerId × Option (List UInt8))) : List Char :=
  answers.zipIdx.foldl (fun merged ((workerId, answer), rank) =>
    match answer with
    | none => merged
    | some content =>
      if content.isEmpty then merged
      else
        let merged := merged ++ rankHeader rank workerId ++ Utf8.lossy content
        if merged.getLast? = some '\n' then merged else merged ++ ['\n']) []

/-- The same handler, of the live logs of several workers. -/
def apiGetJobLogsLive (answers : List (WorkerId × Option (List UInt8))) (offset : UInt64) (length : Option UInt64) :
    Option (List Char) := logSlice Char.utf8Size (mergeAnswers answers) offset length

/-- `api_get_job_output_content`. -/
def readUploaded (bytes : List UInt8) (offset : UInt64) (length : Option UInt64) : Option (List UInt8) :=
  logSlice (fun _ => 1) bytes offset length

/-- `Message::GetLogs` from a client, for a job in the history. -/
def handleGetLogs (bytes : List UInt8) (offset : UInt64) (length : Option UInt64) : Option (List UInt8) :=
  logSlice (fun _ => 1) bytes offset length

end Handlers

section Requests

structure TextFile where
  bytes : List UInt8
  bounded : size Char.utf8Size (Utf8.lossy bytes) < 2 ^ 63

structure ByteFile where
  bytes : List UInt8
  bounded : bytes.length < 2 ^ 63

structure LiveAnswers where
  answers : List (WorkerId × Option (List UInt8))
  bounded : size Char.utf8Size (mergeAnswers answers) < 2 ^ 63

structure MultinodeRequest where
  download : String → Option (List UInt8)
  job : JobInfo
  tracking : MultinodeJobTracking
  logType : LogType
  bounded : ∀ bytes, multinodeLog download job tracking logType = some bytes → size Char.utf8Size (Utf8.lossy bytes) < 2 ^ 63

namespace MultinodeRequest

variable (request : MultinodeRequest)

def log : Option (List UInt8) := multinodeLog request.download request.job request.tracking request.logType

def fetch (offset : UInt64) (length : Option UInt64) : Option (Option (List Char)) :=
  fetchMultinodeLogText request.download request.job request.tracking request.logType offset length

/-- Without a log the request is answered so, and a log is read. -/
def Reads (offset : UInt64) (length : Option UInt64) (n : UInt64) : Prop :=
  (request.log = none → request.fetch offset length = some none) ∧
    ∀ bytes, request.log = some bytes → ReadsLog Char.utf8Size (Utf8.lossy bytes)
      (fun offset length => (request.fetch offset length).join) offset length n

end MultinodeRequest

end Requests

section Slices

variable {α : Type} {room : α → Nat} {content : List α} {offset n : UInt64} {length : Option UInt64}
variable (filled : ∀ item, 0 < room item)
include filled

theorem logSlice_isSome_iff : (logSlice room content offset length).isSome ↔
    EndFits room content offset length ∧ (offset.toNat < size room content → Boundary room content offset.toNat ∧
      ∀ len, length = some len → Boundary room content (min (offset.toNat + len.toNat) (size room content))) := by
  unfold logSlice
  split
  · rename_i inside
    cases length with
    | none =>
      rw [slice_isSome_iff filled]
      have whole : Boundary room content (size room content) := boundary_size content
      simp [EndFits, inside, whole, Nat.le_of_lt inside]
    | some len =>
      rw [slice_isSome_iff filled, UInt64.toNat_add]
      simp only [EndFits, inside, Option.some.injEq, forall_eq', forall_const]
      have short := offset.toNat_lt
      have short' := len.toNat_lt
      constructor
      · rintro ⟨ordered, start, stop⟩
        have fits : offset.toNat + len.toNat < 2 ^ 64 := by omega
        rw [Nat.mod_eq_of_lt fits] at stop
        exact ⟨fits, start, stop⟩
      · rintro ⟨fits, start, stop⟩
        rw [Nat.mod_eq_of_lt fits]
        exact ⟨by omega, start, stop⟩
  · rename_i outside
    simp [EndFits, outside]

theorem gather_logSlice_iff (bounded : size room content < 2 ^ 63) (nonzero : 0 < n) :
    gather (fun index => logSlice room content (.ofNat (index * n.toNat)) (some n)) (size room content ⌈/⌉ n.toNat) =
      some content ↔ ∀ index, index * n.toNat < size room content → Boundary room content (index * n.toNat) := by
  have positive : 0 < n.toNat := UInt64.lt_iff_toNat_lt.mp nonzero
  have needed (index : Nat) (early : index < size room content ⌈/⌉ n.toNat) : index * n.toNat < size room content := by
    rw [Nat.mul_comm]
    exact Nat.lt_of_not_le fun done => absurd ((ceilDiv_le_iff_le_smul positive).mpr done) (Nat.not_le.mpr early)
  refine gather_eq_iff filled ?_ needed fun index early => ?_
  · rw [Nat.mul_comm]
    exact le_smul_ceilDiv positive
  · have inside := needed index early
    have short := n.toNat_lt
    -- the first read begins at 0, and behind it the length is no larger than the offset
    have fits : index * n.toNat + n.toNat < 2 ^ 64 := by
      cases index with
      | zero => omega
      | succ index =>
        rw [Nat.succ_mul] at inside ⊢
        omega
    have start : (UInt64.ofNat (index * n.toNat)).toNat = index * n.toNat := UInt64.toNat_ofNat_of_lt (by rw [UInt64.size]; omega)
    have stop : (UInt64.ofNat (index * n.toNat) + n).toNat = index * n.toNat + n.toNat := by
      rw [UInt64.toNat_add, start, Nat.mod_eq_of_lt fits]
    simp only [logSlice, start, if_pos inside, stop]

theorem readsLog_iff (bounded : size room content < 2 ^ 63) :
    ReadsLog room content (logSlice room content) offset length n ↔
      EndFits room content offset length ∧ WholeItems room content offset length n := by
  rw [ReadsLog, logSlice_isSome_iff filled, WholeItems, and_assoc]
  refine and_congr_right fun _ => and_congr_right fun _ => ?_
  constructor
  · intro whole index inside
    by_cases nonzero : 0 < n
    · exact (gather_logSlice_iff filled bounded nonzero).mp (whole nonzero) index inside
    · have zero : n.toNat = 0 := Nat.eq_zero_of_not_pos fun positive => nonzero (UInt64.lt_iff_toNat_lt.mpr positive)
      rw [zero, Nat.mul_zero]
      exact ⟨[], content, rfl, rfl⟩
  · intro boundaries nonzero
    exact (gather_logSlice_iff filled bounded nonzero).mpr boundaries

end Slices

section Sites

variable {offset n : UInt64} {length : Option UInt64}

theorem text_readsLog_iff {text : List Char} (bounded : size Char.utf8Size text < 2 ^ 63) :
    ReadsLog Char.utf8Size text (logSlice Char.utf8Size text) offset length n ↔
      EndFits Char.utf8Size text offset length ∧ WholeItems Char.utf8Size text offset length n :=
  readsLog_iff Char.utf8Size_pos bounded

theorem bytes_readsLog_iff (file : ByteFile) :
    ReadsLog (fun _ => 1) file.bytes (logSlice (fun _ => 1) file.bytes) offset length n ↔
      EndFits (fun _ => 1) file.bytes offset length := by
  have bounded : size (fun _ => 1) file.bytes < 2 ^ 63 := by
    rw [size_one]
    exact file.bounded
  rw [readsLog_iff (fun _ => Nat.one_pos) bounded]
  refine and_iff_left ⟨fun inside => ⟨?_, fun len _ => ?_⟩, fun index inside => ?_⟩
  · exact boundary_one (Nat.le_of_lt inside)
  · exact boundary_one (Nat.min_le_right ..)
  · exact boundary_one (Nat.le_of_lt inside)

theorem MultinodeRequest.reads_iff (request : MultinodeRequest) : request.Reads offset length n ↔
    ∀ bytes, request.log = some bytes → EndFits Char.utf8Size (Utf8.lossy bytes) offset length ∧
      WholeItems Char.utf8Size (Utf8.lossy bytes) offset length n := by
  have absent (none : request.log = none) : request.fetch offset length = some Option.none := by
    rw [fetch, fetchMultinodeLogText, ← MultinodeRequest.log, none]
  have present (bytes : List UInt8) (found : request.log = some bytes) :
      (fun offset length => (request.fetch offset length).join) = logSlice Char.utf8Size (Utf8.lossy bytes) := by
    funext offset length
    rw [fetch, fetchMultinodeLogText, ← MultinodeRequest.log, found]
    change (Option.map some (logSlice Char.utf8Size (Utf8.lossy bytes) offset length)).join = _
    cases logSlice Char.utf8Size (Utf8.lossy bytes) offset length <;> rfl
  rw [Reads, and_iff_right absent]
  refine forall₂_congr fun bytes found => ?_
  rw [present bytes found]
  exact text_readsLog_iff (request.bounded bytes found)

/-- Every handler reads a log if and only if the end of the part can be counted and, where the
log is read as text, no character is cut. -/
theorem logs_read_iff (offset : UInt64) (length : Option UInt64) (n : UInt64) :
    (∀ request : MultinodeRequest, request.Reads offset length n ↔
      ∀ bytes, request.log = some bytes → EndFits Char.utf8Size (Utf8.lossy bytes) offset length ∧
        WholeItems Char.utf8Size (Utf8.lossy bytes) offset length n) ∧
    (∀ file : TextFile, ReadsLog Char.utf8Size (Utf8.lossy file.bytes) (apiGetJobLogs file.bytes) offset length n ↔
      EndFits Char.utf8Size (Utf8.lossy file.bytes) offset length ∧
        WholeItems Char.utf8Size (Utf8.lossy file.bytes) offset length n) ∧
    (∀ live : LiveAnswers, ReadsLog Char.utf8Size (mergeAnswers live.answers) (apiGetJobLogsLive live.answers) offset length n ↔
      EndFits Char.utf8Size (mergeAnswers live.answers) offset length ∧
        WholeItems Char.utf8Size (mergeAnswers live.answers) offset length n) ∧
    (∀ file : ByteFile, ReadsLog (fun _ => 1) file.bytes (readUploaded file.bytes) offset length n ↔
      EndFits (fun _ => 1) file.bytes offset length) ∧
    ∀ file : ByteFile, ReadsLog (fun _ => 1) file.bytes (handleGetLogs file.bytes) offset length n ↔
      EndFits (fun _ => 1) file.bytes offset length :=
  ⟨fun request => request.reads_iff, fun file => text_readsLog_iff file.bounded, fun live => text_readsLog_iff live.bounded,
    bytes_readsLog_iff, bytes_readsLog_iff⟩

def accentedLog : List UInt8 := ['é'].flatMap String.utf8EncodeChar

/-- A text is cut inside a letter, and one byte from offset 1 on is asked for with too large a length. -/
theorem log_slices_panic :
    ¬ ReadsLog Char.utf8Size (Utf8.lossy accentedLog) (apiGetJobLogs accentedLog) 1 none 1 ∧
    ¬ ReadsLog (fun _ => 1) [10, 10] (readUploaded [10, 10]) 1 (some 0xFFFFFFFFFFFFFFFF) 1 := by
  constructor
  · intro reads
    have text : Utf8.lossy accentedLog = ['é'] := by simpa [accentedLog] using Utf8.lossy_encode ['é'] []
    have sliced := reads.1
    rw [apiGetJobLogs, text] at sliced
    exact absurd sliced (by decide)
  · intro reads
    exact absurd reads.1 (by decide)

end Sites

end Veloce
