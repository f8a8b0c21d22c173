import Mathlib.Data.Countable.Basic
import Veloce.Collections.Codec
import Veloce.Controller.FileStore

/-! The SQL store. -/

namespace Veloce

open Collections

def asI64 (value : Nat) : Int := (BitVec.ofNat 64 value).toInt

def asI32 (value : Nat) : Int := (BitVec.ofNat 32 value).toInt

def asU64 (value : Int) : Nat := (BitVec.ofInt 64 value).toNat

def asU32OfI32 (value : Int) : Nat := (BitVec.ofInt 32 value).toNat

/-- `serde_json` at the types of the columns, a library. -/
structure SerdeJson where
  strings : Codec (List String) Eq
  ids : Codec (List JobId) Eq
  gres : Codec (HashMap String Nat) HashMap.Same
  artifacts : Codec (List JobOutputArtifact) Eq
  logFiles : Codec (HashMap WorkerId WorkerLogFiles) HashMap.Same

inductive Database where
  | sqlite
  | postgres
deriving DecidableEq

structure AccountingRow where
  jobId : Int
  jobName : Option String
  jobComment : Option String
  commandLine : String
  userId : String
  submissionTime : Int
  startTime : Option Int
  endTime : Option Int
  exitCode : Option Int
  status : String
  cpuTimeMs : Int
  maxMemoryBytes : Int
  reqNodes : Int
  reqCores : Int
  reqMemory : Int
  arrayId : Option Int
  arrayTaskId : Option Int
  assignedWorkers : String
  gresReq : String
  cgroupActive : Bool
  secret : String
  secretEnc : Option String
  stdoutFileId : Option String
  stderrFileId : Option String
  workdirFileId : Option String
  workerLogFiles : String
  outputArtifacts : String
  waitForLicenses : Bool
  estimatedWalltime : Option Int
  priorityOffset : Option Int
  dependencies : Option String
  dependencySpecs : Option String
  qos : String

def QosLevel.column : QosLevel → String
  | .interactive => "Interactive"
  | .production => "Production"
  | .preemptible => "Preemptible"
  | .background => "Background"

def parseQosLevel (text : String) : QosLevel :=
  if text = "Interactive" then .interactive
  else if text = "Preemptible" then .preemptible
  else if text = "Background" then .background
  else .production

/-- A `VARCHAR` column of PostgreSQL: a longer text is an error, except that spaces at its
end are cut off. -/
def varchar (limit : Nat) (text : String) : Option String :=
  if text.length ≤ limit then some text
  else if (text.toList.drop limit).all (· = ' ') then some (String.ofList (text.toList.take limit))
  else none

/-- The plain texts of a row; JSON and base64 have no NUL. -/
def AccountingRow.texts (row : AccountingRow) : List String :=
  [row.commandLine, row.userId, row.status, row.secret] ++ row.jobName.toList ++ row.jobComment.toList ++
    row.stdoutFileId.toList ++ row.stderrFileId.toList ++ row.workdirFileId.toList

/-- What the database stores for the bound values, if it takes them. -/
def Database.accept : Database → AccountingRow → Option AccountingRow
  | .sqlite, row => some row
  | .postgres, row =>
    if row.texts.any fun text => Char.ofNat 0 ∈ text.toList then none
    else do
      let userId ← varchar 255 row.userId
      let status ← varchar 50 row.status
      let secret ← varchar 255 row.secret
      let stdoutFileId ← row.stdoutFileId.mapM (varchar 255)
      let stderrFileId ← row.stderrFileId.mapM (varchar 255)
      let workdirFileId ← row.workdirFileId.mapM (varchar 255)
      some { row with
        userId := userId, status := status, secret := secret, stdoutFileId := stdoutFileId
        stderrFileId := stderrFileId, workdirFileId := workdirFileId }

structure SqlxAccountingStore where
  database : Database := .sqlite
  json : SerdeJson
  secrets : JobSecretsCipher := {}
  table : HashMap Int AccountingRow := ∅

/-- The rows that the WHERE clause of a query selects. -/
def HistoryFilter.selects (filter : HistoryFilter) (rowId : Int) : Bool :=
  match filter with
  | .all => true
  | .single id => rowId = asI64 id
  | .range first last => asI64 first ≤ rowId && rowId ≤ asI64 last

namespace SqlxAccountingStore

variable (store : SqlxAccountingStore)

/-- The values that `record_job` binds. -/
def columns (nonce : Nat) (record : JobUsage) (workerLogFiles : HashMap WorkerId WorkerLogFiles) : AccountingRow :=
  let atRest := store.secrets.encodeForStorage nonce record.secret
  { jobId := asI64 record.jobId
    jobName := record.jobName
    jobComment := record.jobComment
    commandLine := record.commandLine
    userId := record.userId
    submissionTime := asI64 record.submissionTime
    startTime := record.startTime.map asI64
    endTime := record.endTime.map asI64
    exitCode := record.exitCode
    status := record.status.column
    cpuTimeMs := asI64 record.cpuTimeMs
    maxMemoryBytes := asI64 record.maxMemoryBytes
    reqNodes := asI32 record.reqNodes
    reqCores := asI32 record.reqCores
    reqMemory := asI64 record.reqMemory
    arrayId := record.arrayId.map asI64
    arrayTaskId := record.arrayTaskId.map asI32
    assignedWorkers := store.json.strings.encode record.assignedWorkers
    gresReq := store.json.gres.encode record.gresReq
    cgroupActive := record.cgroupActive
    secret := atRest.secretColumn
    secretEnc := atRest.secretEnc
    stdoutFileId := record.stdoutFileId
    stderrFileId := record.stderrFileId
    workdirFileId := record.workdirFileId
    workerLogFiles := store.json.logFiles.encode workerLogFiles
    outputArtifacts := store.json.artifacts.encode record.outputArtifacts
    waitForLicenses := record.waitForLicenses
    estimatedWalltime := record.estimatedWalltime.map asI64
    priorityOffset := record.priorityOffset
    dependencies := record.dependencies.map store.json.ids.encode
    dependencySpecs := record.dependencySpecs.map store.json.strings.encode
    qos := record.qos.column }

def mapRow (row : AccountingRow) : JobUsage where
  containerAsset := none
  jobId := asU64 row.jobId
  jobName := row.jobName
  jobComment := row.jobComment
  commandLine := row.commandLine
  userId := row.userId
  submissionTime := asU64 row.submissionTime
  startTime := row.startTime.map asU64
  endTime := row.endTime.map asU64
  exitCode := row.exitCode
  status := parseJobStatus row.status row.exitCode
  cpuTimeMs := asU64 row.cpuTimeMs
  maxMemoryBytes := asU64 row.maxMemoryBytes
  reqNodes := asU64 row.reqNodes
  reqCores := asU32OfI32 row.reqCores
  reqMemory := asU64 row.reqMemory
  arrayId := row.arrayId.map asU64
  arrayTaskId := row.arrayTaskId.map asU32OfI32
  assignedWorkers := (store.json.strings.decode row.assignedWorkers).getD []
  gresReq := (store.json.gres.decode row.gresReq).getD ∅
  cgroupActive := row.cgroupActive
  secret := store.secrets.decodeAtRest row.secretEnc row.secret
  stdoutFileId := row.stdoutFileId
  stderrFileId := row.stderrFileId
  workdirFileId := row.workdirFileId
  workerLogFiles := (store.json.logFiles.decode row.workerLogFiles).getD ∅
  outputArtifacts := (store.json.artifacts.decode row.outputArtifacts).getD []
  waitForLicenses := row.waitForLicenses
  estimatedWalltime := row.estimatedWalltime.map asU64
  priorityOffset := row.priorityOffset
  dependencies := row.dependencies.bind store.json.ids.decode
  dependencySpecs := row.dependencySpecs.bind store.json.strings.decode
  qos := parseQosLevel row.qos

def queryHistory (filter : HistoryFilter) : List JobUsage :=
  let rows := store.table.values.filter fun row => filter.selects row.jobId
  (rows.mergeSort fun row row' => row.jobId ≤ row'.jobId).map store.mapRow

/-- The log files that `record_job` writes, given the row that its query found. -/
def mergedLogs (prev : Option JobUsage) (record : JobUsage) : HashMap WorkerId WorkerLogFiles :=
  match prev with
  | some prev => mergeWorkerLogFileMaps prev.workerLogFiles record.workerLogFiles
  | none => record.workerLogFiles

def upsert (row : AccountingRow) : Option SqlxAccountingStore :=
  (store.database.accept row).map fun row => { store with table := store.table.insert row.jobId row }

def existing (record : JobUsage) : Option JobUsage := (store.queryHistory (.single record.jobId)).head?

def recordJob (nonce : Nat) (record : JobUsage) : Option SqlxAccountingStore :=
  store.upsert (store.columns nonce record (mergedLogs (store.existing record) record))

end SqlxAccountingStore

section Casts

variable {value : Nat}

theorem asU64_asI64 (small : value < 2 ^ 64) : asU64 (asI64 value) = value := by
  rw [asU64, asI64, BitVec.ofInt_toInt, BitVec.toNat_ofNat]
  exact Nat.mod_eq_of_lt small

theorem asI64_of_lt (small : value < 2 ^ 63) : asI64 value = value := by
  have fits : (BitVec.ofNat 64 value).toNat = value := by
    rw [BitVec.toNat_ofNat]
    exact Nat.mod_eq_of_lt (by omega)
  rw [asI64, BitVec.toInt_eq_toNat_of_lt (by omega), fits]

theorem asI64_of_ge (large : 2 ^ 63 ≤ value) (small : value < 2 ^ 64) : asI64 value < 0 := by
  have fits : (BitVec.ofNat 64 value).toNat = value := by
    rw [BitVec.toNat_ofNat]
    exact Nat.mod_eq_of_lt small
  rw [asI64, BitVec.toInt_eq_toNat_cond, if_neg (by omega), fits]
  omega

theorem asI64_inj {other : Nat} (small : value < 2 ^ 64) (small' : other < 2 ^ 64) :
    asI64 value = asI64 other ↔ value = other := by
  constructor
  · intro same
    rw [← asU64_asI64 small, same, asU64_asI64 small']
  · exact congrArg asI64

theorem asU32_asI32 (small : value < 2 ^ 32) : asU32OfI32 (asI32 value) = value := by
  rw [asU32OfI32, asI32, BitVec.ofInt_toInt, BitVec.toNat_ofNat]
  exact Nat.mod_eq_of_lt small

theorem asU64_asI32 (small : value < 2 ^ 31) : asU64 (asI32 value) = value := by
  have fits : (BitVec.ofNat 32 value).toNat = value := by
    rw [BitVec.toNat_ofNat]
    exact Nat.mod_eq_of_lt (by omega)
  rw [asU64, asI32, BitVec.toInt_eq_toNat_of_lt (by omega), fits, BitVec.ofInt_natCast, BitVec.toNat_ofNat]
  exact Nat.mod_eq_of_lt (by omega)

theorem map_cast {cast : Nat → Int} {back : Int → Nat} {bound : Nat}
    (inverse : ∀ value < bound, back (cast value) = value)
    {field : Option Nat} (small : ∀ value ∈ field, value < bound) : (field.map cast).map back = field := by
  cases field with
  | none => rfl
  | some value => rw [Option.map_some, Option.map_some, inverse value (small value rfl)]

end Casts

theorem parseQosLevel_column (qos : QosLevel) : parseQosLevel qos.column = qos := by
  cases qos <;> decide

theorem map_decode {α : Type} (codec : Codec α Eq) (field : Option α) :
    (field.map codec.encode).bind codec.decode = field := by
  cases field with
  | none => rfl
  | some value => rw [Option.map_some, Option.bind_some, codec.decode_encode]

/-- The status comes back from its text: a reason does not begin with what is cut off its
front nor end with what is cut off its end, and an exit code has a column of its own. -/
def JobUsage.StatusReadsBack (usage : JobUsage) : Prop :=
  match usage.status with
  | .pending | .running | .killed => True
  | .completed code => usage.exitCode.getD 0 = code
  | .failed error => beginsWith error "Failed(" = false ∧ error.toList.getLast? ≠ some ')'

theorem trimStart_length_le (start : List Char) : ∀ (fuel : Nat) (text : List Char),
    (trimStart start fuel text).length ≤ text.length := by
  intro fuel
  induction fuel with
  | zero => intro text; exact Nat.le_refl _
  | succ fuel ih =>
    intro text
    rw [trimStart]
    split
    · refine (ih _).trans ?_
      rw [List.length_drop]
      omega
    · exact Nat.le_refl _

theorem trimEndMatches_length_le (text : String) (char : Char) :
    (trimEndMatches text char).length ≤ text.length := by
  rw [trimEndMatches, String.length_ofList, List.length_reverse, ← String.length_toList, ← text.toList.length_reverse]
  exact (List.dropWhile_sublist _).length_le

theorem trimEndMatches_append (text : String) (char : Char) :
    trimEndMatches (text ++ String.singleton char) char = trimEndMatches text char := by
  simp [trimEndMatches]

theorem trimEndMatches_eq_self {text : String} {char : Char} :
    trimEndMatches text char = text ↔ text.toList.getLast? ≠ some char := by
  rw [trimEndMatches, ← String.toList_inj, String.toList_ofList, List.reverse_eq_iff, List.getLast?_eq_head?_reverse]
  cases text.toList.reverse with
  | nil => simp
  | cons last rest =>
    by_cases same : last = char
    · have shorter := (List.dropWhile_sublist (l := rest) fun other => decide (other = char)).length_le
      rw [List.dropWhile_cons_of_pos (by simpa using same), List.head?_cons, same]
      refine ⟨fun equal => ?_, fun differs => absurd rfl differs⟩
      rw [equal, List.length_cons] at shorter
      omega
    · rw [List.dropWhile_cons_of_neg (by simpa using same)]
      simpa using same

theorem trim_failed_iff (error : String) :
    trimEndMatches (trimStartMatches (JobStatus.failed error).column "Failed(") ')' = error ↔
      beginsWith error "Failed(" = false ∧ error.toList.getLast? ≠ some ')' := by
  have text : (JobStatus.failed error).column = "Failed(" ++ (error ++ ")") := by
    rw [JobStatus.column, String.append_assoc]
  rw [text]
  cases starts : beginsWith error "Failed(" with
  | false =>
    have apart : beginsWith (error ++ ")") "Failed(" = false := by
      rw [Bool.eq_false_iff] at starts ⊢
      intro longer
      refine starts ?_
      rw [beginsWith_iff] at longer ⊢
      rw [String.toList_append, show ")".toList = [')'] from rfl, List.prefix_concat_iff] at longer
      refine longer.resolve_left fun same => ?_
      have member : ')' ∈ "Failed(".toList := same ▸ by simp
      exact absurd member (by decide)
    rw [trimStartMatches_append (by decide) apart, show ")" = String.singleton ')' from rfl, trimEndMatches_append,
      trimEndMatches_eq_self]
    exact ⟨fun last => ⟨rfl, last⟩, And.right⟩
  | true =>
    -- The pattern comes off twice, so that the rest is shorter than the reason.
    refine ⟨fun same => ?_, fun both => by cases both.1⟩
    obtain ⟨rest, split⟩ := beginsWith_iff.mp starts
    have longer : error.length = 7 + rest.length := by
      rw [← String.length_toList, ← split, List.length_append]
      rfl
    have bound := trimEndMatches_length_le (trimStartMatches ("Failed(" ++ (error ++ ")")) "Failed(") ')'
    have fuel : ("Failed(" ++ (error ++ ")")).length = (6 + error.length) + 1 + 1 := by
      rw [String.length_append, String.length_append, show "Failed(".length = 7 from rfl, show ")".length = 1 from rfl]
      omega
    have body : (error ++ ")").toList = "Failed(".toList ++ (rest ++ [')']) := by
      rw [String.toList_append, ← split, List.append_assoc]
      rfl
    have left := trimStart_length_le "Failed(".toList (6 + error.length) (rest ++ [')'])
    rw [same, trimStartMatches, fuel, String.toList_append, trimStart_append _ _ _ (by decide), body,
      trimStart_append _ _ _ (by decide), String.length_ofList] at bound
    rw [List.length_append, List.length_singleton] at left
    omega

theorem parseJobStatus_column_iff (usage : JobUsage) :
    parseJobStatus usage.status.column usage.exitCode = usage.status ↔ usage.StatusReadsBack := by
  unfold JobUsage.StatusReadsBack
  cases usage.status with
  | pending | running | killed => exact ⟨fun _ => trivial, fun _ => rfl⟩
  | completed code => rw [parse_completed, JobStatus.completed.injEq]
  | failed error => rw [parse_failed, JobStatus.failed.injEq, trim_failed_iff]

/-- The values are those of the fields' Rust types, ids and times below `2^63` and the
numbers of nodes, cores and array tasks below `2^31`. -/
structure JobUsage.InRange (usage : JobUsage) : Prop where
  jobId : usage.jobId < 2 ^ 63
  submissionTime : usage.submissionTime < 2 ^ 63
  startTime : ∀ time ∈ usage.startTime, time < 2 ^ 63
  endTime : ∀ time ∈ usage.endTime, time < 2 ^ 63
  cpuTimeMs : usage.cpuTimeMs < 2 ^ 64
  maxMemoryBytes : usage.maxMemoryBytes < 2 ^ 64
  reqNodes : usage.reqNodes < 2 ^ 31
  reqCores : usage.reqCores < 2 ^ 31
  reqMemory : usage.reqMemory < 2 ^ 64
  arrayId : ∀ id ∈ usage.arrayId, id < 2 ^ 64
  arrayTaskId : ∀ id ∈ usage.arrayTaskId, id < 2 ^ 31
  estimatedWalltime : ∀ time ∈ usage.estimatedWalltime, time < 2 ^ 64
  containerAsset : usage.containerAsset = none

namespace SqlxAccountingStore

variable {store : SqlxAccountingStore}

theorem decodeLogs_same (store : SqlxAccountingStore) (logs : HashMap WorkerId WorkerLogFiles) :
    ((store.json.logFiles.decode (store.json.logFiles.encode logs)).getD ∅).Same logs := by
  obtain ⟨decoded, read, same⟩ := store.json.logFiles.roundTrip logs
  rw [read]
  exact same

/-- A row comes back as the record that was written, except for its status and its secret,
which are read from their texts. -/
theorem mapRow_columns (store : SqlxAccountingStore) {record : JobUsage} (range : record.InRange) (nonce : Nat)
    (logs : HashMap WorkerId WorkerLogFiles) :
    (store.mapRow (store.columns nonce record logs)).Same { record with
      status := parseJobStatus record.status.column record.exitCode
      secret := store.secrets.decodeAtRest (store.secrets.encodeForStorage nonce record.secret).secretEnc
        (store.secrets.encodeForStorage nonce record.secret).secretColumn
      workerLogFiles := logs } := by
  obtain ⟨gres, read, sameGres⟩ := store.json.gres.roundTrip record.gresReq
  refine ⟨?_, decodeLogs_same store logs, ?_⟩
  · simp only [mapRow, columns, read, Option.getD_some]
    exact sameGres
  · have time {time : Nat} (small : time < 2 ^ 63) : asU64 (asI64 time) = time := asU64_asI64 (by omega)
    simp only [mapRow, columns, time range.jobId, time range.submissionTime, asU64_asI64 range.cpuTimeMs,
      asU64_asI64 range.maxMemoryBytes, asU64_asI64 range.reqMemory, asU64_asI32 range.reqNodes,
      asU32_asI32 (Nat.lt_trans range.reqCores (by norm_num)), map_cast (fun _ => time) range.startTime,
      map_cast (fun _ => time) range.endTime, map_cast (fun _ => asU64_asI64) range.arrayId,
      map_cast (fun _ small => asU32_asI32 (Nat.lt_trans small (by norm_num))) range.arrayTaskId,
      map_cast (fun _ => asU64_asI64) range.estimatedWalltime, map_decode, parseQosLevel_column, range.containerAsset,
      Codec.decode_encode, Option.getD_some]

theorem mem_history {filter : HistoryFilter} {usage : JobUsage} :
    usage ∈ store.queryHistory filter ↔
      ∃ key row, store.table.get? key = some row ∧ filter.selects row.jobId = true ∧ store.mapRow row = usage := by
  simp only [queryHistory, List.mem_map, List.mem_mergeSort, List.mem_filter, HashMap.mem_values]
  constructor
  · rintro ⟨row, ⟨⟨key, found⟩, selected⟩, same⟩
    exact ⟨key, row, found, selected, same⟩
  · rintro ⟨key, row, found, selected, same⟩
    exact ⟨row, ⟨⟨key, found⟩, selected⟩, same⟩

def Keyed (store : SqlxAccountingStore) : Prop := ∀ key row, store.table.get? key = some row → row.jobId = key

theorem Keyed.existing (keyed : store.Keyed) (record : JobUsage) :
    store.existing record = (store.table.get? (asI64 record.jobId)).map store.mapRow := by
  have rows (usage : JobUsage) : usage ∈ store.queryHistory (.single record.jobId) ↔
      (store.table.get? (asI64 record.jobId)).map store.mapRow = some usage := by
    rw [mem_history, Option.map_eq_some_iff]
    constructor
    · rintro ⟨key, row, found, selected, same⟩
      have own : row.jobId = asI64 record.jobId := by simpa [HistoryFilter.selects] using selected
      have about := keyed key row found
      rw [← about, own] at found
      exact ⟨row, found, same⟩
    · rintro ⟨row, found, same⟩
      exact ⟨_, row, found, by simpa [HistoryFilter.selects] using keyed _ row found, same⟩
  rw [SqlxAccountingStore.existing]
  cases listed : store.queryHistory (.single record.jobId) with
  | nil =>
    cases found : store.table.get? (asI64 record.jobId) with
    | none => rfl
    | some row =>
      have member := (rows (store.mapRow row)).mpr (by rw [found]; rfl)
      rw [listed] at member
      cases member
  | cons first rest =>
    rw [(rows first).mp (by rw [listed]; exact List.mem_cons_self)]
    rfl

theorem Keyed.insert (keyed : store.Keyed) (row : AccountingRow) :
    Keyed { store with table := store.table.insert row.jobId row } := by
  intro key found inserted
  rw [HashMap.get?_insert] at inserted
  split at inserted
  · rename_i own
    cases inserted
    exact own.symm
  · exact keyed key found inserted

theorem upsert_of_accept {row : AccountingRow} (fits : store.database.accept row = some row) :
    store.upsert row = some { store with table := store.table.insert row.jobId row } := by
  rw [upsert, fits]
  rfl

end SqlxAccountingStore

section Sample

theorem countable_map (V : Type) [Countable V] : Countable (HashMap String V) := by
  have strings := countable_string
  exact Function.Injective.countable (f := fun map : HashMap String V => AList.entries map) fun _ _ same => AList.ext same

/-- A format that writes the values of sample records as `serde_json` does. -/
theorem exists_serdeJson (logTexts : List (HashMap WorkerId WorkerLogFiles × String))
    (values : (logTexts.map Prod.fst).Nodup) (texts : (logTexts.map Prod.snd).Nodup)
    (plain : ∀ entry ∈ logTexts, entry.2.toList.head? ≠ some '#') :
    ∃ json : SerdeJson, json.strings.encode [] = "[]" ∧ json.gres.encode ∅ = "\x7b\x7d" ∧
      json.artifacts.encode [] = "[]" ∧ ∀ entry ∈ logTexts, json.logFiles.encode entry.1 = entry.2 := by
  have strings := countable_string
  have artifact : Countable JobOutputArtifact := by
    refine Function.Injective.countable
      (f := fun artifact : JobOutputArtifact =>
        (artifact.path, artifact.outputType, artifact.fileId, artifact.size, artifact.updatedAt)) ?_
    rintro ⟨⟩ ⟨⟩ same
    simpa using same
  have files : Countable WorkerLogFiles := by
    refine Function.Injective.countable
      (f := fun files : WorkerLogFiles => (files.stdoutFileId, files.stderrFileId)) ?_
    rintro ⟨⟩ ⟨⟩ same
    simpa using same
  have gresMaps := countable_map Nat
  have logMaps := countable_map WorkerLogFiles
  obtain ⟨strings, stringsInj, stringsText⟩ := exists_encode [(([] : List String), "[]")] (by simp) (by simp) (by simp)
  obtain ⟨ids, idsInj, _⟩ := exists_encode [(([] : List JobId), "[]")] (by simp) (by simp) (by simp)
  obtain ⟨gres, gresInj, gresText⟩ := exists_encode [((∅ : HashMap String Nat), "\x7b\x7d")] (by simp) (by simp) (by simp)
  obtain ⟨artifacts, artifactsInj, artifactsText⟩ :=
    exists_encode [(([] : List JobOutputArtifact), "[]")] (by simp) (by simp) (by simp)
  obtain ⟨logs, logsInj, logsText⟩ := exists_encode logTexts values texts plain
  refine ⟨{
    strings := .ofInjective (fun _ => rfl) strings stringsInj
    ids := .ofInjective (fun _ => rfl) ids idsInj
    gres := .ofInjective .refl gres gresInj
    artifacts := .ofInjective (fun _ => rfl) artifacts artifactsInj
    logFiles := .ofInjective .refl logs logsInj }, ?_, ?_, ?_, ?_⟩
  · exact stringsText _ List.mem_cons_self
  · exact gresText _ List.mem_cons_self
  · exact artifactsText _ List.mem_cons_self
  · exact logsText

end Sample

end Veloce
