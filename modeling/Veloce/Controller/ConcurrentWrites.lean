import Veloce.Controller.SqlStore

/-! Concurrent calls of `record_job` of the SQL store for one job. -/

namespace Veloce

open Collections

structure RecordCall where
  nonce : Nat := 0
  record : JobUsage

variable {n : Nat}

/-- The steps of a call: the query, which may fail, and the UPSERT. -/
inductive CallEvent (n : Nat) where
  | query (call : Fin n) (ok : Bool)
  | upsert (call : Fin n)
deriving DecidableEq

def CallEvent.call : CallEvent n → Fin n
  | .query call _ => call
  | .upsert call => call

/-- The store, and the row that the query of each call has found. -/
structure Writers (n : Nat) where
  store : SqlxAccountingStore
  found : Fin n → Option JobUsage := fun _ => none

namespace Writers

/-- `none` if the database refuses the values. -/
def apply (calls : Fin n → RecordCall) (writers : Writers n) : CallEvent n → Option (Writers n)
  | .query call ok =>
    -- A query that fails is passed over.
    let row := if ok then writers.store.existing (calls call).record else none
    some { writers with found := Function.update writers.found call row }
  | .upsert call =>
    let logs := SqlxAccountingStore.mergedLogs (writers.found call) (calls call).record
    (writers.store.upsert (writers.store.columns (calls call).nonce (calls call).record logs)).map fun store =>
      { writers with store := store }

def run (calls : Fin n → RecordCall) (schedule : List (CallEvent n)) (writers : Writers n) : Option (Writers n) :=
  schedule.foldlM (apply calls) writers

end Writers

def Finished (schedule : List (CallEvent n)) : Prop :=
  ∀ call, ∃ ok, schedule.filter (·.call = call) = [.query call ok, .upsert call]

/-- The calls whose log files are in the row, and in what each query has found. -/
structure Sources (n : Nat) where
  row : List (Fin n) := []
  found : Fin n → List (Fin n) := fun _ => []

/-- An UPSERT carries over only what its own query has found. -/
def Sources.next (sources : Sources n) : CallEvent n → Sources n
  | .query call ok => { sources with found := Function.update sources.found call (if ok then sources.row else []) }
  | .upsert call => { sources with row := sources.found call ++ [call] }

def sourcesOf (schedule : List (CallEvent n)) : Sources n := schedule.foldl Sources.next {}

inductive LogStream where
  | stdout
  | stderr

def LogStream.fileId : LogStream → WorkerLogFiles → Option String
  | .stdout, files => files.stdoutFileId
  | .stderr, files => files.stderrFileId

def logId (logs : HashMap WorkerId WorkerLogFiles) (workerId : WorkerId) (stream : LogStream) : Option String :=
  (logs.get? workerId).bind stream.fileId

def SqlxAccountingStore.storedLogs (store : SqlxAccountingStore) (jobId : JobId) : HashMap WorkerId WorkerLogFiles :=
  ((store.queryHistory (.single jobId)).head?.map JobUsage.workerLogFiles).getD ∅

/-- Every worker and every id of the recorded map is there. -/
structure KeepsLogs (logs recorded : HashMap WorkerId WorkerLogFiles) : Prop where
  workers : ∀ workerId, recorded.contains workerId = true → logs.contains workerId = true
  ids : ∀ workerId stream id, logId recorded workerId stream = some id → logId logs workerId stream = some id

/-- No two calls record different ids for one log. -/
def IdsAgree (calls : Fin n → RecordCall) : Prop :=
  ∀ call call' workerId stream id id', logId (calls call).record.workerLogFiles workerId stream = some id →
    logId (calls call').record.workerLogFiles workerId stream = some id' → id = id'

/-- What the map records is also recorded by one of these calls. -/
structure RecordedBy (calls : Fin n → RecordCall) (sources : List (Fin n))
    (recorded : HashMap WorkerId WorkerLogFiles) :
    Prop where
  workers : ∀ workerId, recorded.contains workerId = true →
    ∃ call ∈ sources, (calls call).record.workerLogFiles.contains workerId = true
  ids : ∀ workerId stream id, logId recorded workerId stream = some id →
    ∃ call ∈ sources, logId (calls call).record.workerLogFiles workerId stream = some id

section Merge

theorem contains_merge (base extra : HashMap WorkerId WorkerLogFiles) (workerId : WorkerId) :
    (mergeWorkerLogFileMaps base extra).contains workerId = (extra.contains workerId || base.contains workerId) := by
  rw [HashMap.contains, get?_mergeWorkerLogFileMaps, HashMap.contains, HashMap.contains]
  cases extra.get? workerId with
  | none => rfl
  | some files => cases base.get? workerId <;> rfl

theorem logId_merge (base extra : HashMap WorkerId WorkerLogFiles) (workerId : WorkerId) (stream : LogStream) :
    logId (mergeWorkerLogFileMaps base extra) workerId stream =
      (logId extra workerId stream).or (logId base workerId stream) := by
  rw [logId, get?_mergeWorkerLogFileMaps, logId, logId]
  cases extra.get? workerId with
  | none => rfl
  | some files =>
    cases base.get? workerId with
    | none => exact (Option.or_none).symm
    | some existing => cases stream <;> rfl

/-- The log files of these calls, merged one after the other. -/
def logsFrom (calls : Fin n → RecordCall) (sources : List (Fin n)) : HashMap WorkerId WorkerLogFiles :=
  sources.foldl (fun logs call => mergeWorkerLogFileMaps logs (calls call).record.workerLogFiles) ∅

variable {calls : Fin n → RecordCall} {sources : List (Fin n)}

theorem logsFrom_append (calls : Fin n → RecordCall) (sources : List (Fin n)) (call : Fin n) :
    logsFrom calls (sources ++ [call]) =
      mergeWorkerLogFileMaps (logsFrom calls sources) (calls call).record.workerLogFiles := by
  rw [logsFrom, List.foldl_append]
  rfl

theorem contains_logsFrom {workerId : WorkerId} : (logsFrom calls sources).contains workerId = true ↔
    ∃ call ∈ sources, (calls call).record.workerLogFiles.contains workerId = true := by
  induction sources using List.reverseRecOn with
  | nil => simp [logsFrom, HashMap.contains]
  | append_singleton sources call ih =>
    rw [logsFrom_append, contains_merge, Bool.or_eq_true, ih]
    simp [or_and_right, exists_or, or_comm]

theorem logId_logsFrom {workerId : WorkerId} {stream : LogStream} {id : String}
    (present : logId (logsFrom calls sources) workerId stream = some id) :
    ∃ call ∈ sources, logId (calls call).record.workerLogFiles workerId stream = some id := by
  induction sources using List.reverseRecOn with
  | nil => cases present
  | append_singleton sources call ih =>
    rw [logsFrom_append, logId_merge] at present
    cases own : logId (calls call).record.workerLogFiles workerId stream with
    | some id' =>
      rw [own] at present
      exact ⟨call, by simp, own.trans present⟩
    | none =>
      rw [own, Option.none_or] at present
      obtain ⟨earlier, member, recorded⟩ := ih present
      exact ⟨earlier, List.mem_append_left _ member, recorded⟩

theorem logId_logsFrom_of_mem {workerId : WorkerId} {stream : LogStream} {call : Fin n} {id : String}
    (member : call ∈ sources) (recorded : logId (calls call).record.workerLogFiles workerId stream = some id) :
    ∃ id', logId (logsFrom calls sources) workerId stream = some id' := by
  induction sources using List.reverseRecOn with
  | nil => cases member
  | append_singleton sources last ih =>
    rw [logsFrom_append, logId_merge]
    cases own : logId (calls last).record.workerLogFiles workerId stream with
    | some id' => exact ⟨id', rfl⟩
    | none =>
      rw [Option.none_or]
      rcases List.mem_append.mp member with earlier | same
      · exact ih earlier
      · cases List.mem_singleton.mp same
        rw [own] at recorded
        cases recorded

/-- The merged map keeps what all calls record exactly if their ids agree and what each
records is recorded by one of the merged ones. -/
theorem keepsLogs_logsFrom_iff :
    (∀ call, KeepsLogs (logsFrom calls sources) (calls call).record.workerLogFiles) ↔
      IdsAgree calls ∧ ∀ call, RecordedBy calls sources (calls call).record.workerLogFiles := by
  constructor
  · intro keeps
    refine ⟨fun call call' workerId stream id id' recorded recorded' => ?_, fun call => ⟨?_, ?_⟩⟩
    · have kept := (keeps call).ids workerId stream id recorded
      rw [(keeps call').ids workerId stream id' recorded'] at kept
      exact (Option.some.inj kept).symm
    · intro workerId present
      exact contains_logsFrom.mp ((keeps call).workers workerId present)
    · intro workerId stream id recorded
      exact logId_logsFrom ((keeps call).ids workerId stream id recorded)
  · rintro ⟨agree, recordedBy⟩ call
    refine ⟨fun workerId present => ?_, fun workerId stream id recorded => ?_⟩
    · exact contains_logsFrom.mpr ((recordedBy call).workers workerId present)
    · obtain ⟨source, member, own⟩ := (recordedBy call).ids workerId stream id recorded
      obtain ⟨id', kept⟩ := logId_logsFrom_of_mem member own
      obtain ⟨source', _, own'⟩ := logId_logsFrom kept
      rw [kept, agree source' source workerId stream id' id own' own]

theorem KeepsLogs.of_same {logs logs' recorded : HashMap WorkerId WorkerLogFiles} (same : logs.Same logs')
    (keeps : KeepsLogs logs recorded) : KeepsLogs logs' recorded := by
  refine ⟨fun workerId present => ?_, fun workerId stream id recorded => ?_⟩
  · have kept := keeps.workers workerId present
    rwa [HashMap.contains, same workerId] at kept
  · have kept := keeps.ids workerId stream id recorded
    rwa [logId, same workerId] at kept

end Merge

theorem Database.accept_keeps {database : Database} {row taken : AccountingRow}
    (accepted : database.accept row = some taken) :
    taken.jobId = row.jobId ∧ taken.workerLogFiles = row.workerLogFiles := by
  cases database with
  | sqlite =>
    cases accepted
    exact ⟨rfl, rfl⟩
  | postgres =>
    rw [accept] at accepted
    split at accepted
    · cases accepted
    · simp only [Option.bind_eq_bind, Option.bind_eq_some_iff, Option.some.injEq] at accepted
      obtain ⟨_, _, _, _, _, _, _, _, _, _, _, _, same⟩ := accepted
      subst same
      exact ⟨rfl, rfl⟩

theorem SqlxAccountingStore.Keyed.storedLogs {store : SqlxAccountingStore} (keyed : store.Keyed) (record : JobUsage) :
    store.storedLogs record.jobId =
      (((store.table.get? (asI64 record.jobId)).map store.mapRow).map JobUsage.workerLogFiles).getD ∅ := by
  rw [← keyed.existing]
  rfl

theorem SqlxAccountingStore.Keyed.storedLogs_of_absent {store : SqlxAccountingStore} (keyed : store.Keyed)
    {jobId : JobId}
    (absent : store.table.get? (asI64 jobId) = none) : store.storedLogs jobId = ∅ := by
  rw [SqlxAccountingStore.storedLogs]
  cases listed : store.queryHistory (.single jobId) with
  | nil => rfl
  | cons row rest =>
    obtain ⟨key, columns, found, selected, _⟩ := mem_history.mp (listed ▸ List.mem_cons_self)
    have own : columns.jobId = asI64 jobId := by simpa [HistoryFilter.selects] using selected
    rw [← keyed key columns found, own, absent] at found
    cases found

section Writers

variable {calls : Fin n → RecordCall} {jobId : JobId} {writers final : Writers n} {schedule : List (CallEvent n)}

/-- The row has the log files of its sources, and so has what each query found. -/
structure Sourced (calls : Fin n → RecordCall) (jobId : JobId) (sources : Sources n) (writers : Writers n) : Prop where
  keyed : writers.store.Keyed
  row : (writers.store.storedLogs jobId).Same (logsFrom calls sources.row)
  found : ∀ call, (((writers.found call).map JobUsage.workerLogFiles).getD ∅).Same (logsFrom calls (sources.found call))

theorem mergedLogs_same {prev : Option JobUsage} {logs : HashMap WorkerId WorkerLogFiles}
    (same : ((prev.map JobUsage.workerLogFiles).getD ∅).Same logs) (record : JobUsage) :
    (SqlxAccountingStore.mergedLogs prev record).Same (mergeWorkerLogFileMaps logs record.workerLogFiles) := by
  cases prev with
  | some prev => exact mergeWorkerLogFileMaps_same same (.refl _)
  | none =>
    refine HashMap.Same.trans (fun workerId => ?_) (mergeWorkerLogFileMaps_same same (.refl _))
    rw [get?_mergeWorkerLogFileMaps]
    cases found : record.workerLogFiles.get? workerId with
    | none => exact found
    | some files => exact found

theorem Sourced.next {sources : Sources n} {event : CallEvent n} (one : ∀ call, (calls call).record.jobId = jobId)
    (sourced : Sourced calls jobId sources writers) (applied : writers.apply calls event = some final) :
    Sourced calls jobId (sources.next event) final := by
  cases event with
  | query call ok =>
    cases applied
    refine ⟨sourced.keyed, sourced.row, fun other => ?_⟩
    simp only [Sources.next]
    by_cases own : other = call
    · subst own
      rw [Function.update_self, Function.update_self]
      cases ok with
      | false => exact .refl _
      | true =>
        have row := sourced.row
        rw [← one other] at row
        exact row
    · rw [Function.update_of_ne own, Function.update_of_ne own]
      exact sourced.found other
  | upsert call =>
    obtain ⟨store, upserted, same⟩ := Option.map_eq_some_iff.mp applied
    obtain ⟨taken, accepted, same'⟩ := Option.map_eq_some_iff.mp upserted
    obtain ⟨key, logs⟩ := Database.accept_keeps accepted
    subst same same'
    have keyed := sourced.keyed.insert taken
    refine ⟨keyed, ?_, sourced.found⟩
    simp only [Sources.next]
    have stored : (writers.store.table.insert taken.jobId taken).get? (asI64 (calls call).record.jobId) = some taken := by
      rw [key]
      exact HashMap.get?_insert_self _ _ _
    rw [← one call, keyed.storedLogs, stored, logsFrom_append]
    refine HashMap.Same.trans ?_ (mergedLogs_same (sourced.found call) (calls call).record)
    change ((writers.store.json.logFiles.decode taken.workerLogFiles).getD ∅).Same _
    rw [logs]
    exact writers.store.decodeLogs_same _

theorem sourced_run {store : SqlxAccountingStore} (one : ∀ call, (calls call).record.jobId = jobId)
    (keyed : store.Keyed)
    (absent : store.table.get? (asI64 jobId) = none)
    (ran : Writers.run calls schedule { store := store } = some final) :
    Sourced calls jobId (sourcesOf schedule) final := by
  induction schedule using List.reverseRecOn generalizing final with
  | nil =>
    cases ran
    refine ⟨keyed, ?_, fun _ => .refl _⟩
    rw [keyed.storedLogs_of_absent absent]
    exact .refl _
  | append_singleton schedule event ih =>
    rw [Writers.run, List.foldlM_append] at ran
    obtain ⟨middle, first, last⟩ := Option.bind_eq_some_iff.mp ran
    have applied : middle.apply calls event = some final := by simpa using last
    have sourced := (ih first).next one applied
    rw [sourcesOf, List.foldl_append]
    exact sourced

/-- In every schedule of the calls for one job, the row has the workers and the ids of all
of them exactly if no log has two ids and what each call records is recorded by one of the
calls from which the row was made. -/
theorem concurrent_upserts_keep_logs_iff {store : SqlxAccountingStore}
    (one : ∀ call, (calls call).record.jobId = jobId) (keyed : store.Keyed)
    (absent : store.table.get? (asI64 jobId) = none)
    (ran : Writers.run calls schedule { store := store } = some final) :
    (∀ call, KeepsLogs (final.store.storedLogs jobId) (calls call).record.workerLogFiles) ↔
      IdsAgree calls ∧ ∀ call, RecordedBy calls (sourcesOf schedule).row (calls call).record.workerLogFiles := by
  have same := (sourced_run one keyed absent ran).row
  rw [← keepsLogs_logsFrom_iff]
  exact forall_congr' fun call => ⟨.of_same same, .of_same same.symm⟩

end Writers

section Sample

def sampleCall (workerId : WorkerId) : RecordCall where
  record := { sampleRecord 1 0 with
    workerLogFiles := HashMap.insert ∅ workerId { stdoutFileId := some (workerId ++ ".out"), stderrFileId := none } }

/-- Two workers, each with its own log. -/
def sampleCalls (call : Fin 2) : RecordCall := sampleCall (if call = 0 then "a" else "b")

theorem logId_sampleCall {owner workerId : WorkerId} {stream : LogStream} {id : String}
    (recorded : logId (sampleCall owner).record.workerLogFiles workerId stream = some id) :
    id = workerId ++ ".out" := by
  simp only [logId, sampleCall, HashMap.get?_insert, HashMap.get?_empty] at recorded
  split at recorded
  · rename_i own
    subst own
    cases stream
    · cases recorded
      rfl
    · cases recorded
  · cases recorded

theorem jobId_sampleCalls (call : Fin 2) : (sampleCalls call).record.jobId = 1 := rfl

theorem idsAgree_sampleCalls : IdsAgree sampleCalls := by
  intro call call' workerId stream id id' recorded recorded'
  rw [logId_sampleCall recorded, logId_sampleCall recorded']

/-- The texts of the log files of one and of both workers. -/
def sampleTexts : List (HashMap WorkerId WorkerLogFiles × String) :=
  let entry (workerId : String) : String :=
    "\"" ++ workerId ++ "\":\x7b\"stdout_file_id\":\"" ++ workerId ++ ".out\",\"stderr_file_id\":null\x7d"
  [((sampleCall "a").record.workerLogFiles, "\x7b" ++ entry "a" ++ "\x7d"),
    ((sampleCall "b").record.workerLogFiles, "\x7b" ++ entry "b" ++ "\x7d"),
    (logsFrom sampleCalls [0, 1], "\x7b" ++ entry "b" ++ "," ++ entry "a" ++ "\x7d")]

theorem exists_sampleJson : ∃ json : SerdeJson, ∀ entry ∈ sampleTexts, json.logFiles.encode entry.1 = entry.2 := by
  have values : ((sampleTexts.map Prod.fst).map fun logs => (logs.get? "a", logs.get? "b")).Nodup := by decide +kernel
  have distinct : (sampleTexts.map Prod.snd).Nodup := by
    simp only [sampleTexts, List.map_cons, List.map_nil, List.nodup_cons, ← String.toList_inj, String.toList_append, List.mem_cons]
    decide
  obtain ⟨json, _, _, _, texts⟩ := exists_serdeJson sampleTexts values.of_map distinct (by decide +kernel)
  exact ⟨json, texts⟩

theorem keyed_empty (json : SerdeJson) : SqlxAccountingStore.Keyed { json := json } := by
  intro key row found
  cases found

theorem run_sqlite (calls : Fin n → RecordCall) (schedule : List (CallEvent n)) (writers : Writers n)
    (sqlite : writers.store.database = .sqlite) : ∃ final, writers.run calls schedule = some final := by
  induction schedule generalizing writers with
  | nil => exact ⟨writers, rfl⟩
  | cons event rest ih =>
    have applied : ∃ next, writers.apply calls event = some next ∧ next.store.database = .sqlite := by
      cases event with
      | query call ok => exact ⟨_, rfl, sqlite⟩
      | upsert call =>
        rw [Writers.apply, SqlxAccountingStore.upsert_of_accept (by rw [sqlite]; rfl)]
        exact ⟨_, rfl, sqlite⟩
    obtain ⟨next, stepped, sqlite'⟩ := applied
    obtain ⟨final, ran⟩ := ih next sqlite'
    refine ⟨final, ?_⟩
    rw [Writers.run, List.foldlM_cons, stepped]
    exact ran

/-- The second call queries the row of the first. -/
theorem concurrent_upserts_keep_logs_iff_in_turn : ∃ (json : SerdeJson) (final : Writers 2),
    Writers.run sampleCalls [.query 0 true, .upsert 0, .query 1 true, .upsert 1] { store := { json := json } } = some final ∧
    ∀ call, KeepsLogs (final.store.storedLogs 1) (sampleCalls call).record.workerLogFiles := by
  obtain ⟨json, _⟩ := exists_sampleJson
  obtain ⟨final, ran⟩ := run_sqlite sampleCalls [.query 0 true, .upsert 0, .query 1 true, .upsert 1]
    { store := { json := json } } rfl
  refine ⟨json, final, ran, (concurrent_upserts_keep_logs_iff jobId_sampleCalls (keyed_empty json) rfl ran).mpr
    ⟨idsAgree_sampleCalls, fun call => ?_⟩⟩
  have member : ∀ call : Fin 2, call ∈ [0, 1] := by decide
  exact ⟨fun workerId present => ⟨call, member call, present⟩,
    fun workerId stream id recorded => ⟨call, member call, recorded⟩⟩

/-- Both calls query before either writes. -/
theorem concurrent_upserts_drop_log : ∃ (store : SqlxAccountingStore) (schedule : List (CallEvent 2))
    (final : Writers 2),
    store.database = .sqlite ∧ store.table = ∅ ∧ Finished schedule ∧
    Writers.run sampleCalls schedule { store := store } = some final ∧ IdsAgree sampleCalls ∧
    ¬ KeepsLogs (final.store.storedLogs 1) (sampleCalls 0).record.workerLogFiles := by
  obtain ⟨json, _⟩ := exists_sampleJson
  have finished : Finished ([.query 0 true, .query 1 true, .upsert 0, .upsert 1] : List (CallEvent 2)) := by
    intro call
    exact ⟨true, by revert call; decide⟩
  obtain ⟨final, ran⟩ := run_sqlite sampleCalls [.query 0 true, .query 1 true, .upsert 0, .upsert 1]
    { store := { json := json } } rfl
  refine ⟨_, _, final, rfl, rfl, finished, ran, idsAgree_sampleCalls, fun keeps => ?_⟩
  have row := (sourced_run jobId_sampleCalls (keyed_empty json) rfl ran).row
  have kept := (keeps.of_same row).workers "a" (by decide +kernel)
  exact absurd kept (by decide +kernel)

end Sample

end Veloce
