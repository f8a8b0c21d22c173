import Veloce.Controller.StoresAgree

/-! The merge of worker log maps as a union of maps: what the later map has comes first,
and where no two maps differ the order of the reports is of no account. -/

namespace Veloce

open Collections

/-- The two maps never give different ids for one worker and stream. -/
def LogsAgree (a b : HashMap WorkerId WorkerLogFiles) : Prop :=
  ∀ workerId stream id id', logId a workerId stream = some id → logId b workerId stream = some id' → id = id'

/-- A map of log files is known by its workers and its ids. -/
theorem same_iff_logId {a b : HashMap WorkerId WorkerLogFiles} :
    a.Same b ↔ (∀ workerId, a.contains workerId = b.contains workerId) ∧
      ∀ workerId stream, logId a workerId stream = logId b workerId stream := by
  constructor
  · intro same
    exact ⟨fun workerId => by rw [HashMap.contains, same, HashMap.contains],
      fun workerId stream => by rw [logId, same, logId]⟩
  · rintro ⟨workers, ids⟩ workerId
    have present := workers workerId
    have stdout := ids workerId .stdout
    have stderr := ids workerId .stderr
    rw [HashMap.contains, HashMap.contains] at present
    rw [logId, logId] at stdout stderr
    cases left : a.get? workerId with
    | none => cases right : b.get? workerId with
      | none => rfl
      | some files => simp [left, right] at present
    | some files => cases right : b.get? workerId with
      | none => simp [left, right] at present
      | some files' =>
        simp only [left, right, Option.bind_some, LogStream.fileId] at stdout stderr
        cases files
        cases files'
        simp_all

section Laws

variable (a b c : HashMap WorkerId WorkerLogFiles)

theorem mergeWorkerLogFileMaps_assoc : (mergeWorkerLogFileMaps (mergeWorkerLogFileMaps a b) c).Same
    (mergeWorkerLogFileMaps a (mergeWorkerLogFileMaps b c)) := by
  rw [same_iff_logId]
  refine ⟨fun workerId => ?_, fun workerId stream => ?_⟩
  · simp only [contains_merge, Bool.or_assoc]
  · simp only [logId_merge, Option.or_assoc]

theorem contains_empty_logs (workerId : WorkerId) :
    (∅ : HashMap WorkerId WorkerLogFiles).contains workerId = false := rfl

theorem logId_empty (workerId : WorkerId) (stream : LogStream) : logId ∅ workerId stream = none := rfl

theorem mergeWorkerLogFileMaps_empty_left : (mergeWorkerLogFileMaps ∅ a).Same a := by
  rw [same_iff_logId]
  refine ⟨fun workerId => ?_, fun workerId stream => ?_⟩
  · rw [contains_merge, contains_empty_logs, Bool.or_false]
  · rw [logId_merge, logId_empty, Option.or_none]

theorem mergeWorkerLogFileMaps_empty_right : (mergeWorkerLogFileMaps a ∅).Same a := by
  rw [same_iff_logId]
  refine ⟨fun workerId => ?_, fun workerId stream => ?_⟩
  · rw [contains_merge, contains_empty_logs, Bool.false_or]
  · rw [logId_merge, logId_empty, Option.none_or]

theorem mergeWorkerLogFileMaps_self : (mergeWorkerLogFileMaps a a).Same a := by
  rw [same_iff_logId]
  refine ⟨fun workerId => ?_, fun workerId stream => ?_⟩
  · rw [contains_merge, Bool.or_self]
  · rw [logId_merge, Option.or_self]

variable {a b c}

/-- Two ids for one log are no choice where they agree. -/
theorem LogsAgree.or_comm (agree : LogsAgree a b) (workerId : WorkerId) (stream : LogStream) :
    (logId a workerId stream).or (logId b workerId stream) = (logId b workerId stream).or (logId a workerId stream) := by
  cases left : logId a workerId stream with
  | none => rw [Option.none_or, Option.or_none]
  | some id =>
    cases right : logId b workerId stream with
    | none => rfl
    | some id' => rw [agree workerId stream id id' left right]

theorem LogsAgree.merge_comm (agree : LogsAgree a b) :
    (mergeWorkerLogFileMaps a b).Same (mergeWorkerLogFileMaps b a) := by
  rw [same_iff_logId]
  refine ⟨fun workerId => ?_, fun workerId stream => ?_⟩
  · rw [contains_merge, contains_merge, Bool.or_comm]
  · rw [logId_merge, logId_merge, agree.or_comm]

theorem logId_merge_left {workerId : WorkerId} {stream : LogStream} (absent : logId b workerId stream = none) :
    logId (mergeWorkerLogFileMaps a b) workerId stream = logId a workerId stream := by
  rw [logId_merge, absent, Option.none_or]

theorem logId_merge_right {workerId : WorkerId} {stream : LogStream} {id : String}
    (present : logId b workerId stream = some id) :
    logId (mergeWorkerLogFileMaps a b) workerId stream = some id := by
  rw [logId_merge, present]
  rfl

end Laws

/-- `merge_worker_log_file_maps` is associative and idempotent with the empty map as its
identity. The result has the workers of both maps and of each log the later id that is
present, and does not depend on the order where no log has two ids. -/
theorem mergeWorkerLogFileMaps_lawful (a b c : HashMap WorkerId WorkerLogFiles) :
    (mergeWorkerLogFileMaps (mergeWorkerLogFileMaps a b) c).Same
        (mergeWorkerLogFileMaps a (mergeWorkerLogFileMaps b c)) ∧
      (mergeWorkerLogFileMaps ∅ a).Same a ∧
      (mergeWorkerLogFileMaps a ∅).Same a ∧
      (mergeWorkerLogFileMaps a a).Same a ∧
      (∀ workerId, (mergeWorkerLogFileMaps a b).contains workerId = true ↔
        a.contains workerId = true ∨ b.contains workerId = true) ∧
      (∀ workerId stream id, logId b workerId stream = some id →
        logId (mergeWorkerLogFileMaps a b) workerId stream = some id) ∧
      (∀ workerId stream, logId b workerId stream = none →
        logId (mergeWorkerLogFileMaps a b) workerId stream = logId a workerId stream) ∧
      (LogsAgree a b → (mergeWorkerLogFileMaps a b).Same (mergeWorkerLogFileMaps b a)) := by
  refine ⟨mergeWorkerLogFileMaps_assoc a b c, mergeWorkerLogFileMaps_empty_left a,
    mergeWorkerLogFileMaps_empty_right a, mergeWorkerLogFileMaps_self a, fun workerId => ?_,
    fun workerId stream id => logId_merge_right, fun workerId stream => logId_merge_left, LogsAgree.merge_comm⟩
  rw [contains_merge, Bool.or_eq_true, or_comm]

section Reports

/-- The history of any number of reports, merged as they arrive. -/
def mergeReports (reports : List (HashMap WorkerId WorkerLogFiles)) : HashMap WorkerId WorkerLogFiles :=
  reports.foldl mergeWorkerLogFileMaps ∅

variable {reports reports' : List (HashMap WorkerId WorkerLogFiles)}

theorem contains_foldl_merge (reports : List (HashMap WorkerId WorkerLogFiles)) (workerId : WorkerId) :
    ∀ base : HashMap WorkerId WorkerLogFiles, (reports.foldl mergeWorkerLogFileMaps base).contains workerId =
      (base.contains workerId || reports.any (·.contains workerId)) := by
  induction reports with
  | nil => intro base; simp
  | cons report rest ih =>
    intro base
    rw [List.foldl_cons, ih, contains_merge, List.any_cons, Bool.or_assoc, Bool.or_left_comm]

theorem logId_foldl_merge (reports : List (HashMap WorkerId WorkerLogFiles)) (workerId : WorkerId)
    (stream : LogStream) : ∀ base : HashMap WorkerId WorkerLogFiles,
      logId (reports.foldl mergeWorkerLogFileMaps base) workerId stream =
        (logId (mergeReports reports) workerId stream).or (logId base workerId stream) := by
  induction reports with
  | nil => intro base; rfl
  | cons report rest ih =>
    intro base
    rw [mergeReports, List.foldl_cons, List.foldl_cons, ih, ih, logId_merge, logId_merge, logId_empty,
      Option.or_none, Option.or_assoc]

theorem mergeReports_swap {first second : HashMap WorkerId WorkerLogFiles} (agree : LogsAgree first second)
    (rest : List (HashMap WorkerId WorkerLogFiles)) :
    (mergeReports (second :: first :: rest)).Same (mergeReports (first :: second :: rest)) := by
  rw [same_iff_logId]
  refine ⟨fun workerId => ?_, fun workerId stream => ?_⟩
  · rw [mergeReports, mergeReports, contains_foldl_merge, contains_foldl_merge]
    simp only [List.any_cons, Bool.or_left_comm]
  · rw [mergeReports, mergeReports, List.foldl_cons, List.foldl_cons, List.foldl_cons, List.foldl_cons,
      logId_foldl_merge, logId_foldl_merge]
    simp only [logId_merge, logId_empty, Option.or_none, agree.or_comm]

theorem mergeReports_cons {report : HashMap WorkerId WorkerLogFiles}
    (same : (mergeReports reports).Same (mergeReports reports')) :
    (mergeReports (report :: reports)).Same (mergeReports (report :: reports')) := by
  obtain ⟨workers, ids⟩ := same_iff_logId.mp same
  rw [same_iff_logId]
  refine ⟨fun workerId => ?_, fun workerId stream => ?_⟩
  · have rest := workers workerId
    rw [mergeReports, mergeReports, contains_foldl_merge, contains_foldl_merge, contains_empty_logs,
      Bool.false_or, Bool.false_or] at rest
    rw [mergeReports, mergeReports, contains_foldl_merge, contains_foldl_merge, List.any_cons, List.any_cons, rest]
  · rw [mergeReports, mergeReports, List.foldl_cons, List.foldl_cons, logId_foldl_merge, logId_foldl_merge, ids]

theorem mergeReports_perm (perm : reports.Perm reports') (agree : ∀ a ∈ reports, ∀ b ∈ reports, LogsAgree a b) :
    (mergeReports reports).Same (mergeReports reports') := by
  induction perm with
  | nil => exact .refl _
  | cons report _ ih =>
    exact mergeReports_cons (ih fun a member b member' =>
      agree a (List.mem_cons_of_mem _ member) b (List.mem_cons_of_mem _ member'))
  | swap first second rest =>
    exact mergeReports_swap (agree first (by simp) second (by simp)) rest
  | trans first _ ih ih' =>
    exact (ih agree).trans (ih' fun a member b member' =>
      agree a (first.mem_iff.mpr member) b (first.mem_iff.mpr member'))

end Reports

section Orders

variable {writes writes' : List Write} {file : FileAccountingStore} {sql : SqlxAccountingStore} {jobId : JobId}

def reportsOf (writes : List Write) (jobId : JobId) : List (HashMap WorkerId WorkerLogFiles) :=
  (writes.filter (·.record.jobId = jobId)).map (·.record.workerLogFiles)

theorem logsOf_same (writes : List Write) (jobId : JobId) :
    (logsOf writes jobId).Same (mergeReports (reportsOf writes jobId)) := by
  induction writes using List.reverseRecOn with
  | nil => exact .refl _
  | append_singleton writes write ih =>
    rw [reportsOf, List.filter_append, List.map_append]
    by_cases own : write.record.jobId = jobId
    · subst own
      rw [logsOf_append, List.filter_singleton, decide_eq_true rfl, cond_true, List.map_singleton, mergeReports,
        List.foldl_append]
      exact mergedLogs_same ih write.record
    · rw [logsOf_append_of_ne writes own, List.filter_singleton, decide_eq_false own, cond_false, List.map_nil,
        List.append_nil]
      exact ih

theorem logId_logsOf_append {write : Write} {workerId : WorkerId} {stream : LogStream} {id : String}
    (own : write.record.jobId = jobId) (recorded : logId write.record.workerLogFiles workerId stream = some id) :
    logId (logsOf (writes ++ [write]) jobId) workerId stream = some id := by
  subst own
  have same := @mergedLogs_same (latest (writes.map Write.record) write.record.jobId) _ (.refl _) write.record
  rw [logsOf_append, (same_iff_logId.mp same).2, logId_merge, recorded]
  rfl

theorem Stored.perm (stored : Stored file sql writes) (perm : writes.Perm writes') : Stored file sql writes' where
  empty := stored.empty
  secrets := stored.secrets
  ranges write member := stored.ranges write (perm.mem_iff.mpr member)
  roundTrips write member := stored.roundTrips write (perm.mem_iff.mpr member)
  sizes write member := stored.sizes write (perm.mem_iff.mpr member)
  bound write member := stored.bound write (perm.mem_iff.mpr member)

theorem Stored.fileLogs (stored : Stored file sql writes) {row : JobUsage}
    (listed : row ∈ (file.writeAll writes).queryHistory (.single jobId)) :
    row.workerLogFiles.Same (logsOf writes jobId) := by
  obtain ⟨write, _, included, same⟩ := stored.fileRow row listed
  have about : row.jobId = jobId := of_decide_eq_true included
  exact about ▸ same.workerLogFiles

theorem Stored.sqlLogs (stored : Stored file sql writes) (small : jobId < 2 ^ 64) {row : JobUsage}
    (listed : row ∈ (sql.writeAll writes).queryHistory (.single jobId)) :
    row.workerLogFiles.Same (logsOf writes jobId) := by
  obtain ⟨write, last, selected, same⟩ := stored.sqlRow listed
  obtain ⟨member, own⟩ := lastWrite_mem last
  have range : row.jobId < 2 ^ 63 := own ▸ (stored.ranges write member).jobId
  have about : asI64 row.jobId = asI64 jobId := by simpa [HistoryFilter.selects] using selected
  rw [(asI64_inj (Nat.lt_trans range (by norm_num)) small).mp about] at same
  exact same.workerLogFiles

/-- The reports of a job may reach the file and the database in any two orders: both histories
have the same log files exactly if no two reports name different files for one log. -/
theorem history_logs_any_order_iff (stored : Stored file sql writes) (small : jobId < 2 ^ 64) :
    (∀ writes', writes.Perm writes' → ∀ row ∈ (file.writeAll writes).queryHistory (.single jobId),
        ∀ row' ∈ (sql.writeAll writes').queryHistory (.single jobId), row.workerLogFiles.Same row'.workerLogFiles) ↔
      ∀ report ∈ reportsOf writes jobId, ∀ report' ∈ reportsOf writes jobId, LogsAgree report report' := by
  constructor
  · intro same
    have fixed {write : Write} (member : write ∈ writes) (own : write.record.jobId = jobId) {workerId : WorkerId}
        {stream : LogStream} {id : String} (recorded : logId write.record.workerLogFiles workerId stream = some id) :
        logId (logsOf writes jobId) workerId stream = some id := by
      obtain ⟨front, back, split⟩ := List.append_of_mem member
      have perm : writes.Perm (front ++ back ++ [write]) :=
        split ▸ List.perm_middle.trans (List.perm_append_singleton write (front ++ back)).symm
      have stored' := stored.perm perm
      have last' : lastWrite (front ++ back ++ [write]) jobId = some write := by rw [lastWrite_append, if_pos own]
      obtain ⟨write', last⟩ := lastWrite_of_mem member
      rw [own] at last
      have single : (HistoryFilter.single jobId).includes jobId = true := decide_eq_true rfl
      have single' : (HistoryFilter.single jobId).selects (asI64 jobId) = true := decide_eq_true rfl
      obtain ⟨row, listed, _⟩ := stored.fileRow_of last single
      obtain ⟨row', listed', _⟩ := stored'.sqlRow_of last' single'
      have equal := (same _ perm row listed row' listed').trans (stored'.sqlLogs small listed')
      have equal := (stored.fileLogs listed).symm.trans equal
      rw [(same_iff_logId.mp equal).2]
      exact logId_logsOf_append own recorded
    intro report member report' member' workerId stream id id' recorded recorded'
    obtain ⟨write, listed, rfl⟩ := List.mem_map.mp member
    obtain ⟨write', listed', rfl⟩ := List.mem_map.mp member'
    obtain ⟨listed, own⟩ := List.mem_filter.mp listed
    obtain ⟨listed', own'⟩ := List.mem_filter.mp listed'
    have first := fixed listed (of_decide_eq_true own) recorded
    rw [fixed listed' (of_decide_eq_true own') recorded'] at first
    exact (Option.some.inj first).symm
  · intro agree writes' perm row listed row' listed'
    have orders : (mergeReports (reportsOf writes jobId)).Same (mergeReports (reportsOf writes' jobId)) :=
      mergeReports_perm ((perm.filter _).map _) agree
    have fromFile := (stored.fileLogs listed).trans (logsOf_same writes jobId)
    have fromSql := ((stored.perm perm).sqlLogs small listed').trans (logsOf_same writes' jobId)
    exact fromFile.trans (orders.trans fromSql.symm)

theorem history_logs_any_order_iff_reports : ∃ json : SerdeJson,
    (∀ entry ∈ sampleTexts, json.logFiles.encode entry.1 = entry.2) ∧
    ∀ writes', reportedWrites.Perm writes' →
      ∀ row ∈ (({ bincode := reportBincode } : FileAccountingStore).writeAll reportedWrites).queryHistory (.single 1),
      ∀ row' ∈ (({ json := json } : SqlxAccountingStore).writeAll writes').queryHistory (.single 1),
        row.workerLogFiles.Same row'.workerLogFiles := by
  obtain ⟨json, texts⟩ := exists_sampleJson
  refine ⟨json, texts, (history_logs_any_order_iff (stored_reports json) (by norm_num)).mpr ?_⟩
  have own {report : HashMap WorkerId WorkerLogFiles} (member : report ∈ reportsOf reportedWrites 1) :
      ∃ owner, report = (sampleCall owner).record.workerLogFiles := by
    rcases List.mem_pair.mp (show report ∈ [_, _] from member) with rfl | rfl
    · exact ⟨"a", rfl⟩
    · exact ⟨"b", rfl⟩
  intro report member report' member' workerId stream id id' recorded recorded'
  obtain ⟨owner, rfl⟩ := own member
  obtain ⟨owner', rfl⟩ := own member'
  rw [logId_sampleCall recorded, logId_sampleCall recorded']

end Orders

end Veloce
