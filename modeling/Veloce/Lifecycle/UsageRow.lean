import Veloce.Controller.StoresAgree
import Veloce.Handlers.Usage

/-! The row of a finished job. -/

namespace Veloce

open Collections

/-- A usage report, and the state of the leader that handles it. -/
structure UsageReport where
  ctx : ControllerContext
  workerId : WorkerId
  usage : JobUsage

def UsageReport.record (report : UsageReport) : JobUsage := (report.ctx.reportJobUsage report.workerId report.usage).2

variable {k : Nat}

/-- The records of a job: the first is that of its finalisation, the others those of the
reports. -/
def recordOf (job : JobInfo) (reports : Fin k → UsageReport) : Fin (k + 1) → JobUsage :=
  Fin.cases (jobToUsage job) fun report => (reports report).record

/-- The row has the final status and what one of the workers measured. -/
def KeepsUsage (job : JobInfo) (reports : Fin k → UsageReport) (row : JobUsage) : Prop :=
  row.status = job.status ∧
    ∃ report, row.cpuTimeMs = (reports report).usage.cpuTimeMs ∧ row.maxMemoryBytes = (reports report).usage.maxMemoryBytes

/-- The last record is a report with the final status, or that of the finalisation while
some worker measured nothing. The store returns a status as `read` says. -/
def LastKeepsUsage (read : JobUsage → JobStatus) (job : JobInfo) (reports : Fin k → UsageReport) :
    Fin (k + 1) → Prop :=
  Fin.cases
    (read (jobToUsage job) = job.status ∧
      ∃ report, (reports report).usage.cpuTimeMs = 0 ∧ (reports report).usage.maxMemoryBytes = 0)
    fun report => read (reports report).usage = job.status

/-- The status as the SQL store returns it. -/
def columnStatus (usage : JobUsage) : JobStatus := parseJobStatus usage.status.column usage.exitCode

/-- The calls in the order of their UPSERTs. -/
def completions {n : Nat} (schedule : List (CallEvent n)) : List (Fin n) :=
  schedule.filterMap fun event =>
    match event with
    | .upsert call => some call
    | .query .. => none

theorem UsageReport.record_measured (report : UsageReport) :
    report.record.status = report.usage.status ∧ report.record.exitCode = report.usage.exitCode ∧
      report.record.cpuTimeMs = report.usage.cpuTimeMs ∧ report.record.maxMemoryBytes = report.usage.maxMemoryBytes := by
  unfold record ControllerContext.reportJobUsage
  dsimp only
  split <;> split <;> exact ⟨rfl, rfl, rfl, rfl⟩

section Row

variable {job : JobInfo} {reports : Fin k → UsageReport}

theorem keepsUsage_iff {read : JobUsage → JobStatus} {row : JobUsage} {last : Fin (k + 1)}
    (reads : ∀ usage usage' : JobUsage, usage.status = usage'.status → usage.exitCode = usage'.exitCode →
      read usage = read usage')
    (status : row.status = read (recordOf job reports last))
    (cpu : row.cpuTimeMs = (recordOf job reports last).cpuTimeMs)
    (memory : row.maxMemoryBytes = (recordOf job reports last).maxMemoryBytes) :
    KeepsUsage job reports row ↔ LastKeepsUsage read job reports last := by
  rw [KeepsUsage, status, cpu, memory]
  cases last using Fin.cases with
  | zero =>
    refine and_congr Iff.rfl (exists_congr fun report => ?_)
    exact and_congr eq_comm eq_comm
  | succ report =>
    obtain ⟨status, exitCode, cpu, memory⟩ := (reports report).record_measured
    have same : read (reports report).record = read (reports report).usage := reads _ _ status exitCode
    constructor
    · intro keeps
      exact same.symm.trans keeps.1
    · intro final
      exact ⟨same.trans final, report, cpu, memory⟩

end Row

section Sql

variable {n : Nat} {calls : Fin n → RecordCall} {jobId : JobId} {final : Writers n} {schedule : List (CallEvent n)}
variable {store : SqlxAccountingStore}

theorem row_of_completions (one : ∀ call, (calls call).record.jobId = jobId) (keyed : store.Keyed)
    (bound : ∀ call logs, store.database.accept (store.columns (calls call).nonce (calls call).record logs) =
      some (store.columns (calls call).nonce (calls call).record logs))
    (ran : Writers.run calls schedule { store := store } = some final) :
    final.store.Keyed ∧ final.store = { store with table := final.store.table } ∧
      ∀ call, (completions schedule).getLast? = some call → ∃ logs,
        final.store.table.get? (asI64 jobId) = some (store.columns (calls call).nonce (calls call).record logs) := by
  induction schedule using List.reverseRecOn generalizing final with
  | nil =>
    cases ran
    exact ⟨keyed, rfl, fun _ last => by cases last⟩
  | append_singleton schedule event ih =>
    rw [Writers.run, List.foldlM_append] at ran
    obtain ⟨middle, first, last⟩ := Option.bind_eq_some_iff.mp ran
    have applied : middle.apply calls event = some final := by simpa using last
    obtain ⟨keyed', same, row⟩ := ih first
    cases event with
    | query call ok =>
      cases applied
      refine ⟨keyed', same, fun other isLast => row other ?_⟩
      simpa [completions] using isLast
    | upsert call =>
      obtain ⟨upserted, written, equal⟩ := Option.map_eq_some_iff.mp applied
      rw [SqlxAccountingStore.upsert_of_accept (by rw [same]; exact bound call _)] at written
      cases written
      subst equal
      refine ⟨keyed'.insert _, by rw [same], fun other isLast => ?_⟩
      have own : call = other := by simpa [completions] using isLast
      subst own
      refine ⟨SqlxAccountingStore.mergedLogs (middle.found call) (calls call).record, ?_⟩
      rw [← one call, same]
      exact HashMap.get?_insert_self _ _ _

end Sql

/-- The file was empty, and records of all jobs were appended; of those of the job, `last`
is the last one. -/
structure AppendedLast (job : JobInfo) (reports : Fin k → UsageReport) (file : FileAccountingStore)
    (writes : List Write)
    (last : Fin (k + 1)) : Prop where
  empty : file.file = []
  roundTrips : ∀ write ∈ writes, file.bincode.RoundTrips (file.secrets.sealUsageSecret write.fileNonce write.record)
  sizes : ∀ write ∈ writes, (file.payload write.fileNonce write.record).length ≤ maxRecordSize
  order : ∃ order : List (Fin (k + 1)),
    (writes.filter (·.record.jobId = job.id)).map Write.record = order.map (recordOf job reports) ∧
      order.getLast? = some last

/-- The calls for the job ran as scheduled, and `last` is the call of the last UPSERT. -/
structure UpsertedLast (job : JobInfo) (reports : Fin k → UsageReport) (store final : SqlxAccountingStore)
    (last : Fin (k + 1)) : Prop where
  keyed : store.Keyed
  ran : ∃ calls schedule found, (∀ call, (calls call).record = recordOf job reports call) ∧
    (∀ call logs, store.database.accept (store.columns (calls call).nonce (calls call).record logs) =
      some (store.columns (calls call).nonce (calls call).record logs)) ∧
    Writers.run calls schedule { store := store } = some ⟨final, found⟩ ∧ (completions schedule).getLast? = some last

section Stores

variable {job : JobInfo} {reports : Fin k → UsageReport} {last : Fin (k + 1)}

theorem AppendedLast.row {file : FileAccountingStore} {writes : List Write}
    (appended : AppendedLast job reports file writes last) : ∃ row,
    ((file.writeAll writes).queryHistory (.single job.id)).head? = some row ∧
      row.status = (recordOf job reports last).status ∧ row.cpuTimeMs = (recordOf job reports last).cpuTimeMs ∧
      row.maxMemoryBytes = (recordOf job reports last).maxMemoryBytes := by
  obtain ⟨order, same, isLast⟩ := appended.order
  have write : ∃ write, lastWrite writes job.id = some write ∧ write.record = recordOf job reports last := by
    have mapped := congrArg List.getLast? same
    rw [List.getLast?_map, List.getLast?_map, isLast] at mapped
    exact Option.map_eq_some_iff.mp mapped
  obtain ⟨write, found, record⟩ := write
  have rows := latest_same (usages_writeAll appended.empty appended.roundTrips appended.sizes) job.id
  rw [latest_fromFile, found] at rows
  rw [head?_queryHistory]
  cases listed : latest (file.writeAll writes).usages job.id with
  | none =>
    rw [listed] at rows
    cases rows
  | some row =>
    rw [listed] at rows
    cases rows with
    | some same =>
      refine ⟨row, rfl, ?_⟩
      rw [same.rest, ← record]
      exact ⟨rfl, rfl, rfl⟩

theorem UpsertedLast.row {store final : SqlxAccountingStore}
    (about : ∀ call, (recordOf job reports call).jobId = job.id)
    (upserted : UpsertedLast job reports store final last) : ∃ row,
    (final.queryHistory (.single job.id)).head? = some row ∧ row.status = columnStatus (recordOf job reports last) ∧
      row.cpuTimeMs = asU64 (asI64 (recordOf job reports last).cpuTimeMs) ∧
      row.maxMemoryBytes = asU64 (asI64 (recordOf job reports last).maxMemoryBytes) := by
  obtain ⟨calls, schedule, found, records, bound, ran, isLast⟩ := upserted.ran
  have one : ∀ call, (calls call).record.jobId = job.id := by
    intro call
    rw [records, about]
  obtain ⟨keyed, _, rows⟩ := row_of_completions one upserted.keyed bound ran
  obtain ⟨logs, held⟩ := rows last isLast
  have existing := keyed.existing (jobToUsage job)
  rw [show (jobToUsage job).jobId = job.id from rfl, held] at existing
  refine ⟨_, existing, ?_⟩
  rw [← records last]
  exact ⟨rfl, rfl, rfl⟩

/-- Whatever order the calls of a finished job are written in, the row has the final status
and the usage that a worker reported exactly if the last record does: it is a report that
says the final status, or the job's own while a worker measured nothing. -/
theorem usage_row_kept_iff (about : ∀ call, (recordOf job reports call).jobId = job.id)
    (measured : ∀ report, (reports report).usage.cpuTimeMs < 2 ^ 64 ∧ (reports report).usage.maxMemoryBytes < 2 ^ 64)
    {file : FileAccountingStore} {writes : List Write} {store final : SqlxAccountingStore} {lastUpsert : Fin (k + 1)}
    (appended : AppendedLast job reports file writes last)
    (upserted : UpsertedLast job reports store final lastUpsert) :
    ((∃ row, ((file.writeAll writes).queryHistory (.single job.id)).head? = some row ∧ KeepsUsage job reports row) ↔
      LastKeepsUsage JobUsage.status job reports last) ∧
    ((∃ row, (final.queryHistory (.single job.id)).head? = some row ∧ KeepsUsage job reports row) ↔
      LastKeepsUsage columnStatus job reports lastUpsert) := by
  constructor
  · obtain ⟨row, found, status, cpu, memory⟩ := appended.row
    rw [found, ← keepsUsage_iff (fun _ _ same _ => same) status cpu memory]
    simp
  · obtain ⟨row, found, status, cpu, memory⟩ := upserted.row about
    have small : (recordOf job reports lastUpsert).cpuTimeMs < 2 ^ 64 ∧
        (recordOf job reports lastUpsert).maxMemoryBytes < 2 ^ 64 := by
      cases lastUpsert using Fin.cases with
      | zero => exact ⟨Nat.two_pow_pos 64, Nat.two_pow_pos 64⟩
      | succ report =>
        obtain ⟨_, _, cpu, memory⟩ := (reports report).record_measured
        exact ⟨cpu.trans_lt (measured report).1, memory.trans_lt (measured report).2⟩
    rw [asU64_asI64 small.1] at cpu
    rw [asU64_asI64 small.2] at memory
    have reads (usage usage' : JobUsage) (same : usage.status = usage'.status)
        (same' : usage.exitCode = usage'.exitCode) : columnStatus usage = columnStatus usage' := by
      rw [columnStatus, columnStatus, same, same']
    rw [found, ← keepsUsage_iff reads status cpu memory]
    simp

end Stores

section Sample

def finishedJob : JobInfo :=
  { id := 1, binary := "sh", reqNodes := 1, reqCores := 1, reqMemory := 1, userId := "user", status := .completed 0 }

def sampleReport : UsageReport where
  ctx := { state := { jobs := HashMap.insert ∅ 1 { finishedJob with status := .running } } }
  workerId := "w"
  usage := { jobToUsage finishedJob with cpuTimeMs := 5, maxMemoryBytes := 7 }

/-- The encoding of a record of that job, with these bytes for what was measured and for the
log files. -/
def usageBytes (cpu memory : UInt8) (logs : List UInt8) : List UInt8 :=
  let zeros : List UInt8 := List.replicate 7 0
  1 :: sampleTail.take 42 ++ [1, 0, 0, 0, 0] ++ [2, 0, 0, 0, 0, 0, 0, 0] ++ cpu :: zeros ++ memory :: zeros ++
    (sampleTail.drop 63).take 50 ++ logs ++ sampleTail.drop 121

def finalBytes : List UInt8 := usageBytes 0 0 (List.replicate 8 0)

def reportBytes : List UInt8 :=
  usageBytes 5 7 ([1, 0, 0, 0, 0, 0, 0, 0] ++ [1, 0, 0, 0, 0, 0, 0, 0] ++ [119] ++ [0, 0])

def usageBincode : Bincode where
  serialize usage := if usage.cpuTimeMs = 5 then reportBytes else finalBytes
  deserialize bytes :=
    if bytes = reportBytes then some sampleReport.record
    else if bytes = finalBytes then some (jobToUsage finishedJob)
    else none

/-- The job has one report. -/
def sampleReports (_ : Fin 1) : UsageReport := sampleReport

def sampleWrites (order : List (Fin 2)) : List Write :=
  order.map fun call => { record := recordOf finishedJob sampleReports call }

theorem appendedLast_sample (order : List (Fin 2)) {last : Fin 2} (isLast : order.getLast? = some last) :
    AppendedLast finishedJob sampleReports { bincode := usageBincode } (sampleWrites order) last := by
  have apart : finalBytes ≠ reportBytes := by decide +kernel
  have report : usageBincode.deserialize reportBytes = some sampleReport.record := by
    simp only [usageBincode, if_true]
  have final : usageBincode.deserialize finalBytes = some (jobToUsage finishedJob) := by
    simp only [usageBincode, if_neg apart, if_true]
  have either : ∀ write ∈ sampleWrites order,
      write.record = sampleReport.record ∨ write.record = jobToUsage finishedJob := by
    intro write member
    obtain ⟨call, _, same⟩ := List.mem_map.mp member
    subst same
    cases call using Fin.cases with
    | zero => exact .inr rfl
    | succ report => exact .inl rfl
  refine ⟨rfl, fun write member => ?_, fun write member => ?_, order, ?_, isLast⟩
  · rcases either write member with same | same
    · rw [same]
      exact ⟨sampleReport.record, report, .refl _, .refl _, rfl⟩
    · rw [same]
      exact ⟨jobToUsage finishedJob, final, .refl _, .refl _, rfl⟩
  · change (if _ then reportBytes else finalBytes).length ≤ maxRecordSize
    split
    · decide +kernel
    · decide +kernel
  · rw [List.filter_eq_self.mpr ?_, sampleWrites, List.map_map]
    · rfl
    · intro write member
      rcases either write member with same | same <;> rw [same] <;> decide

theorem upsertedLast_sample (json : SerdeJson) (schedule : List (CallEvent 2)) {last : Fin 2}
    (isLast : (completions schedule).getLast? = some last) :
    ∃ final, UpsertedLast finishedJob sampleReports { json := json } final last := by
  obtain ⟨final, ran⟩ := run_sqlite (fun call => { record := recordOf finishedJob sampleReports call })
    schedule { store := { json := json } } rfl
  exact ⟨final.store, keyed_empty json, _, schedule, final.found, fun _ => rfl, fun _ _ => rfl, ran, isLast⟩

theorem about_sample (call : Fin 2) : (recordOf finishedJob sampleReports call).jobId = finishedJob.id := by
  cases call using Fin.cases with
  | zero => rfl
  | succ report => rfl

/-- The report is written after the finalisation. -/
theorem usage_row_kept_iff_report_last : ∃ (file : FileAccountingStore) (store final : SqlxAccountingStore),
    AppendedLast finishedJob sampleReports file (sampleWrites [0, 1]) 1 ∧
    UpsertedLast finishedJob sampleReports store final 1 ∧
    (∃ row, ((file.writeAll (sampleWrites [0, 1])).queryHistory (.single 1)).head? = some row ∧
      KeepsUsage finishedJob sampleReports row) ∧
    ∃ row, (final.queryHistory (.single 1)).head? = some row ∧ KeepsUsage finishedJob sampleReports row := by
  obtain ⟨json, _⟩ := exists_sampleJson
  obtain ⟨final, upserted⟩ := upsertedLast_sample json [.query 0 true, .upsert 0, .query 1 true, .upsert 1] rfl
  have appended := appendedLast_sample [0, 1] rfl
  have measured : sampleReport.usage.cpuTimeMs < 2 ^ 64 ∧ sampleReport.usage.maxMemoryBytes < 2 ^ 64 := by decide
  have kept := usage_row_kept_iff about_sample (fun _ => measured) appended upserted
  exact ⟨_, _, final, appended, upserted, kept.1.mpr rfl, kept.2.mpr rfl⟩

/-- The worker reports its usage and then that the job is done, and the records are written
in this order: the row has the zeros of the second. -/
theorem finalisation_overwrites_usage : ∃ (file : FileAccountingStore) (store final : SqlxAccountingStore),
    AppendedLast finishedJob sampleReports file (sampleWrites [1, 0]) 0 ∧
    UpsertedLast finishedJob sampleReports store final 0 ∧
    (∃ row, ((file.writeAll (sampleWrites [1, 0])).queryHistory (.single 1)).head? = some row ∧
      ¬ KeepsUsage finishedJob sampleReports row) ∧
    ∃ row, (final.queryHistory (.single 1)).head? = some row ∧ ¬ KeepsUsage finishedJob sampleReports row := by
  obtain ⟨json, _⟩ := exists_sampleJson
  obtain ⟨final, upserted⟩ := upsertedLast_sample json [.query 1 true, .query 0 true, .upsert 1, .upsert 0] rfl
  have appended := appendedLast_sample [1, 0] rfl
  obtain ⟨row, found, _, cpu, _⟩ := appended.row
  obtain ⟨row', found', _, cpu', _⟩ := upserted.row about_sample
  refine ⟨_, _, final, appended, upserted, ⟨row, found, ?_⟩, row', found', ?_⟩
  · rintro ⟨_, report, measured, _⟩
    have five : row.cpuTimeMs = 5 := measured
    exact absurd (cpu.symm.trans five) (by decide)
  · rintro ⟨_, report, measured, _⟩
    have five : row'.cpuTimeMs = 5 := measured
    exact absurd (cpu'.symm.trans five) (by decide)

end Sample

end Veloce
