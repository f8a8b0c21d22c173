import Veloce.Controller.ConcurrentWrites
import Veloce.Controller.TornAppends

/-! The two stores after the same records. -/

namespace Veloce

open Collections

/-- A record that is written to both stores, with the nonces that are drawn for it. -/
structure Write where
  record : JobUsage
  fileNonce : Nat := 0
  sqlNonce : Nat := 0

def lastWrite (writes : List Write) (jobId : JobId) : Option Write :=
  (writes.filter (·.record.jobId = jobId)).getLast?

def FileAccountingStore.writeAll (store : FileAccountingStore) (writes : List Write) : FileAccountingStore :=
  store.appendAll (writes.map fun write => { nonce := write.fileNonce, record := write.record })

/-- A record that the database refuses is an error for the caller and changes nothing. -/
def SqlxAccountingStore.writeAll (store : SqlxAccountingStore) (writes : List Write) : SqlxAccountingStore :=
  writes.foldl (fun store write => (store.recordJob write.sqlNonce write.record).getD store) store

def SameRows (rows rows' : List JobUsage) : Prop :=
  (∀ row ∈ rows, ∃ row' ∈ rows', row.Same row') ∧ ∀ row' ∈ rows', ∃ row ∈ rows, row.Same row'

/-- The ids of the filter are `u64` values. -/
def HistoryFilter.Typed : HistoryFilter → Prop
  | .all => True
  | .single id => id < 2 ^ 64
  | .range first last => first < 2 ^ 64 ∧ last < 2 ^ 64

/-- Bounds that do not fit into an `i64` do not matter for the job: an end that turns
negative selects no row, a start that turns negative every row up to the end. -/
def HistoryFilter.Fits (filter : HistoryFilter) (jobId : Nat) : Prop :=
  match filter with
  | .all | .single _ => True
  | .range first last => if last < 2 ^ 63 then first < 2 ^ 63 ∨ last < jobId else jobId < first

/-- Both stores return the same text for the secret: it does not look encrypted, or both
take it for what it is. -/
def JobSecretsCipher.ReadsAlike (secrets : JobSecretsCipher) (nonce : Nat) (secret : String) : Prop :=
  isEncrypted secret = true →
    if secrets.encrypt nonce secret = none then (secrets.decrypt secret).isSome = true
    else secrets.decrypt secret = none ∨ secrets.decrypt secret = some secret

theorem HistoryFilter.fits_iff {filter : HistoryFilter} {jobId : Nat} (typed : filter.Typed)
    (small : jobId < 2 ^ 63) :
    (filter.includes jobId = true ↔ filter.selects (asI64 jobId) = true) ↔ filter.Fits jobId := by
  have row := asI64_of_lt small
  cases filter with
  | all => exact ⟨fun _ => trivial, fun _ => Iff.rfl⟩
  | single id =>
    refine ⟨fun _ => trivial, fun _ => ?_⟩
    simp only [includes, selects, decide_eq_true_eq]
    exact (asI64_inj (by omega) typed).symm
  | range first last =>
    simp only [includes, selects, Fits, Bool.and_eq_true, decide_eq_true_eq, row]
    by_cases lastFits : last < 2 ^ 63
    · rw [if_pos lastFits, asI64_of_lt lastFits]
      by_cases firstFits : first < 2 ^ 63
      · rw [asI64_of_lt firstFits]
        exact iff_of_true (and_congr Int.ofNat_le.symm Int.ofNat_le.symm) (.inl firstFits)
      · have negative := asI64_of_ge (by omega) typed.1
        omega
    · have negative := asI64_of_ge (by omega) typed.2
      rw [if_neg lastFits]
      constructor
      · intro same
        by_contra after
        have included : first ≤ jobId ∧ jobId ≤ last := by omega
        have selected := same.mp included
        omega
      · intro before
        refine ⟨fun included => ?_, fun selected => by omega⟩
        exact absurd included.1 (Nat.not_le.mpr before)

theorem JobSecretsCipher.readsAlike_iff (secrets : JobSecretsCipher) (fileNonce nonce : Nat) (secret : String) :
    secrets.openSecret (secrets.sealSecret fileNonce secret) =
      secrets.decodeAtRest (secrets.encodeForStorage nonce secret).secretEnc
        (secrets.encodeForStorage nonce secret).secretColumn ↔ secrets.ReadsAlike nonce secret := by
  rw [open_seal, decode_encode, ReadsAlike]
  cases looks : isEncrypted secret with
  | false => simp
  | true =>
    have filled : secret ≠ "" := by
      rintro rfl
      cases looks
    by_cases unsealed : secrets.encrypt nonce secret = none
    · cases opened : secrets.decrypt secret <;> simp [unsealed, filled]
    · cases opened : secrets.decrypt secret <;> simp [unsealed]

section Writes

variable {writes : List Write}

theorem lastWrite_append (writes : List Write) (write : Write) (jobId : JobId) :
    lastWrite (writes ++ [write]) jobId = if write.record.jobId = jobId then some write else lastWrite writes jobId := by
  rw [lastWrite, List.filter_append]
  by_cases own : write.record.jobId = jobId
  · simp [own]
  · simp [own, lastWrite]

theorem lastWrite_mem {jobId : JobId} {write : Write} (last : lastWrite writes jobId = some write) :
    write ∈ writes ∧ write.record.jobId = jobId := by
  obtain ⟨member, own⟩ := List.mem_filter.mp (List.mem_of_getLast? last)
  exact ⟨member, of_decide_eq_true own⟩

def logsOf (writes : List Write) (jobId : JobId) : HashMap WorkerId WorkerLogFiles :=
  ((latest (writes.map Write.record) jobId).map JobUsage.workerLogFiles).getD ∅

theorem latest_eq (writes : List Write) (jobId : JobId) : latest (writes.map Write.record) jobId =
    (lastWrite writes jobId).map fun write => { write.record with workerLogFiles := logsOf writes jobId } := by
  induction writes using List.reverseRecOn with
  | nil => rfl
  | append_singleton writes write ih =>
    rw [lastWrite_append, logsOf, List.map_append, List.map_singleton, latest_append]
    split
    · cases latest (writes.map Write.record) jobId <;> rfl
    · exact ih

theorem logsOf_append (writes : List Write) (write : Write) :
    logsOf (writes ++ [write]) write.record.jobId =
      SqlxAccountingStore.mergedLogs (latest (writes.map Write.record) write.record.jobId) write.record := by
  rw [logsOf, List.map_append, List.map_singleton, latest_append, if_pos rfl]
  cases latest (writes.map Write.record) write.record.jobId <;> rfl

theorem logsOf_append_of_ne (writes : List Write) {write : Write} {jobId : JobId}
    (other : write.record.jobId ≠ jobId) : logsOf (writes ++ [write]) jobId = logsOf writes jobId := by
  rw [logsOf, List.map_append, List.map_singleton, latest_append, if_neg other]
  rfl

end Writes

/-- The table holds, for every job, the columns of its last record with the log files of
all its records. -/
structure Mirrors (writes : List Write) (sql : SqlxAccountingStore) : Prop where
  keyed : sql.Keyed
  keys : ∀ key row, sql.table.get? key = some row → ∃ write ∈ writes, key = asI64 write.record.jobId
  absent : ∀ jobId, jobId < 2 ^ 63 → lastWrite writes jobId = none → sql.table.get? (asI64 jobId) = none
  present : ∀ jobId write, jobId < 2 ^ 63 → lastWrite writes jobId = some write → ∃ logs,
    sql.table.get? (asI64 jobId) = some (sql.columns write.sqlNonce write.record logs) ∧ logs.Same (logsOf writes jobId)

section Mirror

variable {writes : List Write} {sql final : SqlxAccountingStore}

theorem Mirrors.mergedLogs (mirrors : Mirrors writes sql) {record : JobUsage} (range : record.InRange) :
    (SqlxAccountingStore.mergedLogs (sql.existing record) record).Same
      (SqlxAccountingStore.mergedLogs (latest (writes.map Write.record) record.jobId) record) := by
  rw [mirrors.keyed.existing, latest_eq]
  cases last : lastWrite writes record.jobId with
  | none =>
    rw [mirrors.absent _ range.jobId last]
    exact .refl _
  | some write =>
    obtain ⟨logs, stored, same⟩ := mirrors.present _ write range.jobId last
    rw [stored]
    exact mergeWorkerLogFileMaps_same ((sql.decodeLogs_same logs).trans same) (.refl _)

theorem Mirrors.write (mirrors : Mirrors writes sql) {write : Write} (range : write.record.InRange)
    (fits : ∀ logs, sql.database.accept (sql.columns write.sqlNonce write.record logs) =
      some (sql.columns write.sqlNonce write.record logs))
    (written : sql.recordJob write.sqlNonce write.record = some final) :
    Mirrors (writes ++ [write]) final ∧ final = { sql with table := final.table } := by
  rw [SqlxAccountingStore.recordJob, SqlxAccountingStore.upsert_of_accept (fits _)] at written
  cases written
  refine ⟨⟨mirrors.keyed.insert _, ?_, ?_, ?_⟩, rfl⟩
  · intro key row found
    simp only [HashMap.get?_insert] at found
    split at found
    · rename_i same
      exact ⟨write, by simp, same⟩
    · obtain ⟨other, member, same⟩ := mirrors.keys key row found
      exact ⟨other, List.mem_append_left _ member, same⟩
  · intro jobId small none
    rw [lastWrite_append] at none
    split at none
    · cases none
    · rename_i other
      have different : asI64 jobId ≠ asI64 write.record.jobId := by
        intro same
        exact other ((asI64_inj (Nat.lt_trans small (by norm_num)) (Nat.lt_trans range.jobId (by norm_num))).mp same).symm
      exact (HashMap.get?_insert _ _ _ _).trans ((if_neg different).trans (mirrors.absent jobId small none))
  · intro jobId last small found
    rw [lastWrite_append] at found
    split at found
    · rename_i own
      cases found
      subst own
      refine ⟨_, HashMap.get?_insert_self _ _ _, ?_⟩
      rw [logsOf_append]
      exact mirrors.mergedLogs range
    · rename_i other
      have different : asI64 jobId ≠ asI64 write.record.jobId := by
        intro same
        exact other ((asI64_inj (Nat.lt_trans small (by norm_num)) (Nat.lt_trans range.jobId (by norm_num))).mp same).symm
      obtain ⟨logs, stored, same⟩ := mirrors.present jobId last small found
      refine ⟨logs, ?_, (logsOf_append_of_ne writes other).symm ▸ same⟩
      exact (HashMap.get?_insert _ _ _ _).trans ((if_neg different).trans stored)

theorem mirrors_writeAll (empty : sql.table = ∅) (ranges : ∀ write ∈ writes, write.record.InRange)
    (bound : ∀ write ∈ writes, ∀ logs, sql.database.accept (sql.columns write.sqlNonce write.record logs) =
      some (sql.columns write.sqlNonce write.record logs)) :
    Mirrors writes (sql.writeAll writes) ∧ sql.writeAll writes = { sql with table := (sql.writeAll writes).table } := by
  induction writes using List.reverseRecOn with
  | nil =>
    refine ⟨⟨?_, ?_, ?_, ?_⟩, rfl⟩
    · intro key row found
      rw [SqlxAccountingStore.writeAll, List.foldl_nil, empty] at found
      cases found
    · intro key row found
      rw [SqlxAccountingStore.writeAll, List.foldl_nil, empty] at found
      cases found
    · intro jobId _ _
      rw [SqlxAccountingStore.writeAll, List.foldl_nil, empty]
      rfl
    · intro jobId write _ last
      cases last
  | append_singleton writes write ih =>
    obtain ⟨mirrors, same⟩ := ih (fun other member => ranges other (List.mem_append_left _ member))
      (fun other member => bound other (List.mem_append_left _ member))
    have own : write ∈ writes ++ [write] := by simp
    have fits : ∀ logs, (sql.writeAll writes).database.accept
        ((sql.writeAll writes).columns write.sqlNonce write.record logs) =
          some ((sql.writeAll writes).columns write.sqlNonce write.record logs) := by
      intro logs
      rw [same]
      exact bound write own logs
    obtain ⟨mirrors', same'⟩ := mirrors.write (ranges write own) fits
      (SqlxAccountingStore.upsert_of_accept (fits _))
    have last : sql.writeAll (writes ++ [write]) =
        ((sql.writeAll writes).recordJob write.sqlNonce write.record).getD (sql.writeAll writes) := by
      rw [SqlxAccountingStore.writeAll, List.foldl_append]
      rfl
    rw [last, SqlxAccountingStore.recordJob, SqlxAccountingStore.upsert_of_accept (fits _)]
    refine ⟨mirrors', ?_⟩
    rw [Option.getD_some, same', same]

end Mirror

def Write.fromFile (write : Write) (secrets : JobSecretsCipher) (logs : HashMap WorkerId WorkerLogFiles) : JobUsage :=
  { write.record with
    secret := secrets.openSecret (secrets.sealSecret write.fileNonce write.record.secret)
    workerLogFiles := logs }

def Write.fromSql (write : Write) (secrets : JobSecretsCipher) (logs : HashMap WorkerId WorkerLogFiles) : JobUsage :=
  { write.record with
    status := parseJobStatus write.record.status.column write.record.exitCode
    secret := secrets.decodeAtRest (secrets.encodeForStorage write.sqlNonce write.record.secret).secretEnc
      (secrets.encodeForStorage write.sqlNonce write.record.secret).secretColumn
    workerLogFiles := logs }

section Answers

variable {writes : List Write} {file : FileAccountingStore} {sql : SqlxAccountingStore} {filter : HistoryFilter}

theorem fromFile_same_iff (write : Write) (secrets : JobSecretsCipher) (logs : HashMap WorkerId WorkerLogFiles) :
    (write.fromFile secrets logs).Same (write.fromSql secrets logs) ↔
      write.record.StatusReadsBack ∧ secrets.ReadsAlike write.sqlNonce write.record.secret := by
  rw [← parseJobStatus_column_iff, ← secrets.readsAlike_iff write.fileNonce]
  constructor
  · intro same
    exact ⟨(congrArg JobUsage.status same.rest).symm, congrArg JobUsage.secret same.rest⟩
  · rintro ⟨status, secret⟩
    refine ⟨.refl _, .refl _, ?_⟩
    rw [Write.fromFile, Write.fromSql, status, secret]

theorem lastWrite_of_mem {write : Write} (member : write ∈ writes) :
    ∃ last, lastWrite writes write.record.jobId = some last := by
  refine Option.isSome_iff_exists.mp ?_
  rw [lastWrite, List.getLast?_isSome, ← List.length_pos_iff]
  exact List.length_pos_of_mem (List.mem_filter.mpr ⟨member, by simp⟩)

theorem latest_fromFile (secrets : JobSecretsCipher) (writes : List Write) (jobId : JobId) :
    latest (writes.map fun write => write.fromFile secrets write.record.workerLogFiles) jobId =
      (lastWrite writes jobId).map fun write => write.fromFile secrets (logsOf writes jobId) := by
  induction writes using List.reverseRecOn with
  | nil => rfl
  | append_singleton writes write ih =>
    rw [List.map_append, List.map_singleton, latest_append, lastWrite_append]
    change (if write.record.jobId = jobId then _ else _) = _
    split
    · rename_i own
      subst own
      rw [ih, logsOf_append, latest_eq]
      cases lastWrite writes write.record.jobId <;> rfl
    · rename_i other
      rw [ih, logsOf_append_of_ne writes other]

theorem usages_writeAll (empty : file.file = [])
    (roundTrips : ∀ write ∈ writes, file.bincode.RoundTrips (file.secrets.sealUsageSecret write.fileNonce write.record))
    (sizes : ∀ write ∈ writes, (file.payload write.fileNonce write.record).length ≤ maxRecordSize) :
    List.Forall₂ JobUsage.Same (file.writeAll writes).usages
      (writes.map fun write => write.fromFile file.secrets write.record.workerLogFiles) := by
  have bytes : (file.writeAll writes).file =
      (writes.map fun write => file.payload write.fileNonce write.record).flatMap frame := by
    rw [FileAccountingStore.writeAll, appendAll_eq, empty, List.nil_append, List.flatMap_map, List.flatMap_map]
    rfl
  have fit : ∀ payload ∈ writes.map fun write => file.payload write.fileNonce write.record,
      payload.length < 256 ^ 8 ∧ payload.length ≤ maxRecordSize := by
    intro payload member
    obtain ⟨write, listed, same⟩ := List.mem_map.mp member
    subst same
    refine ⟨Nat.lt_of_le_of_lt (sizes write listed) ?_, sizes write listed⟩
    norm_num [maxRecordSize]
  have read : frames maxRecordSize (file.writeAll writes).file =
      writes.map fun write => file.payload write.fileNonce write.record := by
    rw [bytes, ← List.append_nil (List.flatMap _ _), frames_flatMap fit]
    exact List.append_nil _
  rw [FileAccountingStore.usages, read]
  rw [show (file.writeAll writes).bincode = file.bincode by rw [FileAccountingStore.writeAll, appendAll_eq],
    show (file.writeAll writes).secrets = file.secrets by rw [FileAccountingStore.writeAll, appendAll_eq]]
  clear read bytes fit sizes
  induction writes with
  | nil => exact .nil
  | cons write rest ih =>
    obtain ⟨decoded, deserialized, same⟩ := roundTrips write List.mem_cons_self
    change file.bincode.deserialize (file.payload write.fileNonce write.record) = some decoded at deserialized
    rw [List.map_cons, List.map_cons, List.filterMap_cons_some deserialized, List.map_cons]
    refine .cons ⟨same.gresReq, same.workerLogFiles, ?_⟩ (ih fun other member =>
      roundTrips other (List.mem_cons_of_mem _ member))
    have secret := congrArg JobUsage.secret same.rest
    simp only [JobSecretsCipher.openUsageSecret, Write.fromFile]
    rw [secret, same.rest]
    rfl

/-- What the two stores rely on: the encoding of the records, the size of a record in the
file, and that the database keeps the values as they are bound. -/
structure Stored (file : FileAccountingStore) (sql : SqlxAccountingStore) (writes : List Write) : Prop where
  empty : file.file = [] ∧ sql.table = ∅
  secrets : file.secrets = sql.secrets
  ranges : ∀ write ∈ writes, write.record.InRange
  roundTrips : ∀ write ∈ writes, file.bincode.RoundTrips (file.secrets.sealUsageSecret write.fileNonce write.record)
  sizes : ∀ write ∈ writes, (file.payload write.fileNonce write.record).length ≤ maxRecordSize
  bound : ∀ write ∈ writes, ∀ logs, sql.database.accept (sql.columns write.sqlNonce write.record logs) =
    some (sql.columns write.sqlNonce write.record logs)

theorem Stored.fileRow (stored : Stored file sql writes) (row : JobUsage) :
    row ∈ (file.writeAll writes).queryHistory filter →
      ∃ write, lastWrite writes row.jobId = some write ∧ filter.includes row.jobId = true ∧
        row.Same (write.fromFile sql.secrets (logsOf writes row.jobId)) := by
  intro listed
  obtain ⟨included, found⟩ := mem_queryHistory.mp listed
  have rows := latest_same (usages_writeAll stored.empty.1 stored.roundTrips stored.sizes) row.jobId
  rw [found, latest_fromFile, stored.secrets] at rows
  cases last : lastWrite writes row.jobId with
  | none =>
    rw [last] at rows
    cases rows
  | some write =>
    rw [last] at rows
    cases rows with
    | some same => exact ⟨write, rfl, included, same⟩

theorem Stored.fileRow_of (stored : Stored file sql writes) {jobId : JobId} {write : Write}
    (last : lastWrite writes jobId = some write) (included : filter.includes jobId = true) :
    ∃ row ∈ (file.writeAll writes).queryHistory filter,
      row.Same (write.fromFile sql.secrets (logsOf writes jobId)) := by
  have rows := latest_same (usages_writeAll stored.empty.1 stored.roundTrips stored.sizes) jobId
  rw [latest_fromFile, last, stored.secrets] at rows
  cases found : latest (file.writeAll writes).usages jobId with
  | none =>
    rw [found] at rows
    cases rows
  | some row =>
    rw [found] at rows
    cases rows with
    | some same =>
      have about := latest_jobId found
      refine ⟨row, mem_queryHistory.mpr ?_, same⟩
      rw [about]
      exact ⟨included, found⟩

theorem Stored.sqlRow (stored : Stored file sql writes) {row : JobUsage}
    (listed : row ∈ (sql.writeAll writes).queryHistory filter) :
    ∃ write, lastWrite writes row.jobId = some write ∧ filter.selects (asI64 row.jobId) = true ∧
      row.Same (write.fromSql sql.secrets (logsOf writes row.jobId)) := by
  obtain ⟨mirrors, same⟩ := mirrors_writeAll stored.empty.2 stored.ranges stored.bound
  obtain ⟨key, columns, found, selected, mapped⟩ := SqlxAccountingStore.mem_history.mp listed
  obtain ⟨write, member, key'⟩ := mirrors.keys key columns found
  obtain ⟨last, isLast⟩ := lastWrite_of_mem member
  have small := (stored.ranges write member).jobId
  obtain ⟨logs, held, sameLogs⟩ := mirrors.present _ last small isLast
  rw [mirrors.keyed key columns found, key'] at selected
  rw [key', held] at found
  cases found
  obtain ⟨member', own⟩ := lastWrite_mem isLast
  have back := (sql.writeAll writes).mapRow_columns (stored.ranges last member') last.sqlNonce logs
  rw [mapped] at back
  have about : row.jobId = write.record.jobId := back.jobId.trans own
  rw [about]
  refine ⟨last, isLast, selected, back.trans ⟨.refl _, sameLogs, ?_⟩⟩
  rw [same]
  rfl

theorem Stored.sqlRow_of (stored : Stored file sql writes) {jobId : JobId} {write : Write}
    (last : lastWrite writes jobId = some write) (selected : filter.selects (asI64 jobId) = true) :
    ∃ row ∈ (sql.writeAll writes).queryHistory filter, row.Same (write.fromSql sql.secrets (logsOf writes jobId)) := by
  obtain ⟨mirrors, same⟩ := mirrors_writeAll stored.empty.2 stored.ranges stored.bound
  obtain ⟨member, own⟩ := lastWrite_mem last
  have range := stored.ranges write member
  have small : jobId < 2 ^ 63 := own ▸ range.jobId
  obtain ⟨logs, held, sameLogs⟩ := mirrors.present jobId write small last
  have back := (sql.writeAll writes).mapRow_columns range write.sqlNonce logs
  refine ⟨_, SqlxAccountingStore.mem_history.mpr ⟨_, _, held, ?_, rfl⟩, back.trans ⟨.refl _, sameLogs, ?_⟩⟩
  · rw [mirrors.keyed _ _ held]
    exact selected
  · rw [same]
    rfl

/-- After the same writes the two stores answer a query alike exactly if the bounds of the
filter do not matter as signed numbers, and for every job that it includes the last record
has a status and a secret that can be read back from their columns. -/
theorem stores_answer_alike_iff (stored : Stored file sql writes) (typed : filter.Typed) :
    SameRows ((file.writeAll writes).queryHistory filter) ((sql.writeAll writes).queryHistory filter) ↔
      ∀ jobId write, lastWrite writes jobId = some write → filter.Fits jobId ∧
        (filter.includes jobId = true →
          write.record.StatusReadsBack ∧ sql.secrets.ReadsAlike write.sqlNonce write.record.secret) := by
  have small {jobId : JobId} {write : Write} (last : lastWrite writes jobId = some write) : jobId < 2 ^ 63 := by
    obtain ⟨member, own⟩ := lastWrite_mem last
    exact own ▸ (stored.ranges write member).jobId
  constructor
  · rintro ⟨inSql, inFile⟩ jobId write last
    obtain ⟨_, own⟩ := lastWrite_mem last
    have forward (included : filter.includes jobId = true) : filter.selects (asI64 jobId) = true ∧
        (write.fromFile sql.secrets (logsOf writes jobId)).Same (write.fromSql sql.secrets (logsOf writes jobId)) := by
      obtain ⟨row, listed, fromFile⟩ := stored.fileRow_of last included
      obtain ⟨row', listed', same⟩ := inSql row listed
      obtain ⟨write', last', selected, fromSql⟩ := stored.sqlRow listed'
      have about : row'.jobId = jobId := same.jobId.symm.trans (fromFile.jobId.trans own)
      rw [about] at last' selected fromSql
      rw [last] at last'
      cases last'
      exact ⟨selected, fromFile.symm.trans (same.trans fromSql)⟩
    refine ⟨(filter.fits_iff typed (small last)).mp ⟨fun included => (forward included).1, fun selected => ?_⟩,
      fun included => (fromFile_same_iff write sql.secrets _).mp (forward included).2⟩
    obtain ⟨row', listed', fromSql⟩ := stored.sqlRow_of last selected
    obtain ⟨row, listed, same⟩ := inFile row' listed'
    obtain ⟨_, _, included, _⟩ := stored.fileRow row listed
    have about : row.jobId = jobId := same.jobId.trans (fromSql.jobId.trans own)
    exact about ▸ included
  · intro alike
    constructor
    · intro row listed
      obtain ⟨write, last, included, fromFile⟩ := stored.fileRow row listed
      obtain ⟨fits, reads⟩ := alike row.jobId write last
      have selected := ((filter.fits_iff typed (small last)).mpr fits).mp included
      obtain ⟨row', listed', fromSql⟩ := stored.sqlRow_of last selected
      exact ⟨row', listed', fromFile.trans (((fromFile_same_iff write _ _).mpr (reads included)).trans fromSql.symm)⟩
    · intro row' listed'
      obtain ⟨write, last, selected, fromSql⟩ := stored.sqlRow listed'
      obtain ⟨fits, reads⟩ := alike row'.jobId write last
      have included := ((filter.fits_iff typed (small last)).mpr fits).mpr selected
      obtain ⟨row, listed, fromFile⟩ := stored.fileRow_of last included
      exact ⟨row, listed, fromFile.trans (((fromFile_same_iff write _ _).mpr (reads included)).trans fromSql.symm)⟩

end Answers

section Sample

/-- Two reports about one job, each with the log of a worker. -/
def doneRecord : JobUsage := { (sampleCall "a").record with status := .completed 3, exitCode := some 3 }

def lostRecord : JobUsage := { (sampleCall "b").record with status := .failed "lost node", exitCode := some 137 }

def reportedWrites : List Write := [{ record := doneRecord }, { record := lostRecord }]

/-- The encodings of a text and of the two reports. -/
def bincodeText (text : String) : List UInt8 :=
  UInt8.ofNat text.length :: List.replicate 7 0 ++ text.toList.map fun char => UInt8.ofNat char.toNat

def loggedBytes (exitCode : UInt8) (status : List UInt8) (workerId : WorkerId) : List UInt8 :=
  1 :: sampleTail.take 42 ++ [1, exitCode, 0, 0, 0] ++ status ++ (sampleTail.drop 47).take 66 ++
    1 :: List.replicate 7 0 ++ bincodeText workerId ++ 1 :: bincodeText (workerId ++ ".out") ++ 0 :: sampleTail.drop 121

def doneBytes : List UInt8 := loggedBytes 3 [2, 0, 0, 0, 3, 0, 0, 0] "a"

def lostBytes : List UInt8 := loggedBytes 137 ([3, 0, 0, 0] ++ bincodeText "lost node") "b"

def reportBincode : Bincode where
  serialize usage := if usage.exitCode = some 3 then doneBytes else lostBytes
  deserialize bytes :=
    if bytes = doneBytes then some doneRecord else if bytes = lostBytes then some lostRecord else none

theorem stored_reports (json : SerdeJson) : Stored { bincode := reportBincode } { json := json } reportedWrites where
  empty := ⟨rfl, rfl⟩
  secrets := rfl
  ranges write member := by
    rcases List.mem_pair.mp member with rfl | rfl <;> constructor <;>
      simp [doneRecord, lostRecord, sampleCall, sampleRecord, jobToUsage]
  roundTrips write member := by
    have apart : lostBytes ≠ doneBytes := by decide +kernel
    have done : reportBincode.serialize doneRecord = doneBytes := by simp [reportBincode, doneRecord]
    have lost : reportBincode.serialize lostRecord = lostBytes := by simp [reportBincode, lostRecord]
    rcases List.mem_pair.mp member with rfl | rfl
    · have read : reportBincode.deserialize (reportBincode.serialize doneRecord) = some doneRecord := by
        rw [done]
        simp only [reportBincode, if_true]
      exact ⟨doneRecord, read, .refl _⟩
    · have read : reportBincode.deserialize (reportBincode.serialize lostRecord) = some lostRecord := by
        rw [lost]
        simp only [reportBincode, if_neg apart, if_true]
      exact ⟨lostRecord, read, .refl _⟩
  sizes write member := by
    rcases List.mem_pair.mp member with rfl | rfl
    · change doneBytes.length ≤ maxRecordSize
      decide +kernel
    · change lostBytes.length ≤ maxRecordSize
      decide +kernel
  bound write member logs := rfl

theorem stores_answer_alike_iff_reports : ∃ json : SerdeJson,
    (∀ entry ∈ sampleTexts, json.logFiles.encode entry.1 = entry.2) ∧
    SameRows ((({ bincode := reportBincode } : FileAccountingStore).writeAll reportedWrites).queryHistory (.range 1 1))
      ((({ json := json } : SqlxAccountingStore).writeAll reportedWrites).queryHistory (.range 1 1)) := by
  obtain ⟨json, texts⟩ := exists_sampleJson
  have typed : (HistoryFilter.range 1 1).Typed := ⟨by norm_num, by norm_num⟩
  refine ⟨json, texts, (stores_answer_alike_iff (stored_reports json) typed).mpr fun jobId write last => ?_⟩
  have plain : JobSecretsCipher.isEncrypted "" = false := by decide
  have alike (secrets : JobSecretsCipher) : secrets.ReadsAlike 0 "" :=
    fun looks => absurd (plain.symm.trans looks) Bool.false_ne_true
  refine ⟨.inl (by norm_num), fun _ => ?_⟩
  rcases List.mem_pair.mp (lastWrite_mem last).1 with rfl | rfl
  · exact ⟨rfl, alike _⟩
  · exact ⟨⟨by decide +kernel, by decide⟩, alike _⟩

def failedRecord : JobUsage := { sampleRecord 1 0 with status := .failed "(os error 2)" }

def failedBytes : List UInt8 :=
  1 :: sampleTail.take 43 ++ [3, 0, 0, 0] ++ [12, 0, 0, 0, 0, 0, 0, 0] ++
    "(os error 2)".toList.map (fun char => UInt8.ofNat char.toNat) ++ sampleTail.drop 47

def failedBincode : Bincode where
  serialize _ := failedBytes
  deserialize bytes := if bytes = failedBytes then some failedRecord else none

/-- A reason that ends with a bracket loses it in the database. -/
theorem stores_differ_on_reason : ∃ (file : FileAccountingStore) (sql : SqlxAccountingStore) (writes : List Write),
    Stored file sql writes ∧ sql.database = .sqlite ∧
    writes.map (·.record.status) = [.failed "(os error 2)"] ∧
    ¬ SameRows ((file.writeAll writes).queryHistory .all) ((sql.writeAll writes).queryHistory .all) := by
  obtain ⟨json, _⟩ := exists_serdeJson [(∅, "\x7b\x7d")] (by simp) (by simp) (by simp)
  have stored : Stored { bincode := failedBincode } { json := json } [{ record := failedRecord }] := by
    refine ⟨⟨rfl, rfl⟩, rfl, ?_, ?_, ?_, fun _ _ _ => rfl⟩
    · intro write member
      cases List.mem_singleton.mp member
      constructor <;> simp [failedRecord, sampleRecord, jobToUsage]
    · intro write member
      cases List.mem_singleton.mp member
      have read : failedBincode.deserialize failedBytes = some failedRecord := by
        simp only [failedBincode, if_true]
      exact ⟨failedRecord, read, .refl _⟩
    · intro write member
      change failedBytes.length ≤ maxRecordSize
      decide +kernel
  refine ⟨_, _, _, stored, rfl, rfl, ?_⟩
  rintro ⟨inSql, _⟩
  have last : lastWrite [{ record := failedRecord }] 1 = some { record := failedRecord } := rfl
  have included : HistoryFilter.all.includes 1 = true := rfl
  obtain ⟨row, listed, fromFile⟩ := stored.fileRow_of last included
  obtain ⟨row', listed', same⟩ := inSql row listed
  obtain ⟨write, last', _, fromSql⟩ := stored.sqlRow listed'
  cases List.mem_singleton.mp (lastWrite_mem last').1
  have status := congrArg JobUsage.status (same.trans fromSql).rest
  have status' := congrArg JobUsage.status fromFile.rest
  have equal : JobStatus.failed "(os error 2)" = parseJobStatus "Failed((os error 2))" none := status'.symm.trans status
  exact absurd equal (by decide)

end Sample

end Veloce
