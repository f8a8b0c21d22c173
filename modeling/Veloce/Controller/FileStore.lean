import Mathlib.Data.List.Forall2
import Veloce.Collections.Frames
import Veloce.Controller.AccountingStore
import Veloce.Controller.JobSecrets

/-! The file store. -/

namespace Veloce

open Collections

inductive HistoryFilter where
  | all
  | single (id : Nat)
  | range (first last : Nat)

def HistoryFilter.includes (filter : HistoryFilter) (jobId : JobId) : Bool :=
  match filter with
  | .all => true
  | .single id => jobId = id
  | .range first last => first ≤ jobId && jobId ≤ last

/-- The same record, however its maps are enumerated. -/
structure JobUsage.Same (usage usage' : JobUsage) : Prop where
  gresReq : usage.gresReq.Same usage'.gresReq
  workerLogFiles : usage.workerLogFiles.Same usage'.workerLogFiles
  rest : usage = { usage' with gresReq := usage.gresReq, workerLogFiles := usage.workerLogFiles }

namespace JobUsage.Same

variable {usage usage' usage'' : JobUsage}

theorem refl (usage : JobUsage) : usage.Same usage := ⟨.refl _, .refl _, rfl⟩

theorem symm (same : usage.Same usage') : usage'.Same usage :=
  ⟨same.gresReq.symm, same.workerLogFiles.symm, by rw [same.rest]⟩

theorem trans (first : usage.Same usage') (second : usage'.Same usage'') : usage.Same usage'' :=
  ⟨first.gresReq.trans second.gresReq, first.workerLogFiles.trans second.workerLogFiles,
    by rw [first.rest, second.rest]⟩

theorem jobId (same : usage.Same usage') : usage.jobId = usage'.jobId := by rw [same.rest]

end JobUsage.Same

/-- The binary encoding of records, a library. -/
structure Bincode where
  serialize : JobUsage → List UInt8
  deserialize : List UInt8 → Option JobUsage

/-- What was encoded is read back. -/
def Bincode.RoundTrips (bincode : Bincode) (usage : JobUsage) : Prop :=
  ∃ decoded, bincode.deserialize (bincode.serialize usage) = some decoded ∧ decoded.Same usage

def maxRecordSize : Nat := 100 * 1024 * 1024

/-- The row of a job after these records, if it has any. -/
def latest (usages : List JobUsage) (jobId : JobId) : Option JobUsage :=
  usages.foldl (fun prev usage => if usage.jobId = jobId then some (usage.over prev) else prev) none

structure FileAccountingStore where
  bincode : Bincode
  secrets : JobSecretsCipher := {}
  file : List UInt8 := []

namespace FileAccountingStore

/-- The encoding of a record in the file. -/
def payload (store : FileAccountingStore) (nonce : Nat) (record : JobUsage) : List UInt8 :=
  store.bincode.serialize (store.secrets.sealUsageSecret nonce record)

/-- Append a record. A crash or a full disk may cut the append after any byte. -/
def recordJob (store : FileAccountingStore) (nonce : Nat) (record : JobUsage) (cut : Option Nat) :
    FileAccountingStore :=
  let combined := frame (store.payload nonce record)
  { store with file := store.file ++ (match cut with
      | some written => combined.take written
      | none => combined) }

def usages (store : FileAccountingStore) : List JobUsage :=
  ((frames maxRecordSize store.file).filterMap store.bincode.deserialize).map store.secrets.openUsageSecret

def byJob (filter : HistoryFilter) (usages : List JobUsage) : HashMap JobId JobUsage :=
  usages.foldl (fun rows usage =>
    if filter.includes usage.jobId then rows.insert usage.jobId (usage.over (rows.get? usage.jobId)) else rows) ∅

def queryHistory (store : FileAccountingStore) (filter : HistoryFilter) : List JobUsage :=
  (byJob filter store.usages).values

end FileAccountingStore

section Rows

theorem latest_append (usages : List JobUsage) (usage : JobUsage) (jobId : JobId) :
    latest (usages ++ [usage]) jobId =
      if usage.jobId = jobId then some (usage.over (latest usages jobId)) else latest usages jobId := by
  rw [latest, List.foldl_append]
  rfl

theorem over_jobId (usage : JobUsage) (prev : Option JobUsage) : (usage.over prev).jobId = usage.jobId := by
  cases prev with
  | none => rfl
  | some _ => rfl

theorem over_same {usage usage' : JobUsage} {prev prev' : Option JobUsage} (same : usage.Same usage')
    (known : Option.Rel JobUsage.Same prev prev') : (usage.over prev).Same (usage'.over prev') := by
  cases known with
  | none => exact same
  | some before =>
    refine ⟨same.gresReq, mergeWorkerLogFileMaps_same before.workerLogFiles same.workerLogFiles, ?_⟩
    simp only [JobUsage.over]
    rw [same.rest]

theorem latest_same {usages usages' : List JobUsage} (same : List.Forall₂ JobUsage.Same usages usages')
    (jobId : JobId) : Option.Rel JobUsage.Same (latest usages jobId) (latest usages' jobId) := by
  refine List.rel_foldl (P := Option.Rel JobUsage.Same) (R := JobUsage.Same) ?_ .none same
  intro prev prev' known usage usage' equal
  dsimp only
  rw [equal.jobId]
  split
  · exact .some (over_same equal known)
  · exact known

theorem latest_jobId {usages : List JobUsage} {jobId : JobId} {row : JobUsage}
    (found : latest usages jobId = some row) :
    row.jobId = jobId := by
  induction usages using List.reverseRecOn generalizing row with
  | nil => cases found
  | append_singleton usages usage ih =>
    rw [latest_append] at found
    split at found
    · rename_i own
      cases found
      rw [over_jobId, own]
    · exact ih found

theorem latest_isSome_iff {usages : List JobUsage} {jobId : JobId} :
    (∃ row, latest usages jobId = some row) ↔ ∃ usage ∈ usages, usage.jobId = jobId := by
  induction usages using List.reverseRecOn with
  | nil => simp [latest]
  | append_singleton usages last ih =>
    rw [latest_append]
    split
    · rename_i own
      exact ⟨fun _ => ⟨last, by simp, own⟩, fun _ => ⟨_, rfl⟩⟩
    · rename_i other
      rw [ih]
      simp [or_and_right, exists_or, other]

theorem get?_byJob (filter : HistoryFilter) (usages : List JobUsage) (jobId : JobId) :
    (FileAccountingStore.byJob filter usages).get? jobId =
      if filter.includes jobId then latest usages jobId else none := by
  induction usages using List.reverseRecOn with
  | nil => split <;> rfl
  | append_singleton usages usage ih =>
    rw [FileAccountingStore.byJob, List.foldl_append, latest_append]
    change (if filter.includes usage.jobId then (FileAccountingStore.byJob filter usages).insert usage.jobId
      (usage.over ((FileAccountingStore.byJob filter usages).get? usage.jobId))
      else FileAccountingStore.byJob filter usages).get? jobId = _
    by_cases own : usage.jobId = jobId
    · subst own
      cases selected : filter.includes usage.jobId <;> simp [ih, selected]
    · split
      · rw [HashMap.get?_insert, if_neg (Ne.symm own), ih]
      · exact ih

theorem mem_queryHistory {store : FileAccountingStore} {filter : HistoryFilter} {row : JobUsage} :
    row ∈ store.queryHistory filter ↔
      filter.includes row.jobId = true ∧ latest store.usages row.jobId = some row := by
  rw [FileAccountingStore.queryHistory, HashMap.mem_values]
  constructor
  · rintro ⟨jobId, found⟩
    rw [get?_byJob] at found
    split at found
    · rename_i selected
      rw [latest_jobId found]
      exact ⟨selected, found⟩
    · cases found
  · rintro ⟨selected, found⟩
    exact ⟨row.jobId, by rw [get?_byJob, if_pos selected, found]⟩

theorem head?_queryHistory (store : FileAccountingStore) (jobId : Nat) :
    (store.queryHistory (.single jobId)).head? = latest store.usages jobId := by
  cases listed : store.queryHistory (.single jobId) with
  | nil =>
    cases found : latest store.usages jobId with
    | none => rfl
    | some row =>
      have own := latest_jobId found
      have member : row ∈ store.queryHistory (.single jobId) := by
        refine mem_queryHistory.mpr ⟨decide_eq_true own, ?_⟩
        rw [own, found]
      rw [listed] at member
      cases member
  | cons first rest =>
    obtain ⟨included, found⟩ := mem_queryHistory.mp (listed ▸ List.mem_cons_self)
    rw [show first.jobId = jobId from of_decide_eq_true included] at found
    exact found.symm

end Rows

end Veloce
