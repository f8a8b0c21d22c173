import Mathlib.Data.List.TakeWhile
import Veloce.Controller.FileStore

/-! Torn appends. -/

namespace Veloce

open Collections

/-- One call of `record_job`, with the number of bytes after which its append was cut. -/
structure Append where
  nonce : Nat := 0
  record : JobUsage
  cut : Option Nat := none

namespace FileAccountingStore

variable (store : FileAccountingStore)

def appendAll (appends : List Append) : FileAccountingStore :=
  appends.foldl (fun store append => store.recordJob append.nonce append.record append.cut) store

def encoding (append : Append) : List UInt8 := store.payload append.nonce append.record

def written (append : Append) : List UInt8 :=
  match append.cut with
  | some bytes => (frame (store.encoding append)).take bytes
  | none => frame (store.encoding append)

def Complete (append : Append) : Prop := store.written append = frame (store.encoding append)

instance (append : Append) : Decidable (store.Complete append) := inferInstanceAs (Decidable (_ = _))

/-- The append left nothing, or a record that the reader does not refuse. -/
def Clean (append : Append) : Prop :=
  store.written append = [] ∨ store.Complete append ∧ (store.encoding append).length ≤ maxRecordSize

instance (append : Append) : Decidable (store.Clean append) := inferInstanceAs (Decidable (_ ∨ _ ∧ _))

def readable (appends : List Append) : List Append := appends.takeWhile fun append => store.Clean append

/-- The bytes from that append on. -/
def unreadable (appends : List Append) : List UInt8 :=
  (appends.dropWhile fun append => store.Clean append).flatMap store.written

/-- Some of these bytes are taken for a record of the job. -/
def Misreads (bytes : List UInt8) (jobId : JobId) : Prop :=
  ∃ payload ∈ frames maxRecordSize bytes, ∃ usage ∈ store.bincode.deserialize payload, usage.jobId = jobId

end FileAccountingStore

section Torn

variable {store : FileAccountingStore} {appends : List Append}

theorem appendAll_eq (store : FileAccountingStore) (appends : List Append) :
    store.appendAll appends = { store with file := store.file ++ appends.flatMap store.written } := by
  induction appends using List.reverseRecOn with
  | nil => rw [List.flatMap_nil, List.append_nil]; rfl
  | append_singleton appends append ih =>
    rw [FileAccountingStore.appendAll, List.foldl_append]
    change (store.appendAll appends).recordJob append.nonce append.record append.cut = _
    rw [ih, List.flatMap_append, List.flatMap_singleton, ← List.append_assoc]
    cases cut : append.cut <;>
      simp only [FileAccountingStore.recordJob, FileAccountingStore.written, FileAccountingStore.encoding,
        FileAccountingStore.payload, cut]

theorem flatMap_written (clean : ∀ append ∈ appends, store.Clean append) :
    appends.flatMap store.written =
      ((appends.filter fun append => store.Complete append).map store.encoding).flatMap frame := by
  induction appends with
  | nil => rfl
  | cons append rest ih =>
    rw [List.flatMap_cons, ih fun other member => clean other (List.mem_cons_of_mem _ member)]
    by_cases complete : store.Complete append
    · rw [List.filter_cons_of_pos (by simpa using complete), List.map_cons, List.flatMap_cons, complete]
    · have nothing := (clean append List.mem_cons_self).resolve_right fun whole => complete whole.1
      rw [List.filter_cons_of_neg (by simpa using complete), nothing, List.nil_append]

theorem frames_appends (store : FileAccountingStore) (appends : List Append) :
    frames maxRecordSize (appends.flatMap store.written) =
      ((store.readable appends).filter fun append => store.Complete append).map store.encoding ++
        frames maxRecordSize (store.unreadable appends) := by
  have clean : ∀ append ∈ store.readable appends, store.Clean append := fun append member => by
    simpa using List.mem_takeWhile_imp member
  have parts : appends = store.readable appends ++ appends.dropWhile fun append => store.Clean append :=
    List.takeWhile_append_dropWhile.symm
  rw [parts, List.flatMap_append, ← parts, flatMap_written clean]
  refine frames_flatMap fun payload member => ?_
  obtain ⟨append, kept, same⟩ := List.mem_map.mp member
  obtain ⟨inside, complete⟩ := List.mem_filter.mp kept
  subst same
  rcases clean append inside with nothing | ⟨_, small⟩
  · have whole : store.Complete append := by simpa using complete
    rw [FileAccountingStore.Complete, nothing] at whole
    have lengths := congrArg List.length whole
    rw [length_frame, List.length_nil] at lengths
    omega
  · refine ⟨Nat.lt_of_le_of_lt small ?_, small⟩
    norm_num [maxRecordSize]

/-- A query returns a row for every job with a completely written record exactly if each
such job has one before the first append that was cut or is too large, or if bytes behind
that append happen to be taken for a record of the job. -/
theorem torn_append_keeps_rows_iff (empty : store.file = [])
    (roundTrips : ∀ append ∈ appends,
      store.bincode.RoundTrips (store.secrets.sealUsageSecret append.nonce append.record)) :
    (∀ append ∈ appends, store.Complete append →
      ∃ row ∈ (store.appendAll appends).queryHistory .all, row.jobId = append.record.jobId) ↔
    ∀ append ∈ appends, store.Complete append →
      (∃ earlier ∈ store.readable appends, store.Complete earlier ∧ earlier.record.jobId = append.record.jobId) ∨
        store.Misreads (store.unreadable appends) append.record.jobId := by
  have file : (store.appendAll appends).file = appends.flatMap store.written := by
    rw [appendAll_eq, empty, List.nil_append]
  have decodes (append : Append) (member : append ∈ appends) : ∃ usage,
      store.bincode.deserialize (store.encoding append) = some usage ∧ usage.jobId = append.record.jobId := by
    obtain ⟨decoded, read, same⟩ := roundTrips append member
    have about := congrArg JobUsage.jobId same.rest
    exact ⟨decoded, read, about⟩
  have inside (append : Append) (member : append ∈ store.readable appends) : append ∈ appends :=
    (List.takeWhile_sublist _).subset member
  have rows (jobId : JobId) : (∃ row ∈ (store.appendAll appends).queryHistory .all, row.jobId = jobId) ↔
      ∃ payload ∈ frames maxRecordSize (appends.flatMap store.written),
        ∃ usage ∈ store.bincode.deserialize payload, usage.jobId = jobId := by
    have found : (∃ row ∈ (store.appendAll appends).queryHistory .all, row.jobId = jobId) ↔
        ∃ row, latest (store.appendAll appends).usages jobId = some row := by
      constructor
      · rintro ⟨row, listed, same⟩
        subst same
        exact ⟨row, (mem_queryHistory.mp listed).2⟩
      · rintro ⟨row, found⟩
        have same := latest_jobId found
        subst same
        exact ⟨row, mem_queryHistory.mpr ⟨rfl, found⟩, rfl⟩
    rw [found, latest_isSome_iff, FileAccountingStore.usages, file]
    simp only [appendAll_eq, List.mem_map, List.mem_filterMap]
    constructor
    · rintro ⟨_, ⟨usage, ⟨payload, listed, read⟩, rfl⟩, about⟩
      exact ⟨payload, listed, usage, read, about⟩
    · rintro ⟨payload, listed, usage, read, about⟩
      exact ⟨_, ⟨usage, ⟨payload, listed, read⟩, rfl⟩, about⟩
  refine forall₃_congr fun append member complete => ?_
  rw [rows, frames_appends]
  constructor
  · rintro ⟨payload, listed, usage, read, about⟩
    rcases List.mem_append.mp listed with early | late
    · obtain ⟨earlier, kept, same⟩ := List.mem_map.mp early
      obtain ⟨before, whole⟩ := List.mem_filter.mp kept
      obtain ⟨decoded, read', about'⟩ := decodes earlier (inside earlier before)
      rw [same, read] at read'
      cases read'
      exact .inl ⟨earlier, before, by simpa using whole, about'.symm.trans about⟩
    · exact .inr ⟨payload, late, usage, read, about⟩
  · rintro (⟨earlier, before, whole, about⟩ | ⟨payload, late, usage, read, about⟩)
    · obtain ⟨decoded, read, about'⟩ := decodes earlier (inside earlier before)
      refine ⟨store.encoding earlier, List.mem_append_left _ ?_, decoded, read, about'.trans about⟩
      exact List.mem_map_of_mem (List.mem_filter.mpr ⟨before, by simpa using whole⟩)
    · exact ⟨payload, List.mem_append_right _ late, usage, read, about⟩

end Torn

section Sample

/-- What follows the first byte in the encoding of a sample record with a small id. -/
def sampleTail : List UInt8 :=
  let zeros (count : Nat) : List UInt8 := List.replicate count 0
  zeros 7 ++ zeros 2 ++ 3 :: zeros 7 ++ [115, 104, 32] ++ 4 :: zeros 7 ++ [117, 115, 101, 114] ++ zeros 8 ++ zeros 3 ++
    zeros 4 ++ zeros 16 ++ 1 :: zeros 7 ++ 1 :: zeros 3 ++ 1 :: zeros 7 ++ zeros 2 ++ zeros 8 ++ zeros 8 ++ zeros 1 ++
    zeros 8 ++ zeros 3 ++ zeros 8 ++ zeros 8 ++ zeros 1 ++ zeros 4 ++ 2 :: zeros 3 ++ zeros 1

/-- The encoding, as far as sample records need it. -/
def sampleBincode : Bincode where
  serialize usage := UInt8.ofNat usage.jobId :: sampleTail
  deserialize
    | [] => none
    | byte :: rest => if rest = sampleTail then some (sampleRecord byte.toNat 0) else none

theorem sampleBincode_roundTrips {jobId : JobId} (small : jobId < 256) :
    sampleBincode.RoundTrips (sampleRecord jobId 0) := by
  have first : (UInt8.ofNat jobId).toNat = jobId := by
    rw [UInt8.toNat_ofNat']
    exact Nat.mod_eq_of_lt small
  refine ⟨sampleRecord (UInt8.ofNat jobId).toNat 0, ?_, ?_⟩
  · change (if sampleTail = sampleTail then some (sampleRecord (UInt8.ofNat jobId).toNat 0) else none) = _
    exact if_pos rfl
  · rw [first]
    exact ⟨.refl _, .refl _, rfl⟩

/-- The second record is cut, and another one of the first job follows. -/
theorem torn_append_keeps_rows_iff_same_job :
    ∃ row ∈ (({ bincode := sampleBincode } : FileAccountingStore).appendAll [{ record := sampleRecord 1 0 },
      { record := sampleRecord 2 0, cut := some 9 }, { record := sampleRecord 1 0 }]).queryHistory .all,
      row.jobId = 1 := by
  let store : FileAccountingStore := { bincode := sampleBincode }
  let appends : List Append := [{ record := sampleRecord 1 0 }, { record := sampleRecord 2 0, cut := some 9 },
    { record := sampleRecord 1 0 }]
  have roundTrips : ∀ append ∈ appends,
      store.bincode.RoundTrips (store.secrets.sealUsageSecret append.nonce append.record) := by
    intro append member
    simp only [appends, List.mem_cons, List.not_mem_nil, or_false] at member
    rcases member with same | same | same <;> rw [same] <;> exact sampleBincode_roundTrips (by decide)
  have first : ({ record := sampleRecord 1 0 } : Append) ∈ store.readable appends := by
    rw [FileAccountingStore.readable, List.takeWhile_cons_of_pos]
    · exact List.mem_cons_self
    · decide +kernel
  refine (torn_append_keeps_rows_iff rfl roundTrips).mpr (fun append member complete => .inl ?_)
    { record := sampleRecord 1 0 } List.mem_cons_self rfl
  refine ⟨_, first, rfl, ?_⟩
  simp only [appends, List.mem_cons, List.not_mem_nil, or_false] at member
  rcases member with same | same | same
  · rw [same]
  · rw [same] at complete
    exact absurd complete (by decide +kernel)
  · rw [same]

/-- After one byte of a record, the record of another job is not found. -/
theorem torn_append_hides_record : ∃ (store : FileAccountingStore) (appends : List Append) (append : Append),
    (∀ append ∈ appends, store.bincode.RoundTrips (store.secrets.sealUsageSecret append.nonce append.record)) ∧
    appends.map Append.cut = [some 1, none] ∧ append ∈ appends ∧ store.Complete append ∧
    ¬ ∃ row ∈ (store.appendAll appends).queryHistory .all, row.jobId = append.record.jobId := by
  refine ⟨{ bincode := sampleBincode }, [{ record := sampleRecord 1 0, cut := some 1 }, { record := sampleRecord 2 0 }],
    { record := sampleRecord 2 0 }, fun append member => ?_, rfl, by simp, rfl, ?_⟩
  · simp only [List.mem_cons, List.not_mem_nil, or_false] at member
    rcases member with same | same <;> rw [same] <;> exact sampleBincode_roundTrips (by decide)
  · have none : ((({ bincode := sampleBincode } : FileAccountingStore).appendAll
        [{ record := sampleRecord 1 0, cut := some 1 }, { record := sampleRecord 2 0 }]).queryHistory .all).length = 0 := by
      decide +kernel
    rintro ⟨row, member, _⟩
    rw [List.length_eq_zero_iff.mp none] at member
    cases member

end Sample

end Veloce
