import Veloce.Collections.Run
import Veloce.Controller.AccountingStore

/-! The retry buffer of the resilient store over whole runs. Calls of `record_job` and the
steps of the retry loop interleave; the run remembers the calls and what a full buffer
dropped. Records of one job reach the backend in the order of the calls only while no
record of the job is overtaken by a later one. -/

namespace Veloce

open Collections

namespace AccountingStore

/-- The records that still have to reach the backend, in the order of their calls. -/
def waiting (store : AccountingStore) : List Entry := store.failed ++ store.retrying ++ store.buffer

def dropsFor (store : AccountingStore) (up : Bool) : Option Entry :=
  if up ∨ store.buffer.length < 1000 then none else store.buffer.head?

end AccountingStore

/-- The store with the calls of `record_job` so far and the dropped records. -/
structure ResilientRun where
  store : AccountingStore
  calls : List Entry := []
  dropped : List Entry := []

inductive ResilientEvent where
  | recordJob (entry : Entry) (up writable : Bool)
  | drain
  | retry (up : Bool)
  | rebuffer

namespace ResilientRun

def apply (event : ResilientEvent) (run : ResilientRun) : Option ResilientRun :=
  match event with
  | .recordJob entry up writable => some {
      store := run.store.recordJob entry up writable
      calls := run.calls ++ [entry]
      dropped := run.dropped ++ (run.store.dropsFor up).toList }
  | .drain => run.store.drain.map fun store => { run with store := store }
  | .retry up => (run.store.retry up).map fun store => { run with store := store }
  | .rebuffer => run.store.rebuffer.map fun store => { run with store := store }

/-- Nothing was recorded yet; the backend may have rows. -/
structure Fresh (run : ResilientRun) : Prop where
  waiting : run.store.waiting = []
  calls : run.calls = []
  dropped : run.dropped = []

/-- No waiting record of a job is overtaken, and what goes back finds room. -/
def InOrder (run : ResilientRun) : ResilientEvent → Prop
  | .recordJob entry up _ =>
    up = true → ∀ other ∈ run.store.waiting, other.usage.jobId ≠ entry.usage.jobId
  | .retry up => up = true → ∀ entry ∈ run.store.retrying.head?,
      ∀ other ∈ run.store.failed, other.usage.jobId ≠ entry.usage.jobId
  | .rebuffer => run.store.failed.length + run.store.buffer.length ≤ 1000
  | .drain => True

/-- The last call for the job is the last record that waits for the backend, or its row. -/
structure Keeps (run : ResilientRun) : Prop where
  bounded : run.store.buffer.length ≤ 1000
  fresh : ∀ jobId entry, (∀ lost ∈ run.dropped, lost.usage.jobId ≠ jobId) → lastRow run.calls jobId = some entry →
    (lastRow run.store.waiting jobId).or (lastRow run.store.rows jobId) = some entry

end ResilientRun

theorem lastRow_concat (first second : List Entry) (jobId : JobId) :
    lastRow (first ++ second) jobId = (lastRow second jobId).or (lastRow first jobId) := by
  rw [lastRow, List.filter_append, List.getLast?_append]
  rfl

theorem lastRow_none {rows : List Entry} {jobId : JobId} (other : ∀ entry ∈ rows, entry.usage.jobId ≠ jobId) :
    lastRow rows jobId = none := by
  rw [lastRow, List.getLast?_eq_none_iff, List.filter_eq_nil_iff]
  intro entry member
  simpa using other entry member

namespace ResilientRun

variable {run next : ResilientRun} {event : ResilientEvent}

theorem Fresh.keeps (fresh : run.Fresh) : run.Keeps where
  bounded := by
    have empty := fresh.waiting
    simp only [AccountingStore.waiting, List.append_eq_nil_iff] at empty
    rw [empty.2]
    exact Nat.zero_le _
  fresh jobId entry _ called := by
    rw [fresh.calls] at called
    cases called

theorem Keeps.moved (keeps : run.Keeps) (calls : next.calls = run.calls) (dropped : next.dropped = run.dropped)
    (waiting : next.store.waiting = run.store.waiting) (rows : next.store.rows = run.store.rows)
    (bounded : next.store.buffer.length ≤ 1000) : next.Keeps where
  bounded := bounded
  fresh jobId entry kept called := by
    rw [waiting, rows]
    exact keeps.fresh jobId entry (dropped ▸ kept) (calls ▸ called)

/-- A call that fails puts its record last, whatever the full buffer drops. -/
theorem lastRow_pushBuffer (store : AccountingStore) (entry : Entry) {jobId : JobId}
    (kept : ∀ lost ∈ store.dropsFor false, lost.usage.jobId ≠ jobId) :
    lastRow (store.pushBuffer entry).waiting jobId =
      if entry.usage.jobId = jobId then some entry else lastRow store.waiting jobId := by
  have added : (store.pushBuffer entry).waiting = store.failed ++ store.retrying ++
      (if store.buffer.length < 1000 then store.buffer else store.buffer.tail) ++ [entry] := by
    rw [AccountingStore.waiting, AccountingStore.pushBuffer, ← List.append_assoc]
  rw [added, lastRow_append]
  congr 1
  rw [AccountingStore.waiting, lastRow_concat, lastRow_concat _ store.buffer]
  congr 1
  by_cases room : store.buffer.length < 1000
  · rw [if_pos room]
  · rw [if_neg room]
    cases full : store.buffer with
    | nil => rfl
    | cons oldest rest =>
      have other : oldest.usage.jobId ≠ jobId := by
        refine kept oldest ?_
        rw [AccountingStore.dropsFor, if_neg (by simpa using room), full]
        rfl
      rw [List.tail_cons, lastRow, lastRow, List.filter_cons_of_neg (by simpa using other)]

theorem recordJob_down (store : AccountingStore) (entry : Entry) (writable : Bool) :
    (store.recordJob entry false writable).waiting = (store.pushBuffer entry).waiting ∧
    (store.recordJob entry false writable).buffer = (store.pushBuffer entry).buffer ∧
    ((store.recordJob entry false writable).rows = store.rows ∨
      (store.recordJob entry false writable).rows = store.rows ++ [entry]) := by
  cases writable with
  | false => exact ⟨rfl, rfl, .inl rfl⟩
  | true =>
    simp only [AccountingStore.recordJob, Bool.false_eq_true, ↓reduceIte]
    cases store.fileLog with
    | backend => exact ⟨rfl, rfl, .inr rfl⟩
    | fallback => exact ⟨rfl, rfl, .inl rfl⟩

theorem pushBuffer_bounded {store : AccountingStore} (bounded : store.buffer.length ≤ 1000) (entry : Entry) :
    (store.pushBuffer entry).buffer.length ≤ 1000 := by
  simp only [AccountingStore.pushBuffer, List.length_append, List.length_singleton]
  split
  · omega
  · rw [List.length_tail]
    omega

theorem Keeps.recordJob (keeps : run.Keeps) {entry : Entry} {up writable : Bool}
    (ordered : run.InOrder (.recordJob entry up writable))
    (taken : run.apply (.recordJob entry up writable) = some next) : next.Keeps := by
  cases taken
  cases up with
  | true =>
    refine ⟨keeps.bounded, fun jobId last kept called => ?_⟩
    have before := keeps.fresh jobId last fun lost member => kept lost (List.mem_append_left _ member)
    rw [lastRow_append] at called
    change (lastRow run.store.waiting jobId).or (lastRow (run.store.rows ++ [entry]) jobId) = some last
    rw [lastRow_append]
    split at called
    · rename_i own
      rw [if_pos own, lastRow_none fun other member => own ▸ ordered rfl other member]
      exact called
    · rename_i other
      rw [if_neg other]
      exact before called
  | false =>
    obtain ⟨waiting, buffer, rows⟩ := recordJob_down run.store entry writable
    refine ⟨buffer ▸ pushBuffer_bounded keeps.bounded entry, fun jobId last kept called => ?_⟩
    have before := keeps.fresh jobId last fun lost member => kept lost (List.mem_append_left _ member)
    rw [lastRow_append] at called
    rw [waiting, lastRow_pushBuffer run.store entry fun lost member =>
      kept lost (List.mem_append_right _ (Option.mem_toList.mpr member))]
    split at called
    · rename_i own
      rw [if_pos own]
      exact called
    · rename_i other
      rw [if_neg other]
      rcases rows with same | added
      · rw [same]
        exact before called
      · rw [added, lastRow_append, if_neg other]
        exact before called

theorem Keeps.retry (keeps : run.Keeps) {up : Bool} (ordered : run.InOrder (.retry up))
    (taken : run.apply (.retry up) = some next) : next.Keeps := by
  obtain ⟨store, retried, same⟩ := Option.map_eq_some_iff.mp taken
  subst same
  unfold AccountingStore.retry at retried
  cases waits : run.store.retrying with
  | nil =>
    rw [waits] at retried
    cases retried
  | cons entry rest =>
    rw [waits] at retried
    cases up with
    | false =>
      cases retried
      refine keeps.moved rfl rfl ?_ rfl keeps.bounded
      simp [AccountingStore.waiting, waits]
    | true =>
      cases retried
      have earlier := ordered rfl entry (by rw [waits]; rfl)
      refine ⟨keeps.bounded, fun jobId last kept called => ?_⟩
      have before := keeps.fresh jobId last kept called
      -- The record leaves the front of the list; an earlier one of its job is not there.
      change (lastRow (run.store.failed ++ rest ++ run.store.buffer) jobId).or
        (lastRow (run.store.rows ++ [entry]) jobId) = some last
      have front : entry :: rest = [entry] ++ rest := rfl
      rw [AccountingStore.waiting, waits, lastRow_concat, lastRow_concat, front, lastRow_concat [entry]] at before
      rw [lastRow_concat, lastRow_concat, lastRow_append]
      by_cases own : entry.usage.jobId = jobId
      · have alone : lastRow [entry] jobId = some entry := by
          rw [← List.nil_append [entry], lastRow_append, if_pos own]
        have none : lastRow run.store.failed jobId = none :=
          lastRow_none fun other member => own ▸ earlier other member
        rw [none, alone, Option.or_none] at before
        rw [if_pos own, none, Option.or_none]
        cases later : lastRow run.store.buffer jobId with
        | some newest => simpa [later] using before
        | none => cases between : lastRow rest jobId <;> simpa [later, between] using before
      · have alone : lastRow [entry] jobId = none := by
          rw [← List.nil_append [entry], lastRow_append, if_neg own]
          rfl
        rw [alone, Option.or_none] at before
        rw [if_neg own]
        exact before

theorem Keeps.apply (keeps : run.Keeps) (ordered : run.InOrder event) (taken : run.apply event = some next) :
    next.Keeps := by
  cases event with
  | recordJob entry up writable => exact keeps.recordJob ordered taken
  | retry up => exact keeps.retry ordered taken
  | drain =>
    obtain ⟨store, drained, same⟩ := Option.map_eq_some_iff.mp taken
    subst same
    unfold AccountingStore.drain at drained
    split at drained
    · rename_i idle
      cases drained
      refine keeps.moved rfl rfl ?_ rfl (Nat.zero_le _)
      simp only [List.isEmpty_iff] at idle
      simp [AccountingStore.waiting, idle]
    · cases drained
  | rebuffer =>
    obtain ⟨store, rebuffered, same⟩ := Option.map_eq_some_iff.mp taken
    subst same
    unfold AccountingStore.rebuffer at rebuffered
    split at rebuffered
    · rename_i idle
      cases rebuffered
      refine keeps.moved rfl rfl ?_ rfl ?_
      · simp only [List.isEmpty_iff] at idle
        simp [AccountingStore.waiting, idle]
      · rw [List.length_append]
        exact ordered
    · cases rebuffered

end ResilientRun

/-- In every run in which no record overtakes an earlier one of its job and failed records
go back only when there is room, the buffer holds at most 1000 records, and once nothing
waits any more the backend's row of a job is the record of its last call, unless one of
its records was dropped. -/
theorem retry_buffer_keeps_last_record {run : ResilientRun}
    (reached : Reach ResilientRun.Fresh (fun run event next => run.InOrder event ∧ run.apply event = some next) run) :
    run.store.buffer.length ≤ 1000 ∧
    (run.store.buffer = [] → run.store.retrying = [] → run.store.failed = [] → ∀ jobId entry,
      (∀ lost ∈ run.dropped, lost.usage.jobId ≠ jobId) → lastRow run.calls jobId = some entry →
      lastRow run.store.rows jobId = some entry) := by
  have keeps : run.Keeps := reached.invariant ResilientRun.Keeps (fun _ fresh => fresh.keeps)
    (fun _ _ _ keeps taken => keeps.apply taken.1 taken.2)
  refine ⟨keeps.bounded, fun buffer retrying failed jobId entry kept called => ?_⟩
  have settled := keeps.fresh jobId entry kept called
  rw [AccountingStore.waiting, buffer, retrying, failed] at settled
  exact settled

def sampleEntry (jobId : JobId) (cpuTimeMs : Nat) : Entry where
  usage := sampleRecord jobId cpuTimeMs
  final := false

instance ResilientRun.decidableInOrder (run : ResilientRun) : (event : ResilientEvent) → Decidable (run.InOrder event)
  | .recordJob entry up _ => inferInstanceAs (Decidable
      (up = true → ∀ other ∈ run.store.waiting, other.usage.jobId ≠ entry.usage.jobId))
  | .retry up => inferInstanceAs (Decidable (up = true → ∀ entry ∈ run.store.retrying.head?,
      ∀ other ∈ run.store.failed, other.usage.jobId ≠ entry.usage.jobId))
  | .rebuffer => inferInstanceAs (Decidable (run.store.failed.length + run.store.buffer.length ≤ 1000))
  | .drain => isTrue trivial

/-- A record is refused, waits while the record of another job is taken, and gets through
in the second round. -/
theorem retry_buffer_keeps_last_record_late : ∃ run : ResilientRun,
    Reach ResilientRun.Fresh (fun run event next => run.InOrder event ∧ run.apply event = some next) run ∧
    run.store.rows.map (·.usage.cpuTimeMs) = [7, 5] ∧ run.store.buffer.length ≤ 1000 ∧
    lastRow run.store.rows 1 = some (sampleEntry 1 5) := by
  let events : List ResilientEvent := [.recordJob (sampleEntry 1 5) false true, .drain, .retry false,
    .recordJob (sampleEntry 2 7) true true, .rebuffer, .drain, .retry true, .rebuffer]
  let start : ResilientRun := { store := { backend := .database } }
  let run : ResilientRun := {
    store := { backend := .database, rows := [sampleEntry 2 7, sampleEntry 1 5], fallback := [sampleEntry 1 5] }
    calls := [sampleEntry 1 5, sampleEntry 2 7] }
  have ran : runLabels ResilientRun.apply events start = some run := rfl
  have ordered : AllowedRun ResilientRun.InOrder ResilientRun.apply events start := by decide +kernel
  have reached : Reach ResilientRun.Fresh (fun run event next => run.InOrder event ∧ run.apply event = some next) run :=
    runLabels_reach (.start ⟨rfl, rfl, rfl⟩) ordered ran
  obtain ⟨bounded, settled⟩ := retry_buffer_keeps_last_record reached
  exact ⟨run, reached, rfl, bounded, settled rfl rfl rfl 1 (sampleEntry 1 5) (by decide) rfl⟩

abbrev ResilientRun.Reached : ResilientRun → Prop :=
  Reach ResilientRun.Fresh fun run event next => run.apply event = some next

theorem ResilientRun.Reached.apply {run next : ResilientRun} (reached : run.Reached) (event : ResilientEvent)
    (taken : run.apply event = some next) : next.Reached := .step reached taken

section Overflow

variable (entry : Entry)

theorem fill_buffer : ∀ count ≤ 1000, ∃ run : ResilientRun, run.Reached ∧
    run.store = { buffer := List.replicate count entry } := by
  intro count
  induction count with
  | zero => intro _; exact ⟨{ store := {} }, .start ⟨rfl, rfl, rfl⟩, rfl⟩
  | succ count ih =>
    intro room
    obtain ⟨run, reached, store⟩ := ih (by omega)
    refine ⟨_, reached.apply (.recordJob entry false false) rfl, ?_⟩
    have short : (List.replicate count entry).length < 1000 := by
      rw [List.length_replicate]
      omega
    simp only [store, AccountingStore.recordJob, AccountingStore.pushBuffer, Bool.false_eq_true, ↓reduceIte, if_pos short,
      List.replicate_succ']

theorem fail_round : ∀ count ≤ 1000, ∃ run : ResilientRun, run.Reached ∧
    run.store = {
      retrying := List.replicate (1000 - count) entry
      failed := List.replicate count entry
      buffer := [entry] } := by
  intro count
  induction count with
  | zero =>
    intro _
    obtain ⟨run, reached, store⟩ := fill_buffer entry 1000 (Nat.le_refl _)
    have drains : run.apply .drain = some { run with store := { retrying := List.replicate 1000 entry } } := by
      rw [ResilientRun.apply, store]
      rfl
    exact ⟨_, (reached.apply .drain drains).apply (.recordJob entry false false) rfl, rfl⟩
  | succ count ih =>
    intro room
    obtain ⟨run, reached, store⟩ := ih (by omega)
    have left : 1000 - count = (1000 - (count + 1)) + 1 := by omega
    have fails : run.apply (.retry false) = some { run with
        store := { retrying := List.replicate (1000 - (count + 1)) entry
                   failed := List.replicate count entry ++ [entry]
                   buffer := [entry] } } := by
      rw [ResilientRun.apply, store, left, List.replicate_succ]
      rfl
    exact ⟨_, reached.apply (.retry false) fails, by rw [List.replicate_succ']⟩

end Overflow

/-- A record that was refused overwrites the later one that was taken directly, and a round
that fails as a whole leaves 1001 records in the buffer. -/
theorem retry_buffer_overwrites_and_overflows :
    (∃ run : ResilientRun, run.Reached ∧ run.store.waiting = [] ∧ run.dropped = [] ∧
      lastRow run.calls 1 = some (sampleEntry 1 7) ∧ lastRow run.store.rows 1 = some (sampleEntry 1 5)) ∧
    ∃ run : ResilientRun, run.Reached ∧ run.store.buffer.length = 1001 := by
  constructor
  · let run : ResilientRun := {
      store := { backend := .database, rows := [sampleEntry 1 7, sampleEntry 1 5], fallback := [sampleEntry 1 5] }
      calls := [sampleEntry 1 5, sampleEntry 1 7] }
    refine ⟨run, ?_, rfl, rfl, rfl, rfl⟩
    have first : ResilientRun.Reached { store := { backend := .database } } := .start ⟨rfl, rfl, rfl⟩
    have refused := first.apply (.recordJob (sampleEntry 1 5) false true) rfl
    have direct := refused.apply (.recordJob (sampleEntry 1 7) true true) rfl
    exact ((direct.apply .drain rfl).apply (.retry true) rfl).apply .rebuffer rfl
  · obtain ⟨run, reached, store⟩ := fail_round (sampleEntry 1 5) 1000 (Nat.le_refl _)
    have idle : run.store.retrying = [] := by rw [store, Nat.sub_self, List.replicate_zero]
    have goesBack : run.apply .rebuffer = some { run with store :=
        { run.store with buffer := run.store.failed ++ run.store.buffer, failed := [] } } := by
      simp only [ResilientRun.apply, AccountingStore.rebuffer, idle, List.isEmpty_nil, ↓reduceIte, Option.map_some]
    refine ⟨_, reached.apply .rebuffer goesBack, ?_⟩
    rw [List.length_append, store, List.length_replicate, List.length_singleton]

end Veloce
