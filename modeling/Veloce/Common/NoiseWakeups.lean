import Mathlib.Logic.Relation
import Mathlib.Logic.Function.Iterate
import Veloce.Common.NoiseStream

/-! Wakeups of the encrypted stream. -/

namespace Veloce

open Collections

namespace NoiseStream

variable {σ : Type}

/-- The inner stream was called, and its last answer was to wait. -/
def LastPending (log : List IoCall) : Prop := ∃ last ∈ log.getLast?, last.isPending = true

/-- The call returns, and has its caller wait only after the inner stream did so last. -/
def Wakes (snow : Snow) (io : AsyncIo σ) (this : NoiseStream) (inner : σ) (call : NoiseCall) : Prop :=
  ∃ fuel answer this' inner' log, call.poll snow io.logged fuel this (inner, []) = some (answer, this', inner', log) ∧
    (answer.isPending = true → LastPending log)

/-- The inner stream takes a part of what is to be sent, perhaps none of it. -/
def Sends (io : AsyncIo σ) (before after : σ × List UInt8) : Prop :=
  ∃ count, io.pollWrite before.1 before.2 = (.ready (.ok count), after.1) ∧ after.2 = before.2.drop count

/-- The inner stream takes 0 bytes at every write. -/
def Stalled (io : AsyncIo σ) (state : σ × List UInt8) : Prop :=
  state.2 ≠ [] ∧ ∀ rounds, (io.pollWrite ((fun inner => (io.pollWrite inner state.2).2)^[rounds] state.1) state.2).1 = .ready (.ok 0)

/-- At a write, the inner stream does not take a proper part of what was left to send; at a
flush, it does not take 0 bytes for ever. -/
def Regular (io : AsyncIo σ) (this : NoiseStream) (inner : σ) : NoiseCall → Prop
  | .read _ => True
  | .write _ => ∀ count < this.outputBuffer.length, (io.pollWrite inner this.outputBuffer).1 ≠ .ready (.ok count)
  | .flush | .shutdown => ∀ state, Relation.ReflTransGen (Sends io) (inner, this.outputBuffer) state → ¬ Stalled io state

section Flush

variable {snow : Snow} {io : AsyncIo σ} {this : NoiseStream} {inner : σ}

theorem pollFlush_sends {count : Nat} {inner' : σ} (fuel : Nat) (left : this.outputBuffer ≠ [])
    (taken : io.pollWrite inner this.outputBuffer = (.ready (.ok count), inner')) :
    this.pollFlush io (fuel + 1) inner =
      pollFlush io fuel { this with outputBuffer := this.outputBuffer.drop count } inner' := by
  rw [pollFlush, if_pos left, writeOut, taken]

theorem pollFlush_other (this : NoiseStream) {result : IoResult Nat} {inner' : σ} (left : this.outputBuffer ≠ [])
    (answer : io.pollWrite inner this.outputBuffer = (result, inner')) (refused : ∀ count, result ≠ .ready (.ok count)) :
    ∃ answer, this.pollFlush io 1 inner = some answer := by
  rw [pollFlush, if_pos left, writeOut, answer]
  match result with
  | .pending => exact ⟨_, rfl⟩
  | .ready (.error error) => exact ⟨_, rfl⟩
  | .ready (.ok count) => exact absurd rfl (refused count)

theorem pollFlush_empty (empty : this.outputBuffer = []) (fuel : Nat) :
    this.pollFlush io (fuel + 1) inner = some ((io.pollFlush inner).1, this, (io.pollFlush inner).2) := by
  rw [pollFlush, if_neg (not_not.mpr empty)]

theorem pollFlush_stalled (stalled : Stalled io (inner, this.outputBuffer)) (fuel : Nat) :
    this.pollFlush io fuel inner = none := by
  induction fuel generalizing inner with
  | zero => rfl
  | succ fuel ih =>
    have first : io.pollWrite inner this.outputBuffer = (.ready (.ok 0), (io.pollWrite inner this.outputBuffer).2) :=
      Prod.ext (stalled.2 0) rfl
    rw [pollFlush_sends fuel stalled.1 first]
    exact ih ⟨stalled.1, fun rounds => stalled.2 (rounds + 1)⟩

/-- A write that takes a part does not decide whether the flush returns. -/
theorem returns_sends (this : NoiseStream) {after : σ × List UInt8} (sends : Sends io (inner, this.outputBuffer) after) :
    (∃ fuel answer, this.pollFlush io fuel inner = some answer) ↔
      ∃ fuel answer, pollFlush io fuel { this with outputBuffer := after.2 } after.1 = some answer := by
  obtain ⟨count, taken, rest⟩ := sends
  by_cases left : this.outputBuffer = []
  · have same : after.2 = [] := by rw [rest, left, List.drop_nil]
    exact ⟨fun _ => ⟨1, _, pollFlush_empty same 0⟩, fun _ => ⟨1, _, pollFlush_empty left 0⟩⟩
  · rw [rest]
    constructor
    · rintro ⟨fuel, answer, returned⟩
      cases fuel with
      | zero => cases returned
      | succ fuel => exact ⟨fuel, answer, (pollFlush_sends fuel left taken).symm.trans returned⟩
    · rintro ⟨fuel, answer, returned⟩
      exact ⟨fuel + 1, answer, (pollFlush_sends fuel left taken).trans returned⟩

theorem returns_path (this : NoiseStream) {before after : σ × List UInt8} (path : Relation.ReflTransGen (Sends io) before after) :
    (∃ fuel answer, pollFlush io fuel { this with outputBuffer := before.2 } before.1 = some answer) ↔
      ∃ fuel answer, pollFlush io fuel { this with outputBuffer := after.2 } after.1 = some answer := by
  induction path with
  | refl => exact Iff.rfl
  | tail _ sends ih => exact ih.trans (returns_sends { this with outputBuffer := _ } sends)

theorem path_rounds (io : AsyncIo σ) (inner : σ) (buf : List UInt8) (rounds : Nat)
    (zeros : ∀ round < rounds, (io.pollWrite ((fun inner => (io.pollWrite inner buf).2)^[round] inner) buf).1 = .ready (.ok 0)) :
    Relation.ReflTransGen (Sends io) (inner, buf) ((fun inner => (io.pollWrite inner buf).2)^[rounds] inner, buf) := by
  induction rounds with
  | zero => exact .refl
  | succ rounds ih =>
    refine (ih fun round before => zeros round (by omega)).tail ⟨0, ?_, rfl⟩
    rw [Function.iterate_succ_apply']
    exact Prod.ext (zeros rounds (by omega)) rfl

/-- A flush goes on for ever only where the inner stream comes to take nothing at all. -/
theorem returns_of_moving : ∀ {left : Nat} {inner : σ} {buf : List UInt8}, buf.length = left →
    (∀ state, Relation.ReflTransGen (Sends io) (inner, buf) state → ¬ Stalled io state) →
    ∃ fuel answer, pollFlush io fuel { this with outputBuffer := buf } inner = some answer := by
  intro left
  induction left using Nat.strongRecOn with
  | ind left ih =>
    intro inner buf length moving
    by_cases empty : buf = []
    · exact ⟨1, _, pollFlush_empty empty 0⟩
    · have ends : ∃ rounds, (io.pollWrite ((fun inner => (io.pollWrite inner buf).2)^[rounds] inner) buf).1 ≠ .ready (.ok 0) := by
        by_contra none
        exact moving _ .refl ⟨empty, by simpa using none⟩
      classical
      -- the first write that is not answered with 0 bytes
      let rounds := Nat.find ends
      have path := path_rounds io inner buf rounds
        fun round before => not_not.mp (Nat.find_min ends before)
      refine (returns_path this path).mpr ?_
      generalize inner2 : (fun inner => (io.pollWrite inner buf).2)^[rounds] inner = later at path
      have answered : (io.pollWrite later buf).1 ≠ .ready (.ok 0) := inner2 ▸ Nat.find_spec ends
      cases answer : io.pollWrite later buf with
      | mk result next =>
        rw [answer] at answered
        match result with
        | .ready (.ok count) =>
          have positive : count ≠ 0 := fun zero => answered (by rw [zero])
          have sends : Sends io (later, buf) (next, buf.drop count) := ⟨count, answer, rfl⟩
          refine (returns_sends { this with outputBuffer := buf } sends).mpr ?_
          refine ih (buf.drop count).length ?_ rfl fun state more => moving state ((path.tail sends).trans more)
          have nonempty := List.length_pos_iff.mpr empty
          rw [List.length_drop]
          omega
        | .pending => exact ⟨1, pollFlush_other { this with outputBuffer := buf } empty answer nofun⟩
        | .ready (.error error) => exact ⟨1, pollFlush_other { this with outputBuffer := buf } empty answer nofun⟩

theorem pollFlush_returns_iff (this : NoiseStream) : (∃ fuel answer, this.pollFlush io fuel inner = some answer) ↔
    ∀ state, Relation.ReflTransGen (Sends io) (inner, this.outputBuffer) state → ¬ Stalled io state := by
  constructor
  · intro returned state path stalled
    obtain ⟨fuel, answer, returned⟩ := (returns_path this path).mp returned
    rw [pollFlush_stalled stalled] at returned
    cases returned
  · exact returns_of_moving rfl

end Flush

section Wakeups

variable {snow : Snow} {io : AsyncIo σ} {this next : NoiseStream} {inner : σ} {log : List IoCall}
  {inner' : σ × List IoCall} {fuel room : Nat}

theorem lastPending_concat (log : List IoCall) {call : IoCall} : LastPending (log ++ [call]) ↔ call.isPending = true := by
  simp [LastPending]

theorem fill_waits (waits : this.fill io.logged (inner, log) = (some .pending, next, inner')) : LastPending inner'.2 := by
  unfold fill at waits
  split at waits
  · split at waits
    · split at waits
      · split at waits <;> cases waits
      · cases waits
    · cases waits
    · rename_i answer
      cases waits
      simp only [AsyncIo.logged, Prod.mk.injEq] at answer
      rw [← answer.2, lastPending_concat, answer.1]
      rfl
  · cases waits

theorem decrypt_ready (this : NoiseStream) : (this.decrypt snow room).1 ≠ .pending := by
  cases read : snow.readMessage this.received (this.readBuffer.take this.expectedLen) <;> simp [decrypt, read]

theorem readLoop_waits (waits : this.readLoop snow io.logged fuel (inner, log) room = some (.pending, next, inner')) :
    LastPending inner'.2 := by
  induction fuel generalizing this inner log with
  | zero => cases waits
  | succ fuel ih =>
    unfold readLoop at waits
    split at waits
    · rename_i filled
      cases waits
      exact fill_waits filled
    · split at waits
      · exact ih waits
      · split at waits
        · simp only [Option.some.injEq, Prod.mk.injEq] at waits
          exact absurd waits.1 (decrypt_ready _)
        · exact ih waits

theorem pollRead_wakes (this : NoiseStream) (inner : σ) (room : Nat) : this.Wakes snow io inner (.read room) := by
  obtain ⟨⟨answer, next, inner'⟩, returned⟩ := readLoop_returns snow io.logged this (inner, []) room
  by_cases buffered : this.decryptedBuffer ≠ []
  · refine ⟨0, .read (.ready (.ok (this.takeDecrypted room).1)), (this.takeDecrypted room).2, inner, [], ?_, fun waits => ?_⟩
    · rw [NoiseCall.poll, pollRead, if_pos buffered]
      rfl
    · cases waits
  · refine ⟨this.rounds + 1, .read answer, next, inner'.1, inner'.2, ?_, fun waits => ?_⟩
    · rw [NoiseCall.poll, pollRead, if_neg buffered, returned]
      rfl
    · cases answer with
      | ready result => cases waits
      | pending => exact readLoop_waits returned

theorem encrypt_ready (io : AsyncIo σ) (this : NoiseStream) (inner : σ) (buf : List UInt8) :
    (this.encrypt snow io inner buf).1 ≠ .pending := by
  unfold encrypt
  dsimp only
  split
  · simp
  · split
    · simp
    · rename_i waits _
      exact waits
    · simp

theorem pollWrite_empty (empty : this.outputBuffer = []) (io : AsyncIo σ) (inner : σ) (buf : List UInt8) :
    this.pollWrite snow io inner buf = this.encrypt snow io inner buf := by
  rw [pollWrite, if_neg (not_not.mpr empty)]

theorem write_wakes_iff (this : NoiseStream) (inner : σ) (buf : List UInt8) : this.Wakes snow io inner (.write buf) ↔
    ((this.pollWrite snow io.logged (inner, []) buf).1 = .pending →
      LastPending (this.pollWrite snow io.logged (inner, []) buf).2.2.2) := by
  rcases polled : this.pollWrite snow io.logged (inner, []) buf with ⟨answer, next, inner', log⟩
  cases answer <;> simp [Wakes, NoiseCall.poll, polled, IoCall.isPending, LastPending]

theorem pollWrite_wakes_iff (this : NoiseStream) (inner : σ) (buf : List UInt8) :
    this.Wakes snow io inner (.write buf) ↔ this.Regular io inner (.write buf) := by
  rw [write_wakes_iff]
  by_cases left : this.outputBuffer = []
  · rw [pollWrite_empty left]
    exact iff_of_true (fun waits => (encrypt_ready _ _ _ _ waits).elim) fun count short => by simp [left] at short
  · cases answer : io.pollWrite inner this.outputBuffer with
    | mk result next =>
      have logged : io.logged.pollWrite (inner, []) this.outputBuffer = (result, next, [.write result]) := by
        simp [AsyncIo.logged, answer]
      simp only [Regular, answer, pollWrite, if_pos left, writeOut, logged]
      rcases result with ⟨error | count⟩ | _
      · exact iff_of_true (fun waits => by cases waits) fun _ _ same => by cases same
      · have fits : count ≤ this.outputBuffer.length := io.writeFits (by rw [answer])
        by_cases whole : count = this.outputBuffer.length
        · have empty : this.outputBuffer.drop count = [] := List.drop_eq_nil_of_le whole.ge
          simp only [if_pos empty]
          refine iff_of_true (fun waits => (encrypt_ready _ _ _ _ waits).elim) fun part short same => ?_
          have equal : count = part := by simpa using same
          omega
        · have part : this.outputBuffer.drop count ≠ [] := fun empty => whole (by
            have length := List.drop_eq_nil_iff.mp empty
            omega)
          simp only [if_neg part]
          have stuck : ¬ LastPending [.write (.ready (.ok count))] := fun last => by
            simpa [IoCall.isPending] using (lastPending_concat []).mp last
          exact iff_of_false (fun waits => stuck (waits trivial)) fun regular => regular count (by omega) rfl
      · exact iff_of_true (fun _ => (lastPending_concat []).mpr rfl) fun _ _ same => by cases same

theorem pollFlush_logged (io : AsyncIo σ) (fuel : Nat) (this : NoiseStream) (inner : σ) (log : List IoCall) :
    (this.pollFlush io.logged fuel (inner, log)).map (fun (answer, next, inner') => (answer, next, inner'.1)) =
      this.pollFlush io fuel inner := by
  induction fuel generalizing this inner log with
  | zero => rfl
  | succ fuel ih =>
    by_cases left : this.outputBuffer = []
    · rw [pollFlush_empty left, pollFlush_empty left]
      rfl
    · simp only [pollFlush, ne_eq, left, not_false_eq_true, if_true, writeOut]
      rcases answer : io.pollWrite inner this.outputBuffer with ⟨result, next⟩
      have logged : io.logged.pollWrite (inner, log) this.outputBuffer = (result, next, log ++ [.write result]) := by
        simp [AsyncIo.logged, answer]
      rw [logged]
      rcases result with ⟨error | count⟩ | _
      · rfl
      · exact ih _ next _
      · rfl

theorem pollFlush_waits (waits : this.pollFlush io.logged fuel (inner, log) = some (.pending, next, inner')) :
    LastPending inner'.2 := by
  induction fuel generalizing this inner log with
  | zero => cases waits
  | succ fuel ih =>
    unfold pollFlush at waits
    split at waits
    · split at waits
      · rename_i out
        cases waits
        unfold writeOut at out
        split at out
        · cases out
        · cases out
        · rename_i answer
          cases out
          simp only [AsyncIo.logged, Prod.mk.injEq] at answer
          rw [← answer.2, lastPending_concat, answer.1]
          rfl
      · exact ih waits
    · simp only [AsyncIo.logged, Option.some.injEq, Prod.mk.injEq] at waits
      rw [← waits.2.2, lastPending_concat, waits.1]
      rfl

theorem pollFlush_logged_iff (log : List IoCall) : (∃ answer, this.pollFlush io.logged fuel (inner, log) = some answer) ↔
    ∃ answer, this.pollFlush io fuel inner = some answer := by
  rw [← pollFlush_logged io fuel this inner log]
  cases this.pollFlush io.logged fuel (inner, log) <;> simp

theorem flush_wakes_iff (this : NoiseStream) (inner : σ) :
    this.Wakes snow io inner .flush ↔ this.Regular io inner .flush := by
  refine Iff.trans ?_ (pollFlush_returns_iff this)
  constructor
  · rintro ⟨fuel, answer, next, inner', log, returned, _⟩
    refine ⟨fuel, (pollFlush_logged_iff []).mp ?_⟩
    obtain ⟨result, flushed, _⟩ := Option.map_eq_some_iff.mp returned
    exact ⟨result, flushed⟩
  · rintro ⟨fuel, answer, returned⟩
    obtain ⟨⟨result, next, inner'⟩, flushed⟩ := (pollFlush_logged_iff []).mpr ⟨answer, returned⟩
    refine ⟨fuel, .flush result, next, inner'.1, inner'.2, ?_, fun waits => ?_⟩
    · rw [NoiseCall.poll, flushed]
      rfl
    · cases result with
      | ready result => cases waits
      | pending => exact pollFlush_waits flushed

theorem pollShutdown_returns_iff (io : AsyncIo σ) (this : NoiseStream) (inner : σ) :
    (∃ fuel answer, this.pollShutdown io fuel inner = some answer) ↔
      ∃ fuel answer, this.pollFlush io fuel inner = some answer := by
  by_cases left : this.outputBuffer = []
  · refine iff_of_true ⟨0, ((io.pollShutdown inner).1, this, (io.pollShutdown inner).2), ?_⟩ ⟨1, _, pollFlush_empty left 0⟩
    rw [pollShutdown, if_neg (not_not.mpr left)]
  · refine exists_congr fun fuel => ?_
    rw [pollShutdown, if_pos left]
    cases this.pollFlush io fuel inner <;> simp

theorem pollShutdown_waits (waits : this.pollShutdown io.logged fuel (inner, log) = some (.pending, next, inner')) :
    LastPending inner'.2 := by
  have waited {inner : σ} {log : List IoCall} (answer : (io.logged.pollShutdown (inner, log)).1 = .pending) :
      LastPending (io.logged.pollShutdown (inner, log)).2.2 := by
    simp only [AsyncIo.logged] at answer ⊢
    rw [lastPending_concat, answer]
    rfl
  unfold pollShutdown at waits
  split at waits
  · obtain ⟨⟨result, flushed, later⟩, returned, same⟩ := Option.map_eq_some_iff.mp waits
    match result with
    | .ready (.ok ()) =>
      simp only [Prod.mk.injEq] at same
      exact same.2.2 ▸ waited same.1
    | .ready (.error error) => cases same
    | .pending =>
      cases same
      exact pollFlush_waits returned
  · simp only [Option.some.injEq, Prod.mk.injEq] at waits
    exact waits.2.2 ▸ waited waits.1

theorem shutdown_wakes_iff (this : NoiseStream) (inner : σ) :
    this.Wakes snow io inner .shutdown ↔ this.Regular io inner .shutdown := by
  refine Iff.trans ?_ (pollFlush_returns_iff this)
  constructor
  · rintro ⟨fuel, answer, next, inner', log, returned, _⟩
    obtain ⟨result, closed, _⟩ := Option.map_eq_some_iff.mp returned
    obtain ⟨rounds, flushed⟩ := (pollShutdown_returns_iff io.logged this (inner, [])).mp ⟨fuel, result, closed⟩
    exact ⟨rounds, (pollFlush_logged_iff []).mp flushed⟩
  · rintro ⟨fuel, flushed⟩
    obtain ⟨rounds, ⟨result, next, inner'⟩, closed⟩ :=
      (pollShutdown_returns_iff io.logged this (inner, [])).mpr ⟨fuel, (pollFlush_logged_iff []).mpr flushed⟩
    refine ⟨rounds, .shutdown result, next, inner'.1, inner'.2, ?_, fun waits => ?_⟩
    · rw [NoiseCall.poll, closed]
      rfl
    · cases result with
      | ready result => cases waits
      | pending => exact pollShutdown_waits closed

end Wakeups

/-- A call returns after finitely many calls of the inner stream, and never waits without a wakeup,
exactly at the regular answers of the inner stream. -/
theorem wakes_iff (snow : Snow) (io : AsyncIo σ) (this : NoiseStream) (inner : σ) (call : NoiseCall) :
    this.Wakes snow io inner call ↔ this.Regular io inner call := by
  cases call with
  | read room => exact iff_of_true (pollRead_wakes this inner room) trivial
  | write buf => exact pollWrite_wakes_iff this inner buf
  | flush => exact flush_wakes_iff this inner
  | shutdown => exact shutdown_wakes_iff this inner

def takingAtMost (count : Nat) : AsyncIo Unit where
  pollRead _ _ := (.pending, ())
  pollWrite _ buf := (.ready (.ok (min count buf.length)), ())
  pollFlush _ := (.ready (.ok ()), ())
  pollShutdown _ := (.ready (.ok ()), ())
  readFits := nofun
  writeFits := by
    intro _ buf written same
    simp only [Poll.ready.injEq, Except.ok.injEq] at same
    exact same ▸ Nat.min_le_right _ _

/-- After a write of one byte, of whose packet 18 bytes are left, a second one waits for nothing.
A flush of them goes round for ever when no byte is taken. -/
theorem partial_write_sleeps :
    (∃ this, NoiseCall.poll .plain (takingAtMost 1) 0 {} () (.write [7]) = some (.write (.ready (.ok 1)), this, ()) ∧
      ¬ this.Wakes .plain (takingAtMost 1) () (.write [8])) ∧
    ∃ this, NoiseCall.poll .plain (takingAtMost 0) 0 {} () (.write [7]) = some (.write (.ready (.ok 1)), this, ()) ∧
      ∀ fuel, NoiseCall.poll .plain (takingAtMost 0) fuel this () .flush = none := by
  refine ⟨⟨_, rfl, fun wakes => ?_⟩, ⟨_, rfl, fun fuel => ?_⟩⟩
  · exact (pollWrite_wakes_iff _ _ _).mp wakes 1 (by decide) (by decide)
  · rw [NoiseCall.poll, pollFlush_stalled ⟨by decide, fun rounds => rfl⟩]
    rfl

end NoiseStream

end Veloce
