import Veloce.Common.NoisePackets

/-! The end of the encrypted stream. -/

namespace Veloce

open Collections

/-- Whole packets and nothing else. -/
def AtBoundary (bytes : List UInt8) : Prop :=
  ∃ messages : List (List UInt8), (∀ message ∈ messages, message.length < 2 ^ 16) ∧ bytes = messages.flatMap packet

namespace NoiseStream

variable {σ : Type}

/-- A stream after any calls, with the bytes that the inner stream has delivered to it. Between
the calls the inner stream may change. -/
inductive Reached (snow : Snow) (io : AsyncIo σ) : NoiseStream → List UInt8 → Prop where
  | start : Reached snow io {} []
  | call {this this' : NoiseStream} {delivered : List UInt8} {inner inner' : σ} {fuel : Nat} {call : NoiseCall}
      {answer : IoCall} {log : List IoCall} (before : Reached snow io this delivered)
      (polled : call.poll snow io.logged fuel this (inner, []) = some (answer, this', inner', log)) :
      Reached snow io this' (delivered ++ log.flatMap IoCall.bytes)

/-- A read answers with nothing only if the inner stream has ended after whole packets; where it
has ended anywhere else, the read answers with an error. -/
structure TrueEnd (delivered : List UInt8) (answer : IoResult (List UInt8)) (log : List IoCall) : Prop where
  nothing : answer = .ready (.ok []) → (∃ call ∈ log, call.ends) ∧ AtBoundary (delivered ++ log.flatMap IoCall.bytes)
  cut : (∃ call ∈ log, call.ends) → ¬ AtBoundary (delivered ++ log.flatMap IoCall.bytes) → ∃ error, answer = .ready (.error error)

def EndsTruly (snow : Snow) (io : AsyncIo σ) (this : NoiseStream) (delivered : List UInt8) (inner : σ) (room : Nat) : Prop :=
  ∃ fuel answer this' inner' log, this.pollRead snow io.logged fuel (inner, []) room = some (answer, this', inner', log) ∧
    TrueEnd delivered answer log

/-- There is decrypted data, or what arrives next is neither a message that decrypts to nothing
nor the length of a packet and then the end. -/
def Clean (snow : Snow) (io : AsyncIo σ) (this : NoiseStream) (inner : σ) : Prop :=
  this.decryptedBuffer = [] → ∀ state, Path io (inner, this.unread) state →
    (∀ message rest, message.length < 2 ^ 16 → state.2 = packet message ++ rest → snow.readMessage this.received message ≠ .ok []) ∧
    ∀ length < 2 ^ 16, 0 < length → state.2 = toBeBytes lengthFieldSize length → (io.pollRead state.1 4096).1 ≠ .ready (.ok [])

section Ends

variable {snow : Snow} {io : AsyncIo σ} {this next : NoiseStream} {inner : σ} {inner' : σ × List IoCall} {log : List IoCall}
  {delivered bytes : List UInt8} {room fuel : Nat}

theorem atBoundary_append_packet {message : List UInt8} (small : message.length < 2 ^ 16) (whole : AtBoundary bytes) :
    AtBoundary (bytes ++ packet message) := by
  obtain ⟨messages, sized, rfl⟩ := whole
  refine ⟨messages ++ [message], ?_, by simp⟩
  intro other member
  rcases List.mem_append.mp member with earlier | last
  · exact sized other earlier
  · exact List.mem_singleton.mp last ▸ small

theorem atBoundary_append_iff (whole : AtBoundary bytes) {part : List UInt8} (lacks : ¬ HoldsPacket part) :
    AtBoundary (bytes ++ part) ↔ part = [] := by
  refine ⟨?_, fun empty => by rwa [empty, List.append_nil]⟩
  obtain ⟨messages, sized, rfl⟩ := whole
  rintro ⟨others, sizes, same⟩
  induction messages generalizing others with
  | nil =>
    cases others with
    | nil => exact same
    | cons other rest =>
      exact (lacks ⟨other, rest.flatMap packet, sizes other List.mem_cons_self, by simpa using same⟩).elim
  | cons message messages ih =>
    rw [List.flatMap_cons, List.append_assoc] at same
    cases others with
    | nil =>
      have lengths := congrArg List.length same
      rw [List.length_append, length_packet, List.flatMap_nil, List.length_nil] at lengths
      omega
    | cons other rest =>
      rw [List.flatMap_cons] at same
      obtain ⟨_, tails⟩ := packet_inj (sized message List.mem_cons_self) (sizes other List.mem_cons_self) same
      exact ih (fun other member => sized other (List.mem_cons_of_mem _ member)) _
        (fun other member => sizes other (List.mem_cons_of_mem _ member)) tails

theorem path_logged {before after : (σ × List IoCall) × List UInt8} (path : Path io.logged before after) :
    Path io (before.1.1, before.2) (after.1.1, after.2) ∧ ∃ calls, after.1.2 = before.1.2 ++ calls ∧
      after.2 = before.2 ++ calls.flatMap IoCall.bytes ∧ ∀ call ∈ calls, call.ends = false := by
  induction path with
  | refl => exact ⟨.refl, [], by simp⟩
  | @tail middle last path step ih =>
    obtain ⟨earlier, calls, logged, brought, going⟩ := ih
    obtain ⟨lacks, filled, some, answer, grown⟩ := step
    simp only [AsyncIo.logged, Prod.mk.injEq] at answer
    refine ⟨earlier.tail ⟨lacks, filled, some, ?_, grown⟩, calls ++ [.read (.ready (.ok filled))], ?_, ?_, ?_⟩
    · rw [← answer.1, ← answer.2]
    · rw [← answer.2, answer.1, logged, List.append_assoc]
    · rw [grown, brought, List.flatMap_append, List.append_assoc]
      simp [IoCall.bytes]
    · intro call member
      rcases List.mem_append.mp member with one | one
      · exact going call one
      · rw [List.mem_singleton.mp one]
        simpa [IoCall.ends] using some

theorem quiet (io : AsyncIo σ) (bytes brought : List UInt8) :
    SendInvariant io.logged fun this inner => this.unread = bytes ∧ inner.2.flatMap IoCall.bytes = brought where
  taken := by
    intro this inner inner' count before answer
    simp only [AsyncIo.logged, Prod.mk.injEq] at answer
    refine ⟨before.1, ?_⟩
    rw [← answer.2, List.flatMap_append, before.2]
    exact List.append_nil _
  refused := by
    intro this inner inner' result before answer _
    simp only [AsyncIo.logged, Prod.mk.injEq] at answer
    refine ⟨before.1, ?_⟩
    rw [← answer.2, List.flatMap_append, before.2]
    exact List.append_nil _
  flushed := by
    intro this inner before
    refine ⟨before.1, ?_⟩
    rw [AsyncIo.logged, List.flatMap_append, before.2]
    exact List.append_nil _

/-- Nothing that a stream sends brings it bytes. -/
theorem pollWrite_quiet {buf : List UInt8} {answer : IoResult Nat}
    (polled : this.pollWrite snow io.logged (inner, []) buf = (answer, next, inner')) :
    next.unread = this.unread ∧ inner'.2.flatMap IoCall.bytes = [] := by
  have inv := quiet io this.unread []
  rcases inv.pollWrite_cases ⟨rfl, rfl⟩ polled with ⟨_, kept⟩ | ⟨between, later, kept, _, encrypted⟩
  · exact kept
  · rcases encrypt_cases encrypted with ⟨_, _, rfl, rfl⟩ | ⟨ciphertext, result, _, out, _⟩
    · exact kept
    · exact inv.writeOut (show (between.enqueue ciphertext).unread = this.unread ∧ _ from kept) out

variable {state : σ × List UInt8} {answer : IoResult (List UInt8)}

/-- A read goes on from the packets that are read, as far as the inner stream has brought bytes. -/
theorem pollRead_delivered (polled : this.pollRead snow io.logged fuel (inner, []) room = some (answer, next, inner'))
    (whole : AtBoundary bytes) :
    ∃ bytes', AtBoundary bytes' ∧ bytes ++ this.unread ++ inner'.2.flatMap IoCall.bytes = bytes' ++ next.unread := by
  unfold pollRead at polled
  split at polled
  · cases polled
    exact ⟨bytes, whole, List.append_nil _⟩
  · obtain ⟨state, path, answers⟩ := readLoop_answers (Kept.refl this) polled
    obtain ⟨_, calls, logged, brought, _⟩ := path_logged path
    rw [List.nil_append] at logged
    have stopped {result : IoResult (List UInt8)} (answer : io.logged.pollRead state.1 4096 = (result, inner'))
        (nothing : (IoCall.read result).bytes = []) (kept : next.unread = state.2) :
        ∃ bytes', AtBoundary bytes' ∧ bytes ++ this.unread ++ inner'.2.flatMap IoCall.bytes = bytes' ++ next.unread := by
      simp only [AsyncIo.logged, Prod.mk.injEq] at answer
      refine ⟨bytes, whole, ?_⟩
      rw [← answer.2, answer.1, logged, kept, brought, List.flatMap_append, List.append_assoc]
      simp [nothing]
    have decrypted {message rest : List UInt8} (small : message.length < 2 ^ 16) (holds : state.2 = packet message ++ rest)
        (same : inner' = state.1) (left : next.unread = rest) :
        ∃ bytes', AtBoundary bytes' ∧ bytes ++ this.unread ++ inner'.2.flatMap IoCall.bytes = bytes' ++ next.unread := by
      refine ⟨bytes ++ packet message, atBoundary_append_packet small whole, ?_⟩
      rw [same, left, logged, List.append_assoc, List.append_assoc, ← holds, brought]
    cases answers with
    | decrypted small holds _ left => exact decrypted small holds rfl left
    | refused small holds _ left => exact decrypted small holds rfl left
    | pending _ answer kept => exact stopped answer rfl kept
    | error _ answer kept => exact stopped answer rfl kept
    | ended _ answer kept => exact stopped answer rfl kept

/-- Everything delivered is whole packets that are read, and then what is unread. -/
theorem Reached.packets (reached : Reached snow io this delivered) : ∃ bytes, AtBoundary bytes ∧ delivered = bytes ++ this.unread := by
  induction reached with
  | start => exact ⟨[], ⟨[], by simp⟩, rfl⟩
  | @call this this' delivered inner inner' fuel call answer log before polled ih =>
    obtain ⟨bytes, whole, rfl⟩ := ih
    have quietly (quiet : this'.unread = this.unread ∧ log.flatMap IoCall.bytes = []) :
        ∃ bytes', AtBoundary bytes' ∧ bytes ++ this.unread ++ log.flatMap IoCall.bytes = bytes' ++ this'.unread :=
      ⟨bytes, whole, by rw [quiet.1, quiet.2, List.append_nil]⟩
    cases call with
    | read room =>
      obtain ⟨⟨result, next, later⟩, returned, same⟩ := Option.map_eq_some_iff.mp polled
      cases same
      exact pollRead_delivered returned whole
    | write buf =>
      rcases returned : this.pollWrite snow io.logged (inner, []) buf with ⟨result, next, later⟩
      rw [NoiseCall.poll, returned] at polled
      cases polled
      exact quietly (pollWrite_quiet returned)
    | flush =>
      obtain ⟨⟨result, next, later⟩, returned, same⟩ := Option.map_eq_some_iff.mp polled
      cases same
      exact quietly ((quiet io this.unread []).pollFlush ⟨rfl, rfl⟩ returned)
    | shutdown =>
      obtain ⟨⟨result, next, later⟩, returned, same⟩ := Option.map_eq_some_iff.mp polled
      cases same
      refine quietly ((quiet io this.unread []).pollShutdown ⟨rfl, rfl⟩ ?_ returned)
      intro this inner before
      refine ⟨before.1, ?_⟩
      rw [AsyncIo.logged, List.flatMap_append, before.2]
      exact List.append_nil _

theorem still_of_holds (holds : HoldsPacket state.2) (after : σ × List UInt8) : ¬ Arrives io state after :=
  fun arrives => arrives.1 holds

theorem still_of_answer {result : IoResult (List UInt8)} {later : σ}
    (answer : io.pollRead state.1 4096 = (result, later))
    (nothing : ∀ filled, filled ≠ [] → result ≠ .ready (.ok filled)) (after : σ × List UInt8) :
    ¬ Arrives io state after := by
  rintro ⟨_, filled, some, answer', _⟩
  rw [answer] at answer'
  exact nothing filled some (congrArg Prod.fst answer')

/-- All reads of the inner stream come to the same end. -/
theorem path_end_unique {start last other : σ × List UInt8} (path : Path io start last) (still : ∀ after, ¬ Arrives io last after)
    (path' : Path io start other) (still' : ∀ after, ¬ Arrives io other after) : other = last := by
  have unique : Relator.RightUnique (Arrives io) := by
    rintro before after after' ⟨_, filled, _, answer, grown⟩ ⟨_, filled', _, answer', grown'⟩
    rw [answer] at answer'
    simp only [Prod.mk.injEq, Poll.ready.injEq, Except.ok.injEq] at answer'
    exact Prod.ext answer'.2 (by rw [grown, grown', answer'.1])
  rcases Relation.ReflTransGen.total_of_right_unique unique path path' with more | more
  · exact (more.cases_head.resolve_right fun ⟨_, step, _⟩ => still _ step).symm
  · exact more.cases_head.resolve_right fun ⟨_, step, _⟩ => still' _ step

/-- `Clean`, about the one state in which nothing more arrives. -/
theorem clean_iff (empty : this.decryptedBuffer = []) (path : Path io (inner, this.unread) state)
    (still : ∀ after, ¬ Arrives io state after) : this.Clean snow io inner ↔
      (∀ message rest, message.length < 2 ^ 16 → state.2 = packet message ++ rest → snow.readMessage this.received message ≠ .ok []) ∧
        ∀ length < 2 ^ 16, 0 < length → state.2 = toBeBytes lengthFieldSize length → (io.pollRead state.1 4096).1 ≠ .ready (.ok []) := by
  refine ⟨fun clean => clean empty state path, fun clean _ other path' => ⟨?_, ?_⟩⟩
  · intro message rest small holds
    have same := path_end_unique path still path' (still_of_holds ⟨message, rest, small, holds⟩)
    exact clean.1 message rest small (same ▸ holds)
  · intro length small positive cut ended
    have same := path_end_unique path still path' (still_of_answer (Prod.ext ended rfl) (by
      intro filled some same
      cases same
      exact some rfl))
    exact clean.2 length small positive (same ▸ cut) (same ▸ ended)

theorem clean_packet_iff (empty : this.decryptedBuffer = []) (path : Path io (inner, this.unread) state)
    {message rest : List UInt8} (small : message.length < 2 ^ 16) (holds : state.2 = packet message ++ rest) :
    this.Clean snow io inner ↔ snow.readMessage this.received message ≠ .ok [] := by
  rw [clean_iff empty path (still_of_holds ⟨message, rest, small, holds⟩)]
  refine ⟨fun clean => clean.1 message rest small holds, fun fills => ⟨?_, ?_⟩⟩
  · intro other after sized same
    obtain ⟨rfl, _⟩ := packet_inj small sized (holds.symm.trans same)
    exact fills
  · intro length sized positive cut _
    rw [holds, packet, List.append_assoc, ← List.append_nil (toBeBytes lengthFieldSize length)] at cut
    obtain ⟨lengths, bodies⟩ := lengthBytes_inj small sized cut
    rw [List.append_eq_nil_iff] at bodies
    rw [bodies.1, List.length_nil] at lengths
    omega

/-- Without a whole packet, it matters only if the inner stream ends after a length. -/
theorem clean_lacks_iff (empty : this.decryptedBuffer = []) (path : Path io (inner, this.unread) state)
    (lacks : ¬ HoldsPacket state.2) {result : IoResult (List UInt8)} {later : σ}
    (answer : io.pollRead state.1 4096 = (result, later))
    (nothing : ∀ filled, filled ≠ [] → result ≠ .ready (.ok filled)) : this.Clean snow io inner ↔
      ∀ length < 2 ^ 16, 0 < length → state.2 = toBeBytes lengthFieldSize length → result ≠ .ready (.ok []) := by
  rw [clean_iff empty path (still_of_answer answer nothing), answer]
  exact and_iff_right fun message rest small holds => (lacks ⟨message, rest, small, holds⟩).elim

theorem trueEnd_of_going (some : answer ≠ .ready (.ok [])) (going : ∀ call ∈ log, call.ends = false) :
    TrueEnd delivered answer log where
  nothing := fun same => (some same).elim
  cut := fun ⟨call, member, ends⟩ _ => by simp [going call member] at ends

theorem emptied_iff (short : this.readBuffer.length < this.expectedLen) : this.readBuffer = [] ↔
    this.unread = [] ∨ ∃ length < 2 ^ 16, 0 < length ∧ this.unread = toBeBytes lengthFieldSize length := by
  cases stage : this.readingLength with
  | true =>
    have same : this.unread = this.readBuffer := if_pos stage
    rw [this.expectsLength stage, ← same] at short
    rw [same]
    refine (or_iff_left ?_).symm
    rintro ⟨length, _, _, cut⟩
    rw [same, cut, length_toBeBytes] at short
    exact Nat.lt_irrefl _ short
  | false =>
    have same : this.unread = toBeBytes lengthFieldSize this.expectedLen ++ this.readBuffer := if_neg (by rw [stage]; exact Bool.false_ne_true)
    constructor
    · intro empty
      exact .inr ⟨this.expectedLen, this.lengthFits, Nat.zero_lt_of_lt short, by rw [same, empty, List.append_nil]⟩
    · rintro (none | ⟨length, small, _, cut⟩)
      · rw [same, List.append_eq_nil_iff] at none
        exact none.2
      · rw [same, ← List.append_nil (toBeBytes lengthFieldSize length)] at cut
        exact (lengthBytes_inj this.lengthFits small cut).2

theorem readLoop_trueEnd_iff (empty : this.decryptedBuffer = []) (positive : 0 < room) (whole : AtBoundary bytes)
    (returned : readLoop snow io.logged fuel this (inner, []) room = some (answer, next, inner')) :
    TrueEnd (bytes ++ this.unread) answer inner'.2 ↔ this.Clean snow io inner := by
  obtain ⟨⟨⟨later, reads⟩, arrived⟩, path, answers⟩ := readLoop_answers (Kept.refl this) returned
  obtain ⟨plain, calls, logged, brought, going⟩ := path_logged path
  simp only [List.nil_append] at logged brought plain
  subst logged
  have going' {result : IoResult (List UInt8)} (more : (IoCall.read result).ends = false) :
      ∀ call ∈ reads ++ [.read result], call.ends = false := by
    intro call member
    rcases List.mem_append.mp member with one | one
    · exact going call one
    · exact List.mem_singleton.mp one ▸ more
  cases answers with
  | @decrypted message rest plaintext _ small holds decrypts =>
    rw [clean_packet_iff empty plain small holds, decrypts, empty, List.nil_append]
    constructor
    · intro truth nothing
      cases nothing
      obtain ⟨⟨call, member, ends⟩, _⟩ := truth.nothing (by rw [List.take_nil])
      rw [going call member] at ends
      cases ends
    · intro some
      refine trueEnd_of_going (fun none => some ?_) going
      simp only [Poll.ready.injEq, Except.ok.injEq, List.take_eq_nil_iff] at none
      rw [none.resolve_left positive.ne']
  | refused small holds refuses =>
    rw [clean_packet_iff empty plain small holds, refuses]
    exact iff_of_true (trueEnd_of_going nofun going) nofun
  | pending lacks answer =>
    simp only [AsyncIo.logged, Prod.mk.injEq] at answer
    rw [clean_lacks_iff empty plain lacks (Prod.ext answer.1 rfl) nofun, ← answer.2, answer.1]
    exact iff_of_true (trueEnd_of_going nofun (going' rfl)) nofun
  | error lacks answer =>
    simp only [AsyncIo.logged, Prod.mk.injEq] at answer
    rw [clean_lacks_iff empty plain lacks (Prod.ext answer.1 rfl) nofun, ← answer.2, answer.1]
    exact iff_of_true (trueEnd_of_going nofun (going' rfl)) nofun
  | ended lacks answer left short =>
    simp only [AsyncIo.logged, Prod.mk.injEq] at answer
    rw [clean_lacks_iff empty plain lacks (Prod.ext answer.1 rfl) fun filled some same => some (by simpa using same.symm),
      ← answer.2, answer.1]
    have boundary : AtBoundary (bytes ++ this.unread ++ (reads ++ [IoCall.read (.ready (.ok []))]).flatMap IoCall.bytes) ↔ arrived = [] := by
      rw [List.flatMap_append, ← List.append_assoc, List.append_assoc bytes, ← brought]
      simpa [IoCall.bytes] using atBoundary_append_iff whole lacks
    have emptied := emptied_iff short
    rw [left] at emptied
    constructor
    · intro truth length small positive cut
      have nothing : next.readBuffer = [] := emptied.mpr (.inr ⟨length, small, positive, cut⟩)
      have none := boundary.mp (truth.nothing (if_pos nothing)).2
      have lengths := congrArg List.length (cut.symm.trans none)
      rw [length_toBeBytes, lengthFieldSize] at lengths
      cases lengths
    · intro clean
      have same : next.readBuffer = [] ↔ arrived = [] :=
        emptied.trans (or_iff_left (by
          rintro ⟨length, small, positive, cut⟩
          exact clean length small positive cut rfl))
      refine ⟨fun nothing => ⟨⟨_, List.mem_append_right _ (List.mem_singleton.mpr rfl), rfl⟩, boundary.mpr (same.mp ?_)⟩,
        fun _ inside => ⟨_, if_neg fun none => inside (boundary.mpr (same.mp none))⟩⟩
      by_contra some
      rw [if_neg some] at nothing
      cases nothing

end Ends

theorem pollRead_buffered {snow : Snow} {io : AsyncIo σ} {this : NoiseStream} {inner : σ} {room : Nat}
    (some : this.decryptedBuffer ≠ []) (fuel : Nat) : this.pollRead snow io fuel inner room =
      .some (.ready (.ok (this.decryptedBuffer.take room)), { this with decryptedBuffer := this.decryptedBuffer.drop room }, inner) := by
  rw [pollRead, if_pos some]
  rfl

/-- A read tells the end of the stream as it is exactly if what arrives is neither a message that
decrypts to nothing nor cut right after a length. -/
theorem endsTruly_iff (snow : Snow) (io : AsyncIo σ) {this : NoiseStream} {delivered : List UInt8}
    (reached : Reached snow io this delivered) (inner : σ) {room : Nat} (positive : 0 < room) :
    this.EndsTruly snow io delivered inner room ↔ this.Clean snow io inner := by
  obtain ⟨bytes, whole, rfl⟩ := reached.packets
  by_cases empty : this.decryptedBuffer = []
  · have loops (fuel : Nat) : this.pollRead snow io.logged fuel (inner, []) room = readLoop snow io.logged fuel this (inner, []) room := by
      rw [pollRead, if_neg (not_not.mpr empty)]
    constructor
    · rintro ⟨fuel, answer, next, inner', log, returned, truth⟩
      exact (readLoop_trueEnd_iff empty positive whole ((loops fuel).symm.trans returned)).mp truth
    · intro clean
      obtain ⟨⟨answer, next, inner'⟩, returned⟩ := readLoop_returns snow io.logged this (inner, []) room
      exact ⟨_, answer, next, inner'.1, inner'.2, (loops _).trans returned,
        (readLoop_trueEnd_iff empty positive whole returned).mpr clean⟩
  · refine iff_of_true ⟨0, _, _, _, _, pollRead_buffered empty 0, trueEnd_of_going ?_ fun call member => by cases member⟩
      fun none => (empty none).elim
    simp [positive.ne', empty]

def loopback : AsyncIo (List UInt8) where
  pollRead bytes room := (.ready (.ok (bytes.take room)), bytes.drop room)
  pollWrite bytes buf := (.ready (.ok buf.length), bytes ++ buf)
  pollFlush bytes := (.ready (.ok ()), bytes)
  pollShutdown bytes := (.ready (.ok ()), bytes)
  readFits := by
    intro bytes room filled same
    cases same
    exact List.length_take_le _ _
  writeFits := by
    intro bytes buf count same
    cases same
    exact Nat.le_refl _

/-- A message of one byte as its packet comes in. -/
def arrivingPacket : List UInt8 := packet (5 :: List.replicate 16 0)

/-- After a whole packet the stream ends. -/
theorem endsTruly_after_packet : ∃ this, Reached .plain loopback this arrivingPacket ∧ this.received = 1 ∧
    EndsTruly .plain loopback this arrivingPacket [] 1 := by
  have seen : ((NoiseCall.read 64).poll .plain loopback.logged 5 {} (arrivingPacket, [])).map (fun result =>
      (result.2.1.received, result.2.1.unread, result.2.1.decryptedBuffer, result.2.2.2.flatMap IoCall.bytes)) =
      some (1, [], [], arrivingPacket) := by
    decide +kernel
  obtain ⟨⟨answer, this, inner, log⟩, polled, seen⟩ := Option.map_eq_some_iff.mp seen
  simp only [Prod.mk.injEq] at seen
  obtain ⟨received, unread, buffered, bytes⟩ := seen
  have reached : Reached .plain loopback this ([] ++ log.flatMap IoCall.bytes) := .call .start polled
  rw [List.nil_append, bytes] at reached
  refine ⟨this, reached, received, (endsTruly_iff .plain loopback reached [] (by decide)).mpr ?_⟩
  have path : Path loopback ([], this.unread) ([], []) := unread ▸ .refl
  refine (clean_lacks_iff buffered path not_holdsPacket_nil rfl ?_).mpr ?_
  · intro filled some same
    cases same
    exact some rfl
  · intro length _ _ cut
    have lengths := congrArg List.length cut
    rw [length_toBeBytes] at lengths
    cases lengths

/-- The end right after the length of a packet looks like a clean one, and so does the packet that
a peer sends for an empty write. -/
theorem cut_reads_as_end : ¬ EndsTruly .plain loopback {} [] [0, 17] 1 ∧
    ∃ peer bytes, pollWrite .plain loopback {} [] [] = (.ready (.ok 0), peer, bytes) ∧ ¬ EndsTruly .plain loopback {} [] bytes 1 := by
  have fails {bytes : List UInt8} (some : bytes ≠ []) (read : bytes.take 4096 = bytes)
      (unclean : ¬ ((∀ message rest, message.length < 2 ^ 16 → bytes = packet message ++ rest → Snow.plain.readMessage 0 message ≠ .ok []) ∧
        ∀ length < 2 ^ 16, 0 < length → bytes = toBeBytes lengthFieldSize length → (loopback.pollRead [] 4096).1 ≠ .ready (.ok []))) :
      ¬ EndsTruly .plain loopback {} [] bytes 1 := by
    rintro ⟨fuel, answer, next, inner', log, returned, truth⟩
    have boundary : AtBoundary [] := ⟨[], by simp⟩
    have clean := (readLoop_trueEnd_iff rfl (by decide) boundary returned).mp truth
    refine unclean (clean rfl ([], bytes) (.single ⟨not_holdsPacket_nil, bytes, some, ?_, rfl⟩))
    simp only [loopback, read]
    rw [List.drop_eq_nil_of_le (read ▸ List.length_take_le _ _)]
  refine ⟨fails (by decide) rfl fun clean => clean.2 17 (by decide) (by decide) (by decide) rfl, _, _, rfl, ?_⟩
  refine fails (by decide) (by decide) fun clean => clean.1 (List.replicate 16 0) [] (by decide) (by decide) ?_
  rfl

end NoiseStream

end Veloce
