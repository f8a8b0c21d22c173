import Mathlib.Logic.Relation
import Veloce.Common.NoiseStream

/-! Packets of the encrypted stream. -/

namespace Veloce

open Collections

def packet (message : List UInt8) : List UInt8 := toBeBytes lengthFieldSize message.length ++ message

@[simp] theorem length_packet (message : List UInt8) : (packet message).length = 2 + message.length := by
  rw [packet, List.length_append, length_toBeBytes, lengthFieldSize]

/-- The bytes start with all of a packet. -/
def HoldsPacket (bytes : List UInt8) : Prop := ∃ message rest, message.length < 2 ^ 16 ∧ bytes = packet message ++ rest

theorem lengthBytes_inj {length length' : Nat} {rest rest' : List UInt8} (small : length < 2 ^ 16) (small' : length' < 2 ^ 16)
    (same : toBeBytes lengthFieldSize length ++ rest = toBeBytes lengthFieldSize length' ++ rest') :
    length = length' ∧ rest = rest' := by
  obtain ⟨heads, rests⟩ := List.append_inj same (by rw [length_toBeBytes, length_toBeBytes])
  have lengths := congrArg fromBeBytes heads
  rw [fromBeBytes_toBeBytes small, fromBeBytes_toBeBytes small'] at lengths
  exact ⟨lengths, rests⟩

theorem packet_inj {message message' rest rest' : List UInt8} (small : message.length < 2 ^ 16)
    (small' : message'.length < 2 ^ 16) (same : packet message ++ rest = packet message' ++ rest') :
    message = message' ∧ rest = rest' := by
  rw [packet, packet, List.append_assoc, List.append_assoc] at same
  obtain ⟨lengths, bodies⟩ := lengthBytes_inj small small' same
  exact List.append_inj bodies lengths

theorem not_holdsPacket_nil : ¬ HoldsPacket [] := by
  rintro ⟨message, rest, _, same⟩
  have lengths := congrArg List.length same
  rw [List.length_append, length_packet, List.length_nil] at lengths
  omega

namespace NoiseStream

/-- The bytes from the start of the current packet on. -/
def unread (this : NoiseStream) : List UInt8 :=
  if this.readingLength then this.readBuffer else toBeBytes lengthFieldSize this.expectedLen ++ this.readBuffer

/-- What a poll of the read buffer leaves alone. -/
structure Kept (this next : NoiseStream) : Prop where
  sent : next.sent = this.sent
  received : next.received = this.received
  decryptedBuffer : next.decryptedBuffer = this.decryptedBuffer
  outputBuffer : next.outputBuffer = this.outputBuffer

theorem Kept.refl (this : NoiseStream) : this.Kept this := ⟨rfl, rfl, rfl, rfl⟩

variable {σ : Type}

/-- The inner stream brings bytes to those that do not hold a packet yet. -/
def Arrives (io : AsyncIo σ) (before after : σ × List UInt8) : Prop :=
  ¬ HoldsPacket before.2 ∧ ∃ filled, filled ≠ [] ∧ io.pollRead before.1 4096 = (.ready (.ok filled), after.1) ∧
    after.2 = before.2 ++ filled

abbrev Path (io : AsyncIo σ) : σ × List UInt8 → σ × List UInt8 → Prop := Relation.ReflTransGen (Arrives io)

/-- How a read answers that finds no decrypted data: with the first packet, or as the inner stream
answers where it brings no more bytes. -/
inductive Answers (snow : Snow) (io : AsyncIo σ) (room : Nat) (this : NoiseStream) (state : σ × List UInt8) :
    IoResult (List UInt8) → NoiseStream → σ → Prop where
  | decrypted {message rest plaintext : List UInt8} {next : NoiseStream} (small : message.length < 2 ^ 16)
      (holds : state.2 = packet message ++ rest) (decrypts : snow.readMessage this.received message = .ok plaintext)
      (unread : next.unread = rest) (sent : next.sent = this.sent) (received : next.received = this.received + 1)
      (left : next.decryptedBuffer = (this.decryptedBuffer ++ plaintext).drop room)
      (output : next.outputBuffer = this.outputBuffer) :
      Answers snow io room this state (.ready (.ok ((this.decryptedBuffer ++ plaintext).take room))) next state.1
  | refused {message rest : List UInt8} {text : String} {error : IoError} {next : NoiseStream} (small : message.length < 2 ^ 16)
      (holds : state.2 = packet message ++ rest) (refuses : snow.readMessage this.received message = .error text)
      (unread : next.unread = rest) (kept : this.Kept next) :
      Answers snow io room this state (.ready (.error error)) next state.1
  | pending {next : NoiseStream} {inner' : σ} (lacks : ¬ HoldsPacket state.2)
      (answer : io.pollRead state.1 4096 = (.pending, inner')) (unread : next.unread = state.2) (kept : this.Kept next) :
      Answers snow io room this state .pending next inner'
  | error {next : NoiseStream} {inner' : σ} {error : IoError} (lacks : ¬ HoldsPacket state.2)
      (answer : io.pollRead state.1 4096 = (.ready (.error error), inner')) (unread : next.unread = state.2)
      (kept : this.Kept next) :
      Answers snow io room this state (.ready (.error error)) next inner'
  | ended {next : NoiseStream} {inner' : σ} (lacks : ¬ HoldsPacket state.2)
      (answer : io.pollRead state.1 4096 = (.ready (.ok []), inner')) (unread : next.unread = state.2)
      (short : next.readBuffer.length < next.expectedLen) (kept : this.Kept next) :
      Answers snow io room this state (if next.readBuffer = [] then .ready (.ok [])
        else .ready (.error ⟨.unexpectedEof, "Incomplete Noise packet"⟩)) next inner'

section Reads

variable {snow : Snow} {io : AsyncIo σ} {this origin next : NoiseStream} {inner inner' : σ} {room fuel : Nat}

theorem unread_filled (this : NoiseStream) (filled : List UInt8) :
    unread { this with readBuffer := this.readBuffer ++ filled } = this.unread ++ filled := by
  unfold unread
  split
  · rfl
  · exact (List.append_assoc _ _ _).symm

theorem unread_readLength (this : NoiseStream) (length : this.readingLength = true) : this.readLength.unread = this.unread := by
  unfold readLength
  split
  · rename_i whole
    have width : (this.readBuffer.take lengthFieldSize).length = lengthFieldSize := List.length_take_of_le whole
    have same := toBeBytes_fromBeBytes (this.readBuffer.take lengthFieldSize)
    rw [width] at same
    simp only [unread, length, if_true, Bool.false_eq_true, if_false]
    rw [same, List.take_append_drop]
  · rfl

theorem readLength_kept (kept : origin.Kept this) : origin.Kept this.readLength := by
  unfold readLength
  split
  · exact ⟨kept.sent, kept.received, kept.decryptedBuffer, kept.outputBuffer⟩
  · exact kept

theorem lacks_of_short (short : this.readBuffer.length < this.expectedLen) : ¬ HoldsPacket this.unread := by
  rintro ⟨message, rest, small, holds⟩
  unfold unread at holds
  split at holds
  · rename_i length
    have lengths := congrArg List.length holds
    rw [this.expectsLength length, lengthFieldSize] at short
    rw [List.length_append, length_packet] at lengths
    omega
  · rw [packet, List.append_assoc] at holds
    obtain ⟨lengths, rests⟩ := lengthBytes_inj this.lengthFits small holds
    rw [rests, List.length_append] at short
    omega

theorem fill_answers (snow : Snow) (room : Nat) {result : Option (IoResult (List UInt8))} (kept : origin.Kept this)
    (filled : this.fill io inner = (result, next, inner')) :
    (∃ answer, result = some answer ∧ Answers snow io room origin (inner, this.unread) answer next inner') ∨
      result = none ∧ origin.Kept next ∧ Path io (inner, this.unread) (inner', next.unread) := by
  by_cases short : this.readBuffer.length < this.expectedLen
  · have lacks : ¬ HoldsPacket this.unread := lacks_of_short short
    rcases answer : io.pollRead inner 4096 with ⟨outcome, later⟩
    match outcome with
    | .pending =>
      rw [fill_pending short answer] at filled
      cases filled
      exact .inl ⟨_, rfl, .pending lacks answer rfl kept⟩
    | .ready (.error error) =>
      rw [fill_error short answer] at filled
      cases filled
      exact .inl ⟨_, rfl, .error lacks answer rfl kept⟩
    | .ready (.ok []) =>
      rw [fill_end short answer] at filled
      cases filled
      exact .inl ⟨_, rfl, .ended lacks answer rfl short kept⟩
    | .ready (.ok (byte :: rest)) =>
      rw [fill_more short (List.cons_ne_nil _ _) answer] at filled
      cases filled
      refine .inr ⟨rfl, ⟨kept.sent, kept.received, kept.decryptedBuffer, kept.outputBuffer⟩, .single ⟨lacks, ?_⟩⟩
      exact ⟨byte :: rest, List.cons_ne_nil _ _, answer, unread_filled _ _⟩
  · rw [fill_full (Nat.not_lt.mp short)] at filled
    cases filled
    exact .inr ⟨rfl, kept, .refl⟩

theorem decrypt_answers (kept : origin.Kept this) (body : this.readingLength = false)
    (whole : this.expectedLen ≤ this.readBuffer.length) :
    Answers snow io room origin (inner, this.unread) (this.decrypt snow room).1 (this.decrypt snow room).2 inner := by
  have width : (this.readBuffer.take this.expectedLen).length = this.expectedLen := List.length_take_of_le whole
  have small : (this.readBuffer.take this.expectedLen).length < 2 ^ 16 := width.symm ▸ this.lengthFits
  have holds : this.unread = packet (this.readBuffer.take this.expectedLen) ++ this.readBuffer.drop this.expectedLen := by
    rw [unread, body, packet, width, List.append_assoc, List.take_append_drop]
    rfl
  cases read : snow.readMessage this.received (this.readBuffer.take this.expectedLen) with
  | ok plaintext =>
    simp only [decrypt, read, takeDecrypted, kept.decryptedBuffer]
    exact .decrypted small holds (kept.received ▸ read) rfl kept.sent (by rw [kept.received]) rfl kept.outputBuffer
  | error text =>
    simp only [decrypt, read]
    exact .refused small holds (kept.received ▸ read) rfl ⟨kept.sent, kept.received, kept.decryptedBuffer, kept.outputBuffer⟩

/-- What a read of the inner stream comes to. -/
theorem readLoop_answers {answer : IoResult (List UInt8)} (kept : origin.Kept this)
    (returned : readLoop snow io fuel this inner room = some (answer, next, inner')) :
    ∃ state, Path io (inner, this.unread) state ∧ Answers snow io room origin state answer next inner' := by
  induction fuel generalizing this inner with
  | zero => cases returned
  | succ fuel ih =>
    rcases filled : this.fill io inner with ⟨result, now, later⟩
    rcases fill_answers snow room kept filled with ⟨ended, rfl, answers⟩ | ⟨rfl, same, path⟩
    · rw [readLoop_result filled] at returned
      cases returned
      exact ⟨_, .refl, answers⟩
    · cases stage : now.readingLength with
      | true =>
        rw [readLoop_length filled stage] at returned
        obtain ⟨state, more, answers⟩ := ih (readLength_kept same) returned
        rw [unread_readLength now stage] at more
        exact ⟨state, path.trans more, answers⟩
      | false =>
        by_cases whole : now.expectedLen ≤ now.readBuffer.length
        · rw [readLoop_decrypt filled stage whole] at returned
          cases returned
          exact ⟨_, path, decrypt_answers same stage whole⟩
        · rw [readLoop_body filled stage (Nat.not_le.mp whole)] at returned
          obtain ⟨state, more, answers⟩ := ih same returned
          exact ⟨state, path.trans more, answers⟩

end Reads

/-- The stream with a message behind what it still has to send. -/
def enqueue (this : NoiseStream) (ciphertext : List UInt8) : NoiseStream :=
  { this with sent := this.sent + 1, outputBuffer := this.outputBuffer ++ packet ciphertext }

/-- What holds of a stream and its inner stream however much of the output is taken. -/
structure SendInvariant (io : AsyncIo σ) (holds : NoiseStream → σ → Prop) : Prop where
  taken : ∀ {this inner inner' count}, holds this inner → io.pollWrite inner this.outputBuffer = (.ready (.ok count), inner') →
    holds { this with outputBuffer := this.outputBuffer.drop count } inner'
  refused : ∀ {this inner inner' result}, holds this inner → io.pollWrite inner this.outputBuffer = (result, inner') →
    (∀ count, result ≠ .ready (.ok count)) → holds this inner'
  flushed : ∀ {this inner}, holds this inner → holds this (io.pollFlush inner).2

section Writes

variable {snow : Snow} {io : AsyncIo σ} {this next : NoiseStream} {inner inner' : σ} {fuel : Nat} {buf : List UInt8}
  {holds : NoiseStream → σ → Prop}

theorem SendInvariant.writeOut {this next : NoiseStream} {inner inner' : σ} {α : Type} {result : Option (IoResult α)} (inv : SendInvariant io holds) (before : holds this inner)
    (out : this.writeOut io inner = (result, next, inner')) : holds next inner' := by
  unfold NoiseStream.writeOut at out
  split at out
  · rename_i taken
    cases out
    exact inv.taken before taken
  · rename_i refused
    cases out
    exact inv.refused before refused nofun
  · rename_i refused
    cases out
    exact inv.refused before refused nofun

theorem SendInvariant.pollFlush {answer : IoResult Unit} (inv : SendInvariant io holds) (before : holds this inner)
    (polled : this.pollFlush io fuel inner = some (answer, next, inner')) : holds next inner' := by
  induction fuel generalizing this inner with
  | zero => cases polled
  | succ fuel ih =>
    unfold NoiseStream.pollFlush at polled
    split at polled
    · split at polled
      · rename_i out
        cases polled
        exact inv.writeOut before out
      · rename_i out
        exact ih (inv.writeOut before out) polled
    · cases polled
      exact inv.flushed before

theorem SendInvariant.pollShutdown {answer : IoResult Unit} (inv : SendInvariant io holds) (before : holds this inner)
    (closed : ∀ {this inner}, holds this inner → holds this (io.pollShutdown inner).2)
    (polled : this.pollShutdown io fuel inner = some (answer, next, inner')) : holds next inner' := by
  unfold NoiseStream.pollShutdown at polled
  split at polled
  · obtain ⟨⟨result, between, later⟩, flushed, same⟩ := Option.map_eq_some_iff.mp polled
    have kept := inv.pollFlush before flushed
    match result with
    | .ready (.ok ()) =>
      cases same
      exact closed kept
    | .ready (.error error) =>
      cases same
      exact kept
    | .pending =>
      cases same
      exact kept
  · cases polled
    exact closed before

theorem writeOut_result {α : Type} {result : IoResult α} (out : this.writeOut io inner = (some result, next, inner')) :
    result = .pending ∨ ∃ error, result = .ready (.error error) := by
  unfold NoiseStream.writeOut at out
  split at out
  · cases out
  · cases out
    exact .inr ⟨_, rfl⟩
  · cases out
    exact .inl rfl

/-- Encryption refuses the data, or puts a packet behind the output and has some of it taken. -/
theorem encrypt_cases {answer : IoResult Nat} (encrypted : this.encrypt snow io inner buf = (answer, next, inner')) :
    (∃ error, answer = .ready (.error error) ∧ next = this ∧ inner' = inner) ∨
      ∃ (ciphertext : List UInt8) (result : Option (IoResult Nat)),
        snow.writeMessage this.sent (buf.take (min buf.length (maxNoiseMessageLen - 16))) = .ok ciphertext ∧
        (this.enqueue ciphertext).writeOut io inner = (result, next, inner') ∧
        (answer = .ready (.ok (min buf.length (maxNoiseMessageLen - 16))) ∨
          ∃ error, result = some (.ready (.error error)) ∧ answer = .ready (.error error)) := by
  unfold encrypt at encrypted
  dsimp only at encrypted
  split at encrypted
  · cases encrypted
    exact .inl ⟨_, rfl, rfl, rfl⟩
  · rename_i ciphertext cipher
    refine .inr ⟨ciphertext, ?_⟩
    split at encrypted
    · rename_i out
      cases encrypted
      exact ⟨_, cipher, out, .inl rfl⟩
    · rename_i waits out
      cases encrypted
      rcases writeOut_result out with pending | ⟨error, rfl⟩
      · exact (waits pending).elim
      · exact ⟨_, cipher, out, .inr ⟨error, rfl, rfl⟩⟩
    · rename_i out
      cases encrypted
      exact ⟨_, cipher, out, .inl rfl⟩

/-- A write leaves its data out, or encrypts it once all earlier output is taken. -/
theorem SendInvariant.pollWrite_cases {answer : IoResult Nat} (inv : SendInvariant io holds) (before : holds this inner)
    (polled : this.pollWrite snow io inner buf = (answer, next, inner')) :
    (∀ count, answer ≠ .ready (.ok count)) ∧ holds next inner' ∨
      ∃ between later, holds between later ∧ between.outputBuffer = [] ∧
        between.encrypt snow io later buf = (answer, next, inner') := by
  unfold pollWrite at polled
  split at polled
  · split at polled
    · rename_i out
      cases polled
      refine .inl ⟨fun count counted => ?_, inv.writeOut before out⟩
      rcases writeOut_result out with pending | ⟨error, failed⟩
      · cases counted.symm.trans pending
      · cases counted.symm.trans failed
    · rename_i between later out
      split at polled
      · rename_i empty
        exact .inr ⟨between, later, inv.writeOut before out, empty, polled⟩
      · cases polled
        exact .inl ⟨nofun, inv.writeOut before out⟩
  · rename_i empty
    exact .inr ⟨this, inner, before, not_not.mp empty, polled⟩

end Writes

end NoiseStream

end Veloce
