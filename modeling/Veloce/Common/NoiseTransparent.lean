import Veloce.Common.NoisePackets
import Veloce.Common.NoiseWakeups

/-! Two ends of the encrypted stream over a reliable connection. -/

namespace Veloce

open Collections

/-- One direction of a connection, between a writer and a reader. `flushed` counts the bytes
accepted when the writer last completed a flush. -/
structure NoiseChannel where
  sent : Nat
  received : Nat
  output : List UInt8
  pipe : List UInt8
  unread : List UInt8
  decrypted : List UInt8
  accepted : List UInt8
  read : List UInt8
  flushed : Nat

/-- Data and its message on the way. -/
structure Parcel where
  payload : List UInt8
  ciphertext : List UInt8

namespace NoiseChannel

/-- The reader decrypts messages to their nonempty data. -/
def Decrypts (snow : Snow) : Nat → List Parcel → Prop
  | _, [] => True
  | nonce, parcel :: flight => (parcel.payload ≠ [] ∧ parcel.ciphertext.length < 2 ^ 16 ∧
      snow.readMessage nonce parcel.ciphertext = .ok parcel.payload) ∧ Decrypts snow (nonce + 1) flight

def packets (flight : List Parcel) : List UInt8 := flight.flatMap fun parcel => packet parcel.ciphertext

def payloads (flight : List Parcel) : List UInt8 := flight.flatMap Parcel.payload

/-- The packets on the way are the bytes behind those that are decrypted; the early ones, which
are flushed, have left the writer. -/
structure Carries (snow : Snow) (channel : NoiseChannel) (early late : List Parcel) : Prop where
  decrypts : Decrypts snow channel.received (early ++ late)
  sent : channel.sent = channel.received + (early ++ late).length
  bytes : channel.unread ++ channel.pipe ++ channel.output = packets (early ++ late)
  accepted : channel.accepted = channel.read ++ channel.decrypted ++ payloads (early ++ late)
  left : packets early <+: channel.unread ++ channel.pipe
  flushed : channel.flushed ≤ (channel.read ++ channel.decrypted ++ payloads early).length

def Sound (snow : Snow) (channel : NoiseChannel) : Prop := ∃ early late, channel.Carries snow early late

section Moves

variable {snow : Snow} {channel : NoiseChannel} {nonce : Nat} {flight : List Parcel} {parcel : Parcel} {bytes rest : List UInt8}

theorem decrypts_concat : Decrypts snow nonce (flight ++ [parcel]) ↔ Decrypts snow nonce flight ∧ parcel.payload ≠ [] ∧
    parcel.ciphertext.length < 2 ^ 16 ∧ snow.readMessage (nonce + flight.length) parcel.ciphertext = .ok parcel.payload := by
  induction flight generalizing nonce with
  | nil => simp [Decrypts]
  | cons first others ih =>
    have nonces : nonce + 1 + others.length = nonce + (others.length + 1) := by omega
    rw [List.cons_append, Decrypts, Decrypts, ih, List.length_cons, nonces, and_assoc (a := _ ∧ _)]

theorem Sound.read_ordered (sound : channel.Sound snow) : channel.read <+: channel.accepted := by
  obtain ⟨early, late, carries⟩ := sound
  exact ⟨channel.decrypted ++ payloads (early ++ late), by rw [carries.accepted, List.append_assoc]⟩

theorem Sound.flushed_le (sound : channel.Sound snow) : channel.flushed ≤ channel.accepted.length := by
  obtain ⟨early, late, carries⟩ := sound
  refine carries.flushed.trans ?_
  rw [carries.accepted]
  simp [payloads]

theorem Sound.write (sound : channel.Sound snow) (split : channel.output = bytes ++ rest) :
    Sound snow { channel with output := rest, pipe := channel.pipe ++ bytes } := by
  obtain ⟨early, late, carries⟩ := sound
  refine ⟨early, late, carries.decrypts, carries.sent, ?_, carries.accepted, ?_, carries.flushed⟩
  · rw [← carries.bytes, split]
    simp only [List.append_assoc]
  · exact carries.left.trans ⟨bytes, by rw [List.append_assoc]⟩

theorem Sound.arrive (sound : channel.Sound snow) (split : channel.pipe = bytes ++ rest) :
    Sound snow { channel with pipe := rest, unread := channel.unread ++ bytes } := by
  obtain ⟨early, late, carries⟩ := sound
  have same : channel.unread ++ bytes ++ rest = channel.unread ++ channel.pipe := by rw [split, List.append_assoc]
  exact ⟨early, late, carries.decrypts, carries.sent, same ▸ carries.bytes, carries.accepted, same ▸ carries.left, carries.flushed⟩

theorem Sound.encrypt (parcel : Parcel) (sound : channel.Sound snow) (some : parcel.payload ≠ []) (small : parcel.ciphertext.length < 2 ^ 16)
    (inverts : snow.readMessage channel.sent parcel.ciphertext = .ok parcel.payload) :
    Sound snow { channel with
      sent := channel.sent + 1
      output := channel.output ++ packet parcel.ciphertext
      accepted := channel.accepted ++ parcel.payload } := by
  obtain ⟨early, late, carries⟩ := sound
  refine ⟨early, late ++ [parcel], ?_, ?_, ?_, ?_, carries.left, carries.flushed⟩ <;> rw [← List.append_assoc early]
  · exact decrypts_concat.mpr ⟨carries.decrypts, some, small, carries.sent ▸ inverts⟩
  · rw [List.length_append, List.length_singleton, ← Nat.add_assoc, ← carries.sent]
  · rw [← List.append_assoc, carries.bytes]
    simp [packets]
  · rw [carries.accepted]
    simp [payloads]

theorem Sound.decrypt {message : List UInt8} (sound : channel.Sound snow) (small : message.length < 2 ^ 16)
    (holds : channel.unread = packet message ++ rest) : ∃ plaintext, plaintext ≠ [] ∧
      snow.readMessage channel.received message = .ok plaintext ∧ Sound snow { channel with
        received := channel.received + 1
        unread := rest
        decrypted := channel.decrypted ++ plaintext } := by
  obtain ⟨early, late, carries⟩ := sound
  have bytes := carries.bytes
  rw [holds, List.append_assoc, List.append_assoc] at bytes
  cases flight : early ++ late with
  | nil =>
    have lengths := congrArg List.length bytes
    rw [flight, List.length_append, length_packet] at lengths
    simp only [packets, List.flatMap_nil, List.length_nil] at lengths
    omega
  | cons parcel others =>
    obtain ⟨⟨some, sized, inverts⟩, decrypts⟩ := flight ▸ carries.decrypts
    rw [flight] at bytes
    obtain ⟨rfl, rests⟩ := packet_inj small sized bytes
    have sent : channel.sent = channel.received + 1 + others.length := by
      rw [carries.sent, flight, List.length_cons]
      omega
    have accepted : channel.accepted = channel.read ++ (channel.decrypted ++ parcel.payload) ++ payloads others := by
      rw [carries.accepted, flight]
      simp [payloads]
    rw [← List.append_assoc] at rests
    refine ⟨parcel.payload, some, inverts, ?_⟩
    have flushed := carries.flushed
    cases early with
    | nil =>
      cases flight
      refine ⟨[], others, decrypts, sent, rests, accepted, List.nil_prefix, flushed.trans ?_⟩
      simp only [List.length_append]
      omega
    | cons first early =>
      cases flight
      refine ⟨early, late, decrypts, sent, rests, accepted, ?_, flushed.trans ?_⟩
      · have left := carries.left
        rw [holds, List.append_assoc] at left
        exact (List.prefix_append_right_inj _).mp left
      · simp [payloads, List.length_append]

theorem Sound.take (sound : channel.Sound snow) (split : channel.decrypted = bytes ++ rest) :
    Sound snow { channel with decrypted := rest, read := channel.read ++ bytes } := by
  obtain ⟨early, late, carries⟩ := sound
  have same : channel.read ++ bytes ++ rest = channel.read ++ channel.decrypted := by rw [split, List.append_assoc]
  exact ⟨early, late, carries.decrypts, carries.sent, carries.bytes, same ▸ carries.accepted, carries.left, same ▸ carries.flushed⟩

theorem Sound.flush (sound : channel.Sound snow) (empty : channel.output = []) :
    Sound snow { channel with flushed := channel.accepted.length } := by
  obtain ⟨early, late, carries⟩ := sound
  have bytes := carries.bytes
  rw [empty, List.append_nil] at bytes
  refine ⟨early ++ late, [], ?_, ?_, ?_, ?_, ?_, ?_⟩ <;> try rw [List.append_nil]
  · exact carries.decrypts
  · exact carries.sent
  · exact carries.bytes
  · exact carries.accepted
  · exact bytes ▸ List.prefix_refl _
  · exact (congrArg List.length carries.accepted).le

/-- Of flushed data that is not decrypted, a whole packet has left the writer. -/
theorem Sound.awaits (sound : channel.Sound snow) (waits : channel.read.length < channel.flushed) (empty : channel.decrypted = []) :
    HoldsPacket (channel.unread ++ channel.pipe) := by
  obtain ⟨early, late, carries⟩ := sound
  cases early with
  | nil =>
    have flushed := carries.flushed
    rw [empty] at flushed
    simp [payloads] at flushed
    omega
  | cons first early =>
    obtain ⟨rest, split⟩ := carries.left
    refine ⟨first.ciphertext, packets early ++ rest, carries.decrypts.1.2.1, ?_⟩
    rw [← split]
    simp [packets]

end Moves

def writtenBy (channel : NoiseChannel) (this : NoiseStream) (pipe : List UInt8) : NoiseChannel :=
  { channel with sent := this.sent, output := this.outputBuffer, pipe }

def readBy (channel : NoiseChannel) (this : NoiseStream) (pipe : List UInt8) : NoiseChannel :=
  { channel with received := this.received, unread := this.unread, decrypted := this.decryptedBuffer, pipe }

end NoiseChannel

/-- The reader of a connection undoes what the writer does, which adds 16 bytes. -/
def Snow.Inverts (writer reader : Snow) : Prop := ∀ nonce payload, payload.length ≤ maxNoiseMessageLen - 16 →
  ∃ ciphertext, writer.writeMessage nonce payload = .ok ciphertext ∧ ciphertext.length = payload.length + 16 ∧
    reader.readMessage nonce ciphertext = .ok payload

namespace NoiseStream

section Reliably

variable {σ : Type} {snow peer : Snow} {io : AsyncIo σ} {outgoing incoming : σ → List UInt8} {this next : NoiseStream}
  {inner inner' : σ} {room fuel : Nat} {channel : NoiseChannel}

theorem path_sound (channel : NoiseChannel) (reliable : io.Reliable outgoing incoming) {before after : σ × List UInt8} (path : Path io before after)
    (sound : NoiseChannel.Sound snow { channel with unread := before.2, pipe := incoming before.1 }) :
    NoiseChannel.Sound snow { channel with unread := after.2, pipe := incoming after.1 } ∧ outgoing after.1 = outgoing before.1 := by
  induction path with
  | refl => exact ⟨sound, rfl⟩
  | @tail middle last _ step ih =>
    obtain ⟨_, filled, _, answer, grown⟩ := step
    have kept := reliable.readKeeps middle.1 4096
    rcases reliable.read middle.1 4096 with ⟨waits, _⟩ | ⟨bytes, _, same, split⟩
    · rw [answer] at waits
      cases waits
    · rw [answer] at same split kept
      cases same
      exact ⟨grown ▸ ih.1.arrive split, kept.trans ih.2⟩

def Brings (io : AsyncIo σ) (before after : σ) : Prop :=
  ∃ filled, filled ≠ [] ∧ io.pollRead before 4096 = (.ready (.ok filled), after)

/-- The connection has a read wait that finds bytes in it. -/
def Withholds (io : AsyncIo σ) (incoming : σ → List UInt8) (after before : σ) : Prop :=
  incoming before ≠ [] ∧ io.pollRead before 4096 = (.pending, after)

theorem path_brings {before after : σ × List UInt8} (path : Path io before after) :
    Relation.ReflTransGen (Brings io) before.1 after.1 :=
  path.lift Prod.fst fun _ _ step => ⟨_, step.2.choose_spec.1, step.2.choose_spec.2.1⟩

variable {before after : σ}

theorem brings_shorter (reliable : io.Reliable outgoing incoming) (brings : Brings io before after) :
    (incoming after).length < (incoming before).length := by
  obtain ⟨filled, some, answer⟩ := brings
  rcases reliable.read before 4096 with ⟨waits, _⟩ | ⟨bytes, _, same, split⟩
  · rw [answer] at waits
    cases waits
  · rw [answer] at same split
    cases same
    rw [split, List.length_append]
    exact Nat.lt_add_of_pos_left (List.length_pos_iff.mpr some)

theorem withholds_keeps (reliable : io.Reliable outgoing incoming) (withheld : Withholds io incoming after before) :
    incoming after = incoming before := by
  rcases reliable.read before 4096 with ⟨_, same⟩ | ⟨bytes, _, absurd, _⟩
  · rwa [withheld.2] at same
  · rw [withheld.2] at absurd
    cases absurd

theorem brought_shorter (reliable : io.Reliable outgoing incoming)
    (brought : Relation.ReflTransGen (Brings io) before after) :
    before = after ∨ (incoming after).length < (incoming before).length := by
  induction brought with
  | refl => exact .inl rfl
  | tail _ step ih =>
    have shorter := brings_shorter reliable step
    rcases ih with rfl | before
    · exact .inr shorter
    · exact .inr (shorter.trans before)

/-- What a read does to the channel that it reads, and what it answers to bytes that are flushed. -/
theorem pollRead_sound {answer : IoResult (List UInt8)} (reliable : io.Reliable outgoing incoming)
    (sound : (channel.readBy this (incoming inner)).Sound snow)
    (polled : this.pollRead snow io fuel inner room = some (answer, next, inner')) :
    NoiseChannel.Sound snow { channel.readBy next (incoming inner') with read := channel.read ++ (IoCall.read answer).bytes } ∧
      (next.sent = this.sent ∧ next.outputBuffer = this.outputBuffer ∧ outgoing inner' = outgoing inner) ∧
      (0 < room → channel.read.length < channel.flushed → (∃ bytes, bytes ≠ [] ∧ answer = .ready (.ok bytes)) ∨
        answer = .pending ∧ ∃ state, Relation.ReflTransGen (Brings io) inner state ∧ Withholds io incoming inner' state) := by
  unfold pollRead at polled
  split at polled
  · rename_i some
    cases polled
    refine ⟨sound.take (List.take_append_drop room _).symm, ⟨rfl, rfl, rfl⟩, fun positive _ => .inl ⟨_, ?_, rfl⟩⟩
    simpa [takeDecrypted, positive.ne'] using some
  · rename_i empty
    have empty := not_not.mp empty
    obtain ⟨state, path, answers⟩ := readLoop_answers (Kept.refl this) polled
    have brought := path_brings path
    obtain ⟨sound, kept⟩ := path_sound (channel.readBy this (incoming inner)) reliable path sound
    have answered := reliable.read state.1 4096
    cases answers with
    | @decrypted message rest plaintext _ small holds decrypts unread sent received left output =>
      obtain ⟨plain, some, decrypts', sound⟩ := sound.decrypt small holds
      cases decrypts.symm.trans decrypts'
      have split : this.decryptedBuffer ++ plaintext = plaintext.take room ++ plaintext.drop room := by
        rw [empty, List.nil_append, List.take_append_drop]
      rw [empty, List.nil_append] at left ⊢
      refine ⟨?_, ⟨sent, output, kept⟩, fun positive _ => .inl ⟨_, ?_, rfl⟩⟩
      · rw [NoiseChannel.readBy, received, unread, left]
        exact sound.take split
      · simpa [positive.ne'] using some
    | refused small holds refuses =>
      obtain ⟨plain, _, decrypts, _⟩ := sound.decrypt small holds
      cases refuses.symm.trans decrypts
    | pending lacks answer unread kept' =>
      have moved := reliable.readKeeps state.1 4096
      rw [answer] at answered moved
      obtain ⟨_, same⟩ := answered.resolve_right (by rintro ⟨_, _, absurd, _⟩; cases absurd)
      rw [NoiseChannel.readBy, kept'.received, kept'.decryptedBuffer, unread, same]
      refine ⟨(List.append_nil channel.read).symm ▸ sound, ⟨kept'.sent, kept'.outputBuffer, moved.trans kept⟩, fun _ waits => .inr ⟨rfl, state.1, brought, fun none => ?_, answer⟩⟩
      have holds := sound.awaits waits empty
      exact lacks (by rwa [none, List.append_nil] at holds)
    | error lacks answer =>
      rw [answer] at answered
      rcases answered with ⟨absurd, _⟩ | ⟨_, _, absurd, _⟩ <;> cases absurd
    | ended lacks answer =>
      rw [answer] at answered
      rcases answered with ⟨absurd, _⟩ | ⟨bytes, some, same, _⟩
      · cases absurd
      · cases same
        exact (some rfl).elim

/-- What a stream knows as a reader. -/
def readSide (this : NoiseStream) : Nat × List UInt8 × List UInt8 := (this.received, this.unread, this.decryptedBuffer)

/-- Sending keeps the channel that is written, and what comes the other way. -/
theorem sending (reliable : io.Reliable outgoing incoming) (channel : NoiseChannel) (reader : Nat × List UInt8 × List UInt8)
    (pipe : List UInt8) : SendInvariant io fun this inner =>
      (channel.writtenBy this (outgoing inner)).Sound peer ∧ this.readSide = reader ∧ incoming inner = pipe where
  taken := by
    intro this inner inner' count before answer
    have answered := reliable.write inner this.outputBuffer
    have kept := reliable.writeKeeps inner this.outputBuffer
    rw [answer] at answered kept
    obtain ⟨_, _, _, same, moved⟩ := answered.resolve_left fun ⟨absurd, _⟩ => by cases absurd
    cases same
    refine ⟨?_, before.2.1, kept.trans before.2.2⟩
    rw [NoiseChannel.writtenBy, moved]
    exact before.1.write (List.take_append_drop count _).symm
  refused := by
    intro this inner inner' result before answer refused
    have answered := reliable.write inner this.outputBuffer
    have kept := reliable.writeKeeps inner this.outputBuffer
    rw [answer] at answered kept
    obtain ⟨_, same⟩ := answered.resolve_right fun ⟨count, _, _, taken, _⟩ => refused count taken
    exact ⟨same ▸ before.1, before.2.1, kept.trans before.2.2⟩
  flushed := by
    intro this inner before
    obtain ⟨same, kept⟩ := reliable.flushKeeps inner
    exact ⟨same ▸ before.1, before.2.1, kept.trans before.2.2⟩

theorem writeOut_ne_error {α : Type} {error : IoError} (reliable : io.Reliable outgoing incoming) :
    this.writeOut io inner ≠ (some (.ready (.error error) : IoResult α), next, inner') := by
  intro out
  unfold writeOut at out
  split at out
  · cases out
  · rename_i answer
    have answered := reliable.write inner this.outputBuffer
    rw [answer] at answered
    rcases answered with ⟨absurd, _⟩ | ⟨_, _, _, absurd, _⟩ <;> cases absurd
  · cases out

def acceptedBytes (buf : List UInt8) : IoResult Nat → List UInt8
  | .ready (.ok count) => buf.take count
  | _ => []

theorem pollWrite_sound {answer : IoResult Nat} {buf : List UInt8} (reliable : io.Reliable outgoing incoming)
    (inverts : snow.Inverts peer) (some : buf ≠ []) (sound : (channel.writtenBy this (outgoing inner)).Sound peer)
    (polled : this.pollWrite snow io inner buf = (answer, next, inner')) :
    NoiseChannel.Sound peer { channel.writtenBy next (outgoing inner') with accepted := channel.accepted ++ acceptedBytes buf answer } ∧
      next.readSide = this.readSide ∧ incoming inner' = incoming inner := by
  rcases (sending reliable channel _ _).pollWrite_cases ⟨sound, rfl, rfl⟩ polled with
    ⟨refused, kept⟩ | ⟨between, later, kept, _, encrypted⟩
  · have nothing : acceptedBytes buf answer = [] := by
      match answer with
      | .pending => rfl
      | .ready (.error error) => rfl
      | .ready (.ok count) => exact (refused count rfl).elim
    rw [nothing, List.append_nil]
    exact kept
  · rcases encrypt_cases encrypted with ⟨error, rfl, rfl, rfl⟩ | ⟨ciphertext, result, cipher, out, accepted⟩
    · rw [show acceptedBytes buf (.ready (.error error)) = [] from rfl, List.append_nil]
      exact kept
    · have fits : (buf.take (min buf.length (maxNoiseMessageLen - 16))).length ≤ maxNoiseMessageLen - 16 := by
        rw [List.length_take]
        omega
      obtain ⟨_, cipher', longer, inverse⟩ := inverts between.sent _ fits
      cases cipher.symm.trans cipher'
      have small : ciphertext.length < 2 ^ 16 := by
        rw [longer]
        exact Nat.lt_of_le_of_lt (Nat.add_le_add_right fits 16) (by decide)
      have data : buf.take (min buf.length (maxNoiseMessageLen - 16)) ≠ [] := by
        have positive := List.length_pos_iff.mpr some
        refine List.ne_nil_of_length_pos ?_
        rw [List.length_take, maxNoiseMessageLen]
        omega
      let grown := { channel with accepted := channel.accepted ++ buf.take (min buf.length (maxNoiseMessageLen - 16)) }
      have enqueued : (grown.writtenBy (between.enqueue ciphertext) (outgoing later)).Sound peer :=
        kept.1.encrypt ⟨_, ciphertext⟩ data small inverse
      rcases accepted with rfl | ⟨error, rfl, _⟩
      · exact (sending reliable grown this.readSide (incoming inner)).writeOut ⟨enqueued, kept.2⟩ out
      · exact (writeOut_ne_error reliable out).elim

/-- A completed flush has written all output. -/
theorem pollFlush_empties (polled : this.pollFlush io fuel inner = some (.ready (.ok ()), next, inner')) : next.outputBuffer = [] := by
  induction fuel generalizing this inner with
  | zero => cases polled
  | succ fuel ih =>
    unfold pollFlush at polled
    split at polled
    · split at polled
      · rename_i out
        cases polled
        rcases writeOut_result out with absurd | ⟨_, absurd⟩ <;> cases absurd
      · exact ih polled
    · rename_i empty
      simp only [Option.some.injEq, Prod.mk.injEq] at polled
      exact polled.2.1 ▸ not_not.mp empty

end Reliably

end NoiseStream

inductive Side where
  | a
  | b
deriving DecidableEq

def Side.other : Side → Side
  | .a => .b
  | .b => .a

@[simp] theorem Side.other_other (side : Side) : side.other.other = side := by cases side <;> rfl

@[simp] theorem Side.other_ne (side : Side) : side.other ≠ side := by cases side <;> exact nofun

/-- Two ends and what is between them, with the bytes that each end has accepted and read so far,
and how many were accepted when it last completed a flush. -/
structure NoiseLink (σ : Type) where
  stream : Side → NoiseStream
  net : σ
  accepted : Side → List UInt8
  read : Side → List UInt8
  flushed : Side → Nat

/-- Data is read, written or flushed; a write has some data. -/
def NoiseCall.Transfers : NoiseCall → Prop
  | .read _ | .flush => True
  | .write buf => buf ≠ []
  | .shutdown => False

namespace NoiseLink

variable {σ : Type}

def start (net : σ) : NoiseLink σ where
  stream _ := { expectsLength := NoiseStream.expectsLength_first, lengthFits := NoiseStream.lengthFieldSize_fits }
  net
  accepted _ := []
  read _ := []
  flushed _ := 0

def acceptedBy : NoiseCall → IoCall → List UInt8
  | .write buf, .write answer => NoiseStream.acceptedBytes buf answer
  | _, _ => []

/-- A flush that is completed counts what has been accepted. -/
def flushedBy : IoCall → (accepted flushed : Nat) → Nat
  | .flush (.ready (.ok ())), accepted, _ => accepted
  | _, _, flushed => flushed

/-- After a call at one end. -/
def answered (link : NoiseLink σ) (side : Side) (call : NoiseCall) (answer : IoCall) (next : NoiseStream) (net : σ) : NoiseLink σ where
  stream := Function.update link.stream side next
  net
  accepted := Function.update link.accepted side (link.accepted side ++ acceptedBy call answer)
  read := Function.update link.read side (link.read side ++ answer.bytes)
  flushed := Function.update link.flushed side (flushedBy answer (link.accepted side).length (link.flushed side))

/-- A call at one end, or time in which no byte is moved. -/
inductive Step (snow : Side → Snow) (io : Side → AsyncIo σ) (pipe : Side → σ → List UInt8) : NoiseLink σ → NoiseLink σ → Prop where
  | call {link : NoiseLink σ} {answer : IoCall} {next : NoiseStream} {net : σ} (side : Side) (call : NoiseCall) (fuel : Nat)
      (transfers : call.Transfers) (polled : call.poll (snow side) (io side) fuel (link.stream side) link.net = some (answer, next, net)) :
      Step snow io pipe link (link.answered side call answer next net)
  | wait {link : NoiseLink σ} {net : σ} (same : ∀ side, pipe side net = pipe side link.net) : Step snow io pipe link { link with net }

def channel (pipe : Side → σ → List UInt8) (link : NoiseLink σ) (side : Side) : NoiseChannel where
  sent := (link.stream side).sent
  received := (link.stream side.other).received
  output := (link.stream side).outputBuffer
  pipe := pipe side link.net
  unread := (link.stream side.other).unread
  decrypted := (link.stream side.other).decryptedBuffer
  accepted := link.accepted side
  read := link.read side.other
  flushed := link.flushed side

section Steps

variable {snow : Side → Snow} {io : Side → AsyncIo σ} {pipe : Side → σ → List UInt8} {link link' : NoiseLink σ}

/-- Both directions carry what they should. -/
def Sound (snow : Side → Snow) (pipe : Side → σ → List UInt8) (link : NoiseLink σ) : Prop :=
  ∀ side, (link.channel pipe side).Sound (snow side.other)

theorem sound_start {net : σ} (silent : ∀ side, pipe side net = []) : (start net).Sound snow pipe := by
  intro side
  refine ⟨[], [], trivial, rfl, ?_, rfl, List.nil_prefix, Nat.zero_le _⟩
  simp [start, channel, silent, NoiseStream.unread, NoiseChannel.packets]

/-- A call that is sound for both channels of its end keeps the link sound. -/
theorem sound_of_channels (side : Side) (writes : (link.channel pipe side).Sound (snow side.other))
    (reads : (link.channel pipe side.other).Sound (snow side)) : link.Sound snow pipe := by
  intro other
  by_cases same : other = side
  · exact same ▸ writes
  · have opposite : other = side.other := by
      cases other <;> cases side <;> first | rfl | exact (same rfl).elim
    subst opposite
    rwa [Side.other_other]

variable {side : Side} {call : NoiseCall} {answer : IoCall} {next : NoiseStream} {net : σ}

theorem channel_answered_reader : (link.answered side call answer next net).channel pipe side.other =
    { (link.channel pipe side.other).readBy next (pipe side.other net) with read := link.read side ++ answer.bytes } := by
  simp [channel, NoiseChannel.readBy, answered]

theorem channel_answered_writer : (link.answered side call answer next net).channel pipe side =
    { (link.channel pipe side).writtenBy next (pipe side net) with
      accepted := link.accepted side ++ acceptedBy call answer
      flushed := flushedBy answer (link.accepted side).length (link.flushed side) } := by
  simp [channel, NoiseChannel.writtenBy, answered]

theorem writer_kept (sent : next.sent = (link.stream side).sent) (output : next.outputBuffer = (link.stream side).outputBuffer)
    (same : pipe side net = pipe side link.net) :
    (link.channel pipe side).writtenBy next (pipe side net) = link.channel pipe side := by
  simp [channel, NoiseChannel.writtenBy, sent, output, same]

theorem reader_kept (kept : next.readSide = (link.stream side).readSide) (same : pipe side.other net = pipe side.other link.net) :
    (link.channel pipe side.other).readBy next (pipe side.other net) = link.channel pipe side.other := by
  simp only [NoiseStream.readSide, Prod.mk.injEq] at kept
  simp [channel, NoiseChannel.readBy, kept, same]

theorem read_side (pipe : Side → σ → List UInt8) (link : NoiseLink σ) (side : Side) : (link.channel pipe side.other).read = link.read side :=
  congrArg link.read side.other_other

/-- A call that sends: the channel that comes the other way is as before. -/
theorem sound_of_sending (reads : (link.channel pipe side.other).Sound (snow side)) (kept : next.readSide = (link.stream side).readSide)
    (same : pipe side.other net = pipe side.other link.net) (silent : answer.bytes = [])
    (writes : ((link.answered side call answer next net).channel pipe side).Sound (snow side.other)) :
    (link.answered side call answer next net).Sound snow pipe := by
  refine sound_of_channels side writes ?_
  rw [channel_answered_reader, reader_kept kept same, silent, List.append_nil, ← read_side pipe]
  exact reads

theorem step_sound (reliable : ∀ side, (io side).Reliable (pipe side) (pipe side.other))
    (inverts : ∀ side, (snow side).Inverts (snow side.other)) (sound : link.Sound snow pipe)
    (step : Step snow io pipe link link') : link'.Sound snow pipe := by
  cases step with
  | wait same =>
    intro side
    have before := sound side
    rw [channel] at before ⊢
    rwa [same]
  | @call answer next net side call fuel transfers polled =>
    have writes := sound side
    have reads := sound side.other
    rw [Side.other_other] at reads
    rw [← writer_kept rfl rfl rfl] at writes
    cases call with
    | read room =>
      obtain ⟨⟨result, next, later⟩, returned, same⟩ := Option.map_eq_some_iff.mp polled
      cases same
      rw [← reader_kept rfl rfl] at reads
      obtain ⟨sound, ⟨sent, output, moved⟩, _⟩ := NoiseStream.pollRead_sound (reliable side) reads returned
      refine sound_of_channels side ?_ ?_
      · rw [channel_answered_writer, writer_kept sent output moved]
        simp only [acceptedBy, List.append_nil]
        exact writes
      · rw [channel_answered_reader, ← read_side pipe]
        exact sound
    | write buf =>
      rcases returned : (link.stream side).pollWrite (snow side) (io side) link.net buf with ⟨result, now, later⟩
      rw [NoiseCall.poll, returned] at polled
      cases polled
      obtain ⟨sound, kept, same⟩ := NoiseStream.pollWrite_sound (reliable side) (inverts side) transfers writes returned
      refine sound_of_sending reads kept same rfl ?_
      rw [channel_answered_writer]
      exact sound
    | flush =>
      obtain ⟨⟨result, now, later⟩, returned, same⟩ := Option.map_eq_some_iff.mp polled
      cases same
      obtain ⟨sound, kept, same⟩ := (NoiseStream.sending (reliable side) (link.channel pipe side) _ _).pollFlush ⟨writes, rfl, rfl⟩ returned
      refine sound_of_sending reads kept same rfl ?_
      rw [channel_answered_writer]
      simp only [acceptedBy, List.append_nil]
      cases result with
      | pending => exact sound
      | ready outcome => cases outcome with
        | error error => exact sound
        | ok done => exact sound.flush (NoiseStream.pollFlush_empties returned)
    | shutdown => exact transfers.elim

theorem reached_sound {net : σ} (reliable : ∀ side, (io side).Reliable (pipe side) (pipe side.other))
    (inverts : ∀ side, (snow side).Inverts (snow side.other)) (silent : ∀ side, pipe side net = [])
    (reached : Relation.ReflTransGen (Step snow io pipe) (start net) link) : link.Sound snow pipe := by
  induction reached with
  | refl => exact sound_start silent
  | tail _ step ih => exact step_sound reliable inverts ih step

theorem step_grows (sound : link.Sound snow pipe) (step : Step snow io pipe link link') (side : Side) :
    link.accepted side <+: link'.accepted side ∧ link.read side <+: link'.read side ∧ link.flushed side ≤ link'.flushed side := by
  cases step with
  | wait same => exact ⟨List.prefix_refl _, List.prefix_refl _, Nat.le_refl _⟩
  | @call answer next net other call fuel transfers polled =>
    by_cases same : side = other
    · subst same
      have flushed := (sound side).flushed_le
      refine ⟨?_, ?_, ?_⟩
      · simp [answered]
      · simp [answered]
      · simp only [answered, Function.update_self]
        unfold flushedBy
        split
        · exact flushed
        · exact Nat.le_refl _
    · simp [answered, Function.update_of_ne same]

/-- Any steps, among them a number of reads at one end that have room and do not have to wait. -/
inductive Reads (snow : Side → Snow) (io : Side → AsyncIo σ) (pipe : Side → σ → List UInt8) (reader : Side) :
    Nat → NoiseLink σ → NoiseLink σ → Prop where
  | refl {link : NoiseLink σ} : Reads snow io pipe reader 0 link link
  | step {count : Nat} {link middle later : NoiseLink σ} (before : Reads snow io pipe reader count link middle)
      (step : Step snow io pipe middle later) : Reads snow io pipe reader count link later
  | read {count room fuel : Nat} {link middle : NoiseLink σ} {result : Except IoError (List UInt8)} {next : NoiseStream} {net : σ}
      (before : Reads snow io pipe reader count link middle) (positive : 0 < room)
      (polled : (middle.stream reader).pollRead (snow reader) (io reader) fuel middle.net room = some (.ready result, next, net)) :
      Reads snow io pipe reader (count + 1) link (middle.answered reader (.read room) (.read (.ready result)) next net)

variable {reader : Side}

/-- A read with room brings flushed data, or waits since the connection withholds the rest. -/
theorem read_answers {room fuel : Nat} {result : IoResult (List UInt8)}
    (reliable : ∀ side, (io side).Reliable (pipe side) (pipe side.other)) (sound : link.Sound snow pipe)
    (polled : (link.stream reader).pollRead (snow reader) (io reader) fuel link.net room = some (result, next, net))
    (positive : 0 < room) (waits : (link.read reader).length < link.flushed reader.other) :
    (∃ bytes, bytes ≠ [] ∧ result = .ready (.ok bytes)) ∨ result = .pending ∧ ∃ state,
      Relation.ReflTransGen (NoiseStream.Brings (io reader)) link.net state ∧
        NoiseStream.Withholds (io reader) (pipe reader.other) net state := by
  have reads := sound reader.other
  rw [Side.other_other, ← reader_kept rfl rfl] at reads
  refine (NoiseStream.pollRead_sound (reliable reader) reads polled).2.2 positive ?_
  rwa [read_side]

/-- Every read that is answered brings flushed data, until all of it is read. -/
theorem reads_progress {count : Nat} (reliable : ∀ side, (io side).Reliable (pipe side) (pipe side.other))
    (inverts : ∀ side, (snow side).Inverts (snow side.other)) (sound : link.Sound snow pipe)
    (reads : Reads snow io pipe reader count link link') : link'.Sound snow pipe ∧
      link.accepted reader.other <+: link'.accepted reader.other ∧ link.flushed reader.other ≤ link'.flushed reader.other ∧
      min (link.flushed reader.other) ((link.read reader).length + count) ≤ (link'.read reader).length := by
  induction reads with
  | refl => exact ⟨sound, List.prefix_refl _, Nat.le_refl _, Nat.min_le_right _ _⟩
  | step _ step ih =>
    obtain ⟨sound, accepted, flushed, progress⟩ := ih sound
    have grows := step_grows sound step
    exact ⟨step_sound reliable inverts sound step, accepted.trans (grows reader.other).1, flushed.trans (grows reader.other).2.2,
      progress.trans (grows reader).2.1.length_le⟩
  | @read count room fuel link middle result next net _ positive polled ih =>
    obtain ⟨sound, accepted, flushed, progress⟩ := ih sound
    have step : Step snow io pipe middle (middle.answered reader (.read room) (.read (.ready result)) next net) :=
      .call reader (.read room) fuel trivial (congrArg (Option.map _) polled)
    have grows := step_grows sound step
    refine ⟨step_sound reliable inverts sound step, accepted.trans (grows reader.other).1, flushed.trans (grows reader.other).2.2, ?_⟩
    have longer := (grows reader).2.1.length_le
    by_cases waits : (middle.read reader).length < middle.flushed reader.other
    · obtain ⟨bytes, some, rfl⟩ : ∃ bytes, bytes ≠ [] ∧ result = .ok bytes := by
        rcases read_answers reliable sound polled positive waits with ⟨bytes, some, same⟩ | ⟨absurd, _⟩
        · exact ⟨bytes, some, by simpa using same⟩
        · cases absurd
      have more := List.length_pos_iff.mpr some
      have length : ((middle.answered reader (.read room) (.read (.ready (.ok bytes))) next net).read reader).length =
          (middle.read reader).length + bytes.length := by
        simp [answered, IoCall.bytes]
      omega
    · omega

theorem pollFlush_returns (reliable : ∀ side, (io side).Reliable (pipe side) (pipe side.other)) (side : Side) (this : NoiseStream)
    (net : σ) : ∃ fuel answer, this.pollFlush (io side) fuel net = some answer := by
  refine (NoiseStream.pollFlush_returns_iff this).mpr fun state _ stalled => ?_
  have zero := stalled.2 0
  rcases (reliable side).write state.1 state.2 with ⟨waits, _⟩ | ⟨count, positive, _, taken, _⟩
  · cases waits.symm.trans zero
  · cases taken.symm.trans zero
    exact Nat.lt_irrefl _ positive

theorem pollRead_returns (snow : Snow) (io : AsyncIo σ) (this : NoiseStream) (net : σ) (room : Nat) :
    ∃ fuel answer, this.pollRead snow io fuel net room = some answer := by
  by_cases some : this.decryptedBuffer ≠ []
  · exact ⟨0, _, if_pos some⟩
  · obtain ⟨answer, returned⟩ := NoiseStream.readLoop_returns snow io this net room
    exact ⟨_, answer, (if_neg some).trans returned⟩

/-- Reads at one end, with any room, come to such a state. -/
inductive Polled (snow : Side → Snow) (io : Side → AsyncIo σ) (reader : Side) (goal : NoiseLink σ → Prop) : NoiseLink σ → Prop where
  | now {link : NoiseLink σ} (holds : goal link) : Polled snow io reader goal link
  | later {link : NoiseLink σ} (polls : ∀ room fuel answer next net, 0 < room →
      (link.stream reader).pollRead (snow reader) (io reader) fuel link.net room = some (answer, next, net) →
        Polled snow io reader goal (link.answered reader (.read room) (.read answer) next net)) : Polled snow io reader goal link

theorem Polled.mono {goal goal' : NoiseLink σ → Prop} (implies : ∀ later, goal later → goal' later)
    (polled : Polled snow io reader goal link) : Polled snow io reader goal' link := by
  induction polled with
  | now holds => exact .now (implies _ holds)
  | later _ ih => exact .later ih

/-- Over a connection that does not withhold bytes for ever, reads bring all that is flushed. Each of
them brings data, or takes bytes from the connection, or waits once more. -/
theorem polls_drain (reliable : ∀ side, (io side).Reliable (pipe side) (pipe side.other))
    (inverts : ∀ side, (snow side).Inverts (snow side.other))
    (delivers : WellFounded (NoiseStream.Withholds (io reader) (pipe reader.other))) (sound : link.Sound snow pipe) :
    Polled snow io reader (fun later => later.Sound snow pipe ∧ later.accepted reader.other = link.accepted reader.other ∧
      link.flushed reader.other ≤ (later.read reader).length) link := by
  generalize accepted : link.accepted reader.other = bytes
  generalize flushed : link.flushed reader.other = total
  induction missing : total - (link.read reader).length using Nat.strongRecOn generalizing link with
  | ind missing fewer =>
    induction held : (pipe reader.other link.net).length using Nat.strongRecOn generalizing link with
    | ind held shorter =>
      induction net : link.net using delivers.induction generalizing link with
      | h inner waited =>
        subst net
        by_cases all : total ≤ (link.read reader).length
        · exact .now ⟨sound, accepted, all⟩
        · refine .later fun room fuel answer next net positive polled => ?_
          have step : Step snow io pipe link (link.answered reader (.read room) (.read answer) next net) :=
            .call reader (.read room) fuel trivial (congrArg (Option.map _) polled)
          have sound' := step_sound reliable inverts sound step
          have accepted' : (link.answered reader (.read room) (.read answer) next net).accepted reader.other = bytes :=
            (Function.update_of_ne reader.other_ne _ _).trans accepted
          have flushed' : (link.answered reader (.read room) (.read answer) next net).flushed reader.other = total :=
            (Function.update_of_ne reader.other_ne _ _).trans flushed
          rcases read_answers reliable sound polled positive (flushed ▸ Nat.not_le.mp all) with
            ⟨bytes, some, rfl⟩ | ⟨rfl, state, brought, withheld⟩
          · have more := List.length_pos_iff.mpr some
            refine fewer _ ?_ sound' accepted' flushed' rfl
            simp only [answered, IoCall.bytes, Function.update_self, List.length_append]
            omega
          · have same : (link.answered reader (.read room) (.read .pending) next net).read reader = link.read reader := by
              simp [answered, IoCall.bytes]
            have left := (NoiseStream.withholds_keeps (reliable reader) withheld).symm
            rcases NoiseStream.brought_shorter (reliable reader) brought with rfl | less
            · exact waited net withheld sound' accepted' flushed' (by rw [same, missing]) (held ▸ congrArg List.length left.symm) rfl
            · exact shorter _ (by rw [← held]; exact left ▸ less) sound' accepted' flushed' (by rw [same, missing]) rfl

end Steps

/-- What is read is in order what the other end has accepted. A read with room brings what that end
has flushed, unless the connection withholds it, and over a connection that does not do so for ever,
reads bring all of it; so do, among any other steps, as many answered reads as there are bytes.
Reads and flushes return. -/
theorem noise_transparent {snow : Side → Snow} {io : Side → AsyncIo σ} {pipe : Side → σ → List UInt8} {net : σ} {link : NoiseLink σ}
    (reliable : ∀ side, (io side).Reliable (pipe side) (pipe side.other))
    (inverts : ∀ side, (snow side).Inverts (snow side.other)) (silent : ∀ side, pipe side net = [])
    (reached : Relation.ReflTransGen (Step snow io pipe) (start net) link) (reader : Side) :
    link.read reader <+: link.accepted reader.other ∧
    (∀ room, ∃ fuel answer next later,
      (link.stream reader).pollRead (snow reader) (io reader) fuel link.net room = some (answer, next, later) ∧
      (0 < room → (link.read reader).length < link.flushed reader.other →
        (∃ bytes, bytes ≠ [] ∧ answer = .ready (.ok bytes)) ∨ answer = .pending ∧ ∃ state,
          Relation.ReflTransGen (NoiseStream.Brings (io reader)) link.net state ∧
            NoiseStream.Withholds (io reader) (pipe reader.other) later state)) ∧
    (WellFounded (NoiseStream.Withholds (io reader) (pipe reader.other)) →
      Polled snow io reader (fun later => (link.accepted reader.other).take (link.flushed reader.other) <+: later.read reader) link) ∧
    (∃ fuel answer, (link.stream reader).pollFlush (io reader) fuel link.net = some answer) ∧
    ∀ count later, Reads snow io pipe reader count link later → link.flushed reader.other ≤ (link.read reader).length + count →
      (link.accepted reader.other).take (link.flushed reader.other) <+: later.read reader := by
  have sound := reached_sound reliable inverts silent reached
  have ordered {link : NoiseLink σ} (sound : link.Sound snow pipe) : link.read reader <+: link.accepted reader.other := by
    have order := (sound reader.other).read_ordered
    rwa [read_side] at order
  refine ⟨ordered sound, fun room => ?_, fun delivers => ?_, pollFlush_returns reliable reader _ _, fun count later reads enough => ?_⟩
  · obtain ⟨fuel, ⟨answer, next, later⟩, returned⟩ := pollRead_returns (snow reader) (io reader) (link.stream reader) link.net room
    exact ⟨fuel, answer, next, later, returned, read_answers reliable sound returned⟩
  · refine (polls_drain reliable inverts delivers sound).mono fun later drained => ?_
    obtain ⟨sound', same, enough⟩ := drained
    refine List.prefix_of_prefix_length_le (List.take_prefix _ _) (same ▸ ordered sound') ?_
    rw [List.length_take]
    omega
  · obtain ⟨sound', accepted, _, progress⟩ := reads_progress reliable inverts sound reads
    refine List.prefix_of_prefix_length_le ((List.take_prefix _ _).trans accepted) (ordered sound') ?_
    rw [List.length_take]
    omega

/-- A connection that holds the bytes on the way from each side. -/
def duplex (side : Side) : AsyncIo (Side → List UInt8) where
  pollRead pipes room :=
    if (pipes side.other).take room = [] then (.pending, pipes)
    else (.ready (.ok ((pipes side.other).take room)), Function.update pipes side.other ((pipes side.other).drop room))
  pollWrite pipes buf :=
    if buf = [] then (.pending, pipes)
    else (.ready (.ok buf.length), Function.update pipes side (pipes side ++ buf))
  pollFlush pipes := (.ready (.ok ()), pipes)
  pollShutdown pipes := (.ready (.ok ()), pipes)
  readFits := by
    intro pipes room bytes same
    split at same
    · cases same
    · cases same
      exact List.length_take_le _ _
  writeFits := by
    intro pipes buf count same
    split at same
    · cases same
    · cases same
      exact Nat.le_refl _

theorem duplex_reliable (side : Side) :
    (duplex side).Reliable (fun pipes => pipes side) (fun pipes => pipes side.other) where
  read := by
    intro pipes room
    by_cases empty : (pipes side.other).take room = []
    · simp [duplex, empty, -List.take_eq_nil_iff]
    · refine .inr ⟨_, empty, ?_, ?_⟩ <;> simp [duplex, empty, -List.take_eq_nil_iff]
  readKeeps := by
    intro pipes room
    have away : side ≠ side.other := side.other_ne.symm
    by_cases empty : (pipes side.other).take room = [] <;> simp [duplex, empty, Function.update_of_ne away, -List.take_eq_nil_iff]
  write := by
    intro pipes buf
    by_cases empty : buf = []
    · simp [duplex, empty]
    · refine .inr ⟨buf.length, List.length_pos_iff.mpr empty, Nat.le_refl _, ?_, ?_⟩ <;> simp [duplex, empty]
  writeKeeps := by
    intro pipes buf
    by_cases empty : buf = [] <;> simp [duplex, empty]
  flush := fun _ => .inr rfl
  flushKeeps := fun _ => ⟨rfl, rfl⟩

theorem plain_inverts : Snow.plain.Inverts .plain := by
  intro nonce payload _
  exact ⟨payload ++ List.replicate 16 0, rfl, by simp, by simp [Snow.plain]⟩

/-- The steps of two ends over a duplex connection. -/
abbrev DuplexStep : NoiseLink (Side → List UInt8) → NoiseLink (Side → List UInt8) → Prop :=
  Step (fun _ => .plain) duplex (fun side pipes => pipes side)

theorem duplex_delivers (side : Side) :
    WellFounded (NoiseStream.Withholds (duplex side) fun pipes => pipes side.other) := by
  refine ⟨fun pipes => .intro pipes fun later withheld => ?_⟩
  obtain ⟨bytes, waits⟩ := withheld
  have some : (pipes side.other).take 4096 ≠ [] := by simpa using bytes
  simp only [duplex, if_neg some] at waits
  cases waits

/-- After a write and a flush at one end, a read at the other one is answered with as much as it has
room for, and reads bring all of the data, be it three answered ones among other steps. -/
theorem noise_transparent_duplex : ∃ link : NoiseLink (Side → List UInt8), Relation.ReflTransGen DuplexStep (start fun _ => []) link ∧
    link.flushed .a = 3 ∧ link.read .b <+: [1, 2, 3] ∧
    (∃ next net, (link.stream .b).pollRead .plain (duplex .b) 2 link.net 2 = some (.ready (.ok [1, 2]), next, net)) ∧
    Polled (fun _ => .plain) duplex .b (fun later => [1, 2, 3] <+: later.read .b) link ∧ ∀ count later,
      Reads (fun _ => .plain) duplex (fun side pipes => pipes side) .b count link later → 3 ≤ count → [1, 2, 3] <+: later.read .b := by
  have write : DuplexStep (start fun _ => []) _ := .call .a (.write [1, 2, 3]) 0 (List.cons_ne_nil _ _) rfl
  have path := (Relation.ReflTransGen.single write).tail (.call .a .flush 1 trivial rfl)
  have result := noise_transparent duplex_reliable (fun _ => plain_inverts) (fun _ => rfl) path .b
  refine ⟨_, path, rfl, result.1, ⟨_, _, rfl⟩, result.2.2.1 (duplex_delivers .b), fun count later reads enough => ?_⟩
  exact result.2.2.2.2 count later reads (enough.trans (Nat.zero_add count).ge)

end NoiseLink

end Veloce
