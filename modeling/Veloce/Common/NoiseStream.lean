import Veloce.Collections.AsyncIo
import Veloce.Collections.Frames

/-! The encrypted stream between the components. Every packet is a length in two bytes and a
message of the Noise protocol; packets and reads of the inner stream need not match. -/

namespace Veloce

open Collections

def maxNoiseMessageLen : Nat := 65535

def lengthFieldSize : Nat := 2

/-- What snow does with the n-th message of a direction, as a result or the text of an error. -/
structure Snow where
  writeMessage : (nonce : Nat) → (payload : List UInt8) → Except String (List UInt8)
  readMessage : (nonce : Nat) → (message : List UInt8) → Except String (List UInt8)

/-- A cipher that adds a tag of zeros and hides nothing. -/
def Snow.plain : Snow where
  writeMessage _ payload := .ok (payload ++ List.replicate 16 0)
  readMessage _ message := if 16 ≤ message.length then .ok (message.take (message.length - 16)) else .error "decrypt error"

/-- `sent` and `received` are the nonces of the transport state. The length of a packet has two
bytes, and so has what is expected ahead of it. -/
structure NoiseStream where
  sent : Nat := 0
  received : Nat := 0
  readBuffer : List UInt8 := []
  decryptedBuffer : List UInt8 := []
  readingLength : Bool := true
  expectedLen : Nat := lengthFieldSize
  outputBuffer : List UInt8 := []
  expectsLength : readingLength = true → expectedLen = lengthFieldSize := by intro _; rfl
  lengthFits : expectedLen < 2 ^ 16 := by decide

namespace NoiseStream

variable {σ : Type} (snow : Snow) (io : AsyncIo σ)

def takeDecrypted (this : NoiseStream) (room : Nat) : List UInt8 × NoiseStream :=
  (this.decryptedBuffer.take room, { this with decryptedBuffer := this.decryptedBuffer.drop room })

/-- Read from the inner stream if the next part of a packet is not there yet. A result ends the
poll. -/
def fill (this : NoiseStream) (inner : σ) : Option (IoResult (List UInt8)) × NoiseStream × σ :=
  if this.readBuffer.length < this.expectedLen then
    match io.pollRead inner 4096 with
    | (.ready (.ok filled), inner) =>
      if filled = [] then
        if this.readBuffer = [] then (some (.ready (.ok [])), this, inner)
        else (some (.ready (.error ⟨.unexpectedEof, "Incomplete Noise packet"⟩)), this, inner)
      else (none, { this with readBuffer := this.readBuffer ++ filled }, inner)
    | (.ready (.error error), inner) => (some (.ready (.error error)), this, inner)
    | (.pending, inner) => (some .pending, this, inner)
  else (none, this, inner)

theorem length_fits (buffer : List UInt8) : fromBeBytes (buffer.take lengthFieldSize) < 2 ^ 16 := by
  refine (fromBeBytes_lt _).trans_le ?_
  rw [show 2 ^ 16 = 256 ^ lengthFieldSize from rfl]
  exact Nat.pow_le_pow_right (by decide) (List.length_take_le _ _)

/-- Go on to the body after a whole length. -/
def readLength (this : NoiseStream) : NoiseStream :=
  if lengthFieldSize ≤ this.readBuffer.length then
    { this with
      expectedLen := fromBeBytes (this.readBuffer.take lengthFieldSize)
      readBuffer := this.readBuffer.drop lengthFieldSize
      readingLength := false
      expectsLength := nofun
      lengthFits := length_fits _ }
  else this

theorem expectsLength_first : true = true → lengthFieldSize = lengthFieldSize := fun _ => rfl

theorem lengthFieldSize_fits : lengthFieldSize < 2 ^ 16 := by decide

def decrypt (this : NoiseStream) (room : Nat) : IoResult (List UInt8) × NoiseStream :=
  let chunk := this.readBuffer.take this.expectedLen
  let next : NoiseStream := { this with
    readBuffer := this.readBuffer.drop this.expectedLen
    readingLength := true
    expectedLen := lengthFieldSize
    expectsLength := fun _ => rfl
    lengthFits := by decide }
  match snow.readMessage this.received chunk with
  | .ok plaintext =>
    let (bytes, next) := takeDecrypted
      { next with received := this.received + 1, decryptedBuffer := this.decryptedBuffer ++ plaintext } room
    (.ready (.ok bytes), next)
  | .error error => (.ready (.error ⟨.invalidData, s!"Noise decryption error: {error}"⟩), next)

/-- The loop of `poll_read`; `none` if it is still going round. -/
def readLoop : (fuel : Nat) → NoiseStream → σ → (room : Nat) → Option (IoResult (List UInt8) × NoiseStream × σ)
  | 0, _, _, _ => none
  | fuel + 1, this, inner, room =>
    match fill io this inner with
    | (some result, this, inner) => some (result, this, inner)
    | (none, this, inner) =>
      if this.readingLength then readLoop fuel this.readLength inner room
      else if this.expectedLen ≤ this.readBuffer.length then
        let (result, this) := this.decrypt snow room
        some (result, this, inner)
      else readLoop fuel this inner room

def pollRead (fuel : Nat) (this : NoiseStream) (inner : σ) (room : Nat) :
    Option (IoResult (List UInt8) × NoiseStream × σ) :=
  if this.decryptedBuffer ≠ [] then
    let (bytes, this) := this.takeDecrypted room
    some (.ready (.ok bytes), this, inner)
  else readLoop snow io fuel this inner room

/-- A call of the inner stream with what is to be sent; `none` if the poll goes on. -/
def writeOut {α : Type} (this : NoiseStream) (inner : σ) : Option (IoResult α) × NoiseStream × σ :=
  match io.pollWrite inner this.outputBuffer with
  | (.ready (.ok written), inner) => (none, { this with outputBuffer := this.outputBuffer.drop written }, inner)
  | (.ready (.error error), inner) => (some (.ready (.error error)), this, inner)
  | (.pending, inner) => (some .pending, this, inner)

/-- Encrypt what fits into one message, and try to send it. Data that waits is accepted. -/
def encrypt (this : NoiseStream) (inner : σ) (buf : List UInt8) : IoResult Nat × NoiseStream × σ :=
  let len := min buf.length (maxNoiseMessageLen - 16)
  match snow.writeMessage this.sent (buf.take len) with
  | .error error => (.ready (.error ⟨.invalidData, s!"Noise encryption error: {error}"⟩), this, inner)
  | .ok ciphertext =>
    let next : NoiseStream := { this with
      sent := this.sent + 1
      outputBuffer := this.outputBuffer ++ (toBeBytes lengthFieldSize ciphertext.length ++ ciphertext) }
    match writeOut io next inner with
    | (some .pending, this, inner) => (.ready (.ok len), this, inner)
    | (some result, this, inner) => (result, this, inner)
    | (none, this, inner) => (.ready (.ok len), this, inner)

def pollWrite (this : NoiseStream) (inner : σ) (buf : List UInt8) : IoResult Nat × NoiseStream × σ :=
  if this.outputBuffer ≠ [] then
    match writeOut io this inner with
    | (some result, this, inner) => (result, this, inner)
    | (none, this, inner) =>
      if this.outputBuffer = [] then encrypt snow io this inner buf
      else (.pending, this, inner)
  else encrypt snow io this inner buf

/-- Send all of the output buffer; `none` if the loop is still going round. -/
def pollFlush : (fuel : Nat) → NoiseStream → σ → Option (IoResult Unit × NoiseStream × σ)
  | 0, _, _ => none
  | fuel + 1, this, inner =>
    if this.outputBuffer ≠ [] then
      match writeOut io this inner with
      | (some result, this, inner) => some (result, this, inner)
      | (none, this, inner) => pollFlush fuel this inner
    else
      let (result, inner) := io.pollFlush inner
      some (result, this, inner)

def pollShutdown (fuel : Nat) (this : NoiseStream) (inner : σ) : Option (IoResult Unit × NoiseStream × σ) :=
  if this.outputBuffer ≠ [] then
    (pollFlush io fuel this inner).map fun
      | (.ready (.ok ()), this, inner) =>
        let (result, inner) := io.pollShutdown inner
        (result, this, inner)
      | (result, this, inner) => (result, this, inner)
  else
    let (result, inner) := io.pollShutdown inner
    some (result, this, inner)

end NoiseStream

inductive NoiseCall where
  | read (room : Nat)
  | write (buf : List UInt8)
  | flush
  | shutdown

/-- A call of the stream with its answer; `none` if it has not returned yet. -/
def NoiseCall.poll {σ : Type} (snow : Snow) (io : AsyncIo σ) (fuel : Nat) (this : NoiseStream) (inner : σ) :
    NoiseCall → Option (IoCall × NoiseStream × σ)
  | .read room => (this.pollRead snow io fuel inner room).map fun (answer, next) => (.read answer, next)
  | .write buf =>
    let (answer, next) := this.pollWrite snow io inner buf
    some (.write answer, next)
  | .flush => (this.pollFlush io fuel inner).map fun (answer, next) => (.flush answer, next)
  | .shutdown => (this.pollShutdown io fuel inner).map fun (answer, next) => (.shutdown answer, next)

namespace NoiseStream

section Loops

variable {σ : Type} {snow : Snow} {io : AsyncIo σ} {this : NoiseStream} {inner inner' : σ} {room fuel : Nat}

theorem fill_full (full : this.expectedLen ≤ this.readBuffer.length) : this.fill io inner = (none, this, inner) :=
  if_neg (Nat.not_lt.mpr full)

theorem fill_pending (short : this.readBuffer.length < this.expectedLen) (answer : io.pollRead inner 4096 = (.pending, inner')) :
    this.fill io inner = (some .pending, this, inner') := by
  rw [fill, if_pos short, answer]

theorem fill_error {error : IoError} (short : this.readBuffer.length < this.expectedLen)
    (answer : io.pollRead inner 4096 = (.ready (.error error), inner')) :
    this.fill io inner = (some (.ready (.error error)), this, inner') := by
  rw [fill, if_pos short, answer]

theorem fill_end (short : this.readBuffer.length < this.expectedLen)
    (answer : io.pollRead inner 4096 = (.ready (.ok []), inner')) :
    this.fill io inner = (some (if this.readBuffer = [] then .ready (.ok [])
      else .ready (.error ⟨.unexpectedEof, "Incomplete Noise packet"⟩)), this, inner') := by
  rw [fill, if_pos short, answer]
  simp only [if_true]
  split <;> rfl

theorem fill_more {filled : List UInt8} (short : this.readBuffer.length < this.expectedLen) (some : filled ≠ [])
    (answer : io.pollRead inner 4096 = (.ready (.ok filled), inner')) :
    this.fill io inner = (none, { this with readBuffer := this.readBuffer ++ filled }, inner') := by
  rw [fill, if_pos short, answer]
  simp only [if_neg some]

/-- Either the poll is over, or the buffer holds what was expected or more than before. -/
theorem fill_cases (io : AsyncIo σ) (this : NoiseStream) (inner : σ) :
    (∃ result inner', this.fill io inner = (some result, this, inner')) ∨
      ∃ filled inner', this.fill io inner = (none, { this with readBuffer := this.readBuffer ++ filled }, inner') ∧
        (this.readBuffer.length < this.expectedLen → filled ≠ []) := by
  by_cases short : this.readBuffer.length < this.expectedLen
  · cases answer : io.pollRead inner 4096 with
    | mk result inner' =>
      match result with
      | .pending => exact .inl ⟨_, _, fill_pending short answer⟩
      | .ready (.error error) => exact .inl ⟨_, _, fill_error short answer⟩
      | .ready (.ok []) => exact .inl ⟨_, _, fill_end short answer⟩
      | .ready (.ok (byte :: rest)) =>
        exact .inr ⟨byte :: rest, inner', fill_more short (List.cons_ne_nil _ _) answer, fun _ => List.cons_ne_nil _ _⟩
  · refine .inr ⟨[], inner, ?_, fun absurd => (short absurd).elim⟩
    rw [fill_full (Nat.not_lt.mp short), List.append_nil]

variable {next : NoiseStream}

theorem readLoop_result {result : IoResult (List UInt8)} (filled : this.fill io inner = (some result, next, inner')) :
    readLoop snow io (fuel + 1) this inner room = some (result, next, inner') := by
  rw [readLoop, filled]

theorem readLoop_length (filled : this.fill io inner = (none, next, inner')) (length : next.readingLength = true) :
    readLoop snow io (fuel + 1) this inner room = readLoop snow io fuel next.readLength inner' room := by
  rw [readLoop, filled]
  simp only [if_pos length]

theorem readLoop_decrypt (filled : this.fill io inner = (none, next, inner')) (body : next.readingLength = false)
    (whole : next.expectedLen ≤ next.readBuffer.length) :
    readLoop snow io (fuel + 1) this inner room =
      some ((next.decrypt snow room).1, (next.decrypt snow room).2, inner') := by
  rw [readLoop, filled]
  simp only [body, Bool.false_eq_true, if_false, if_pos whole]

theorem readLoop_body (filled : this.fill io inner = (none, next, inner')) (body : next.readingLength = false)
    (part : next.readBuffer.length < next.expectedLen) :
    readLoop snow io (fuel + 1) this inner room = readLoop snow io fuel next inner' room := by
  rw [readLoop, filled]
  simp only [body, Bool.false_eq_true, if_false, if_neg (Nat.not_le.mpr part)]

/-- The rounds that are left at most: every one brings a byte, or the length of a body. -/
def rounds (this : NoiseStream) : Nat :=
  if this.readingLength then 65536 + (lengthFieldSize - this.readBuffer.length)
  else this.expectedLen - this.readBuffer.length

theorem readLoop_returns_of_lt (snow : Snow) (io : AsyncIo σ) (room : Nat) : ∀ {fuel : Nat} {this : NoiseStream} {inner : σ},
    this.rounds < fuel → ∃ answer, readLoop snow io fuel this inner room = some answer := by
  intro fuel
  induction fuel with
  | zero => exact fun bound => absurd bound (Nat.not_lt_zero _)
  | succ fuel ih =>
    intro this inner bound
    rcases fill_cases io this inner with ⟨result, inner', filled⟩ | ⟨filled, inner', continues, more⟩
    · exact ⟨_, readLoop_result filled⟩
    · cases stage : this.readingLength with
      | true =>
        rw [readLoop_length continues stage]
        have two := this.expectsLength stage
        have bytes := length_fits (this.readBuffer ++ filled)
        have grown (short : this.readBuffer.length < lengthFieldSize) : 0 < filled.length :=
          List.length_pos_iff.mpr (more (two ▸ short))
        refine ih ?_
        simp only [rounds, stage, if_true] at bound
        unfold readLength
        split
        · rename_i whole
          simp only [rounds, Bool.false_eq_true, if_false]
          omega
        · rename_i part
          simp only [lengthFieldSize, List.length_append] at grown bound part ⊢
          have shorter : this.readBuffer.length < 2 := by omega
          have positive := grown shorter
          simp only [rounds, stage, if_true, lengthFieldSize, List.length_append]
          omega
      | false =>
        by_cases whole : this.expectedLen ≤ (this.readBuffer ++ filled).length
        · exact ⟨_, readLoop_decrypt continues stage whole⟩
        · rw [readLoop_body continues stage (Nat.not_le.mp whole)]
          refine ih ?_
          simp only [rounds, stage, Bool.false_eq_true, if_false, List.length_append] at bound whole ⊢
          have positive : 0 < filled.length := List.length_pos_iff.mpr (more (by omega))
          omega

theorem readLoop_returns (snow : Snow) (io : AsyncIo σ) (this : NoiseStream) (inner : σ) (room : Nat) :
    ∃ answer, readLoop snow io (this.rounds + 1) this inner room = some answer :=
  readLoop_returns_of_lt snow io room (Nat.lt_succ_self _)

end Loops

end NoiseStream

end Veloce
