import Mathlib.Data.List.Basic

/-! Byte streams that are polled. A stream is known by how it answers, over the state of
whatever is behind it; its answers can be logged. -/

namespace Collections

inductive Poll (α : Type) where
  | ready (value : α)
  | pending
deriving DecidableEq

inductive IoErrorKind where
  | unexpectedEof
  | invalidData
  | other
deriving DecidableEq

structure IoError where
  kind : IoErrorKind
  text : String
deriving DecidableEq

abbrev IoResult (α : Type) := Poll (Except IoError α)

/-- What AsyncRead and AsyncWrite allow. A read of no bytes is the end of the stream. -/
structure AsyncIo (σ : Type) where
  pollRead : σ → (room : Nat) → IoResult (List UInt8) × σ
  pollWrite : σ → (buf : List UInt8) → IoResult Nat × σ
  pollFlush : σ → IoResult Unit × σ
  pollShutdown : σ → IoResult Unit × σ
  readFits : ∀ {inner room bytes}, (pollRead inner room).1 = .ready (.ok bytes) → bytes.length ≤ room
  writeFits : ∀ {inner buf count}, (pollWrite inner buf).1 = .ready (.ok count) → count ≤ buf.length

inductive IoCall where
  | read (answer : IoResult (List UInt8))
  | write (answer : IoResult Nat)
  | flush (answer : IoResult Unit)
  | shutdown (answer : IoResult Unit)

namespace IoCall

def isPending : IoCall → Bool
  | .read .pending | .write .pending | .flush .pending | .shutdown .pending => true
  | _ => false

def bytes : IoCall → List UInt8
  | .read (.ready (.ok bytes)) => bytes
  | _ => []

def ends : IoCall → Bool
  | .read (.ready (.ok bytes)) => bytes.isEmpty
  | _ => false

end IoCall

variable {σ : Type}

def AsyncIo.logged (io : AsyncIo σ) : AsyncIo (σ × List IoCall) where
  pollRead inner room :=
    let (answer, next) := io.pollRead inner.1 room
    (answer, next, inner.2 ++ [.read answer])
  pollWrite inner buf :=
    let (answer, next) := io.pollWrite inner.1 buf
    (answer, next, inner.2 ++ [.write answer])
  pollFlush inner :=
    let (answer, next) := io.pollFlush inner.1
    (answer, next, inner.2 ++ [.flush answer])
  pollShutdown inner :=
    let (answer, next) := io.pollShutdown inner.1
    (answer, next, inner.2 ++ [.shutdown answer])
  readFits := io.readFits
  writeFits := io.writeFits

/-- One end of a reliable connection: it reads the bytes of `incoming` in their order and adds
bytes to `outgoing`, any positive number at a time, or has the caller wait. -/
structure AsyncIo.Reliable (io : AsyncIo σ) (outgoing incoming : σ → List UInt8) : Prop where
  read : ∀ inner room,
    (io.pollRead inner room).1 = .pending ∧ incoming (io.pollRead inner room).2 = incoming inner ∨
      ∃ bytes, bytes ≠ [] ∧ (io.pollRead inner room).1 = .ready (.ok bytes) ∧
        incoming inner = bytes ++ incoming (io.pollRead inner room).2
  readKeeps : ∀ inner room, outgoing (io.pollRead inner room).2 = outgoing inner
  write : ∀ inner buf,
    (io.pollWrite inner buf).1 = .pending ∧ outgoing (io.pollWrite inner buf).2 = outgoing inner ∨
      ∃ count, 0 < count ∧ count ≤ buf.length ∧ (io.pollWrite inner buf).1 = .ready (.ok count) ∧
        outgoing (io.pollWrite inner buf).2 = outgoing inner ++ buf.take count
  writeKeeps : ∀ inner buf, incoming (io.pollWrite inner buf).2 = incoming inner
  flush : ∀ inner, (io.pollFlush inner).1 = .pending ∨ (io.pollFlush inner).1 = .ready (.ok ())
  flushKeeps : ∀ inner, outgoing (io.pollFlush inner).2 = outgoing inner ∧ incoming (io.pollFlush inner).2 = incoming inner

end Collections
