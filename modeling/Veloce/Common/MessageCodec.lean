import Mathlib.Data.List.Induction
import Veloce.Collections.LengthDelimited

/-! Messages on the wire. The codec puts every message into a length-delimited frame; bincode
writes the number of its variant and then its fields. One frame of an old client is known by
its bytes. -/

namespace Veloce

open Collections

/-- The variants of `Message` in their order, which is their number in bincode. -/
inductive MessageVariant where
  | helloWorker | helloClient | helloPeer | helloFederationPeer | heartbeat | workerDraining | jobStarted
  | jobInteractivePort | jobOutput | jobDone | jobError | jobKilled | logData | jobOutputFiles
  | jobOutputFileChunk | reportJobUsage | reportMetrics | pulse | logStream | stepStarted | stepDone
  | stepError | stepOutput | stepPMIPut | stepPMIGet | stepPMIBarrierEnter | runJob | terminateJob
  | preemptJob | getLogs | listJobOutputFiles | getJobOutputFileChunk | runStep | stepPMIGetResponse
  | stepPMIBarrierRelease | setPulseInterval | peerAction | leaderRedirect | submitDag | submit | listWorkers
  | listJobs | cancelJob | restart | getJobHistory | getMetrics | submitStep | getComponentLogs
  | getSystemLogs | getEfficiencyStats | getJobEvents | getJobSteps | stageProject | efficiencyStats
  | jobEvents | stagingStarted | componentLogs | systemLogs | jobSummary | jobId | arrayJobSubmitted
  | dagSubmitted | workerList | jobList | federationGetCluster | federationCluster | federationGetCapacity
  | federationCapacity | federationListJobs | federationJobList | federationGetJob | federationJob
  | federationListTemplates | federationTemplateList | federationSubmitJob | federationJobSubmitted
  | federationCancelJob | federationJobCanceled | federationGetLogs | federationLogData
  | federationListOutputs | federationOutputList | federationGetOutputContent | federationOutputContent
  | federationListSteps | federationStepList | federationSubmitStep | federationStepSubmitted
  | federationError | jobHistoryResponse | metricsData | jobSteps | stepId | createReservation
  | listReservations | deleteReservation | reservationCreated | reservationList | startTerminalSession
  | stopTerminalSession | terminalInput | terminalOutput | terminalResize | terminalClosed | startVncSession
  | stopVncSession | vncInput | vncOutput | vncClosed | ack | error
deriving DecidableEq

/-- The fields of all messages but HelloClient are left open. -/
inductive WireMessage (Fields : MessageVariant → Type) where
  | helloClient (clientId : String) (registrationToken : Option String)
  | other (variant : MessageVariant) (apart : variant ≠ .helloClient) (fields : Fields variant)

variable {Fields : MessageVariant → Type}

def WireMessage.variant : WireMessage Fields → MessageVariant
  | .helloClient _ _ => .helloClient
  | .other variant _ _ => variant

def bincodeString (text : String) : List UInt8 := toLeBytes 8 text.utf8ByteSize ++ text.toUTF8.toList

/-- A byte tells whether there is a value. -/
def bincodeOption {α : Type} (encode : α → List UInt8) : Option α → List UInt8
  | none => [0]
  | some value => 1 :: encode value

/-- What is known of bincode: the fields of a message as bytes, and the way back. -/
structure MessageBincode (Fields : MessageVariant → Type) where
  fieldBytes : (variant : MessageVariant) → Fields variant → List UInt8
  deserialize : List UInt8 → Option (WireMessage Fields)

namespace MessageBincode

variable (bincode : MessageBincode Fields)

def serializeFields : WireMessage Fields → List UInt8
  | .helloClient clientId registrationToken => bincodeString clientId ++ bincodeOption bincodeString registrationToken
  | .other variant _ fields => bincode.fieldBytes variant fields

def serialize (msg : WireMessage Fields) : List UInt8 := toLeBytes 4 msg.variant.ctorIdx ++ bincode.serializeFields msg

end MessageBincode

/-- Eight MiB, the limit of LengthDelimitedCodec. -/
def maxFrameLength : Nat := 8 * 1024 * 1024

/-- The decoder is between two frames at first. -/
structure MessageCodec where
  frameCodec : LengthDelimited.DecodeState maxFrameLength := .head

namespace MessageCodec

variable (bincode : MessageBincode Fields)

def encode (item : WireMessage Fields) (dst : List UInt8) : Except String (List UInt8) :=
  LengthDelimited.encode maxFrameLength (bincode.serialize item) dst

def encodeAll : List (WireMessage Fields) → List UInt8 → Except String (List UInt8)
  | [], dst => .ok dst
  | item :: rest, dst => encode bincode item dst >>= encodeAll rest

def decode (codec : MessageCodec) (src : List UInt8) :
    Except String (Option (WireMessage Fields)) × MessageCodec × List UInt8 :=
  match LengthDelimited.decode codec.frameCodec src with
  | (.ok (some frame), state, rest) =>
    if frame.length = 4 ∧ frame = [1, 0, 0, 0] then (.ok (some (.helloClient "legacy_client" none)), ⟨state⟩, rest)
    else
      match bincode.deserialize frame with
      | some msg => (.ok (some msg), ⟨state⟩, rest)
      | none => (.error "invalid data", ⟨state⟩, rest)
  | (.ok none, state, rest) => (.ok none, ⟨state⟩, rest)
  | (.error error, state, rest) => (.error error, ⟨state⟩, rest)

end MessageCodec

/-- Bytes come in, or the decoder is called. -/
inductive ReadStep where
  | feed (chunk : List UInt8)
  | decode

def fedBytes (steps : List ReadStep) : List UInt8 :=
  steps.flatMap fun
    | .feed chunk => chunk
    | .decode => []

/-- A codec over its buffer, with what its calls have returned. -/
structure MessageReader (Fields : MessageVariant → Type) where
  codec : MessageCodec := {}
  src : List UInt8 := []
  received : List (WireMessage Fields) := []
  errors : List String := []

namespace MessageReader

variable (bincode : MessageBincode Fields)

def step (reader : MessageReader Fields) : ReadStep → MessageReader Fields
  | .feed chunk => { reader with src := reader.src ++ chunk }
  | .decode =>
    match reader.codec.decode bincode reader.src with
    | (.ok (some msg), codec, src) => { reader with codec, src, received := reader.received ++ [msg] }
    | (.ok none, codec, src) => { reader with codec, src }
    | (.error error, codec, src) => { reader with codec, src, errors := reader.errors ++ [error] }

def run (steps : List ReadStep) : MessageReader Fields := steps.foldl (step bincode) {}

end MessageReader

def messageFrames (bincode : MessageBincode Fields) (msgs : List (WireMessage Fields)) : List UInt8 :=
  msgs.flatMap fun msg => LengthDelimited.frame (bincode.serialize msg)

/-- The next message after the received ones is there as a whole. -/
def Buffered (bincode : MessageBincode Fields) (msgs received : List (WireMessage Fields)) (fed : List UInt8)
    (msg : WireMessage Fields) : Prop :=
  received ++ [msg] <+: msgs ∧ messageFrames bincode (received ++ [msg]) <+: fed

/-- The reader has returned the first messages, and it has not read what follows their frames. -/
structure Tracks (bincode : MessageBincode Fields) (msgs : List (WireMessage Fields)) (fed : List UInt8)
    (reader : MessageReader Fields) : Prop where
  received : reader.received <+: msgs
  unread : messageFrames bincode reader.received ++ LengthDelimited.unread reader.codec.frameCodec reader.src = fed
  errors : reader.errors = []

section RoundTrip

variable {bincode : MessageBincode Fields} {msgs : List (WireMessage Fields)} {msg : WireMessage Fields}

theorem ctorIdx_helloClient {variant : MessageVariant} (same : variant.ctorIdx = 1) : variant = .helloClient := by
  cases variant <;> first | rfl | cases same

theorem serialize_ne_legacy (bincode : MessageBincode Fields) (msg : WireMessage Fields) :
    bincode.serialize msg ≠ [1, 0, 0, 0] := by
  intro same
  have start : toLeBytes 4 msg.variant.ctorIdx = [1, 0, 0, 0] ∧ bincode.serializeFields msg = [] := by
    have whole : toLeBytes 4 msg.variant.ctorIdx ++ bincode.serializeFields msg = [1, 0, 0, 0] ++ [] := same
    exact List.append_inj whole (length_toLeBytes 4 _)
  have small : msg.variant.ctorIdx < 256 ^ 4 := by
    cases msg.variant <;> decide
  have index : msg.variant.ctorIdx = 1 := by
    rw [← fromLeBytes_toLeBytes small, start.1]
    rfl
  cases msg with
  | helloClient clientId registrationToken =>
    have lengths := congrArg List.length start.2
    simp [MessageBincode.serializeFields, bincodeString] at lengths
  | other variant apart fields => exact apart (ctorIdx_helloClient index)

theorem messageFrames_append (bincode : MessageBincode Fields) (msgs msgs' : List (WireMessage Fields)) :
    messageFrames bincode (msgs ++ msgs') = messageFrames bincode msgs ++ messageFrames bincode msgs' :=
  List.flatMap_append

theorem messageFrames_singleton (bincode : MessageBincode Fields) (msg : WireMessage Fields) :
    messageFrames bincode [msg] = LengthDelimited.frame (bincode.serialize msg) :=
  List.flatMap_singleton _ _

theorem encodeAll_eq (fit : ∀ msg ∈ msgs, (bincode.serialize msg).length ≤ maxFrameLength) (dst : List UInt8) :
    MessageCodec.encodeAll bincode msgs dst = .ok (dst ++ messageFrames bincode msgs) := by
  induction msgs generalizing dst with
  | nil => rw [MessageCodec.encodeAll, messageFrames, List.flatMap_nil, List.append_nil]
  | cons msg rest ih =>
    have first : MessageCodec.encode bincode msg dst = .ok (dst ++ LengthDelimited.frame (bincode.serialize msg)) :=
      if_neg (Nat.not_lt.mpr (fit msg List.mem_cons_self))
    rw [MessageCodec.encodeAll, first]
    change MessageCodec.encodeAll bincode rest _ = _
    rw [ih fun other member => fit other (List.mem_cons_of_mem _ member), messageFrames, messageFrames, List.flatMap_cons,
      List.append_assoc]

theorem maxFrameLength_small : maxFrameLength < 256 ^ 4 := by decide

/-- A whole frame gives its message: none is mistaken for the frame of an old client. -/
theorem decode_message {codec : MessageCodec} {src more : List UInt8}
    (inverts : bincode.deserialize (bincode.serialize msg) = some msg)
    (fits : (bincode.serialize msg).length ≤ maxFrameLength)
    (whole : LengthDelimited.unread codec.frameCodec src = LengthDelimited.frame (bincode.serialize msg) ++ more) :
    codec.decode bincode src = (.ok (some msg), ⟨.head⟩, more) := by
  have modern : ¬ ((bincode.serialize msg).length = 4 ∧ bincode.serialize msg = [1, 0, 0, 0]) :=
    fun legacy => serialize_ne_legacy bincode msg legacy.2
  rw [MessageCodec.decode, LengthDelimited.decode_whole maxFrameLength_small fits whole]
  simp only [if_neg modern, inverts]

theorem decode_nothing (bincode : MessageBincode Fields) {codec : MessageCodec} {src : List UInt8} (missing payload : List UInt8)
    (fits : payload.length ≤ maxFrameLength)
    (part : LengthDelimited.unread codec.frameCodec src ++ missing = LengthDelimited.frame payload) (short : missing ≠ []) :
    ∃ codec' src', codec.decode bincode src = (.ok none, codec', src') ∧
      LengthDelimited.unread codec'.frameCodec src' = LengthDelimited.unread codec.frameCodec src := by
  obtain ⟨state, src', decoded, kept⟩ := LengthDelimited.decode_part maxFrameLength_small fits part short
  refine ⟨⟨state⟩, src', ?_, kept⟩
  rw [MessageCodec.decode, decoded]

variable {fed : List UInt8} {reader : MessageReader Fields}

theorem Tracks.decode (tracks : Tracks bincode msgs fed reader) (sent : fed <+: messageFrames bincode msgs)
    (inverts : ∀ msg ∈ msgs, bincode.deserialize (bincode.serialize msg) = some msg)
    (fit : ∀ msg ∈ msgs, (bincode.serialize msg).length ≤ maxFrameLength) :
    (∃ msg codec src, Buffered bincode msgs reader.received fed msg ∧
        reader.codec.decode bincode reader.src = (.ok (some msg), codec, src) ∧
        messageFrames bincode (reader.received ++ [msg]) ++ LengthDelimited.unread codec.frameCodec src = fed) ∨
      ∃ codec src, (∀ msg, ¬ Buffered bincode msgs reader.received fed msg) ∧
        reader.codec.decode bincode reader.src = (.ok none, codec, src) ∧
        LengthDelimited.unread codec.frameCodec src = LengthDelimited.unread reader.codec.frameCodec reader.src := by
  obtain ⟨rest, split⟩ := tracks.received
  have behind : LengthDelimited.unread reader.codec.frameCodec reader.src <+: messageFrames bincode rest := by
    rw [← tracks.unread, ← split, messageFrames_append] at sent
    exact (List.prefix_append_right_inj _).mp sent
  cases rest with
  | nil =>
    have empty : LengthDelimited.unread reader.codec.frameCodec reader.src = [] := List.prefix_nil.mp behind
    obtain ⟨codec, src, decoded, kept⟩ := decode_nothing bincode
      (LengthDelimited.frame []) [] (Nat.zero_le _) ((congrArg (· ++ _) empty).trans (List.nil_append _)) (by decide)
    refine .inr ⟨codec, src, fun msg buffered => ?_, decoded, kept⟩
    have lengths := buffered.1.length_le
    rw [← split] at lengths
    simp at lengths
  | cons msg others =>
    have member : msg ∈ msgs := split ▸ List.mem_append_right _ List.mem_cons_self
    have following : reader.received ++ [msg] <+: msgs := ⟨others, by rw [← split, List.append_assoc]; rfl⟩
    have whole {more : List UInt8} (starts : LengthDelimited.unread reader.codec.frameCodec reader.src =
        LengthDelimited.frame (bincode.serialize msg) ++ more) :
        ∃ msg codec src, Buffered bincode msgs reader.received fed msg ∧
          reader.codec.decode bincode reader.src = (.ok (some msg), codec, src) ∧
          messageFrames bincode (reader.received ++ [msg]) ++ LengthDelimited.unread codec.frameCodec src = fed := by
      have parts : messageFrames bincode (reader.received ++ [msg]) ++ more = fed := by
        rw [messageFrames_append, messageFrames_singleton, List.append_assoc, ← starts, tracks.unread]
      exact ⟨msg, ⟨.head⟩, more, ⟨following, more, parts⟩, decode_message (inverts msg member) (fit msg member) starts, parts⟩
    have start : LengthDelimited.frame (bincode.serialize msg) <+: messageFrames bincode (msg :: others) :=
      List.prefix_append _ _
    rcases List.prefix_or_prefix_of_prefix behind start with ⟨missing, part⟩ | ⟨more, starts⟩
    · by_cases complete : missing = []
      · rw [complete, List.append_nil] at part
        exact .inl (whole (part.trans (List.append_nil _).symm))
      · obtain ⟨codec, src, decoded, kept⟩ := decode_nothing bincode missing _ (fit msg member) part complete
        refine .inr ⟨codec, src, fun msg' buffered => ?_, decoded, kept⟩
        have same : msg' = msg := by
          have equal := List.prefix_of_prefix_length_le buffered.1 following (by simp)
          simpa using equal
        have inside := buffered.2
        rw [same, messageFrames_append, messageFrames_singleton, ← tracks.unread, List.prefix_append_right_inj] at inside
        have lengths := congrArg List.length part
        have bound := inside.length_le
        have positive := List.length_pos_iff.mpr complete
        rw [List.length_append] at lengths
        omega
    · exact .inl (whole starts.symm)

/-- What came in so far follows the messages. -/
theorem tracks_run (inverts : ∀ msg ∈ msgs, bincode.deserialize (bincode.serialize msg) = some msg)
    (fit : ∀ msg ∈ msgs, (bincode.serialize msg).length ≤ maxFrameLength) {steps : List ReadStep}
    (sent : fedBytes steps <+: messageFrames bincode msgs) :
    Tracks bincode msgs (fedBytes steps) (MessageReader.run bincode steps) := by
  induction steps using List.reverseRecOn with
  | nil => exact ⟨List.nil_prefix, rfl, rfl⟩
  | append_singleton steps last ih =>
    have fed : fedBytes (steps ++ [last]) = fedBytes steps ++ fedBytes [last] := List.flatMap_append
    have before := (List.prefix_append (fedBytes steps) (fedBytes [last])).trans (fed ▸ sent)
    have tracks := ih before
    have stepped : MessageReader.run bincode (steps ++ [last]) = (MessageReader.run bincode steps).step bincode last := by
      rw [MessageReader.run, List.foldl_append]
      rfl
    rw [stepped, fed]
    cases last with
    | feed chunk =>
      refine ⟨tracks.received, ?_, tracks.errors⟩
      have chunks : fedBytes [.feed chunk] = chunk := List.append_nil _
      rw [chunks]
      change _ ++ LengthDelimited.unread _ ((MessageReader.run bincode steps).src ++ chunk) = _
      rw [LengthDelimited.unread_append, ← List.append_assoc]
      exact congrArg (· ++ chunk) tracks.unread
    | decode =>
      have chunks : fedBytes [.decode] = [] := rfl
      rw [chunks, List.append_nil, MessageReader.step]
      rcases tracks.decode before inverts fit with ⟨msg, codec, src, buffered, decoded, parts⟩ | ⟨codec, src, _, decoded, kept⟩
      · rw [decoded]
        exact ⟨buffered.1, parts, tracks.errors⟩
      · rw [decoded]
        exact ⟨tracks.received, kept.symm ▸ tracks.unread, tracks.errors⟩

theorem run_decode (bincode : MessageBincode Fields) (steps : List ReadStep) (count : Nat) :
    MessageReader.run bincode (steps ++ List.replicate (count + 1) .decode) =
      (MessageReader.run bincode (steps ++ List.replicate count .decode)).step bincode .decode := by
  rw [List.replicate_succ', ← List.append_assoc, MessageReader.run, List.foldl_append]
  rfl

/-- A call of the decoder returns one more message while the frames of more are in the buffer. -/
theorem received_ready {ready : List (WireMessage Fields)} (inverts : ∀ msg ∈ msgs, bincode.deserialize (bincode.serialize msg) = some msg)
    (fit : ∀ msg ∈ msgs, (bincode.serialize msg).length ≤ maxFrameLength) {steps : List ReadStep}
    (sent : fedBytes steps <+: messageFrames bincode msgs) (first : ready <+: msgs)
    (there : messageFrames bincode ready <+: fedBytes steps) : ∀ count ≤ ready.length,
    count ≤ (MessageReader.run bincode (steps ++ List.replicate count .decode)).received.length := by
  intro count
  induction count with
  | zero => exact fun _ => Nat.zero_le _
  | succ count ih =>
    intro bound
    have least := ih (by omega)
    have fed : fedBytes (steps ++ List.replicate count .decode) = fedBytes steps := by
      simp [fedBytes, List.flatMap_replicate]
    have tracks := tracks_run inverts fit (fed.symm ▸ sent)
    rw [run_decode, MessageReader.step]
    rcases tracks.decode (fed.symm ▸ sent) inverts fit with ⟨msg, codec, src, _, decoded, _⟩ | ⟨codec, src, nothing, decoded, _⟩
    · rw [decoded]
      simpa using least
    · rw [decoded]
      by_contra few
      have short : (MessageReader.run bincode (steps ++ List.replicate count .decode)).received.length ≤ count :=
        Nat.le_of_not_lt few
      obtain ⟨rest, split⟩ := List.prefix_of_prefix_length_le tracks.received first (by omega)
      cases rest with
      | nil =>
        have lengths := congrArg List.length split
        rw [List.append_nil] at lengths
        omega
      | cons msg others =>
        -- the message behind the received ones is one of those whose frames are there
        have whole : (MessageReader.run bincode (steps ++ List.replicate count .decode)).received ++ [msg] ++ others = ready := by
          rw [← split, List.append_assoc]
          rfl
        refine nothing msg ⟨List.IsPrefix.trans ⟨others, whole⟩ first, ?_⟩
        rw [← whole, messageFrames_append] at there
        rw [fed]
        exact (List.prefix_append _ _).trans there

/-- With all frames in the buffer, every call brings the list one message further. -/
theorem received_decode (inverts : ∀ msg ∈ msgs, bincode.deserialize (bincode.serialize msg) = some msg)
    (fit : ∀ msg ∈ msgs, (bincode.serialize msg).length ≤ maxFrameLength) {steps : List ReadStep}
    (sent : fedBytes steps = messageFrames bincode msgs) : ∀ count ≤ msgs.length,
    count ≤ (MessageReader.run bincode (steps ++ List.replicate count .decode)).received.length :=
  received_ready inverts fit (sent ▸ List.prefix_refl _) (List.prefix_refl _) (sent ▸ List.prefix_refl _)

/-- Messages of at most 8 MiB are read back from any pieces of their frames: a call of the
decoder returns the next message as soon as its frame is there, and none before. -/
theorem codec_round_trips (bincode : MessageBincode Fields) (msgs : List (WireMessage Fields))
    (inverts : ∀ msg ∈ msgs, bincode.deserialize (bincode.serialize msg) = some msg)
    (fit : ∀ msg ∈ msgs, (bincode.serialize msg).length ≤ maxFrameLength) :
    (∃ stream, MessageCodec.encodeAll bincode msgs [] = .ok stream ∧
      (∀ steps, fedBytes steps <+: stream →
        let reader := MessageReader.run bincode steps
        reader.received <+: msgs ∧ reader.errors = [] ∧
        ((reader.codec.decode bincode reader.src).1 = .ok none ↔
          ∀ msg, ¬ Buffered bincode msgs reader.received (fedBytes steps) msg)) ∧
      ∀ steps, fedBytes steps = stream →
        (MessageReader.run bincode (steps ++ List.replicate msgs.length .decode)).received = msgs) ∧
    ∀ msg : WireMessage Fields, bincode.serialize msg ≠ [1, 0, 0, 0] := by
  refine ⟨⟨messageFrames bincode msgs, encodeAll_eq fit [], fun steps sent => ?_, fun steps sent => ?_⟩,
    serialize_ne_legacy bincode⟩
  · have tracks := tracks_run inverts fit sent
    refine ⟨tracks.received, tracks.errors, ?_⟩
    rcases tracks.decode sent inverts fit with ⟨msg, codec, src, buffered, decoded, _⟩ | ⟨codec, src, nothing, decoded, _⟩
    · rw [decoded]
      constructor
      · intro none
        cases none
      · exact fun absent => absurd buffered (absent msg)
    · rw [decoded]
      exact ⟨fun _ => nothing, fun _ => rfl⟩
  · have fed : fedBytes (steps ++ List.replicate msgs.length .decode) <+: messageFrames bincode msgs := by
      rw [← sent]
      simp [fedBytes, List.flatMap_replicate]
    have tracks := tracks_run inverts fit fed
    exact tracks.received.eq_of_length_le (received_decode inverts fit sent _ (Nat.le_refl _))

def sampleMessageBincode : MessageBincode fun _ => Unit where
  fieldBytes _ _ := []
  deserialize
    | [] => none
    | byte :: _ => some (if byte = 1 then .helloClient "a" none else .other .ack (by decide) ())

/-- A hello and an Ack come through a stream that is cut anywhere. -/
theorem codec_round_trips_cut : ∃ stream,
    MessageCodec.encodeAll sampleMessageBincode [.helloClient "a" none, .other .ack (by decide) ()] [] = .ok stream ∧
    ∀ cut, (MessageReader.run sampleMessageBincode
      [.feed (stream.take cut), .decode, .feed (stream.drop cut), .decode, .decode]).received =
        [.helloClient "a" none, .other .ack (by decide) ()] := by
  let msgs : List (WireMessage fun _ => Unit) := [.helloClient "a" none, .other .ack (by decide) ()]
  obtain ⟨⟨stream, encoded, _, delivered⟩, _⟩ := codec_round_trips sampleMessageBincode msgs
    (by
      simp only [msgs, List.forall_mem_cons]
      exact ⟨rfl, rfl, by simp⟩)
    (by
      simp only [msgs, List.forall_mem_cons]
      exact ⟨by decide +kernel, by decide +kernel, by simp⟩)
  refine ⟨stream, encoded, fun cut => ?_⟩
  refine delivered [.feed (stream.take cut), .decode, .feed (stream.drop cut)] ?_
  simp [fedBytes]

end RoundTrip

end Veloce
