import Veloce.Common.MessageCodec
import Veloce.Common.NoiseTransparent

/-! The codec on top of the encrypted stream. -/

namespace Veloce

open Collections

namespace NoiseLink

variable {σ : Type} {snow : Side → Snow} {io : Side → AsyncIo σ} {pipe : Side → σ → List UInt8} {net : σ}
variable {link : NoiseLink σ} {Fields : MessageVariant → Type} {bincode : MessageBincode Fields}
variable {msgs : List (WireMessage Fields)} {stream : List UInt8}

/-- Once all bytes of the first messages are read, as many calls of the decoder return them. -/
private theorem ready_received {ready : List (WireMessage Fields)} {read : List UInt8} {steps : List ReadStep}
    (inverts : ∀ msg ∈ msgs, bincode.deserialize (bincode.serialize msg) = some msg)
    (fit : ∀ msg ∈ msgs, (bincode.serialize msg).length ≤ maxFrameLength) (first : ready <+: msgs)
    (arrived : read <+: messageFrames bincode msgs) (enough : (messageFrames bincode ready).length ≤ read.length)
    (fed : fedBytes steps = read) :
    ready <+: (MessageReader.run bincode (steps ++ List.replicate ready.length .decode)).received := by
  subst fed
  have there : messageFrames bincode ready <+: fedBytes steps := by
    obtain ⟨rest, split⟩ := first
    refine List.prefix_of_prefix_length_le ?_ arrived enough
    rw [← split, messageFrames_append]
    exact List.prefix_append _ _
  have decoded : fedBytes (steps ++ List.replicate ready.length .decode) <+: messageFrames bincode msgs := by
    simpa [fedBytes, List.flatMap_replicate] using arrived
  exact List.prefix_of_prefix_length_le first (tracks_run inverts fit decoded).received
    (received_ready inverts fit arrived first there ready.length (Nat.le_refl _))

/-- Messages pass the encrypted stream. What the decoder at one end returns are in order the
first messages that the other end wrote, without an error. Over a connection that does not withhold
bytes for ever, reads come to a point where as many calls of the decoder return all messages that
were flushed; so do, among any other steps, as many answered reads as there are bytes. -/
theorem messages_transparent (reliable : ∀ side, (io side).Reliable (pipe side) (pipe side.other))
    (opens : ∀ side, (snow side).Inverts (snow side.other)) (silent : ∀ side, pipe side net = [])
    (inverts : ∀ msg ∈ msgs, bincode.deserialize (bincode.serialize msg) = some msg)
    (fit : ∀ msg ∈ msgs, (bincode.serialize msg).length ≤ maxFrameLength)
    (encoded : MessageCodec.encodeAll bincode msgs [] = .ok stream)
    (reached : Relation.ReflTransGen (Step snow io pipe) (start net) link) (reader : Side)
    (sent : link.accepted reader.other <+: stream) :
    (∀ steps, fedBytes steps = link.read reader → (MessageReader.run bincode steps).received <+: msgs ∧
      (MessageReader.run bincode steps).errors = []) ∧
    ∀ ready front, ready <+: msgs → MessageCodec.encodeAll bincode ready [] = .ok front →
      front.length ≤ link.flushed reader.other →
      (WellFounded (NoiseStream.Withholds (io reader) (pipe reader.other)) → Polled snow io reader (fun later =>
        ∀ steps, fedBytes steps = later.read reader →
          ready <+: (MessageReader.run bincode (steps ++ List.replicate ready.length .decode)).received) link) ∧
      ∀ count later, Reads snow io pipe reader count link later →
        later.accepted reader.other <+: stream → link.flushed reader.other ≤ (link.read reader).length + count →
        ∀ steps, fedBytes steps = later.read reader →
          ready <+: (MessageReader.run bincode (steps ++ List.replicate ready.length .decode)).received := by
  have frames : stream = messageFrames bincode msgs := by
    rw [encodeAll_eq fit] at encoded
    exact (Except.ok.inj encoded).symm
  subst frames
  have sound := reached_sound reliable opens silent reached
  have ordered {link : NoiseLink σ} (sound : link.Sound snow pipe) : link.read reader <+: link.accepted reader.other := by
    have order := (sound reader.other).read_ordered
    rwa [read_side] at order
  refine ⟨fun steps fed => ?_, fun ready front first whole flushed => ?_⟩
  · have tracks := tracks_run inverts fit (fed ▸ (ordered sound).trans sent)
    exact ⟨tracks.received, tracks.errors⟩
  · have fit' : ∀ msg ∈ ready, (bincode.serialize msg).length ≤ maxFrameLength := fun msg member =>
      fit msg (first.subset member)
    rw [encodeAll_eq fit'] at whole
    obtain rfl := (Except.ok.inj whole).symm
    rw [List.nil_append] at flushed
    refine ⟨fun delivers => ?_, fun count later reads written enough steps fed => ?_⟩
    · refine (polls_drain reliable opens delivers sound).mono fun later drained steps fed => ?_
      obtain ⟨sound', same, all⟩ := drained
      exact ready_received inverts fit first ((ordered sound').trans (same ▸ sent)) (flushed.trans all) fed
    · obtain ⟨sound', _, _, progress⟩ := reads_progress reliable opens sound reads
      refine ready_received inverts fit first ((ordered sound').trans written) ?_ fed
      omega

/-- An Ack that was written and flushed is read at once, and comes out of the decoder. -/
theorem messages_transparent_duplex : ∃ link : NoiseLink (Side → List UInt8),
    Relation.ReflTransGen DuplexStep (start fun _ => []) link ∧ link.flushed .a = 8 ∧
      (∃ next net, (link.stream .b).pollRead .plain (duplex .b) 2 link.net 8 =
        some (.ready (.ok [0, 0, 0, 4, 109, 0, 0, 0]), next, net)) ∧
      Polled (fun _ => .plain) duplex .b (fun later => ∀ steps, fedBytes steps = later.read .b →
        [.other .ack (by decide) ()] <+: (MessageReader.run sampleMessageBincode (steps ++ [.decode])).received) link := by
  let msgs : List (WireMessage fun _ => Unit) := [.other .ack (by decide) ()]
  have encoded : MessageCodec.encodeAll sampleMessageBincode msgs [] = .ok [0, 0, 0, 4, 109, 0, 0, 0] := rfl
  have write : DuplexStep (start fun _ => []) _ := .call .a (.write [0, 0, 0, 4, 109, 0, 0, 0]) 0 (List.cons_ne_nil _ _) rfl
  have path := (Relation.ReflTransGen.single write).tail (.call .a .flush 1 trivial rfl)
  have result := messages_transparent duplex_reliable (fun _ => plain_inverts) (fun _ => rfl)
    (by simp only [msgs, List.forall_mem_singleton]; rfl) (by simp only [msgs, List.forall_mem_singleton]; decide +kernel)
    encoded path .b (List.prefix_refl _)
  exact ⟨_, path, rfl, ⟨_, _, rfl⟩, (result.2 msgs _ (List.prefix_refl _) encoded (Nat.le_refl _)).1 (duplex_delivers .b)⟩

end NoiseLink

end Veloce
