import Veloce.Collections.Frames

/-! Frames behind a length of four bytes, on a stream that comes in pieces. -/

namespace Collections

namespace LengthDelimited

/-- Ahead of a frame, or in one whose length has been read. -/
inductive DecodeState (maxLength : Nat) where
  | head
  | data (length : Nat) (fits : length ≤ maxLength)

variable {maxLength : Nat}

def frame (payload : List UInt8) : List UInt8 := toBeBytes 4 payload.length ++ payload

def encode (maxLength : Nat) (payload dst : List UInt8) : Except String (List UInt8) :=
  if maxLength < payload.length then .error "frame size too big" else .ok (dst ++ frame payload)

def decodeHead (maxLength : Nat) (src : List UInt8) : Except String (DecodeState maxLength × List UInt8) :=
  if src.length < 4 then .ok (.head, src)
  else if fits : fromBeBytes (src.take 4) ≤ maxLength then .ok (.data _ fits, src.drop 4)
  else .error "frame size too big"

def decodeData (state : DecodeState maxLength) (src : List UInt8) :
    Option (List UInt8) × DecodeState maxLength × List UInt8 :=
  match state with
  | .head => (none, .head, src)
  | .data length fits => if src.length < length then (none, .data length fits, src) else (some (src.take length), .head, src.drop length)

/-- One call of the decoder: a frame or `none`, and what is left of the buffer. -/
def decode (state : DecodeState maxLength) (src : List UInt8) :
    Except String (Option (List UInt8)) × DecodeState maxLength × List UInt8 :=
  match state with
  | .head =>
    match decodeHead maxLength src with
    | .ok (state, src) => let (payload, next) := decodeData state src; (.ok payload, next)
    | .error error => (.error error, .head, src)
  | .data length fits => let (payload, next) := decodeData (.data length fits) src; (.ok payload, next)

/-- The bytes from the start of the current frame on. -/
def unread : DecodeState maxLength → List UInt8 → List UInt8
  | .head, src => src
  | .data length _, src => toBeBytes 4 length ++ src

variable {state : DecodeState maxLength} {src payload more : List UInt8}

@[simp] theorem length_frame (payload : List UInt8) : (frame payload).length = 4 + payload.length := by
  rw [frame, List.length_append, length_toBeBytes]

theorem unread_append (state : DecodeState maxLength) (src more : List UInt8) :
    unread state (src ++ more) = unread state src ++ more := by
  cases state with
  | head => rfl
  | data length fits => exact (List.append_assoc _ _ _).symm

theorem length_of_frame {length : Nat} {rest rest' : List UInt8} (small : maxLength < 256 ^ 4) (fits : length ≤ maxLength)
    (limit : payload.length ≤ maxLength) (same : toBeBytes 4 length ++ rest = toBeBytes 4 payload.length ++ rest') :
    length = payload.length ∧ rest = rest' := by
  obtain ⟨heads, rests⟩ := List.append_inj same (by rw [length_toBeBytes, length_toBeBytes])
  have lengths := congrArg fromBeBytes heads
  rw [fromBeBytes_toBeBytes (by omega), fromBeBytes_toBeBytes (by omega)] at lengths
  exact ⟨lengths, rests⟩

theorem decodeData_whole (limit : payload.length ≤ maxLength) :
    decodeData (.data payload.length limit : DecodeState maxLength) (payload ++ more) = (some payload, .head, more) := by
  have enough : ¬ (payload ++ more).length < payload.length := by
    rw [List.length_append]
    omega
  rw [decodeData, if_neg enough, List.take_left, List.drop_left]

theorem decodeHead_frame (small : maxLength < 256 ^ 4) (limit : payload.length ≤ maxLength)
    (long : src.length = 4 + more.length) (starts : src.take 4 = toBeBytes 4 payload.length) (rest : src.drop 4 = more) :
    decodeHead maxLength src = .ok (.data payload.length limit, more) := by
  have length : fromBeBytes (src.take 4) = payload.length := by
    rw [starts, fromBeBytes_toBeBytes (by omega)]
  have fits : fromBeBytes (src.take 4) ≤ maxLength := length ▸ limit
  have state : (DecodeState.data (fromBeBytes (src.take 4)) fits) = .data payload.length limit := by
    simp only [length]
  rw [decodeHead, if_neg (by omega), dif_pos fits, state, rest]

theorem decode_whole (small : maxLength < 256 ^ 4) (limit : payload.length ≤ maxLength)
    (whole : unread state src = frame payload ++ more) : decode state src = (.ok (some payload), .head, more) := by
  rw [frame, List.append_assoc] at whole
  cases state with
  | head =>
    rw [unread] at whole
    have head : decodeHead maxLength src = .ok (.data payload.length limit, payload ++ more) := by
      refine decodeHead_frame small limit ?_ ?_ ?_
      · rw [whole, List.length_append, length_toBeBytes]
      · rw [whole, List.take_left' (length_toBeBytes 4 _)]
      · rw [whole, List.drop_left' (length_toBeBytes 4 _)]
    rw [decode, head]
    simp only [decodeData_whole]
  | data length fits =>
    obtain ⟨lengths, rest⟩ := length_of_frame small fits limit whole
    subst lengths
    rw [decode, rest]
    simp only [decodeData_whole]

/-- A part of a frame is kept until the rest comes. -/
theorem decode_part {missing : List UInt8} (small : maxLength < 256 ^ 4) (limit : payload.length ≤ maxLength)
    (part : unread state src ++ missing = frame payload) (short : missing ≠ []) :
    ∃ state' src', decode state src = (.ok none, state', src') ∧
      unread (state' : DecodeState maxLength) src' = unread state src := by
  have positive := List.length_pos_iff.mpr short
  have lengths := congrArg List.length part
  rw [List.length_append, length_frame] at lengths
  cases state with
  | head =>
    rw [unread] at part lengths
    by_cases room : src.length < 4
    · refine ⟨.head, src, ?_, rfl⟩
      rw [decode, decodeHead, if_pos room]
      rfl
    · have starts : src.take 4 = toBeBytes 4 payload.length := by
        have taken := congrArg (List.take 4) part
        rwa [List.take_append_of_le_length (by omega), frame, List.take_left' (length_toBeBytes 4 _)] at taken
      have head : decodeHead maxLength src = .ok (.data payload.length limit, src.drop 4) :=
        decodeHead_frame small limit (by rw [List.length_drop]; omega) starts rfl
      refine ⟨.data payload.length limit, src.drop 4, ?_, ?_⟩
      · rw [decode, head]
        simp only [decodeData]
        rw [if_pos (by rw [List.length_drop]; omega)]
      · rw [unread, unread, ← starts, List.take_append_drop]
  | data length fits =>
    rw [unread, List.append_assoc] at part
    obtain ⟨same, _⟩ := length_of_frame small fits limit part
    rw [unread, List.length_append, length_toBeBytes] at lengths
    refine ⟨.data length fits, src, ?_, rfl⟩
    rw [decode]
    simp only [decodeData]
    rw [if_pos (by omega)]

end LengthDelimited

end Collections
