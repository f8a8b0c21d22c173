import Mathlib.Init

/-! Bytes read as text, with a replacement for what is not UTF-8. -/

namespace Collections

namespace Utf8

open String (utf8EncodeChar)

/-- The character that the bytes start with. -/
def decode (bytes : List UInt8) : Option Char := bytes.toByteArray.utf8DecodeChar? 0

def encode (text : String) : List UInt8 := text.toList.flatMap utf8EncodeChar

def isContinuation (byte : UInt8) : Bool := 0x80 ≤ byte ∧ byte ≤ 0xBF

/-- Whether a second byte can follow the first one of a character of three or four. -/
def continues (first second : UInt8) : Bool :=
  if first = 0xE0 then 0xA0 ≤ second ∧ second ≤ 0xBF
  else if first = 0xED then 0x80 ≤ second ∧ second ≤ 0x9F
  else if first = 0xF0 then 0x90 ≤ second ∧ second ≤ 0xBF
  else if first = 0xF4 then 0x80 ≤ second ∧ second ≤ 0x8F
  else (0xE1 ≤ first ∧ first ≤ 0xF3) ∧ isContinuation second

/-- How many bytes are replaced together: those that start a character and no more. -/
def invalidLength : List UInt8 → Nat
  | first :: second :: rest =>
    if continues first second then if 0xF0 ≤ first ∧ rest.head?.any isContinuation then 3 else 2 else 1
  | _ => 1

/-- The text after some bytes that were taken already. -/
def lossyFrom : Nat → List UInt8 → List Char
  | _, [] => []
  | taken + 1, _ :: rest => lossyFrom taken rest
  | 0, byte :: rest =>
    match decode (byte :: rest) with
    | some char => char :: lossyFrom (char.utf8Size - 1) rest
    | none => '\uFFFD' :: lossyFrom (invalidLength (byte :: rest) - 1) rest

def lossy (bytes : List UInt8) : List Char := lossyFrom 0 bytes

/-- The text that the bytes encode, `String::from_utf8`. -/
def strict (bytes : List UInt8) : Option (List Char) :=
  if (lossy bytes).flatMap utf8EncodeChar = bytes then some (lossy bytes) else none

section Lemmas

variable {bytes rest : List UInt8} {char : Char}

theorem decode_append (char : Char) (rest : List UInt8) : decode (utf8EncodeChar char ++ rest) = some char := by
  rw [decode, List.toByteArray_append]
  exact ByteArray.utf8DecodeChar?_utf8EncodeChar_append

theorem of_decode (found : decode bytes = some char) : ∃ rest, bytes = utf8EncodeChar char ++ rest := by
  obtain ⟨rest, same⟩ := ByteArray.exists_of_utf8DecodeChar?_eq_some found
  refine ⟨rest.data.toList, ?_⟩
  have listed := congrArg (fun array => array.data.toList) same
  simpa using listed

@[simp] theorem lossy_nil : lossy [] = [] := rfl

theorem lossyFrom_drop (taken : Nat) (bytes : List UInt8) : lossyFrom taken bytes = lossy (bytes.drop taken) := by
  induction taken generalizing bytes with
  | zero => rfl
  | succ taken ih =>
    cases bytes with
    | nil => rfl
    | cons byte rest => exact ih rest

theorem lossy_char (char : Char) (rest : List UInt8) : lossy (utf8EncodeChar char ++ rest) = char :: lossy rest := by
  have found := decode_append char rest
  have length : (utf8EncodeChar char).length = char.utf8Size := String.length_utf8EncodeChar char
  cases encoded : utf8EncodeChar char with
  | nil => exact absurd encoded String.utf8EncodeChar_ne_nil
  | cons byte tail =>
    rw [encoded] at found length
    change (match decode (byte :: (tail ++ rest)) with
      | some char => char :: lossyFrom (char.utf8Size - 1) (tail ++ rest)
      | none => _) = _
    rw [← List.cons_append, found]
    simp only [lossyFrom_drop, List.length_cons] at length ⊢
    rw [← length, Nat.add_sub_cancel, List.drop_left]

theorem invalidLength_pos (bytes : List UInt8) : 0 < invalidLength bytes := by
  unfold invalidLength
  split
  · split
    · split <;> decide
    · decide
  · decide

theorem invalidLength_le (present : bytes ≠ []) : invalidLength bytes ≤ bytes.length := by
  unfold invalidLength
  split
  · rename_i first second rest
    split
    · split
      · rename_i long
        cases rest with
        | nil => cases long.2
        | cons => simp
      · simp
    · simp
  · exact List.length_pos_iff.mpr present

theorem lossy_invalid (present : bytes ≠ []) (invalid : decode bytes = none) :
    lossy bytes = '\uFFFD' :: lossy (bytes.drop (invalidLength bytes)) := by
  cases bytes with
  | nil => exact absurd rfl present
  | cons byte tail =>
    change (match decode (byte :: tail) with
      | some _ => _
      | none => '\uFFFD' :: lossyFrom (invalidLength (byte :: tail) - 1) tail) = _
    rw [invalid]
    obtain ⟨length, same⟩ := Nat.exists_eq_succ_of_ne_zero (Nat.ne_of_gt (invalidLength_pos (byte :: tail)))
    simp only [lossyFrom_drop, same]
    rfl

@[elab_as_elim]
theorem reading {motive : List UInt8 → Prop} (nil : motive [])
    (char : ∀ char rest, motive rest → motive (utf8EncodeChar char ++ rest))
    (invalid : ∀ bytes, bytes ≠ [] → decode bytes = none → motive (bytes.drop (invalidLength bytes)) → motive bytes)
    (bytes : List UInt8) : motive bytes := by
  induction length : bytes.length using Nat.strongRecOn generalizing bytes with
  | ind count ih =>
    cases found : decode bytes with
    | some first =>
      obtain ⟨rest, rfl⟩ := of_decode found
      refine char first rest (ih rest.length ?_ rest rfl)
      have some := first.utf8Size_pos
      rw [List.length_append, String.length_utf8EncodeChar] at length
      omega
    | none =>
      by_cases empty : bytes = []
      · exact empty ▸ nil
      · refine invalid bytes empty found (ih _ ?_ _ rfl)
        have some := invalidLength_pos bytes
        have present := List.length_pos_iff.mpr empty
        rw [List.length_drop]
        omega

theorem lossy_encode (text : List Char) (rest : List UInt8) :
    lossy (text.flatMap utf8EncodeChar ++ rest) = text ++ lossy rest := by
  induction text with
  | nil => rfl
  | cons char text ih => rw [List.flatMap_cons, List.append_assoc, lossy_char, ih, List.cons_append]

theorem strict_encode (text : List Char) : strict (text.flatMap utf8EncodeChar) = some text := by
  have read : lossy (text.flatMap utf8EncodeChar) = text := by simpa using lossy_encode text []
  rw [strict, read, if_pos rfl]

theorem encode_lossy (whole : '\uFFFD' ∉ lossy bytes) : (lossy bytes).flatMap utf8EncodeChar = bytes := by
  induction bytes using reading with
  | nil => rfl
  | char char rest ih =>
    rw [lossy_char] at whole ⊢
    rw [List.flatMap_cons, ih fun later => whole (List.mem_cons_of_mem _ later)]
  | invalid bytes present invalid =>
    rw [lossy_invalid present invalid] at whole
    exact absurd (List.mem_cons_self ..) whole

theorem mem_of_mem_lossy {byte : UInt8} (ascii : utf8EncodeChar char = [byte]) (real : char ≠ '\uFFFD')
    (member : char ∈ lossy bytes) : byte ∈ bytes := by
  induction bytes using reading with
  | nil => exact absurd member List.not_mem_nil
  | char first rest ih =>
    rw [lossy_char] at member
    rcases List.mem_cons.mp member with rfl | later
    · rw [ascii]
      exact List.mem_cons_self ..
    · exact List.mem_append_right _ (ih later)
  | invalid bytes present invalid ih =>
    rw [lossy_invalid present invalid] at member
    rcases List.mem_cons.mp member with same | later
    · exact absurd same real
    · exact List.mem_of_mem_drop (ih later)

theorem isUTF8FirstByte_of_decode {byte : UInt8} (found : decode (byte :: rest) = some char) : byte.IsUTF8FirstByte := by
  obtain ⟨later, same⟩ := of_decode found
  have some : 0 < (utf8EncodeChar char).length := String.length_utf8EncodeChar char ▸ char.utf8Size_pos
  have first : (utf8EncodeChar char)[0] = byte := by
    have here := congrArg (·[0]?) same
    rw [List.getElem?_append_left some] at here
    exact (List.getElem?_eq_some_iff.mp here.symm).2
  exact first ▸ UInt8.isUTF8FirstByte_getElem_zero_utf8EncodeChar

theorem not_isContinuation {byte : UInt8} (first : byte.IsUTF8FirstByte) : isContinuation byte = false := by
  have all : ∀ value < 256, (UInt8.ofNat value).IsUTF8FirstByte → isContinuation (UInt8.ofNat value) = false := by decide +kernel
  exact UInt8.ofNat_toNat (x := byte) ▸ all byte.toNat byte.toNat_lt (UInt8.ofNat_toNat.symm ▸ first)

theorem isContinuation_of_continues {first second : UInt8} (follows : continues first second = true) :
    isContinuation second = true := by
  simp only [continues, isContinuation, UInt8.le_iff_toNat_le] at follows ⊢
  split at follows
  · simp at follows ⊢
    omega
  · split at follows
    · simp at follows ⊢
      omega
    · split at follows
      · simp at follows ⊢
        omega
      · split at follows
        · simp at follows ⊢
          omega
        · simp at follows ⊢
          omega

section Append

variable {more : List UInt8} (starts : ∀ byte ∈ more.head?, byte.IsUTF8FirstByte)

include starts

theorem invalidLength_append (present : bytes ≠ []) : invalidLength (bytes ++ more) = invalidLength bytes := by
  have ends : more.head?.any isContinuation = false := by
    cases more with
    | nil => rfl
    | cons byte _ => exact not_isContinuation (starts byte rfl)
  match bytes with
  | [] => exact absurd rfl present
  | [first] =>
    cases more with
    | nil => rfl
    | cons second _ =>
      have stops : continues first second = false := Bool.eq_false_iff.mpr fun follows =>
        Bool.false_ne_true (ends.symm.trans (isContinuation_of_continues follows))
      simp [invalidLength, stops]
  | [first, second] => simp [invalidLength, ends]
  | first :: second :: third :: rest => rfl

/-- A character does not end before a first byte. -/
theorem decode_append_none (present : bytes ≠ []) (invalid : decode bytes = none) : decode (bytes ++ more) = none := by
  refine Option.eq_none_iff_forall_ne_some.mpr fun char found => ?_
  have whole (later : List UInt8) : bytes ≠ utf8EncodeChar char ++ later := by
    rintro rfl
    rw [decode_append] at invalid
    cases invalid
  obtain ⟨rest, same⟩ := of_decode found
  rcases List.append_eq_append_iff.mp same with ⟨later, encoded, follows⟩ | ⟨later, here, _⟩
  · cases later with
    | nil => exact whole [] (by simpa using encoded.symm)
    | cons byte later =>
      have inside : bytes.length < (utf8EncodeChar char).length := by simp [encoded]
      have here : (utf8EncodeChar char)[bytes.length] = byte := by simp [encoded]
      have first : byte.IsUTF8FirstByte := starts byte (by simp [follows])
      rw [← here, UInt8.isUTF8FirstByte_getElem_utf8EncodeChar] at first
      exact present (List.length_eq_zero_iff.mp first)
  · exact whole later here

theorem lossy_append (bytes : List UInt8) : lossy (bytes ++ more) = lossy bytes ++ lossy more := by
  induction bytes using reading with
  | nil => rfl
  | char char rest ih => rw [List.append_assoc, lossy_char, lossy_char, ih, List.cons_append]
  | invalid bytes present invalid ih =>
    have present' : bytes ++ more ≠ [] := List.append_ne_nil_of_left_ne_nil present more
    rw [lossy_invalid present' (decode_append_none starts present invalid), invalidLength_append starts present,
      List.drop_append_of_le_length (invalidLength_le present), ih, lossy_invalid present invalid, List.cons_append]

end Append

end Lemmas

end Utf8

def fromUtf8Lossy (bytes : List UInt8) : String := String.ofList (Utf8.lossy bytes)

example : fromUtf8Lossy [0x63, 0xE2, 0x82, 0x3D, 0xE2, 0x82, 0xAC] = "c\uFFFD=€" := by decide +kernel

end Collections
