import Mathlib.Logic.Equiv.List
import Veloce.Collections.HashMap

/-! Text formats. A format is known by what its users rely on: what was written can be
read back. -/

namespace Collections

/-- A text format in which every value can be written and read back. -/
structure Codec (α : Type) (Same : α → α → Prop) where
  encode : α → String
  decode : String → Option α
  roundTrip : ∀ value, ∃ decoded, decode (encode value) = some decoded ∧ Same decoded value

namespace Codec

variable {α : Type} {Same : α → α → Prop}

theorem decode_encode (codec : Codec α Eq) (value : α) : codec.decode (codec.encode value) = some value := by
  obtain ⟨decoded, read, same⟩ := codec.roundTrip value
  rw [read, same]

/-- Texts that differ whenever their values do can be read back. -/
noncomputable def ofInjective (refl : ∀ value, Same value value) (encode : α → String)
    (injective : Function.Injective encode) : Codec α Same where
  encode := encode
  decode text := open Classical in if written : ∃ value, encode value = text then some written.choose else none
  roundTrip value := by
    have written : ∃ other, encode other = encode value := ⟨value, rfl⟩
    refine ⟨written.choose, dif_pos written, ?_⟩
    rw [injective written.choose_spec]
    exact refl value

end Codec

theorem countable_string : Countable String := by
  have chars : Countable Char := Function.Injective.countable fun _ _ same => Char.toNat_inj.mp same
  exact Function.Injective.countable fun _ _ same => String.toList_inj.mp same

theorem exists_encode {α : Type} [Countable α] (table : List (α × String)) (values : (table.map Prod.fst).Nodup)
    (texts : (table.map Prod.snd).Nodup) (plain : ∀ entry ∈ table, entry.2.toList.head? ≠ some '#') :
    ∃ encode : α → String, Function.Injective encode ∧ ∀ entry ∈ table, encode entry.1 = entry.2 := by
  classical
  obtain ⟨number, numbered⟩ := exists_injective_nat α
  let other (value : α) : String := String.ofList ('#' :: List.replicate (number value) 'x')
  let encode (value : α) : String := ((table.find? (·.1 = value)).map Prod.snd).getD (other value)
  have listed (value : α) : (∃ entry ∈ table, entry.1 = value ∧ encode value = entry.2) ∨ encode value = other value := by
    cases found : table.find? (·.1 = value) with
    | none => exact .inr (by simp [encode, found])
    | some entry =>
      refine .inl ⟨entry, List.mem_of_find?_eq_some found, ?_, by simp [encode, found]⟩
      simpa using List.find?_some found
  have apart (value : α) {entry : α × String} (member : entry ∈ table) : entry.2 ≠ other value := by
    intro same
    refine plain entry member ?_
    rw [same]
    simp [other]
  refine ⟨encode, fun value value' same => ?_, fun entry member => ?_⟩
  · rcases listed value with ⟨entry, member, own, text⟩ | text
    · rcases listed value' with ⟨entry', member', own', text'⟩ | text'
      · have equal := List.inj_on_of_nodup_map texts member member' (text.symm.trans (same.trans text'))
        rw [← own, ← own', equal]
      · exact absurd (text.symm.trans (same.trans text')) (apart value' member)
    · rcases listed value' with ⟨entry', member', own', text'⟩ | text'
      · exact absurd (text'.symm.trans (same.symm.trans text)) (apart value member')
      · refine numbered ?_
        have lengths := congrArg (fun text => text.toList.length) (text.symm.trans (same.trans text'))
        simpa [other] using lengths
  · rcases listed entry.1 with ⟨entry', member', own', text'⟩ | text'
    · rw [text', List.inj_on_of_nodup_map values member' member own']
    · have found : table.find? (·.1 = entry.1) ≠ none := by
        intro none
        simpa using List.find?_eq_none.mp none entry member
      obtain ⟨entry', found'⟩ := Option.ne_none_iff_exists'.mp found
      have own' : entry'.1 = entry.1 := by simpa using List.find?_some found'
      have equal := List.inj_on_of_nodup_map values (List.mem_of_find?_eq_some found') member own'
      simp [encode, found', equal]

end Collections
