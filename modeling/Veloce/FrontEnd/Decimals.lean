import Veloce.FrontEnd.Dependency

/-! Decimal numbers in the options of the front ends. -/

namespace Veloce

structure IsDecimal (text : List Char) : Prop where
  filled : text ≠ []
  digits : ∀ char ∈ text, char.isDigit = true

instance (text : List Char) : Decidable (IsDecimal text) :=
  have : Decidable (∀ char ∈ text, char.isDigit = true) := List.decidableBAll _ text
  decidable_of_iff (text ≠ [] ∧ ∀ char ∈ text, char.isDigit = true)
    ⟨fun ⟨filled, digits⟩ => ⟨filled, digits⟩, fun decimal => ⟨decimal.filled, decimal.digits⟩⟩

def decimalValue (text : List Char) : Nat :=
  text.foldl (fun value digit => value * 10 + (digit.toNat - '0'.toNat)) 0

/-- The integer parsers skip one plus sign. -/
def withoutPlus : List Char → List Char
  | '+' :: digits => digits
  | text => text

def parseI32 (text : List Char) : Option Int :=
  match text with
  | '-' :: digits => if IsDecimal digits ∧ decimalValue digits ≤ 2 ^ 31 then some (-decimalValue digits) else none
  | _ =>
    if IsDecimal (withoutPlus text) ∧ decimalValue (withoutPlus text) < 2 ^ 31 then some (decimalValue (withoutPlus text))
    else none

section Parsers

variable {text : List Char} {char : Char} {value : Nat}

theorem IsDecimal.not_mem (decimal : IsDecimal text) (other : char.isDigit = false) : char ∉ text := by
  intro member
  have digit := decimal.digits char member
  rw [other] at digit
  cases digit

theorem withoutPlus_cases (text : List Char) : (∃ rest, text = '+' :: rest ∧ withoutPlus text = rest) ∨
    (∀ rest, text ≠ '+' :: rest) ∧ withoutPlus text = text := by
  unfold Veloce.withoutPlus
  split
  · rename_i rest
    exact .inl ⟨rest, rfl, rfl⟩
  · rename_i bare
    exact .inr ⟨bare, rfl⟩

theorem withoutPlus_of_not_mem (unsigned : '+' ∉ text) : withoutPlus text = text := by
  rcases withoutPlus_cases text with ⟨rest, rfl, _⟩ | ⟨_, same⟩
  · exact absurd List.mem_cons_self unsigned
  · exact same

theorem IsDecimal.withoutPlus (decimal : IsDecimal text) : withoutPlus text = text :=
  withoutPlus_of_not_mem (decimal.not_mem (by decide))

theorem mem_of_mem_withoutPlus (other : char ≠ '+') (member : char ∈ text) : char ∈ withoutPlus text := by
  rcases withoutPlus_cases text with ⟨rest, rfl, same⟩ | ⟨_, same⟩
  · rw [same]
    exact (List.mem_cons.mp member).resolve_left other
  · rwa [same]

/-- What a parser of unsigned numbers takes has only digits, and a sign. -/
theorem not_mem_of_decimal (decimal : IsDecimal (withoutPlus text)) (other : char.isDigit = false)
    (unsigned : char ≠ '+') : char ∉ text :=
  fun member => decimal.not_mem other (mem_of_mem_withoutPlus unsigned member)

theorem listedId_eq_some_iff :
    listedId text = some value ↔ IsDecimal (withoutPlus text) ∧ decimalValue (withoutPlus text) = value := by
  have shape : listedId text =
      if (withoutPlus text).isEmpty || !(withoutPlus text).all Char.isDigit then none
      else some (decimalValue (withoutPlus text)) := by
    rcases withoutPlus_cases text with ⟨rest, rfl, unsigned⟩ | ⟨bare, unsigned⟩
    · rw [unsigned]
      rfl
    · rw [unsigned]
      unfold listedId
      split
      · rename_i rest
        exact absurd rfl (bare rest)
      · rfl
  rw [shape]
  constructor
  · intro found
    split at found
    · cases found
    · rename_i good
      simp only [Bool.or_eq_true, Bool.not_eq_true', not_or, Bool.not_eq_true, Bool.not_eq_false,
        List.isEmpty_eq_false_iff, List.all_eq_true] at good
      exact ⟨⟨good.1, good.2⟩, Option.some.inj found⟩
  · rintro ⟨decimal, same⟩
    have good : ¬ ((withoutPlus text).isEmpty || !(withoutPlus text).all Char.isDigit) = true := by
      simp [List.isEmpty_iff, decimal.filled, List.all_eq_true.mpr decimal.digits]
    rw [if_neg good, same]

theorem parseU64_eq_some_iff : parseU64 text = some value ↔
    IsDecimal (withoutPlus text) ∧ decimalValue (withoutPlus text) = value ∧ value < 2 ^ 64 := by
  simp only [parseU64_eq, Option.filter_eq_some_iff, listedId_eq_some_iff, decide_eq_true_eq, and_assoc]

theorem parseU32_eq_some_iff : parseU32 (String.ofList text) = some value ↔
    IsDecimal (withoutPlus text) ∧ decimalValue (withoutPlus text) = value ∧ value < 2 ^ 32 := by
  simp only [parseU32, String.toList_ofList, Option.filter_eq_some_iff, parseU64_eq_some_iff, decide_eq_true_eq]
  constructor
  · exact fun ⟨⟨decimal, same, _⟩, small⟩ => ⟨decimal, same, small⟩
  · exact fun ⟨decimal, same, small⟩ => ⟨⟨decimal, same, by omega⟩, small⟩

end Parsers

end Veloce
