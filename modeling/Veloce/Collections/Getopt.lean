import Mathlib.Data.List.Infix

/-! Command lines: which tokens are options, values of options, and operands. -/

namespace Collections

section Unheralded

variable {α : Type} {a : α} {args rest : List α}

/-- The first token of the rest does not occur before it. -/
def Unheralded (rest args : List α) : Prop := ∀ before, args = before ++ rest → ∀ first ∈ rest.head?, first ∉ before

theorem Unheralded.tail (unheralded : Unheralded rest (a :: args)) : Unheralded rest args :=
  fun before split first isFirst member =>
    unheralded (a :: before) (by rw [split, List.cons_append]) first isFirst (.tail a member)

theorem suffix_of_length_le (suffix : rest <:+ a :: args) (shorter : rest.length ≤ args.length) : rest <:+ args := by
  rcases List.suffix_cons_iff.mp suffix with rfl | inner
  · exact absurd shorter (by simp)
  · exact inner

end Unheralded

/-- Which tokens are options, and which of them have their value in the token after them. -/
structure OptionTable (α : Type) where
  isOption : α → Bool
  takesNext : α → Option α → Bool

namespace OptionTable

variable {α : Type} [DecidableEq α] (table : OptionTable α) (sep : α)

/-- The tokens from the first operand on, or behind the separator; `taken` says that the first
token is the value of an option before it. -/
def operands : (taken : Bool) → List α → List α
  | _, [] => []
  | true, _ :: args => operands false args
  | false, a :: args =>
    if a = sep then args
    else if table.isOption a then operands (table.takesNext a args.head?) args
    else a :: args

/-- The options before the first operand, each with the token after it. -/
def options : (taken : Bool) → List α → List (α × Option α)
  | _, [] => []
  | true, _ :: args => options false args
  | false, a :: args =>
    if a = sep then []
    else if table.isOption a then (a, args.head?) :: options (table.takesNext a args.head?) args
    else []

def permutedOperands : (taken : Bool) → List α → List α
  | _, [] => []
  | true, _ :: args => permutedOperands false args
  | false, a :: args =>
    if a = sep then args
    else if table.isOption a then permutedOperands (table.takesNext a args.head?) args
    else a :: permutedOperands false args

def permutedOptions : (taken : Bool) → List α → List (α × Option α)
  | _, [] => []
  | true, _ :: args => permutedOptions false args
  | false, a :: args =>
    if a = sep then []
    else if table.isOption a then (a, args.head?) :: permutedOptions (table.takesNext a args.head?) args
    else permutedOptions false args

/-- Options with their values, and then `rest`: behind the separator, or free of options. -/
inductive UpTo (rest : List α) : List α → Prop
  | here (plain : ∀ token ∈ rest, token ≠ sep ∧ table.isOption token = false) : UpTo rest rest
  | separator : UpTo rest (sep :: rest)
  | option {a : α} {args : List α} (apart : a ≠ sep) (isOption : table.isOption a = true)
      (more : UpTo rest (args.drop (table.takesNext a args.head?).toNat)) : UpTo rest (a :: args)

variable {table sep} {taken : Bool} {args rest : List α}

@[simp] theorem operands_nil : table.operands sep taken [] = [] := by cases taken <;> rfl

@[simp] theorem permutedOperands_nil : table.permutedOperands sep taken [] = [] := by cases taken <;> rfl

theorem permutedOperands_taken (args : List α) :
    table.permutedOperands sep taken args = table.permutedOperands sep false (args.drop taken.toNat) := by
  cases taken with
  | false => rfl
  | true =>
    cases args with
    | nil => rfl
    | cons a args => rfl

theorem operands_suffix (args : List α) : table.operands sep taken args <:+ args := by
  induction args generalizing taken with
  | nil => simp
  | cons a args ih =>
    cases taken with
    | true => exact ih.trans (List.suffix_cons a args)
    | false =>
      rw [operands]
      split
      · exact List.suffix_cons a args
      · split
        · exact ih.trans (List.suffix_cons a args)
        · exact List.suffix_rfl

theorem permutedOperands_sublist (args : List α) : (table.permutedOperands sep taken args).Sublist args := by
  induction args generalizing taken with
  | nil => simp
  | cons a args ih =>
    cases taken with
    | true => exact ih.trans (List.sublist_cons_self a args)
    | false =>
      rw [permutedOperands]
      split
      · exact List.sublist_cons_self a args
      · split
        · exact ih.trans (List.sublist_cons_self a args)
        · exact ih.cons_cons a

theorem plain_of_permutedOperands (all : table.permutedOperands sep false args = args) :
    ∀ token ∈ args, token ≠ sep ∧ table.isOption token = false := by
  induction args with
  | nil => simp
  | cons a args ih =>
    rw [permutedOperands] at all
    split at all
    · exact absurd all (List.cons_ne_self a args).symm
    · rename_i apart
      split at all
      · have shorter := (all ▸ permutedOperands_sublist args).length_le
        exact absurd shorter (by simp)
      · rename_i operand
        simp only [List.cons.injEq, true_and] at all
        intro token member
        rcases List.mem_cons.mp member with rfl | member
        · exact ⟨apart, Bool.eq_false_iff.mpr operand⟩
        · exact ih all token member

theorem UpTo.permutedOperands_eq (upTo : table.UpTo sep rest args) : table.permutedOperands sep false args = rest := by
  induction upTo with
  | here plain =>
    induction rest with
    | nil => rfl
    | cons a rest ih =>
      obtain ⟨apart, operand⟩ := plain a (List.mem_cons_self ..)
      rw [permutedOperands, if_neg apart, if_neg (by simp [operand]), ih fun token member => plain token (.tail a member)]
  | separator => rw [permutedOperands, if_pos rfl]
  | option apart isOption more ih => rw [permutedOperands, if_neg apart, if_pos isOption, permutedOperands_taken, ih]

theorem upTo_of_permutedOperands (read : table.permutedOperands sep taken args = rest) (suffix : rest <:+ args)
    (unheralded : Unheralded rest args) : table.UpTo sep rest (args.drop taken.toNat) := by
  induction args generalizing taken with
  | nil =>
    rw [permutedOperands_nil] at read
    subst read
    rw [List.drop_nil]
    exact .here (by simp)
  | cons a args ih =>
    have within {taken : Bool} (read : table.permutedOperands sep taken args = rest) : rest <:+ args :=
      suffix_of_length_le suffix (read ▸ (permutedOperands_sublist args).length_le)
    cases taken with
    | true => exact ih read (within read) unheralded.tail
    | false =>
      have all := read
      rw [permutedOperands] at read
      split at read
      · rename_i same
        rw [same, read]
        exact .separator
      · rename_i apart
        split at read
        · rename_i isOption
          exact .option apart isOption (ih read (within read) unheralded.tail)
        · rcases List.suffix_cons_iff.mp suffix with whole | inner
          · rw [whole] at all ⊢
            exact .here (plain_of_permutedOperands all)
          · obtain ⟨before, split⟩ := inner
            refine absurd (List.mem_cons_self ..) (unheralded (a :: before) ?_ a ?_)
            · rw [List.cons_append, split]
            · simp [← read]

/-- A suffix is what the permuting reading yields if and only if the tokens before it are options. -/
theorem permutedOperands_eq_iff (suffix : rest <:+ args) (unheralded : Unheralded rest args) :
    table.permutedOperands sep false args = rest ↔ table.UpTo sep rest args :=
  ⟨fun read => upTo_of_permutedOperands read suffix unheralded, UpTo.permutedOperands_eq⟩

end OptionTable

end Collections
