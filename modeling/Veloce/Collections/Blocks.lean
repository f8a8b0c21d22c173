import Mathlib.Data.List.Flatten
import Mathlib.Algebra.BigOperators.Group.List.Basic
import Mathlib.Algebra.Order.Ring.Nat

/-! A count split evenly into blocks of consecutive numbers. -/

namespace Collections

/-- Blocks of consecutive numbers with the given sizes. -/
def blocks (size : Nat → Nat) (count : Nat) : List (List Nat) :=
  (List.range count).map fun index => (List.range (size index)).map (((List.range index).map size).sum + ·)

/-- The size of a block in an even split: the first ones take one more while some remain. -/
def evenShare (total count index : Nat) : Nat := total / count + if index < total % count then 1 else 0

variable {total count index : Nat}

theorem sum_range_succ (size : Nat → Nat) (count : Nat) :
    ((List.range (count + 1)).map size).sum = ((List.range count).map size).sum + size count := by
  rw [List.range_succ, List.map_append, List.sum_append, List.map_singleton, List.sum_singleton]

theorem sum_range_le (size : Nat → Nat) {reach reach' : Nat} (within : reach ≤ reach') :
    ((List.range reach).map size).sum ≤ ((List.range reach').map size).sum := by
  induction within with
  | refl => exact Nat.le_refl _
  | step _ ih =>
    rw [sum_range_succ]
    exact Nat.le_add_right_of_le ih

theorem flatten_blocks (size : Nat → Nat) (count : Nat) :
    (blocks size count).flatten = List.range ((List.range count).map size).sum := by
  induction count with
  | zero => rfl
  | succ count ih =>
    rw [blocks, List.range_succ, List.map_append, List.flatten_append, ← blocks, ih, ← List.range_succ,
      sum_range_succ, List.range_add]
    simp

theorem sum_evenShare_upto (total count reach : Nat) :
    ((List.range reach).map (evenShare total count)).sum = reach * (total / count) + min reach (total % count) := by
  induction reach with
  | zero => simp
  | succ reach ih =>
    rw [sum_range_succ, ih, evenShare, Nat.succ_mul]
    split
    · omega
    · omega

theorem sum_evenShare (total : Nat) (some : 0 < count) :
    ((List.range count).map (evenShare total count)).sum = total := by
  have rest := Nat.mod_lt total some
  rw [sum_evenShare_upto, Nat.min_eq_right (Nat.le_of_lt rest), Nat.div_add_mod]

theorem evenShare_le (total count index other : Nat) : evenShare total count index ≤ evenShare total count other + 1 := by
  unfold evenShare
  split <;> split <;> omega

theorem evenShare_eq_zero_iff (inside : index < count) : evenShare total count index = 0 ↔ total ≤ index := by
  unfold evenShare
  by_cases small : total < count
  · rw [Nat.div_eq_of_lt small, Nat.mod_eq_of_lt small]
    split <;> omega
  · have share : 0 < total / count := Nat.div_pos (Nat.le_of_not_lt small) (Nat.zero_lt_of_lt inside)
    omega

/-- Leaving out parts changes nothing when they are empty, and only then. -/
theorem flatMap_filter_eq_iff {α β : Type} {items : List α} {keep : α → Bool} {part : α → List β} :
    (items.filter keep).flatMap part = items.flatMap part ↔ ∀ item ∈ items, keep item = false → part item = [] := by
  induction items with
  | nil => simp
  | cons first rest ih =>
    rw [List.filter_cons, List.flatMap_cons, List.forall_mem_cons]
    split
    · rename_i kept
      rw [List.flatMap_cons, List.append_cancel_left_eq, ih]
      simp [kept]
    · rename_i dropped
      constructor
      · intro same
        have sub : (rest.filter keep).Sublist rest := List.filter_sublist
        have shorter := (sub.flatMap part).length_le
        have lengths := congrArg List.length same
        rw [List.length_append] at lengths
        have empty : part first = [] := List.length_eq_zero_iff.mp (by omega)
        rw [empty, List.nil_append] at same
        exact ⟨fun _ => empty, ih.mp same⟩
      · rintro ⟨empty, others⟩
        rw [empty (eq_false_of_ne_true dropped), List.nil_append]
        exact ih.mpr others

end Collections
