import Mathlib.Data.List.TakeDrop
import Mathlib.Data.List.TakeWhile

/-! Lists that are joined with a separator between them, and taken apart again. -/

namespace Collections

variable {α : Type} {sep : α}

theorem mem_splitOn [DecidableEq α] {list piece : List α} (member : piece ∈ list.splitOn sep) :
    sep ∉ piece ∧ ∀ item ∈ piece, item ∈ list := by
  induction list generalizing piece with
  | nil =>
    rw [List.splitOn_nil, List.mem_singleton] at member
    subst member
    exact ⟨List.not_mem_nil, fun _ inside => absurd inside List.not_mem_nil⟩
  | cons head tail ih =>
    rw [List.splitOn_cons_eq_if_modifyHead] at member
    split at member
    · rcases List.mem_cons.mp member with rfl | later
      · exact ⟨List.not_mem_nil, fun _ inside => absurd inside List.not_mem_nil⟩
      · exact ⟨(ih later).1, fun item inside => List.mem_cons_of_mem _ ((ih later).2 item inside)⟩
    · rename_i other
      cases pieces : tail.splitOn sep with
      | nil => exact absurd pieces (List.splitOn_ne_nil sep tail)
      | cons first rest =>
        have inside : first ∈ tail.splitOn sep := pieces ▸ List.mem_cons_self ..
        have first' := ih inside
        rw [pieces, List.modifyHead_cons] at member
        rcases List.mem_cons.mp member with rfl | later
        · refine ⟨fun inside => ?_, fun item inside => ?_⟩
          · rcases List.mem_cons.mp inside with same | inside
            · exact other (by simp [same])
            · exact first'.1 inside
          · rcases List.mem_cons.mp inside with rfl | inside
            · exact List.mem_cons_self ..
            · exact List.mem_cons_of_mem _ (first'.2 item inside)
        · have later' := ih (pieces ▸ List.mem_cons_of_mem _ later)
          exact ⟨later'.1, fun item inside => List.mem_cons_of_mem _ (later'.2 item inside)⟩

variable {left : List α}

theorem splitOn_append_left [DecidableEq α] (apart : sep ∉ left) (right : List α) :
    (left ++ right).splitOn sep = (right.splitOn sep).modifyHead (left ++ ·) := by
  induction left with
  | nil =>
    rw [List.nil_append]
    cases right.splitOn sep <;> rfl
  | cons item left ih =>
    have other : item ≠ sep := fun same => apart (same ▸ List.mem_cons_self)
    rw [List.cons_append, List.splitOn_cons_eq_if_modifyHead, if_neg (by simp [other]),
      ih fun member => apart (List.mem_cons_of_mem _ member)]
    cases right.splitOn sep <;> rfl

theorem splitOn_append [DecidableEq α] (apart : sep ∉ left) (right : List α) :
    (left ++ sep :: right).splitOn sep = left :: right.splitOn sep := by
  rw [splitOn_append_left apart, List.splitOn_cons_eq_if_modifyHead, if_pos (beq_self_eq_true sep), List.modifyHead_cons,
    List.append_nil]

theorem splitOn_append_right [DecidableEq α] {right : List α} (apart : sep ∉ right) (left : List α) :
    ∃ front last, left.splitOn sep = front ++ [last] ∧ (left ++ right).splitOn sep = front ++ [last ++ right] := by
  induction left with
  | nil => exact ⟨[], [], List.splitOn_nil sep, List.splitOn_eq_singleton apart⟩
  | cons item left ih =>
    obtain ⟨front, last, before, after⟩ := ih
    rw [List.cons_append, List.splitOn_cons_eq_if_modifyHead, List.splitOn_cons_eq_if_modifyHead, before, after]
    split
    · exact ⟨[] :: front, last, rfl, rfl⟩
    · cases front with
      | nil => exact ⟨[], item :: last, rfl, rfl⟩
      | cons first front => exact ⟨(item :: first) :: front, last, rfl, rfl⟩

/-- A list is cut at the first separator, if there is one. -/
theorem span_of_not_mem [DecidableEq α] {list : List α} (apart : sep ∉ list) : list.span (· ≠ sep) = (list, []) := by
  have whole : ∀ item ∈ list, decide (item ≠ sep) = true := fun item member => decide_eq_true fun same => apart (same ▸ member)
  rw [List.span_eq_takeWhile_dropWhile, List.takeWhile_eq_self_iff.mpr whole, List.dropWhile_eq_nil_iff.mpr whole]

theorem span_append [DecidableEq α] (apart : sep ∉ left) (right : List α) :
    (left ++ sep :: right).span (· ≠ sep) = (left, sep :: right) := by
  have whole : ∀ item ∈ left, decide (item ≠ sep) = true := fun item member => decide_eq_true fun same => apart (same ▸ member)
  rw [List.span_eq_takeWhile_dropWhile, List.takeWhile_append_of_pos whole, List.dropWhile_append_of_pos whole]
  simp

theorem mem_intercalate {lists : List (List α)} {item : α} (member : item ∈ [sep].intercalate lists) :
    item = sep ∨ ∃ list ∈ lists, item ∈ list := by
  induction lists with
  | nil =>
    rw [List.intercalate_nil] at member
    exact absurd member List.not_mem_nil
  | cons head tail ih =>
    by_cases last : tail = []
    · rw [last, List.intercalate_singleton] at member
      exact .inr ⟨head, List.mem_cons_self .., member⟩
    · rw [List.intercalate_cons_of_ne_nil last] at member
      simp only [List.mem_append, List.mem_singleton] at member
      rcases member with (here | same) | later
      · exact .inr ⟨head, List.mem_cons_self .., here⟩
      · exact .inl same
      · exact (ih later).imp_right fun ⟨list, inside, found⟩ => ⟨list, List.mem_cons_of_mem _ inside, found⟩

/-- Lists come back from the joined list if and only if none of them has the separator;
no lists at all come back as an empty one. -/
theorem splitOn_intercalate_iff [DecidableEq α] {lists : List (List α)} :
    ([sep].intercalate lists).splitOn sep = lists ↔ lists ≠ [] ∧ ∀ list ∈ lists, sep ∉ list := by
  constructor
  · intro back
    refine ⟨fun empty => ?_, fun list member => ?_⟩
    · rw [empty] at back
      exact List.splitOn_ne_nil _ _ back
    · rw [← back] at member
      exact (mem_splitOn member).1
  · rintro ⟨filled, apart⟩
    exact List.splitOn_intercalate sep apart filled

end Collections
