import Mathlib.Algebra.BigOperators.Group.List.Basic
import Mathlib.Algebra.Order.Ring.Nat

/-! Lists whose items take room, as the characters of a text take bytes. -/

namespace Collections.Slices

variable {α : Type} (room : α → Nat)

def size (list : List α) : Nat := (list.map room).sum

/-- What stands before the position and what stands behind it. -/
def cutAt : (position : Nat) → (list : List α) → Option (List α × List α)
  | 0, list => some ([], list)
  | _ + 1, [] => none
  | position + 1, item :: list =>
    if room item ≤ position + 1 then
      (cutAt (position + 1 - room item) list).map fun (front, back) => (item :: front, back)
    else none

/-- No item reaches over the position. -/
def Boundary (list : List α) (position : Nat) : Prop := ∃ front back, list = front ++ back ∧ size room front = position

/-- What stands between two positions. -/
def slice (list : List α) (start stop : Nat) : Option (List α) :=
  if start ≤ stop then
    (cutAt room start list).bind fun (_, rest) => (cutAt room (stop - start) rest).map Prod.fst
  else none

/-- What the first `count` of some reads give together. -/
def gather (read : Nat → Option (List α)) : (count : Nat) → Option (List α)
  | 0 => some []
  | count + 1 => (gather read count).bind fun front => (read count).map (front ++ ·)

section Cuts

variable {room} {list front back piece : List α} {position start stop : Nat}

@[simp] theorem size_nil : size room ([] : List α) = 0 := rfl

@[simp] theorem size_cons (item : α) (list : List α) : size room (item :: list) = room item + size room list := by
  simp [size]

@[simp] theorem size_append (front back : List α) : size room (front ++ back) = size room front + size room back := by
  simp [size]

theorem boundary_size (list : List α) : Boundary room list (size room list) := ⟨list, [], by simp, rfl⟩

theorem size_one (list : List α) : size (fun _ => 1) list = list.length := by simp [size]

theorem boundary_one (inside : position ≤ size (fun _ => 1) list) : Boundary (fun _ => 1) list position := by
  rw [size_one] at inside
  exact ⟨list.take position, list.drop position, (List.take_append_drop ..).symm, by rw [size_one, List.length_take_of_le inside]⟩

theorem read_of_gather {read : Nat → Option (List α)} {count index : Nat} (whole : (gather read count).isSome)
    (inside : index < count) : (read index).isSome := by
  induction count with
  | zero => exact absurd inside (Nat.not_lt_zero _)
  | succ count ih =>
    obtain ⟨all, done⟩ := Option.isSome_iff_exists.mp whole
    rw [gather] at done
    obtain ⟨front, earlier, done⟩ := Option.bind_eq_some_iff.mp done
    obtain ⟨piece, last, _⟩ := Option.map_eq_some_iff.mp done
    rcases Nat.lt_succ_iff_lt_or_eq.mp inside with before | rfl
    · exact ih (by rw [earlier]; rfl) before
    · rw [last]
      rfl

variable (filled : ∀ item, 0 < room item)
include filled

theorem size_eq_zero : size room list = 0 ↔ list = [] := by
  cases list with
  | nil => simp
  | cons item list =>
    have some := filled item
    simp
    omega

theorem cutAt_append (front list : List α) (position : Nat) : cutAt room (size room front + position) (front ++ list) =
    (cutAt room position list).map fun (middle, back) => (front ++ middle, back) := by
  induction front with
  | nil => simp [Option.map_id']
  | cons item front ih =>
    have some := filled item
    rw [size_cons]
    obtain ⟨count, same⟩ := Nat.exists_eq_succ_of_ne_zero (show room item + size room front + position ≠ 0 by omega)
    have rest : count + 1 - room item = size room front + position := by omega
    rw [same, List.cons_append, cutAt, if_pos (by omega), rest, ih, Option.map_map]
    rfl

theorem cutAt_size (front back : List α) : cutAt room (size room front) (front ++ back) = some (front, back) := by
  have cut := cutAt_append filled front back 0
  simpa [cutAt] using cut

theorem cutAt_eq_some_iff :
    cutAt room position list = some (front, back) ↔ list = front ++ back ∧ size room front = position := by
  constructor
  · intro cut
    induction list generalizing position front with
    | nil =>
      cases position with
      | zero => cases cut; exact ⟨rfl, rfl⟩
      | succ => cases cut
    | cons item list ih =>
      cases position with
      | zero => cases cut; exact ⟨rfl, rfl⟩
      | succ position =>
        rw [cutAt] at cut
        split at cut
        · rename_i fits
          obtain ⟨⟨front', back'⟩, rest, same⟩ := Option.map_eq_some_iff.mp cut
          cases same
          obtain ⟨rfl, measured⟩ := ih rest
          refine ⟨rfl, ?_⟩
          rw [size_cons, measured]
          omega
        · cases cut
  · rintro ⟨rfl, rfl⟩
    exact cutAt_size filled front back

theorem boundary_iff : Boundary room list position ↔ (cutAt room position list).isSome := by
  rw [Option.isSome_iff_exists]
  constructor
  · rintro ⟨front, back, cut⟩
    exact ⟨(front, back), (cutAt_eq_some_iff filled).mpr cut⟩
  · rintro ⟨⟨front, back⟩, cut⟩
    exact ⟨front, back, (cutAt_eq_some_iff filled).mp cut⟩

theorem cut_unique {front' back' : List α} (same : front ++ back = front' ++ back')
    (measured : size room front = size room front') : front = front' ∧ back = back' := by
  have cut := cutAt_size filled front back
  rw [same, measured, cutAt_size filled front' back'] at cut
  cases cut
  exact ⟨rfl, rfl⟩

theorem slice_eq_some_iff : slice room list start stop = some piece ↔
    ∃ front back, list = front ++ piece ++ back ∧ size room front = start ∧ start + size room piece = stop := by
  rw [slice]
  constructor
  · intro cut
    split at cut
    · rename_i ordered
      obtain ⟨⟨front, rest⟩, first, cut⟩ := Option.bind_eq_some_iff.mp cut
      obtain ⟨⟨piece', back⟩, second, same⟩ := Option.map_eq_some_iff.mp cut
      cases same
      obtain ⟨rfl, start'⟩ := (cutAt_eq_some_iff filled).mp first
      obtain ⟨rfl, stop'⟩ := (cutAt_eq_some_iff filled).mp second
      simp only at stop' ⊢
      exact ⟨front, back, by rw [List.append_assoc], start', by omega⟩
    · cases cut
  · rintro ⟨front, back, rfl, rfl, rfl⟩
    rw [if_pos (Nat.le_add_right ..), List.append_assoc, cutAt_size filled, Nat.add_sub_cancel_left]
    simp only [Option.bind_some, cutAt_size filled, Option.map_some]

theorem slice_isSome_iff : (slice room list start stop).isSome ↔
    start ≤ stop ∧ Boundary room list start ∧ Boundary room list stop := by
  rw [Option.isSome_iff_exists]
  constructor
  · rintro ⟨piece, cut⟩
    obtain ⟨front, back, rfl, rfl, rfl⟩ := (slice_eq_some_iff filled).mp cut
    exact ⟨Nat.le_add_right .., ⟨front, piece ++ back, List.append_assoc .., rfl⟩, ⟨front ++ piece, back, rfl, size_append ..⟩⟩
  · rintro ⟨ordered, ⟨front, rest, rfl, rfl⟩, ⟨front', back, same, rfl⟩⟩
    rcases List.append_eq_append_iff.mp same with ⟨middle, rfl, rfl⟩ | ⟨middle, rfl, rfl⟩
    · exact ⟨middle, (slice_eq_some_iff filled).mpr ⟨front, back, by rw [List.append_assoc], rfl, (size_append ..).symm⟩⟩
    · have none : middle = [] := (size_eq_zero filled).mp (by rw [size_append] at ordered; omega)
      exact ⟨[], (slice_eq_some_iff filled).mpr ⟨front', middle ++ rest, by simp, by simp [none], by simp [none]⟩⟩

/-- Consecutive slices of one length make up the list if and only if none of them begins
inside an item. -/
theorem gather_eq_iff {read : Nat → Option (List α)} {count step : Nat}
    (enough : size room list ≤ count * step) (needed : ∀ index < count, index * step < size room list)
    (reads : ∀ index < count, read index = slice room list (index * step) (min (index * step + step) (size room list))) :
    gather read count = some list ↔ ∀ index, index * step < size room list → Boundary room list (index * step) := by
  constructor
  · intro whole index inside
    have early : index < count := Nat.lt_of_mul_lt_mul_right (Nat.lt_of_lt_of_le inside enough)
    have done := read_of_gather (by rw [whole]; rfl) early
    rw [reads index early] at done
    exact ((slice_isSome_iff filled).mp done).2.1
  · intro boundaries
    have within (upto : Nat) (bound : upto ≤ count) : ∃ front back, list = front ++ back ∧
        size room front = min (upto * step) (size room list) ∧ gather read upto = some front := by
      induction upto with
      | zero => exact ⟨[], list, rfl, by simp, rfl⟩
      | succ upto ih =>
        obtain ⟨front, back, same, measured, gathered⟩ := ih (Nat.le_of_succ_le bound)
        have inside := needed upto bound
        have next : Boundary room list (min (upto * step + step) (size room list)) := by
          rcases Nat.lt_or_ge ((upto + 1) * step) (size room list) with more | last
          · rw [Nat.succ_mul] at more
            rw [Nat.min_eq_left (Nat.le_of_lt more), ← Nat.succ_mul]
            exact boundaries (upto + 1) (by rwa [Nat.succ_mul])
          · rw [Nat.succ_mul] at last
            rw [Nat.min_eq_right last]
            exact boundary_size list
        have ordered : upto * step ≤ min (upto * step + step) (size room list) := by omega
        obtain ⟨piece, cut⟩ := Option.isSome_iff_exists.mp
          ((slice_isSome_iff filled).mpr ⟨ordered, boundaries upto inside, next⟩)
        obtain ⟨front', back', same', measured', stops⟩ := (slice_eq_some_iff filled).mp cut
        have start : size room front = size room front' := by omega
        obtain ⟨rfl, _⟩ := cut_unique filled (by rw [← same, same', List.append_assoc]) start
        refine ⟨front ++ piece, back', same', ?_, ?_⟩
        · rw [size_append, measured', stops, Nat.succ_mul]
        · rw [gather, gathered, reads upto bound, cut]
          rfl
    obtain ⟨front, back, same, measured, gathered⟩ := within count (Nat.le_refl _)
    rw [Nat.min_eq_right enough] at measured
    obtain ⟨rfl, _⟩ := cut_unique filled (by rw [← same, List.append_nil] : front ++ back = list ++ []) measured
    exact gathered

end Cuts

end Collections.Slices
