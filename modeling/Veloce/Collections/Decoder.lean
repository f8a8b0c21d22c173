import Mathlib.Data.List.Induction

/-! Input that comes in pieces. -/

namespace Collections

/-- How to take one frame off the front. A frame that is there as a whole is not changed by
what follows it. -/
structure Cutter (α F : Type) where
  next : List α → Option (F × List α)
  shorter : ∀ {input rest : List α} {frame : F}, next input = some (frame, rest) → rest.length < input.length
  stable : ∀ {input rest : List α} {frame : F} (more : List α),
    next input = some (frame, rest) → next (input ++ more) = some (frame, rest ++ more)

namespace Cutter

variable {α F : Type} (cutter : Cutter α F)

def cut : (fuel : Nat) → List α → List F × List α
  | 0, input => ([], input)
  | fuel + 1, input =>
    match cutter.next input with
    | some (frame, rest) => (frame :: (cut fuel rest).1, (cut fuel rest).2)
    | none => ([], input)

/-- All whole frames, and what is left. Every frame shortens the input. -/
def cutAll (input : List α) : List F × List α := cutter.cut input.length input

def feed (state : List F × List α) (piece : List α) : List F × List α :=
  (state.1 ++ (cutter.cutAll (state.2 ++ piece)).1, (cutter.cutAll (state.2 ++ piece)).2)

variable {cutter} {input rest : List α} {frame : F}

theorem next_nil : cutter.next [] = none := by
  cases found : cutter.next [] with
  | none => rfl
  | some cutOff => exact absurd (cutter.shorter found) (Nat.not_lt_zero _)

theorem cut_nil (fuel : Nat) : cutter.cut fuel [] = ([], []) := by
  cases fuel with
  | zero => rfl
  | succ fuel => rw [cut, next_nil]

theorem cut_fuel : ∀ {fuel : Nat} (fuel' : Nat) {input : List α}, input.length ≤ fuel → input.length ≤ fuel' →
    cutter.cut fuel input = cutter.cut fuel' input := by
  intro fuel
  induction fuel with
  | zero =>
    intro fuel' input enough _
    rw [List.length_eq_zero_iff.mp (Nat.le_zero.mp enough), cut_nil, cut_nil]
  | succ fuel ih =>
    intro fuel' input enough enough'
    cases fuel' with
    | zero => rw [List.length_eq_zero_iff.mp (Nat.le_zero.mp enough'), cut_nil, cut_nil]
    | succ fuel' =>
      rw [cut, cut]
      split
      · rename_i frame rest found
        have shorter := cutter.shorter found
        rw [ih fuel' (by omega) (by omega)]
      · rfl

theorem cutAll_some (found : cutter.next input = some (frame, rest)) :
    cutter.cutAll input = (frame :: (cutter.cutAll rest).1, (cutter.cutAll rest).2) := by
  have shorter := cutter.shorter found
  cases count : input.length with
  | zero => omega
  | succ fuel =>
    rw [cutAll, count, cut, found]
    simp only
    rw [cut_fuel rest.length (by omega) (Nat.le_refl _)]
    rfl

theorem cutAll_none (absent : cutter.next input = none) : cutter.cutAll input = ([], input) := by
  unfold cutAll
  cases input.length with
  | zero => rfl
  | succ fuel => rw [cut, absent]

theorem cutAll_append (input more : List α) :
    cutter.cutAll (input ++ more) = cutter.feed (cutter.cutAll input) more := by
  induction size : input.length using Nat.strongRecOn generalizing input with
  | ind size ih =>
    cases found : cutter.next input with
    | none =>
      rw [cutAll_none found]
      rfl
    | some cutOff =>
      obtain ⟨frame, rest⟩ := cutOff
      have shorter := cutter.shorter found
      rw [cutAll_some (cutter.stable more found), ih rest.length (by omega) rest rfl, cutAll_some found]
      rfl

theorem foldl_feed (pieces : List (List α)) : pieces.foldl cutter.feed ([], []) = cutter.cutAll pieces.flatten := by
  induction pieces using List.reverseRecOn with
  | nil => rw [List.flatten_nil, cutAll_none next_nil, List.foldl_nil]
  | append_singleton pieces piece ih =>
    rw [List.foldl_append, ih, List.flatten_append, List.flatten_singleton, cutAll_append]
    rfl

theorem cutAll_flatMap {β : Type} {encode : β → List α} {decode : β → F} {items : List β}
    (reads : ∀ item ∈ items, ∀ more, cutter.next (encode item ++ more) = some (decode item, more)) :
    cutter.cutAll (items.flatMap encode) = (items.map decode, []) := by
  induction items with
  | nil => rw [List.flatMap_nil, cutAll_none next_nil, List.map_nil]
  | cons item others ih =>
    rw [List.flatMap_cons, cutAll_some (reads item List.mem_cons_self _),
      ih fun other member => reads other (List.mem_cons_of_mem _ member)]
    rfl

end Cutter

end Collections
