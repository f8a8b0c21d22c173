import Mathlib.Init

/-! Broadcast channels that keep their last values. -/

namespace Collections

namespace Broadcast

variable {α : Type}

/-- The value at a position, or that some were missed, and the next position; `none` while
there is nothing to read. -/
def recv (capacity : Nat) (sent : List α) (next : Nat) : Option (Option α × Nat) :=
  if next + capacity < sent.length then some (none, sent.length - capacity)
  else sent[next]?.map fun value => (some value, next + 1)

section Lemmas

variable {capacity next next' : Nat} {sent : List α} {value : α}

theorem recv_near (near : sent.length ≤ next + capacity) :
    recv capacity sent next = sent[next]?.map fun value => (some value, next + 1) :=
  if_neg (Nat.not_lt.mpr near)

theorem recv_some (received : recv capacity sent next = some (some value, next')) :
    sent[next]? = some value ∧ next' = next + 1 := by
  unfold recv at received
  split at received
  · cases received
  · obtain ⟨found, present, same⟩ := Option.map_eq_some_iff.mp received
    cases same
    exact ⟨present, rfl⟩

theorem recv_missed (received : recv capacity sent next = some (none, next')) :
    next + capacity < sent.length ∧ next' = sent.length - capacity := by
  unfold recv at received
  split at received
  · rename_i behind
    cases received
    exact ⟨behind, rfl⟩
  · obtain ⟨found, _, same⟩ := Option.map_eq_some_iff.mp received
    cases same

/-- A receiver waits only if it has read everything. -/
theorem le_of_recv_none (waits : recv capacity sent next = none) : sent.length ≤ next := by
  unfold recv at waits
  split at waits
  · cases waits
  · exact List.getElem?_eq_none_iff.mp (Option.map_eq_none_iff.mp waits)

end Lemmas

end Broadcast

end Collections
