import Mathlib.Data.List.Nodup
import Mathlib.Data.List.Perm.Subperm

/-! Numbered messages on their way: what was sent so far, and what is still held somewhere. -/

namespace Collections

variable {M : Type} {sent held held' : List (Nat × M)} {msg : Nat × M}

/-- The messages are numbered in the order they were sent, and only those are held. -/
structure Custody (sent held : List (Nat × M)) : Prop where
  numbers : sent.map Prod.fst = List.range sent.length
  within : held.Subperm sent

namespace Custody

theorem nil : Custody ([] : List (Nat × M)) [] := ⟨rfl, .refl _⟩

theorem distinct (valid : Custody sent held) : sent.Nodup := by
  refine List.Nodup.of_map Prod.fst ?_
  rw [valid.numbers]
  exact List.nodup_range

/-- Nothing was let go exactly if as much is held as was sent. -/
theorem kept_iff (valid : Custody sent held) : sent ⊆ held ↔ sent.length ≤ held.length := by
  constructor
  · intro kept
    exact (List.subperm_of_subset valid.distinct kept).length_le
  · intro enough
    exact (valid.within.perm_of_length_le enough).symm.subset

theorem perm_iff (valid : Custody sent held) : held.Perm sent ↔ sent ⊆ held := by
  constructor
  · intro same
    exact same.symm.subset
  · intro kept
    exact valid.within.perm_of_length_le (valid.kept_iff.mp kept)

theorem number_lt (valid : Custody sent held) (member : msg ∈ held) : msg.1 < sent.length := by
  have number : msg.1 ∈ sent.map Prod.fst := List.mem_map_of_mem (valid.within.subset member)
  rw [valid.numbers] at number
  exact List.mem_range.mp number

theorem drop (valid : Custody sent held) (fewer : held'.Subperm held) :
    Custody sent held' ∧ (sent ⊆ held' ↔ sent ⊆ held ∧ held.length ≤ held'.length) := by
  have after : Custody sent held' := ⟨valid.numbers, fewer.trans valid.within⟩
  have fewest := fewer.length_le
  have most := valid.within.length_le
  refine ⟨after, ?_⟩
  rw [after.kept_iff, valid.kept_iff]
  omega

theorem move (valid : Custody sent held) (same : held'.Perm held) :
    Custody sent held' ∧ (sent ⊆ held' ↔ sent ⊆ held) := by
  refine ⟨⟨valid.numbers, same.subperm_right.mpr valid.within⟩, ?_⟩
  rw [List.subset_def, List.subset_def]
  simp only [same.mem_iff]

theorem send (valid : Custody sent held) (content : M) (taken : held'.Perm ((sent.length, content) :: held)) :
    Custody (sent ++ [(sent.length, content)]) held' ∧ (sent ++ [(sent.length, content)] ⊆ held' ↔ sent ⊆ held) := by
  have ends : (sent ++ [(sent.length, content)]).Perm ((sent.length, content) :: sent) :=
    List.perm_append_singleton _ _
  have after : Custody (sent ++ [(sent.length, content)]) held' := by
    constructor
    · rw [List.map_append, valid.numbers, List.length_append, List.length_singleton, List.range_succ]
      rfl
    · rw [taken.subperm_right, ends.subperm_left]
      exact (List.subperm_cons _).mpr valid.within
  refine ⟨after, ?_⟩
  rw [after.kept_iff, valid.kept_iff, taken.length_eq, List.length_append, List.length_singleton, List.length_cons]
  omega

theorem lose (valid : Custody sent held) (dropped : held.Perm (msg :: held')) :
    Custody sent held' ∧ ¬ sent ⊆ held' := by
  have after : Custody sent held' :=
    ⟨valid.numbers, (List.sublist_cons_self msg held').subperm.trans (dropped.subperm_right.mp valid.within)⟩
  refine ⟨after, fun kept => ?_⟩
  have enough := after.kept_iff.mp kept
  have bound := valid.within.length_le
  rw [dropped.length_eq, List.length_cons] at bound
  omega

end Custody

end Collections
