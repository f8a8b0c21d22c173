import Mathlib.Data.List.Nodup

/-! Vouchers that can be used once: those that are live, those ever issued, and the keys of
those that have been used. -/

namespace Collections

variable {K V : Type}

/-- What is live has been issued, and what has been used was issued and is live no more. -/
structure Vouchers (live issued : K → Option V) (used : List K) : Prop where
  known : ∀ key value, live key = some value → issued key = some value
  once : used.Nodup
  spent : ∀ key ∈ used, live key = none ∧ (issued key).isSome

namespace Vouchers

variable {live live' issued issued' : K → Option V} {used : List K} {key : K} {value : V}

theorem empty : Vouchers (fun _ : K => (none : Option V)) (fun _ => none) [] :=
  ⟨fun _ _ found => (nomatch found), .nil, fun _ member => (nomatch member)⟩

theorem restrict (valid : Vouchers live issued used)
    (fewer : ∀ key value, live' key = some value → live key = some value) : Vouchers live' issued used where
  known key value found := valid.known key value (fewer key value found)
  once := valid.once
  spent key member := by
    obtain ⟨dead, known⟩ := valid.spent key member
    refine ⟨?_, known⟩
    cases found : live' key with
    | none => rfl
    | some value => exact absurd (dead.symm.trans (fewer key value found)) (by simp)

theorem issue (valid : Vouchers live issued used) (fresh : issued key = none)
    (added : live' key = some value) (others : ∀ other, other ≠ key → live' other = live other)
    (noted : issued' key = some value) (notes : ∀ other, other ≠ key → issued' other = issued other) :
    Vouchers live' issued' used where
  known other value' found := by
    by_cases same : other = key
    · rw [same] at found ⊢
      exact noted.trans (added.symm.trans found)
    · rw [others other same] at found
      exact (notes other same).trans (valid.known other value' found)
  once := valid.once
  spent other member := by
    obtain ⟨dead, known⟩ := valid.spent other member
    have different : other ≠ key := fun same => by
      rw [same, fresh] at known
      cases known
    rw [others other different, notes other different]
    exact ⟨dead, known⟩

/-- A live voucher has not been used, and is live no more after its use. -/
theorem redeem (valid : Vouchers live issued used) (there : live key = some value) (gone : live' key = none)
    (fewer : ∀ key value, live' key = some value → live key = some value) : Vouchers live' issued (key :: used) where
  known := (valid.restrict fewer).known
  once := by
    refine List.nodup_cons.mpr ⟨fun member => ?_, valid.once⟩
    exact absurd ((valid.spent key member).1.symm.trans there) (by simp)
  spent other member := by
    rcases List.mem_cons.mp member with same | member
    · rw [same]
      exact ⟨gone, by rw [valid.known key value there]; rfl⟩
    · exact (valid.restrict fewer).spent other member

end Vouchers

end Collections
