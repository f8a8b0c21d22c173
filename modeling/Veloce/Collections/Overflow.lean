import Mathlib.Data.Nat.ModEq

/-! Sums in machine integers. What does not fit into the type panics in a debug build and
wraps in a release build; either way a result is right modulo the size of the type. -/

namespace Collections

inductive Build where
  | debug
  | release
deriving DecidableEq

/-- The result of an operation on integers of so many bits; `none` is a panic. -/
def Build.fit (build : Build) (bits value : Nat) : Option Nat :=
  if value < 2 ^ bits then some value
  else match build with
    | .debug => none
    | .release => some (value % 2 ^ bits)

def Build.fitI32 (build : Build) (value : Int) : Option Int :=
  if -2 ^ 31 ≤ value ∧ value < 2 ^ 31 then some value
  else match build with
    | .debug => none
    | .release => some (value.bmod (2 ^ 32))

section Fit

variable {build : Build} {bits value result : Nat}

theorem Build.fit_of_lt (small : value < 2 ^ bits) : build.fit bits value = some value := if_pos small

theorem Build.fit_lt (fits : build.fit bits value = some result) : result < 2 ^ bits := by
  unfold Build.fit at fits
  split at fits
  · rename_i small
    cases fits
    exact small
  · cases build with
    | debug => cases fits
    | release =>
      cases fits
      exact Nat.mod_lt _ (Nat.two_pow_pos bits)

theorem Build.fit_modEq (fits : build.fit bits value = some result) : result ≡ value [MOD 2 ^ bits] := by
  unfold Build.fit at fits
  split at fits
  · cases fits
    rfl
  · cases build with
    | debug => cases fits
    | release =>
      cases fits
      exact Nat.mod_modEq _ _

end Fit

section Folds

variable {S A : Type} {step : S → A → Option S} {start final : S} {items : List A}

theorem foldlM_invariant {Inv : S → Prop} (keeps : ∀ state item next, Inv state → step state item = some next → Inv next)
    (base : Inv start) (ran : items.foldlM step start = some final) : Inv final := by
  induction items generalizing start with
  | nil =>
    cases ran
    exact base
  | cons item rest ih =>
    rw [List.foldlM_cons] at ran
    obtain ⟨next, taken, ran⟩ := Option.bind_eq_some_iff.mp ran
    exact ih (keeps _ _ _ base taken) ran

end Folds

end Collections
