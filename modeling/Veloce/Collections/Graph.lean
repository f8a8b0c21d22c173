import Mathlib.Logic.Relation

/-! Directed graphs as relations: cycles, and what a search has to establish. -/

namespace Collections

open Relation

variable {V : Type} {edge edge' : V → V → Prop}

def Acyclic (edge : V → V → Prop) : Prop := ∀ vertex, ¬ TransGen edge vertex vertex

theorem Acyclic.mono (acyclic : Acyclic edge) (fewer : ∀ a b, edge' a b → edge a b) : Acyclic edge' :=
  fun vertex cycle => acyclic vertex (TransGen.mono fewer _ _ cycle)

/-- A set that contains the start, is closed and misses the target separates them. -/
theorem not_reaches_of_closed {start target : V} (inside : V → Prop) (holds : inside start)
    (closed : ∀ a b, inside a → edge a b → inside b) (misses : ¬ inside target) :
    ¬ ReflTransGen edge start target := by
  intro path
  apply misses
  clear misses
  induction path with
  | refl => exact holds
  | tail _ last ih => exact closed _ _ ih last

section Insert

variable {node : V}

theorem reaches_of_changed (others : ∀ a b, a ≠ node → edge' a b → edge a b) {start : V}
    (path : ReflTransGen edge' start node) : ReflTransGen edge start node := by
  induction path using ReflTransGen.head_induction_on with
  | refl => exact .refl
  | @head a b first _ ih =>
    by_cases same : a = node
    · exact same ▸ .refl
    · exact .head (others a b same first) ih

/-- A path stays with the old edges or goes through the changed vertex. -/
theorem transGen_changed (others : ∀ a b, a ≠ node → edge' a b → edge a b) {start final : V}
    (path : TransGen edge' start final) :
    TransGen edge start final ∨ ReflTransGen edge' start node ∧ TransGen edge' node final := by
  induction path with
  | @single b first =>
    by_cases same : start = node
    · subst same
      exact .inr ⟨.refl, .single first⟩
    · exact .inl (.single (others start b same first))
  | @tail b c path last ih =>
    by_cases same : b = node
    · subst same
      exact .inr ⟨path.to_reflTransGen, .single last⟩
    · rcases ih with old | ⟨before, after⟩
      · exact .inl (old.tail (others b c same last))
      · exact .inr ⟨before, after.tail last⟩

/-- New edges of one vertex make no cycle if none of their ends leads back to it. -/
theorem Acyclic.change (acyclic : Acyclic edge) (others : ∀ a b, a ≠ node → edge' a b → edge a b)
    (leaves : ∀ b, edge' node b → ¬ ReflTransGen edge b node) : Acyclic edge' := by
  have away : ¬ TransGen edge' node node := by
    intro cycle
    obtain ⟨b, first, back⟩ := TransGen.head'_iff.mp cycle
    exact leaves b first (reaches_of_changed others back)
  intro vertex cycle
  rcases transGen_changed others cycle with old | ⟨before, after⟩
  · exact acyclic vertex old
  · exact away (after.trans_left before)

end Insert

end Collections
