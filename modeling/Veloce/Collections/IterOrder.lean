import Mathlib.Data.List.FinRange

/-! Enumeration orders of unordered collections. Every place that iterates over
an unordered collection may see its own permutation of the entries. -/

namespace Collections

/-- For each iteration site, the permutation it applies to a list of each length. -/
def IterOrder (Site : Type) := Site → (count : Nat) → Equiv.Perm (Fin count)

namespace IterOrder

variable {Site α : Type}

/-- The order in which the entries are stored. -/
def stored : IterOrder Site := fun _ count => Equiv.refl (Fin count)

def shuffle (order : IterOrder Site) (site : Site) (items : List α) : List α :=
  List.ofFn (items.get ∘ order site items.length)

theorem shuffle_perm (order : IterOrder Site) (site : Site) (items : List α) :
    (order.shuffle site items).Perm items := by
  have moved := Equiv.Perm.ofFn_comp_perm (order site items.length) items.get
  rwa [List.ofFn_get] at moved

variable {order : IterOrder Site} {items : List α}

@[simp] theorem mem_shuffle {site : Site} {item : α} :
    item ∈ order.shuffle site items ↔ item ∈ items :=
  (order.shuffle_perm site items).mem_iff

theorem shuffle_nodup {site : Site} (distinct : items.Nodup) : (order.shuffle site items).Nodup :=
  (order.shuffle_perm site items).nodup_iff.mpr distinct

theorem shuffle_map_nodup {site : Site} {β : Type} {field : α → β} (distinct : (items.map field).Nodup) :
    ((order.shuffle site items).map field).Nodup :=
  ((order.shuffle_perm site items).map field).nodup_iff.mpr distinct

theorem exists_shuffle_cons (site : Site) {item : α} (member : item ∈ items) :
    ∃ (order : IterOrder Site) (rest : List α), order.shuffle site items = item :: rest := by
  obtain ⟨index, bound, same⟩ := List.mem_iff_getElem.mp member
  let order : IterOrder Site := fun _ count =>
    if inside : index < count then Equiv.swap ⟨0, Nat.zero_lt_of_lt inside⟩ ⟨index, inside⟩ else Equiv.refl _
  have first : (order.shuffle site items)[0]? = some item := by
    have positive : 0 < items.length := Nat.zero_lt_of_lt bound
    rw [shuffle, List.getElem?_ofFn, dif_pos positive, ← same]
    simp [order, bound]
  obtain ⟨rest, whole⟩ := List.head?_eq_some_iff.mp (List.head?_eq_getElem?.trans first)
  exact ⟨order, rest, whole⟩

end IterOrder

end Collections
