import Mathlib.Algebra.BigOperators.Group.List.Lemmas
import Mathlib.Algebra.Order.Ring.Nat
import Mathlib.Data.List.Dedup
import Mathlib.Data.List.Induction
import Mathlib.Data.List.Sort
import Mathlib.Order.Defs.LinearOrder

/-! Maps that are kept in the order of their keys, and grouping the items of a list in one:
what the map has for a key is what the items of that key add up to. -/

namespace Collections

/-- The entries with an entry put in its place or over the one of its key. -/
def insertEntry {K V : Type} [LinearOrder K] (key : K) (value : V) : List (K × V) → List (K × V)
  | [] => [(key, value)]
  | (other, stored) :: rest =>
    if key < other then (key, value) :: (other, stored) :: rest
    else if key = other then (key, value) :: rest
    else (other, stored) :: insertEntry key value rest

section Entries

variable {K V : Type} [LinearOrder K] {key other : K} {value : V} {entries : List (K × V)}

theorem mem_insertEntry {entry : K × V} (member : entry ∈ insertEntry key value entries) :
    entry = (key, value) ∨ entry ∈ entries := by
  induction entries with
  | nil => exact .inl (List.mem_singleton.mp member)
  | cons first rest ih =>
    obtain ⟨other, stored⟩ := first
    rw [insertEntry] at member
    split at member
    · exact List.mem_cons.mp member
    · split at member
      · exact (List.mem_cons.mp member).imp_right (List.mem_cons_of_mem _)
      · rcases List.mem_cons.mp member with rfl | later
        · exact .inr List.mem_cons_self
        · exact (ih later).imp_right (List.mem_cons_of_mem _)

theorem sorted_insertEntry (sorted : entries.Pairwise fun a b => a.1 < b.1) :
    (insertEntry key value entries).Pairwise fun a b => a.1 < b.1 := by
  induction entries with
  | nil => exact List.pairwise_singleton _ _
  | cons first rest ih =>
    obtain ⟨other, stored⟩ := first
    obtain ⟨above, later⟩ := List.pairwise_cons.mp sorted
    rw [insertEntry]
    split
    · rename_i less
      refine List.pairwise_cons.mpr ⟨fun entry member => ?_, sorted⟩
      rcases List.mem_cons.mp member with rfl | member
      · exact less
      · exact less.trans (above entry member)
    · split
      · rename_i same
        exact List.pairwise_cons.mpr ⟨fun entry member => same ▸ above entry member, later⟩
      · rename_i least other'
        refine List.pairwise_cons.mpr ⟨fun entry member => ?_, ih later⟩
        rcases mem_insertEntry member with rfl | member
        · exact lt_of_le_of_ne (not_lt.mp least) fun same => other' same.symm
        · exact above entry member

theorem find?_insertEntry (sorted : entries.Pairwise fun a b => a.1 < b.1) :
    (insertEntry key value entries).find? (fun entry => entry.1 = other) =
      if other = key then some (key, value) else entries.find? fun entry => entry.1 = other := by
  induction entries with
  | nil =>
    by_cases same : other = key
    · simp [insertEntry, same]
    · simp [insertEntry, same, Ne.symm same]
  | cons first rest ih =>
    obtain ⟨found, stored⟩ := first
    obtain ⟨above, later⟩ := List.pairwise_cons.mp sorted
    rw [insertEntry]
    split
    · rename_i less
      by_cases same : other = key
      · simp [same]
      · rw [List.find?_cons_of_neg (by simpa using Ne.symm same), if_neg same]
    · split
      · rename_i here
        subst here
        by_cases same : other = key
        · simp [same]
        · rw [List.find?_cons_of_neg (by simpa using Ne.symm same), if_neg same,
            List.find?_cons_of_neg (by simpa using Ne.symm same)]
      · rename_i apart
        by_cases here : found = other
        · subst here
          simp [Ne.symm apart]
        · rw [List.find?_cons_of_neg (by simpa using here), List.find?_cons_of_neg (by simpa using here), ih later]

end Entries

structure BTreeMap (K V : Type) [LinearOrder K] where
  entries : List (K × V) := []
  sorted : entries.Pairwise fun a b => a.1 < b.1 := by exact .nil

namespace BTreeMap

variable {K V : Type} [LinearOrder K] {map : BTreeMap K V} {key other : K} {value : V}

def get? (map : BTreeMap K V) (key : K) : Option V := (map.entries.find? fun entry => entry.1 = key).map Prod.snd

def insert (map : BTreeMap K V) (key : K) (value : V) : BTreeMap K V :=
  ⟨insertEntry key value map.entries, sorted_insertEntry map.sorted⟩

def keys (map : BTreeMap K V) : List K := map.entries.map Prod.fst

theorem sorted_keys (map : BTreeMap K V) : map.keys.Pairwise (· < ·) := List.pairwise_map.mpr map.sorted

theorem keys_nodup (map : BTreeMap K V) : map.keys.Nodup := map.sorted_keys.imp fun less => less.ne

@[simp] theorem get?_empty (key : K) : ({} : BTreeMap K V).get? key = none := rfl

theorem get?_insert (map : BTreeMap K V) (key other : K) (value : V) :
    (map.insert key value).get? other = if other = key then some value else map.get? other := by
  rw [get?, insert, find?_insertEntry map.sorted]
  split
  · rfl
  · rfl

theorem mem_entries : (key, value) ∈ map.entries ↔ map.get? key = some value := by
  rw [get?, Option.map_eq_some_iff]
  constructor
  · intro member
    refine ⟨(key, value), ?_, rfl⟩
    obtain ⟨entry, found⟩ : ∃ entry, map.entries.find? (fun entry => entry.1 = key) = some entry :=
      Option.isSome_iff_exists.mp (List.find?_isSome.mpr ⟨_, member, by simp⟩)
    have same := List.find?_some found
    have member' := List.mem_of_find?_eq_some found
    rw [decide_eq_true_eq] at same
    rw [found, List.inj_on_of_nodup_map map.keys_nodup member' member same]
  · rintro ⟨⟨found, stored⟩, present, rfl⟩
    have same := List.find?_some present
    rw [decide_eq_true_eq] at same
    exact same ▸ List.mem_of_find?_eq_some present

theorem mem_keys : key ∈ map.keys ↔ ∃ value, map.get? key = some value := by
  rw [keys, List.mem_map]
  constructor
  · rintro ⟨⟨found, value⟩, member, rfl⟩
    exact ⟨value, mem_entries.mp member⟩
  · rintro ⟨value, present⟩
    exact ⟨_, mem_entries.mpr present, rfl⟩

theorem keys_eq {W : Type} {map' : BTreeMap K W} (same : ∀ key, key ∈ map.keys ↔ key ∈ map'.keys) : map.keys = map'.keys :=
  List.Pairwise.eq_of_mem_iff map.sorted_keys map'.sorted_keys same

theorem map_entries {R : Type} {read : K × V → R} {value : K → R}
    (reads : ∀ key stored, map.get? key = some stored → read (key, stored) = value key) :
    map.entries.map read = map.keys.map value := by
  rw [keys, List.map_map]
  exact List.map_congr_left fun entry member => reads entry.1 entry.2 (mem_entries.mp member)

section Group

variable {A : Type}

/-- Every item is added to what the map has for its key; a failure ends the loop. -/
def groupStep (key : A → K) (add : Option V → A → Option V) (map : BTreeMap K V) (item : A) : Option (BTreeMap K V) := do
  let value ← add (map.get? (key item)) item
  return map.insert (key item) value

def group (key : A → K) (add : Option V → A → Option V) (items : List A) : Option (BTreeMap K V) :=
  items.foldlM (groupStep key add) {}

def total (add : Option V → A → Option V) (items : List A) : Option (Option V) :=
  items.foldlM (fun value item => (add value item).map some) none

variable {key : A → K} {add : Option V → A → Option V} {items : List A}

theorem group_append (items : List A) (item : A) :
    group key add (items ++ [item]) = (group key add items).bind fun map => groupStep key add map item := by
  rw [group, List.foldlM_append, ← group]
  simp

theorem total_append (items : List A) (item : A) :
    total add (items ++ [item]) = (total add items).bind fun value => (add value item).map some := by
  rw [total, List.foldlM_append, ← total]
  simp

/-- The map has for each key what its items add up to. -/
theorem total_of_group {map : BTreeMap K V} (grouped : group key add items = some map) (name : K) :
    total add (items.filter fun item => key item = name) = some (map.get? name) := by
  induction items using List.reverseRecOn generalizing map with
  | nil =>
    cases grouped
    rfl
  | append_singleton items item ih =>
    rw [group_append] at grouped
    obtain ⟨before, earlier, stepped⟩ := Option.bind_eq_some_iff.mp grouped
    obtain ⟨value, added, same⟩ := Option.bind_eq_some_iff.mp stepped
    cases same
    rw [List.filter_append, get?_insert]
    by_cases own : key item = name
    · subst own
      rw [List.filter_singleton, decide_eq_true rfl, cond_true, total_append, ih earlier, Option.bind_some, added, if_pos rfl]
      rfl
    · rw [List.filter_singleton, decide_eq_false own, cond_false, List.append_nil, ih earlier, if_neg (Ne.symm own)]

theorem total_eq_none_iff {value : Option V} (whole : total add items = some value) : value = none ↔ items = [] := by
  induction items using List.reverseRecOn with
  | nil =>
    cases whole
    exact iff_of_true rfl rfl
  | append_singleton items item _ =>
    rw [total_append] at whole
    obtain ⟨before, _, added⟩ := Option.bind_eq_some_iff.mp whole
    obtain ⟨last, _, same⟩ := Option.map_eq_some_iff.mp added
    subst same
    exact iff_of_false (fun none => nomatch none) (by simp)

theorem mem_keys_of_group {map : BTreeMap K V} (grouped : group key add items = some map) {name : K} :
    name ∈ map.keys ↔ ∃ item ∈ items, key item = name := by
  have none := total_eq_none_iff (total_of_group grouped name)
  rw [List.filter_eq_nil_iff] at none
  rw [mem_keys, ← Option.isSome_iff_exists, Option.isSome_iff_ne_none, ne_eq, none]
  simp

/-- The grouping succeeds if the items of each key can be added up. -/
theorem exists_group (adds : ∀ name, ∃ value, total add (items.filter fun item => key item = name) = some value) :
    ∃ map, group key add items = some map := by
  induction items using List.reverseRecOn with
  | nil => exact ⟨_, rfl⟩
  | append_singleton items item ih =>
    obtain ⟨map, grouped⟩ := ih fun name => by
      obtain ⟨value, whole⟩ := adds name
      rw [List.filter_append, total, List.foldlM_append] at whole
      obtain ⟨before, earlier, -⟩ := Option.bind_eq_some_iff.mp whole
      exact ⟨before, earlier⟩
    obtain ⟨value, whole⟩ := adds (key item)
    rw [List.filter_append, List.filter_singleton, decide_eq_true rfl, cond_true, total_append,
      total_of_group grouped, Option.bind_some, Option.map_eq_some_iff] at whole
    obtain ⟨value, added, -⟩ := whole
    refine ⟨map.insert (key item) value, ?_⟩
    rw [group_append, grouped, Option.bind_some, groupStep, added]
    rfl

end Group

end BTreeMap

/-- Grouping items by a key loses none of them: the groups of some keys have as many items
as there are items with such a key. -/
theorem sum_countP_fibers {A K : Type} [DecidableEq K] {items : List A} {keys : List K} (key : A → K) (keeps : K → Prop)
    [DecidablePred keeps] (nodup : keys.Nodup) (present : ∀ name, name ∈ keys ↔ ∃ item ∈ items, key item = name) :
    ((keys.filter fun name => keeps name).map fun name => items.countP fun item => key item = name).sum =
      items.countP fun item => keeps (key item) := by
  have same : keys.Perm (items.map key).dedup := by
    refine (List.perm_ext_iff_of_nodup nodup (List.nodup_dedup _)).mpr fun name => ?_
    rw [present, List.mem_dedup, List.mem_map]
  have own := List.sum_map_count_dedup_filter_eq_countP (fun name => decide (keeps name)) (items.map key)
  rw [List.countP_map] at own
  rw [((same.filter _).map _).sum_eq]
  refine Eq.trans (congrArg List.sum (List.map_congr_left fun name _ => ?_)) own
  rw [List.count_eq_countP, List.countP_map]
  refine List.countP_congr fun item _ => ?_
  simp

end Collections
