import Mathlib.Algebra.Order.BigOperators.Group.Finset
import Mathlib.Algebra.Order.BigOperators.Group.List
import Mathlib.Algebra.Order.Ring.Nat
import Mathlib.Data.List.AList
import Mathlib.Data.List.Dedup

/-! Finite maps and sets with unique keys. -/

namespace Collections

/-- A finite map over the certified association lists of Mathlib. -/
def HashMap (K V : Type) := AList (fun _ : K => V)

namespace HashMap

variable {K V W : Type}

def empty : HashMap K V := (∅ : AList fun _ : K => V)

instance : EmptyCollection (HashMap K V) := ⟨empty⟩

instance : Inhabited (HashMap K V) := ⟨empty⟩

def keys (map : HashMap K V) : List K := AList.keys map

def toList (map : HashMap K V) : List (K × V) :=
  (AList.entries map).map fun entry => (entry.1, entry.2)

def values (map : HashMap K V) : List V := map.toList.map Prod.snd

def isEmpty (map : HashMap K V) : Bool := map.keys.isEmpty

theorem keys_nodup (map : HashMap K V) : map.keys.Nodup := AList.keys_nodup map

theorem toList_keys (map : HashMap K V) : map.toList.map Prod.fst = map.keys := by
  simp [toList, keys, AList.keys, List.keys, Function.comp_def]

theorem toList_keys_nodup (map : HashMap K V) : (map.toList.map Prod.fst).Nodup := by
  rw [toList_keys]
  exact map.keys_nodup

theorem toList_nodup (map : HashMap K V) : map.toList.Nodup := map.toList_keys_nodup.of_map Prod.fst

theorem keys_filter_nodup (map : HashMap K V) (test : K × V → Bool) : ((map.toList.filter test).map Prod.fst).Nodup :=
  map.toList_keys_nodup.sublist (List.filter_sublist.map Prod.fst)

section Lookup

variable [DecidableEq K]

def get? (map : HashMap K V) (key : K) : Option V := AList.lookup key map

def contains (map : HashMap K V) (key : K) : Bool := (map.get? key).isSome

def getD (map : HashMap K V) (key : K) (default : V) : V := (map.get? key).getD default

def insert (map : HashMap K V) (key : K) (value : V) : HashMap K V := AList.insert key value map

def remove (map : HashMap K V) (key : K) : HashMap K V := AList.erase key map

/-- Update through a mutable reference: nothing happens for an absent key. -/
def modify (map : HashMap K V) (key : K) (update : V → V) : HashMap K V :=
  match map.get? key with
  | some value => map.insert key (update value)
  | none => map

def ofList (pairs : List (K × V)) : HashMap K V :=
  pairs.foldl (fun map pair => map.insert pair.1 pair.2) ∅

/-- Put pairs over a map; a later pair replaces an earlier one. -/
def extend (map : HashMap K V) (pairs : List (K × V)) : HashMap K V :=
  pairs.foldl (fun map pair => map.insert pair.1 pair.2) map

def retain (map : HashMap K V) (keep : K → V → Bool) : HashMap K V :=
  ⟨(AList.entries map).filter fun entry => keep entry.1 entry.2,
    List.NodupKeys.sublist List.filter_sublist (AList.nodupKeys map)⟩

@[simp] theorem get?_empty (key : K) : (∅ : HashMap K V).get? key = none := rfl

theorem get?_insert (map : HashMap K V) (key other : K) (value : V) :
    (map.insert key value).get? other = if other = key then some value else map.get? other := by
  by_cases same : other = key
  · subst same
    rw [if_pos rfl]
    exact AList.lookup_insert map
  · rw [if_neg same]
    exact AList.lookup_insert_ne same

@[simp] theorem get?_insert_self (map : HashMap K V) (key : K) (value : V) :
    (map.insert key value).get? key = some value := by
  simp [get?_insert]

theorem get?_ofList_map (keys : List K) (value : K → V) (key : K) :
    (ofList (keys.map fun key => (key, value key))).get? key = if key ∈ keys then some (value key) else none := by
  induction keys using List.reverseRecOn with
  | nil => rfl
  | append_singleton rest last ih =>
    rw [ofList] at ih ⊢
    rw [List.map_append, List.foldl_append, List.map_singleton, List.foldl_cons, List.foldl_nil, get?_insert, ih]
    by_cases same : key = last
    · simp [same]
    · simp [same]

theorem get?_remove (map : HashMap K V) (key other : K) :
    (map.remove key).get? other = if other = key then none else map.get? other := by
  by_cases same : other = key
  · subst same
    rw [if_pos rfl]
    exact AList.lookup_erase other map
  · rw [if_neg same]
    exact AList.lookup_erase_ne same

@[simp] theorem get?_remove_self (map : HashMap K V) (key : K) :
    (map.remove key).get? key = none := by
  simp [get?_remove]

theorem get?_modify (map : HashMap K V) (key other : K) (update : V → V) :
    (map.modify key update).get? other =
      if other = key then (map.get? key).map update else map.get? other := by
  unfold modify
  cases found : map.get? key with
  | none =>
    by_cases same : other = key
    · simp [same, found]
    · simp [same]
  | some value => simp [get?_insert]

variable {map map' : HashMap K V} {key : K} {pairs : List (K × V)} {value : V}

theorem contains_iff : map.contains key = true ↔ ∃ value, map.get? key = some value :=
  Option.isSome_iff_exists

@[simp] theorem contains_modify (map : HashMap K V) (key other : K) (update : V → V) :
    (map.modify key update).contains other = map.contains other := by
  rw [contains, contains, get?_modify]
  split
  · rename_i same
    rw [Option.isSome_map, same]
  · rfl

theorem contains_insert {key other : K} (present : map.contains other = true) :
    (map.insert key value).contains other = true := by
  rw [contains, get?_insert]
  split
  · rfl
  · exact present

theorem mem_toList :
    (key, value) ∈ map.toList ↔ map.get? key = some value := by
  have looked : map.get? key = some value ↔ Sigma.mk key value ∈ AList.entries map :=
    AList.mem_lookup_iff
  rw [looked, toList, List.mem_map]
  constructor
  · rintro ⟨entry, member, same⟩
    cases entry
    cases same
    exact member
  · intro member
    exact ⟨_, member, rfl⟩

theorem mem_keys_filter {test : K × V → Bool} :
    key ∈ (map.toList.filter test).map Prod.fst ↔ ∃ value, map.get? key = some value ∧ test (key, value) = true := by
  rw [List.mem_map]
  constructor
  · rintro ⟨⟨name, value⟩, member, rfl⟩
    obtain ⟨listed, passes⟩ := List.mem_filter.mp member
    exact ⟨value, mem_toList.mp listed, passes⟩
  · rintro ⟨value, found, passes⟩
    exact ⟨(key, value), List.mem_filter.mpr ⟨mem_toList.mpr found, passes⟩, rfl⟩

theorem get?_extend_of_notMem (absent : ∀ value, (key, value) ∉ pairs) :
    (map.extend pairs).get? key = map.get? key := by
  induction pairs generalizing map with
  | nil => rfl
  | cons pair rest ih =>
    have other : key ≠ pair.1 := fun same => absent pair.2 (same ▸ List.mem_cons_self)
    rw [extend, List.foldl_cons, ← extend, ih fun value member => absent value (List.mem_cons_of_mem _ member),
      get?_insert, if_neg other]

theorem exists_get?_extend (map : HashMap K V) (member : (key, value) ∈ pairs) :
    ∃ last, (key, last) ∈ pairs ∧ (map.extend pairs).get? key = some last := by
  induction pairs generalizing map value with
  | nil => cases member
  | cons pair rest ih =>
    by_cases later : ∃ value, (key, value) ∈ rest
    · obtain ⟨value, member⟩ := later
      obtain ⟨last, member, found⟩ := ih (map.insert pair.1 pair.2) member
      exact ⟨last, List.mem_cons_of_mem _ member, found⟩
    · have same : (key, value) = pair := (List.mem_cons.mp member).resolve_right fun member => later ⟨value, member⟩
      refine ⟨value, member, ?_⟩
      rw [extend, List.foldl_cons, ← extend, get?_extend_of_notMem fun value member => later ⟨value, member⟩, ← same]
      exact get?_insert_self _ _ _

theorem get?_extend_cases (found : (map.extend pairs).get? key = some value) :
    (key, value) ∈ pairs ∨ (∀ other, (key, other) ∉ pairs) ∧ map.get? key = some value := by
  by_cases present : ∃ other, (key, other) ∈ pairs
  · obtain ⟨other, member⟩ := present
    obtain ⟨last, member, found'⟩ := exists_get?_extend map member
    cases found.symm.trans found'
    exact .inl member
  · have absent : ∀ other, (key, other) ∉ pairs := fun other member => present ⟨other, member⟩
    exact .inr ⟨absent, (get?_extend_of_notMem absent).symm.trans found⟩

theorem perm_toList_extend (distinct : (pairs.map Prod.fst).Nodup) :
    ((∅ : HashMap K V).extend pairs).toList.Perm pairs := by
  refine (List.perm_ext_iff_of_nodup (toList_nodup _) distinct.of_map).mpr fun (key, value) => ?_
  rw [mem_toList]
  constructor
  · intro found
    rcases get?_extend_cases found with member | ⟨_, empty⟩
    · exact member
    · cases empty
  · intro member
    obtain ⟨last, member', found⟩ := exists_get?_extend ∅ member
    cases List.inj_on_of_nodup_map distinct member member' rfl
    exact found

theorem mem_keys : key ∈ map.keys ↔ ∃ value, map.get? key = some value := by
  rw [← toList_keys, List.mem_map]
  constructor
  · rintro ⟨⟨found, value⟩, member, same⟩
    cases same
    exact ⟨value, mem_toList.mp member⟩
  · rintro ⟨value, found⟩
    exact ⟨(key, value), mem_toList.mpr found, rfl⟩

theorem mem_values :
    value ∈ map.values ↔ ∃ key, map.get? key = some value := by
  rw [values, List.mem_map]
  constructor
  · rintro ⟨⟨key, found⟩, member, same⟩
    cases same
    exact ⟨key, mem_toList.mp member⟩
  · rintro ⟨key, found⟩
    exact ⟨(key, value), mem_toList.mpr found, rfl⟩

/-- Two maps with the same entries, however they are enumerated. -/
def Same (map map' : HashMap K V) : Prop := ∀ key, map.get? key = map'.get? key

theorem Same.refl (map : HashMap K V) : map.Same map := fun _ => rfl

theorem Same.symm (same : map.Same map') : map'.Same map := fun key => (same key).symm

theorem Same.trans {map map' map'' : HashMap K V} (first : map.Same map') (second : map'.Same map'') :
    map.Same map'' := fun key => (first key).trans (second key)

theorem Same.perm_toList (same : map.Same map') : map.toList.Perm map'.toList := by
  refine (List.perm_ext_iff_of_nodup map.toList_nodup map'.toList_nodup).mpr fun entry => ?_
  rw [mem_toList, mem_toList, same]

def total (map : HashMap K V) (weight : K → V → Nat) : Nat :=
  (map.toList.map fun entry => weight entry.1 entry.2).sum

theorem Same.total_eq (same : map.Same map') (weight : K → V → Nat) :
    map.total weight = map'.total weight := (same.perm_toList.map _).sum_nat

theorem total_le {weight weight' : K → V → Nat}
    (bound : ∀ key value, map.get? key = some value → weight key value ≤ weight' key value) :
    map.total weight ≤ map.total weight' :=
  List.sum_le_sum fun entry member => bound entry.1 entry.2 (mem_toList.mp member)

theorem total_insert (map : HashMap K V) (key : K) (value : V) (weight : K → V → Nat) :
    (map.insert key value).total weight = weight key value + (map.remove key).total weight := rfl

theorem total_of_get? (found : map.get? key = some value) (weight : K → V → Nat) :
    map.total weight = weight key value + (map.remove key).total weight := by
  have same : map.Same (map.insert key value) := by
    intro other
    rw [get?_insert]
    split
    · rename_i own
      rw [own, found]
    · rfl
  rw [same.total_eq weight, total_insert]

theorem total_replace (found : map.get? key = some value) (value' : V) (weight : K → V → Nat) :
    (map.insert key value').total weight + weight key value = map.total weight + weight key value' := by
  rw [total_insert, total_of_get? found]
  omega

theorem total_remove_absent (absent : map.get? key = none) (weight : K → V → Nat) :
    (map.remove key).total weight = map.total weight := by
  refine Same.total_eq (fun other => ?_) weight
  rw [get?_remove]
  split
  · rename_i own
    rw [own, absent]
  · rfl

theorem sum_keys {measure : K → Nat} {weight : K → V → Nat}
    (same : ∀ key value, map.get? key = some value → measure key = weight key value) :
    (map.keys.map measure).sum = map.total weight := by
  rw [← toList_keys, List.map_map, total]
  congr 1
  apply List.map_congr_left
  intro entry member
  exact same entry.1 entry.2 (mem_toList.mp member)

theorem total_eq_sum (map : HashMap K V) (weight : K → V → Nat) :
    map.total weight = ∑ key ∈ map.keys.toFinset, (map.get? key).elim 0 (weight key) := by
  rw [List.sum_toFinset _ map.keys_nodup]
  exact (sum_keys fun key value found => by rw [found, Option.elim_some]).symm

/-- A map weighs no more than one that has each of its entries of some weight in a
version of at least that weight. -/
theorem total_le_total {weight weight' : K → V → Nat}
    (bound : ∀ key value', map'.get? key = some value' → weight' key value' ≠ 0 →
      ∃ value, map.get? key = some value ∧ weight' key value' ≤ weight key value) :
    map'.total weight' ≤ map.total weight := by
  have lighter (key : K) : (map'.get? key).elim 0 (weight' key) ≤ (map.get? key).elim 0 (weight key) := by
    cases found : map'.get? key with
    | none => exact Nat.zero_le _
    | some value' =>
      by_cases nothing : weight' key value' = 0
      · rw [Option.elim_some, nothing]
        exact Nat.zero_le _
      · obtain ⟨value, stored, less⟩ := bound key value' found nothing
        rw [stored]
        exact less
  rw [total_eq_sum, total_eq_sum]
  refine (Finset.sum_le_sum fun key _ => lighter key).trans ?_
  apply Finset.sum_le_sum_of_ne_zero
  intro key _ some
  rw [List.mem_toFinset, mem_keys]
  cases found : map.get? key with
  | none =>
    rw [found] at some
    exact absurd rfl some
  | some value => exact ⟨value, rfl⟩

theorem get?_retain (map : HashMap K V) (keep : K → V → Bool) (key : K) :
    (map.retain keep).get? key = (map.get? key).filter (keep key) := by
  have member (value : V) : (map.retain keep).get? key = some value ↔
      map.get? key = some value ∧ keep key value = true := by
    rw [← mem_toList, ← mem_toList]
    simp only [toList, retain, List.mem_map, List.mem_filter]
    constructor
    · rintro ⟨⟨found, stored⟩, ⟨inside, kept⟩, same⟩
      cases same
      exact ⟨⟨_, inside, rfl⟩, kept⟩
    · rintro ⟨⟨⟨found, stored⟩, inside, same⟩, kept⟩
      cases same
      exact ⟨_, ⟨inside, kept⟩, rfl⟩
  apply Option.ext
  intro value
  rw [member, Option.filter_eq_some_iff]

def mapValues (map : HashMap K V) (update : K → V → V) : HashMap K V :=
  ⟨(AList.entries map).map fun entry => ⟨entry.1, update entry.1 entry.2⟩, by
    rw [List.NodupKeys, List.keys, List.map_map]
    exact map.keys_nodup⟩

theorem get?_mapValues (map : HashMap K V) (update : K → V → V) (key : K) :
    (map.mapValues update).get? key = (map.get? key).map (update key) := by
  have member (value : V) : (map.mapValues update).get? key = some value ↔
      ∃ stored, map.get? key = some stored ∧ update key stored = value := by
    rw [← mem_toList]
    simp only [← mem_toList, toList, mapValues, List.mem_map]
    constructor
    · rintro ⟨_, ⟨⟨found, stored⟩, inside, rfl⟩, same⟩
      cases same
      exact ⟨stored, ⟨_, inside, rfl⟩, rfl⟩
    · rintro ⟨_, ⟨⟨found, stored⟩, inside, same⟩, rfl⟩
      cases same
      exact ⟨_, ⟨_, inside, rfl⟩, rfl⟩
  apply Option.ext
  intro value
  rw [member, Option.map_eq_some_iff]

omit [DecidableEq K] in
theorem mapValues_mapValues (map : HashMap K V) (first second : K → V → V) :
    (map.mapValues first).mapValues second = map.mapValues fun key value => second key (first key value) := by
  apply AList.ext
  exact List.map_map

theorem mapValues_congr {update update' : K → V → V}
    (same : ∀ key value, map.get? key = some value → update key value = update' key value) :
    map.mapValues update = map.mapValues update' := by
  apply AList.ext
  refine List.map_congr_left fun entry inside => ?_
  rw [same entry.1 entry.2 (mem_toList.mp (List.mem_map.mpr ⟨entry, inside, rfl⟩))]

omit [DecidableEq K] in
theorem mapValues_self (map : HashMap K V) : (map.mapValues fun _ value => value) = map := by
  apply AList.ext
  exact List.map_id _

/-- Visit the entries of `entries` and rewrite the same key of `map` where
`write` yields a value. -/
def updateEntries (entries : HashMap K W) (write : K → W → Option V → Option V)
    (map : HashMap K V) : HashMap K V :=
  entries.toList.foldl (fun map entry =>
    match write entry.1 entry.2 (map.get? entry.1) with
    | some value => map.insert entry.1 value
    | none => map) map

private theorem get?_update_absent (write : K → W → Option V → Option V) (key : K) :
    ∀ (pairs : List (K × W)) (map : HashMap K V), key ∉ pairs.map Prod.fst →
      (pairs.foldl (fun map entry =>
        match write entry.1 entry.2 (map.get? entry.1) with
        | some value => map.insert entry.1 value
        | none => map) map).get? key = map.get? key := by
  intro pairs
  induction pairs with
  | nil => intro map _; rfl
  | cons pair rest ih =>
    intro map missing
    obtain ⟨different, later⟩ : key ≠ pair.1 ∧ key ∉ rest.map Prod.fst := by
      simpa only [List.map_cons, List.mem_cons, not_or] using missing
    rw [List.foldl_cons, ih _ later]
    split
    · rw [get?_insert, if_neg different]
    · rfl

private theorem get?_update_present (write : K → W → Option V → Option V) (key : K) (stored : W) :
    ∀ (pairs : List (K × W)) (map : HashMap K V), (pairs.map Prod.fst).Nodup →
      (key, stored) ∈ pairs →
      (pairs.foldl (fun map entry =>
        match write entry.1 entry.2 (map.get? entry.1) with
        | some value => map.insert entry.1 value
        | none => map) map).get? key = (write key stored (map.get? key)).or (map.get? key) := by
  intro pairs
  induction pairs with
  | nil => intro map _ member; cases member
  | cons pair rest ih =>
    intro map distinct member
    obtain ⟨fresh, restDistinct⟩ := List.nodup_cons.mp distinct
    rw [List.foldl_cons]
    rcases List.mem_cons.mp member with same | later
    · subst same
      rw [get?_update_absent write key rest _ fresh]
      cases written : write key stored (map.get? key) <;> simp
    · have different : key ≠ pair.1 := by
        intro same
        exact fresh (List.mem_map.mpr ⟨_, later, same⟩)
      rw [ih _ restDistinct later]
      split <;> simp [get?_insert, different]

theorem get?_updateEntries (entries : HashMap K W) (write : K → W → Option V → Option V)
    (map : HashMap K V) (key : K) :
    (entries.updateEntries write map).get? key =
      match entries.get? key with
      | some stored => (write key stored (map.get? key)).or (map.get? key)
      | none => map.get? key := by
  cases found : entries.get? key with
  | some stored => exact get?_update_present write key stored _ map entries.toList_keys_nodup (mem_toList.mpr found)
  | none =>
    apply get?_update_absent
    rw [toList_keys, mem_keys]
    simp [found]

/-- A loop of updates over a list of keys, where repeating an update changes
nothing. -/
theorem get?_foldl_modify (update : K → V → V) (settled : ∀ key value, update key (update key value) = update key value)
    (keys : List K) (key : K) : ∀ map : HashMap K V,
    (keys.foldl (fun map name => map.modify name (update name)) map).get? key =
      if key ∈ keys then (map.get? key).map (update key) else map.get? key := by
  induction keys with
  | nil => intro map; simp
  | cons name rest ih =>
    intro map
    rw [List.foldl_cons, ih, get?_modify]
    by_cases same : key = name
    · subst same
      by_cases later : key ∈ rest
      · simp only [later, ↓reduceIte, List.mem_cons, or_true, Option.map_map]
        exact congrArg (fun update => (map.get? key).map update) (funext (settled key))
      · simp [later]
    · simp [same]

/-- Append every item to the list stored under its own key. -/
def groupBy (key : W → Option K) (items : List W) : HashMap K (List W) :=
  items.foldl (fun groups item =>
    match key item with
    | some name => groups.insert name (groups.getD name [] ++ [item])
    | none => groups) ∅

private theorem groupBy_fold (key : W → Option K) (name : K) :
    ∀ (items : List W) (groups : HashMap K (List W)),
      (items.foldl (fun groups item =>
        match key item with
        | some name => groups.insert name (groups.getD name [] ++ [item])
        | none => groups) groups).getD name [] =
          groups.getD name [] ++ items.filter (fun item => key item = some name) := by
  intro items
  induction items with
  | nil => intro groups; simp
  | cons item rest ih =>
    intro groups
    rw [List.foldl_cons, ih]
    cases named : key item with
    | none => simp [named]
    | some other =>
      by_cases same : name = other
      · subst same
        simp [getD, named]
      · simp [getD, get?_insert, named, same, Ne.symm same]

theorem getD_groupBy (key : W → Option K) (items : List W) (name : K) :
    (groupBy key items).getD name [] = items.filter (fun item => key item = some name) := by
  rw [groupBy, groupBy_fold]
  rfl

/-- A group is the sublist of the items with its key, in their order. -/
theorem groupBy_sublist {key : W → Option K} {items group : List W}
    (member : group ∈ (groupBy key items).values) : group.Sublist items := by
  obtain ⟨name, found⟩ := mem_values.mp member
  have same := getD_groupBy key items name
  rw [getD, found, Option.getD_some] at same
  subst same
  exact List.filter_sublist

/-- A group of a size is a key that as many items have. -/
theorem exists_group_iff {key : W → Option K} {items : List W} {count : Nat} (positive : 0 < count) :
    (∃ group ∈ (groupBy key items).values, count ≤ group.length) ↔
      ∃ name, count ≤ (items.filter fun item => key item = some name).length := by
  constructor
  · rintro ⟨group, member, large⟩
    obtain ⟨name, found⟩ := mem_values.mp member
    have same := getD_groupBy key items name
    rw [getD, found, Option.getD_some] at same
    exact ⟨name, same ▸ large⟩
  · rintro ⟨name, large⟩
    have same := getD_groupBy key items name
    cases found : (groupBy key items).get? name with
    | none =>
      rw [getD, found, Option.getD_none] at same
      rw [← same, List.length_nil] at large
      omega
    | some group =>
      rw [getD, found, Option.getD_some] at same
      exact ⟨group, mem_values.mpr ⟨name, found⟩, same ▸ large⟩

end Lookup

theorem total_add (map : HashMap K V) (weight weight' : K → V → Nat) :
    map.total (fun key value => weight key value + weight' key value) = map.total weight + map.total weight' :=
  List.sum_map_add

end HashMap

/-- A finite set with an enumeration of its members. -/
structure HashSet (α : Type) where
  elems : List α
  nodup : elems.Nodup

namespace HashSet

variable {α : Type}

instance : EmptyCollection (HashSet α) := ⟨⟨[], List.nodup_nil⟩⟩

instance : Inhabited (HashSet α) := ⟨∅⟩

instance : Membership α (HashSet α) := ⟨fun set item => item ∈ set.elems⟩

def isEmpty (set : HashSet α) : Bool := set.elems.isEmpty

def len (set : HashSet α) : Nat := set.elems.length

variable {set : HashSet α} {items : List α} {item : α}

theorem mem_def : item ∈ set ↔ item ∈ set.elems := .rfl

@[simp] theorem notMem_empty (item : α) : item ∉ (∅ : HashSet α) := List.not_mem_nil

theorem isEmpty_iff : set.isEmpty = true ↔ ∀ item, item ∉ set := by
  simp [isEmpty, mem_def, List.eq_nil_iff_forall_not_mem]

def sum (set : HashSet α) (weight : α → Nat) : Nat := (set.elems.map weight).sum

theorem sum_congr {weight weight' : α → Nat} (same : ∀ item ∈ set, weight item = weight' item) :
    set.sum weight = set.sum weight' := by
  rw [sum, sum, List.map_congr_left same]

theorem sum_eq_of_mem_iff {set set' : HashSet α} (same : ∀ item, item ∈ set ↔ item ∈ set')
    (weight : α → Nat) : set.sum weight = set'.sum weight :=
  (((List.perm_ext_iff_of_nodup set.nodup set'.nodup).mpr same).map weight).sum_nat

theorem sum_le_of_subset (distinct : items.Nodup) (inside : ∀ item ∈ items, item ∈ set) (weight : α → Nat) :
    (items.map weight).sum ≤ set.sum weight := by
  obtain ⟨moved, perm, sublist⟩ := List.subperm_of_subset distinct inside
  rw [← (perm.map weight).sum_nat, sum]
  exact (sublist.map weight).sum_le_sum fun _ _ => Nat.zero_le _

theorem mem_of_length_le (inside : ∀ item ∈ set, item ∈ items) (large : items.length ≤ set.len)
    (member : item ∈ items) : item ∈ set :=
  ((List.subperm_of_subset set.nodup inside).perm_of_length_le large).mem_iff.mpr member

variable [DecidableEq α]

instance (item : α) (set : HashSet α) : Decidable (item ∈ set) :=
  inferInstanceAs (Decidable (item ∈ set.elems))

def contains (set : HashSet α) (item : α) : Bool := decide (item ∈ set)

def insert (set : HashSet α) (item : α) : HashSet α := ⟨set.elems.insert item, set.nodup.insert⟩

def remove (set : HashSet α) (item : α) : HashSet α := ⟨set.elems.erase item, set.nodup.erase item⟩

def ofList (items : List α) : HashSet α := items.foldl insert ∅

@[simp] theorem mem_insert {item other : α} :
    other ∈ set.insert item ↔ other = item ∨ other ∈ set := List.mem_insert_iff

@[simp] theorem mem_remove {item other : α} :
    other ∈ set.remove item ↔ other ≠ item ∧ other ∈ set := set.nodup.mem_erase_iff

private theorem mem_insertAll (items : List α) (item : α) : ∀ set : HashSet α,
    item ∈ items.foldl insert set ↔ item ∈ set ∨ item ∈ items := by
  induction items with
  | nil => intro set; simp
  | cons head rest ih =>
    intro set
    rw [List.foldl_cons, ih, mem_insert, List.mem_cons]
    tauto

theorem mem_ofList : item ∈ ofList items ↔ item ∈ items := by
  rw [ofList, mem_insertAll]
  simp

theorem length_filter_notMem_add_len (distinct : items.Nodup) (inside : ∀ item ∈ set, item ∈ items) :
    (items.filter (· ∉ set)).length + set.len = items.length := by
  have members : set.elems.Perm (items.filter (· ∈ set)) := by
    refine (List.perm_ext_iff_of_nodup set.nodup (distinct.filter _)).mpr fun item => ?_
    rw [List.mem_filter, decide_eq_true_eq]
    exact ⟨fun member => ⟨inside item member, member⟩, And.right⟩
  have halves := items.length_eq_length_filter_add (· ∈ set)
  rw [len, members.length_eq, halves, Nat.add_comm]
  simp only [decide_not]

theorem len_insert (fresh : item ∉ set) : (set.insert item).len = set.len + 1 :=
  List.length_insert_of_not_mem fresh

theorem sum_insert (fresh : item ∉ set) (weight : α → Nat) :
    (set.insert item).sum weight = weight item + set.sum weight := by
  have listed : item ∉ set.elems := fresh
  simp [sum, insert, List.insert_of_not_mem listed]

theorem sum_remove (member : item ∈ set) (weight : α → Nat) :
    set.sum weight = weight item + (set.remove item).sum weight := by
  have moved := ((List.perm_cons_erase member).map weight).sum_nat
  simpa [sum, remove] using moved

end HashSet

end Collections
