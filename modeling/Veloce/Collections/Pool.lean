import Mathlib.Algebra.Order.Ring.Nat
import Mathlib.Data.List.Sort
import Mathlib.Data.List.Lattice

/-! A pool of numbered units: an ascending list of free units and, for each holder, the units it
took. -/

namespace Collections.Pool

variable {K : Type}

structure Apart (free : List Nat) (held : K → Option (List Nat)) : Prop where
  ascending : free.Pairwise (· < ·)
  distinct : ∀ holder units, held holder = some units → units.Nodup
  apart : ∀ holder holder' units units', held holder = some units → held holder' = some units' →
    holder ≠ holder' → ∀ unit ∈ units, unit ∉ units'
  freeApart : ∀ holder units, held holder = some units → ∀ unit ∈ units, unit ∉ free

/-- The free and the held units are together exactly `0..count`. -/
def Covers (count : Nat) (free : List Nat) (held : K → Option (List Nat)) : Prop :=
  ∀ unit, unit < count ↔ unit ∈ free ∨ ∃ holder units, held holder = some units ∧ unit ∈ units

/-- Every free or held unit is one of `0..count`. -/
def Within (count : Nat) (free : List Nat) (held : K → Option (List Nat)) : Prop :=
  ∀ unit, (unit ∈ free ∨ ∃ holder units, held holder = some units ∧ unit ∈ units) → unit < count

/-- No unit of the earlier pool is lost in the later one. -/
def Keeps (free : List Nat) (held : K → Option (List Nat)) (free' : List Nat) (held' : K → Option (List Nat)) : Prop :=
  ∀ unit, (unit ∈ free ∨ ∃ holder units, held holder = some units ∧ unit ∈ units) →
    unit ∈ free' ∨ ∃ holder units, held' holder = some units ∧ unit ∈ units

variable {held held' : K → Option (List Nat)} {free free' : List Nat} {count : Nat}

theorem Covers.keeps (whole : Covers count free held) (whole' : Covers count free' held') :
    Keeps free held free' held' :=
  fun unit there => (whole' unit).mp ((whole unit).mpr there)

theorem Keeps.trans {free free' free'' : List Nat} {held held' held'' : K → Option (List Nat)}
    (first : Keeps free held free' held') (second : Keeps free' held' free'' held'') : Keeps free held free'' held'' :=
  fun unit there => second unit (first unit there)

theorem Within.range (idle : ∀ holder, held holder = none) :
    Within count (List.range count) held := by
  rintro unit (available | ⟨holder, units, taken, _⟩)
  · exact List.mem_range.mp available
  · rw [idle] at taken
    cases taken

/-- A pool whose units are all in `0..count` loses none when it is reset. -/
theorem Within.keeps_range (within : Within count free held) : Keeps free held (List.range count) held' :=
  fun unit there => .inl (List.mem_range.mpr (within unit there))

theorem range_ascending (count : Nat) : (List.range count).Pairwise (· < ·) :=
  List.pairwise_lt_range

theorem Apart.free_nodup (valid : Apart free held) : free.Nodup := valid.ascending.imp Nat.ne_of_lt

theorem apart_range (count : Nat) (idle : ∀ holder, held holder = none) :
    Apart (List.range count) held where
  ascending := range_ascending count
  distinct holder units taken := by simp [idle] at taken
  apart holder holder' units units' taken := by simp [idle] at taken
  freeApart holder units taken := by simp [idle] at taken

theorem covers_range (count : Nat) (idle : ∀ holder, held holder = none) :
    Covers count (List.range count) held := by
  intro unit
  simp [idle]

section Take

variable {free : List Nat} {held held' : K → Option (List Nat)} {holder : K}

theorem Apart.take [DecidableEq K] (valid : Apart free held) (amount : Nat)
    (next : ∀ other, held' other = if other = holder then some (free.take amount) else held other) :
    Apart (free.drop amount) held' where
  ascending := valid.ascending.sublist (List.drop_sublist _ _)
  distinct other units taken := by
    rw [next] at taken
    split at taken
    · cases taken
      exact valid.free_nodup.sublist (List.take_sublist _ _)
    · exact valid.distinct other units taken
  apart other other' units units' taken taken' different := by
    rw [next] at taken taken'
    intro unit member
    split at taken <;> split at taken'
    · rename_i same same'
      exact absurd (same.trans same'.symm) different
    · cases taken
      intro member'
      exact valid.freeApart other' units' taken' unit member' (List.mem_of_mem_take member)
    · cases taken'
      intro member'
      exact valid.freeApart other units taken unit member (List.mem_of_mem_take member')
    · exact valid.apart other other' units units' taken taken' different unit member
  freeApart other units taken := by
    rw [next] at taken
    intro unit member left
    split at taken
    · cases taken
      have split : (free.take amount ++ free.drop amount).Nodup := by
        rw [List.take_append_drop]
        exact valid.free_nodup
      exact (List.disjoint_of_nodup_append split) member left
    · exact valid.freeApart other units taken unit member (List.mem_of_mem_drop left)

theorem Covers.take [DecidableEq K] {count : Nat} (whole : Covers count free held) (amount : Nat)
    (fresh : held holder = none)
    (next : ∀ other, held' other = if other = holder then some (free.take amount) else held other) :
    Covers count (free.drop amount) held' := by
  intro unit
  rw [whole unit]
  constructor
  · rintro (available | ⟨other, units, taken, member⟩)
    · rw [← List.take_append_drop amount free, List.mem_append] at available
      rcases available with first | rest
      · exact .inr ⟨holder, free.take amount, by rw [next, if_pos rfl], first⟩
      · exact .inl rest
    · have different : other ≠ holder := by
        intro same
        rw [same, fresh] at taken
        cases taken
      exact .inr ⟨other, units, by rw [next, if_neg different, taken], member⟩
  · rintro (rest | ⟨other, units, taken, member⟩)
    · exact .inl (List.mem_of_mem_drop rest)
    · rw [next] at taken
      split at taken
      · cases taken
        exact .inl (List.mem_of_mem_take member)
      · exact .inr ⟨other, units, taken, member⟩

theorem Within.take [DecidableEq K] {count : Nat} (within : Within count free held) (amount : Nat)
    (next : ∀ other, held' other = if other = holder then some (free.take amount) else held other) :
    Within count (free.drop amount) held' := by
  rintro unit (rest | ⟨other, units, taken, member⟩)
  · exact within unit (.inl (List.mem_of_mem_drop rest))
  · rw [next] at taken
    split at taken
    · cases taken
      exact within unit (.inl (List.mem_of_mem_take member))
    · exact within unit (.inr ⟨other, units, taken, member⟩)

end Take

/-- Give units back: only units of the pool that are not free yet are added,
and the free list is sorted again. -/
def reclaim (count : Nat) (free released : List Nat) : List Nat :=
  (released.foldl (fun free unit =>
    if unit < count ∧ unit ∉ free then free ++ [unit] else free) free).insertionSort (· ≤ ·)

private theorem mem_push (count : Nat) (released : List Nat) (unit : Nat) : ∀ free : List Nat,
    unit ∈ released.foldl (fun free unit =>
      if unit < count ∧ unit ∉ free then free ++ [unit] else free) free ↔
        unit ∈ free ∨ unit < count ∧ unit ∈ released := by
  induction released with
  | nil => intro free; simp
  | cons head rest ih =>
    intro free
    rw [List.foldl_cons, ih]
    split
    · grind
    · grind

private theorem nodup_push (count : Nat) (released : List Nat) : ∀ free : List Nat, free.Nodup →
    (released.foldl (fun free unit =>
      if unit < count ∧ unit ∉ free then free ++ [unit] else free) free).Nodup := by
  induction released with
  | nil => intro free distinct; exact distinct
  | cons head rest ih =>
    intro free distinct
    rw [List.foldl_cons]
    apply ih
    split
    · rename_i added
      rw [List.nodup_append]
      exact ⟨distinct, List.nodup_singleton _, by grind⟩
    · exact distinct

@[simp] theorem mem_reclaim {count unit : Nat} {free released : List Nat} :
    unit ∈ reclaim count free released ↔ unit ∈ free ∨ unit < count ∧ unit ∈ released := by
  rw [reclaim, (List.perm_insertionSort _ _).mem_iff, mem_push]

theorem reclaim_ascending {free released : List Nat} (distinct : free.Nodup) :
    (reclaim count free released).Pairwise (· < ·) := by
  have sorted : (reclaim count free released).Pairwise (· ≤ ·) := List.pairwise_insertionSort _ _
  have unique : (reclaim count free released).Nodup :=
    (List.perm_insertionSort _ _).nodup_iff.mpr (nodup_push count released free distinct)
  exact (sorted.and unique).imp fun ⟨le, ne⟩ => Nat.lt_of_le_of_ne le ne

theorem reclaim_nil (ascending : free.Pairwise (· < ·)) :
    reclaim count free [] = free :=
  List.Pairwise.insertionSort_eq (ascending.imp Nat.le_of_lt)

section Give

variable {free : List Nat} {held held' : K → Option (List Nat)} {holder : K} {count : Nat}

theorem mem_held {unit : Nat} :
    unit ∈ (held holder).getD [] ↔ ∃ units, held holder = some units ∧ unit ∈ units := by
  cases held holder <;> simp

theorem Apart.give [DecidableEq K] (valid : Apart free held)
    (next : ∀ other, held' other = if other = holder then none else held other) :
    Apart (reclaim count free ((held holder).getD [])) held' where
  ascending := reclaim_ascending valid.free_nodup
  distinct other others taken := by
    rw [next] at taken
    split at taken
    · cases taken
    · exact valid.distinct other others taken
  apart other other' others others' taken taken' different := by
    rw [next] at taken taken'
    split at taken
    · cases taken
    · split at taken'
      · cases taken'
      · exact valid.apart other other' others others' taken taken' different
  freeApart other others taken := by
    rw [next] at taken
    split at taken
    · cases taken
    · rename_i different
      intro unit member back
      rcases mem_reclaim.mp back with available | ⟨_, given⟩
      · exact valid.freeApart other others taken unit member available
      · obtain ⟨units, mine, given⟩ := mem_held.mp given
        exact valid.apart other holder others units taken mine different unit member given

theorem Covers.give [DecidableEq K] (whole : Covers count free held)
    (next : ∀ other, held' other = if other = holder then none else held other) :
    Covers count (reclaim count free ((held holder).getD [])) held' := by
  intro unit
  rw [mem_reclaim]
  constructor
  · intro below
    rcases (whole unit).mp below with available | ⟨other, others, taken, member⟩
    · exact .inl (.inl available)
    · by_cases same : other = holder
      · subst same
        exact .inl (.inr ⟨below, mem_held.mpr ⟨others, taken, member⟩⟩)
      · exact .inr ⟨other, others, by rw [next, if_neg same, taken], member⟩
  · rintro ((available | ⟨below, _⟩) | ⟨other, others, taken, member⟩)
    · exact (whole unit).mpr (.inl available)
    · exact below
    · rw [next] at taken
      split at taken
      · cases taken
      · exact (whole unit).mpr (.inr ⟨other, others, taken, member⟩)

theorem Within.give [DecidableEq K] (within : Within count free held) (released : List Nat)
    (next : ∀ other, held' other = if other = holder then none else held other) :
    Within count (reclaim count free released) held' := by
  rintro unit (available | ⟨other, units, taken, member⟩)
  · rcases mem_reclaim.mp available with old | ⟨below, _⟩
    · exact within unit (.inl old)
    · exact below
  · rw [next] at taken
    split at taken
    · cases taken
    · exact within unit (.inr ⟨other, units, taken, member⟩)

theorem Within.keeps_give [DecidableEq K] (within : Within count free held)
    (next : ∀ other, held' other = if other = holder then none else held other) :
    Keeps free held (reclaim count free ((held holder).getD [])) held' := by
  rintro unit (available | ⟨other, units, taken, member⟩)
  · exact .inl (mem_reclaim.mpr (.inl available))
  · by_cases same : other = holder
    · subst same
      have below := within unit (.inr ⟨other, units, taken, member⟩)
      exact .inl (mem_reclaim.mpr (.inr ⟨below, mem_held.mpr ⟨units, taken, member⟩⟩))
    · exact .inr ⟨other, units, by rw [next, if_neg same, taken], member⟩

end Give

section Holders

variable {free free' : List Nat} {held held' : K → Option (List Nat)} {holders : List K}

/-- All units of some holders. -/
def unitsOf (held : K → Option (List Nat)) (holders : List K) : List Nat :=
  holders.flatMap fun holder => (held holder).getD []

theorem mem_unitsOf {unit : Nat} :
    unit ∈ unitsOf held holders ↔ ∃ holder ∈ holders, ∃ units, held holder = some units ∧ unit ∈ units := by
  rw [unitsOf, List.mem_flatMap]
  exact exists_congr fun holder => and_congr_right fun _ => mem_held

theorem length_unitsOf (held : K → Option (List Nat)) (holders : List K) :
    (unitsOf held holders).length = (holders.map fun holder => ((held holder).map List.length).getD 0).sum := by
  rw [unitsOf, List.length_flatMap]
  congr 1
  apply List.map_congr_left
  intro holder _
  cases held holder <;> rfl

theorem Apart.nodup_unitsOf (valid : Apart free held) (distinct : holders.Nodup) :
    (free ++ unitsOf held holders).Nodup := by
  have unitsNodup : (unitsOf held holders).Nodup := by
    refine List.nodup_flatMap.mpr ⟨fun holder _ => ?_, ?_⟩
    · cases taken : held holder with
      | none => exact List.nodup_nil
      | some mine => exact valid.distinct holder mine taken
    · refine distinct.imp fun {holder holder'} different unit mine yours => ?_
      obtain ⟨own, taken, member⟩ := mem_held.mp mine
      obtain ⟨own', taken', member'⟩ := mem_held.mp yours
      exact valid.apart holder holder' own own' taken taken' different unit member member'
  refine List.nodup_append.mpr ⟨valid.free_nodup, unitsNodup, ?_⟩
  intro unit available unit' given same
  subst same
  obtain ⟨holder, _, own, taken, member⟩ := mem_unitsOf.mp given
  exact valid.freeApart holder own taken unit member available

/-- When some holders are gone, their units and the old free units are all free. -/
theorem Apart.length_le_free (valid : Apart free held) (kept : Keeps free held free' held')
    (fewer : ∀ holder units, held' holder = some units → held holder = some units)
    (distinct : holders.Nodup) (released : ∀ holder ∈ holders, held' holder = none) :
    free.length + (holders.map fun holder => ((held holder).map List.length).getD 0).sum ≤ free'.length := by
  -- A unit that is not free afterwards is held by someone who is still there.
  have inside : ∀ unit ∈ free ++ unitsOf held holders, unit ∈ free' := by
    intro unit member
    have there : unit ∈ free ∨ ∃ holder units, held holder = some units ∧ unit ∈ units := by
      rcases List.mem_append.mp member with available | given
      · exact .inl available
      · obtain ⟨holder, _, taken⟩ := mem_unitsOf.mp given
        exact .inr ⟨holder, taken⟩
    rcases kept unit there with available | ⟨holder', own', taken', member'⟩
    · exact available
    · rcases List.mem_append.mp member with available | given
      · exact absurd available (valid.freeApart holder' own' (fewer holder' own' taken') unit member')
      · obtain ⟨holder, left, own, taken, member⟩ := mem_unitsOf.mp given
        have different : holder ≠ holder' := by
          intro same
          subst same
          rw [released holder left] at taken'
          cases taken'
        exact absurd member' (valid.apart holder holder' own own' taken (fewer holder' own' taken') different
          unit member)
  have bound := (List.subperm_of_subset (valid.nodup_unitsOf distinct) inside).length_le
  rwa [List.length_append, length_unitsOf] at bound

theorem Apart.length_add {count : Nat} (valid : Apart free held) (whole : Covers count free held)
    (distinct : holders.Nodup) (all : ∀ holder units, held holder = some units → holder ∈ holders) :
    free.length + (holders.map fun holder => ((held holder).map List.length).getD 0).sum = count := by
  have perm : (free ++ unitsOf held holders).Perm (List.range count) := by
    refine (List.perm_ext_iff_of_nodup (valid.nodup_unitsOf distinct) List.nodup_range).mpr fun unit => ?_
    rw [List.mem_append, List.mem_range, whole unit, mem_unitsOf]
    refine or_congr_right ⟨fun ⟨holder, _, taken⟩ => ⟨holder, taken⟩, ?_⟩
    rintro ⟨holder, units, taken, member⟩
    exact ⟨holder, all holder units taken, units, taken, member⟩
  have total := perm.length_eq
  rwa [List.length_append, List.length_range, length_unitsOf] at total

end Holders

/-- The held units and the count determine the free list. -/
theorem free_unique (valid : Apart free held) (valid' : Apart free' held) (whole : Covers count free held)
    (whole' : Covers count free' held) : free = free' := by
  have inside {free free' : List Nat} (valid : Apart free held) (whole : Covers count free held)
      (whole' : Covers count free' held) (unit : Nat) (available : unit ∈ free) : unit ∈ free' := by
    have below := (whole unit).mpr (.inl available)
    refine ((whole' unit).mp below).resolve_right ?_
    rintro ⟨holder, units, taken, member⟩
    exact valid.freeApart holder units taken unit member available
  exact valid.ascending.eq_of_mem_iff valid'.ascending
    fun {unit} => ⟨inside valid whole whole' unit, inside valid' whole' whole unit⟩

theorem Apart.fewer (valid : Apart free held)
    (fewer : ∀ holder units, held' holder = some units → held holder = some units)
    (ascending : free'.Pairwise (· < ·))
    (avoids : ∀ unit ∈ free', ¬ ∃ holder units, held' holder = some units ∧ unit ∈ units) : Apart free' held' where
  ascending := ascending
  distinct holder units taken := valid.distinct holder units (fewer holder units taken)
  apart holder holder' units units' taken taken' :=
    valid.apart holder holder' units units' (fewer holder units taken) (fewer holder' units' taken')
  freeApart holder units taken unit member available := avoids unit available ⟨holder, units, taken, member⟩

theorem Apart.holders (valid : Apart free held)
    (fewer : ∀ holder units, held' holder = some units → held holder = some units) : Apart [] held' :=
  valid.fewer fewer .nil fun _ impossible => absurd impossible List.not_mem_nil

theorem Apart.congr (valid : Apart free held) (same : ∀ holder, held' holder = held holder) : Apart free held' := by
  rwa [funext same]

theorem Within.congr (within : Within count free held) (same : ∀ holder, held' holder = held holder) :
    Within count free held' := by
  rwa [funext same]

theorem Covers.congr (whole : Covers count free held) (same : ∀ holder, held' holder = held holder) :
    Covers count free held' := by
  rwa [funext same]

end Collections.Pool
