import Mathlib.Data.Finset.Card
import Mathlib.Data.Finset.Image
import Mathlib.Data.Finset.Range
import Mathlib.Logic.Function.Basic
import Veloce.Collections.HashMap

/-! A barrier that is used again and again. Its coordinator keeps the set of the names under
which parties entered and lets everybody pass when there are as many names as parties. A party
waits after each entry; when its entry is checked in, when a full set is cleared and when the
parties are told is up to the schedule. -/

namespace Collections

/-- The names of the entries of each party, how often it passed, and how many of its entries
were checked in; `full` and `cleared` count the full sets that are not cleared yet and the
cleared ones that nobody was told of. -/
@[ext]
structure CyclicBarrier (Name : Type) where
  entries : Nat → List Name := fun _ => []
  passed : Nat → Nat := fun _ => 0
  checkedIn : Nat → Nat := fun _ => 0
  names : HashSet Name := ∅
  full : Nat := 0
  cleared : Nat := 0
  rounds : Nat := 0

namespace CyclicBarrier

variable {Name : Type}

inductive Step [DecidableEq Name] (parties : Nat) (barrier : CyclicBarrier Name) : CyclicBarrier Name → Prop where
  | enter (party : Nat) (name : Name) (member : party < parties)
      (idle : (barrier.entries party).length = barrier.passed party) :
      Step parties barrier
        { barrier with entries := Function.update barrier.entries party (barrier.entries party ++ [name]) }
  | checkIn (party : Nat) (name : Name) (member : party < parties)
      (entry : (barrier.entries party)[barrier.checkedIn party]? = some name) :
      Step parties barrier
        { barrier with
          checkedIn := Function.update barrier.checkedIn party (barrier.checkedIn party + 1)
          names := barrier.names.insert name
          full := if (barrier.names.insert name).len = parties then barrier.full + 1 else barrier.full }
  | clear (some : 0 < barrier.full) :
      Step parties barrier
        { barrier with names := ∅, full := barrier.full - 1, cleared := barrier.cleared + 1, rounds := barrier.rounds + 1 }
  | release (some : 0 < barrier.cleared) : Step parties barrier { barrier with cleared := barrier.cleared - 1 }
  | pass (party : Nat) (entered : barrier.passed party < (barrier.entries party).length)
      (released : barrier.passed party + barrier.cleared < barrier.rounds) :
      Step parties barrier { barrier with passed := Function.update barrier.passed party (barrier.passed party + 1) }

/-- In a round every party comes once: it has entered and was checked in as often as there were
rounds, or once more, and the set holds the names of those that came. -/
structure Valid (parties : Nat) (barrier : CyclicBarrier Name) : Prop where
  waits : ∀ party, barrier.passed party ≤ (barrier.entries party).length ∧
    (barrier.entries party).length ≤ barrier.passed party + 1
  told : ∀ party, barrier.passed party + barrier.cleared ≤ barrier.rounds
  taken : ∀ party, barrier.checkedIn party ≤ (barrier.entries party).length
  turn : ∀ party < parties, barrier.rounds ≤ barrier.checkedIn party ∧ barrier.checkedIn party ≤ barrier.rounds + 1
  single : barrier.full + barrier.cleared ≤ 1
  everybody : 0 < barrier.full → ∀ party < parties, barrier.checkedIn party = barrier.rounds + 1
  unfilled : barrier.full = 0 → barrier.names.len ≠ parties
  members : ∀ name, name ∈ barrier.names ↔
    ∃ party < parties, barrier.checkedIn party = barrier.rounds + 1 ∧ (barrier.entries party)[barrier.rounds]? = some name
  apart : ∀ round < barrier.rounds + barrier.full, ∀ party < parties, ∀ other < parties,
    (barrier.entries party)[round]? = (barrier.entries other)[round]? → party = other

variable {parties : Nat} {barrier next : CyclicBarrier Name}

theorem valid_init (some : 0 < parties) : Valid parties ({} : CyclicBarrier Name) where
  waits _ := ⟨Nat.le_refl 0, Nat.zero_le 1⟩
  told _ := Nat.le_refl 0
  taken _ := Nat.le_refl 0
  turn _ _ := ⟨Nat.le_refl 0, Nat.zero_le 1⟩
  single := Nat.zero_le 1
  everybody more := absurd more (Nat.lt_irrefl 0)
  unfilled _ := Nat.ne_of_lt some
  members name := by simp
  apart round early := absurd early (Nat.not_lt_zero round)

namespace Valid

theorem settled (valid : Valid parties barrier) (busy : 0 < barrier.full + barrier.cleared) {party : Nat}
    (member : party < parties) : (barrier.entries party).length ≤ barrier.checkedIn party := by
  have entered := (valid.waits party).2
  have told := valid.told party
  have turn := (valid.turn party member).1
  have single := valid.single
  by_cases full : 0 < barrier.full
  · have came := valid.everybody full party member
    omega
  · omega

/-- Who is checked in comes for the first time in the round. -/
theorem first (valid : Valid parties barrier) {party : Nat} {name : Name} (member : party < parties)
    (entry : (barrier.entries party)[barrier.checkedIn party]? = some name) :
    barrier.full = 0 ∧ barrier.cleared = 0 ∧ barrier.checkedIn party = barrier.rounds := by
  have more := (List.getElem?_eq_some_iff.mp entry).1
  have entered := (valid.waits party).2
  have told := valid.told party
  have turn := (valid.turn party member).1
  have free : ¬0 < barrier.full + barrier.cleared := fun busy => Nat.not_lt.mpr (valid.settled busy member) more
  omega

theorem len_le (valid : Valid parties barrier) : barrier.names.len ≤ parties := by
  classical
  have inside : barrier.names.elems.toFinset.image some ⊆
      (Finset.range parties).image fun party => (barrier.entries party)[barrier.rounds]? := by
    intro item member
    obtain ⟨name, listed, rfl⟩ := Finset.mem_image.mp member
    obtain ⟨party, small, _, named⟩ := (valid.members name).mp (List.mem_toFinset.mp listed)
    exact Finset.mem_image.mpr ⟨party, Finset.mem_range.mpr small, named⟩
  have few := (Finset.card_le_card inside).trans Finset.card_image_le
  rw [Finset.card_image_of_injective _ (Option.some_injective _), List.toFinset_card_of_nodup barrier.names.nodup,
    Finset.card_range] at few
  exact few

theorem full_names {names : HashSet Name} {came : Nat → Prop} {name : Nat → Option Name}
    (members : ∀ item, item ∈ names → ∃ party < parties, came party ∧ name party = some item)
    (len : names.len = parties) :
    (∀ party < parties, came party) ∧
      ∀ party < parties, ∀ other < parties, name party = name other → party = other := by
  classical
  have inside : names.elems.toFinset.image some ⊆ ((Finset.range parties).filter came).image name := by
    intro item member
    obtain ⟨item, listed, rfl⟩ := Finset.mem_image.mp member
    obtain ⟨party, small, here, named⟩ := members item (List.mem_toFinset.mp listed)
    exact Finset.mem_image.mpr ⟨party, Finset.mem_filter.mpr ⟨Finset.mem_range.mpr small, here⟩, named⟩
  have size : (names.elems.toFinset.image some).card = parties := by
    rw [Finset.card_image_of_injective _ (Option.some_injective _), List.toFinset_card_of_nodup names.nodup]
    exact len
  have few := Finset.card_le_card inside
  have images : (((Finset.range parties).filter came).image name).card ≤ ((Finset.range parties).filter came).card :=
    Finset.card_image_le
  have atMost : ((Finset.range parties).filter came).card ≤ (Finset.range parties).card := Finset.card_filter_le _ _
  rw [Finset.card_range] at atMost
  have all : (Finset.range parties).filter came = Finset.range parties := by
    refine Finset.eq_of_subset_of_card_le (Finset.filter_subset _ _) ?_
    rw [Finset.card_range]
    omega
  have injective : Set.InjOn name ((Finset.range parties).filter came) := by
    refine Finset.card_image_iff.mp ?_
    omega
  rw [all] at injective
  refine ⟨fun party small => ?_, fun party small other small' same => ?_⟩
  · have member := Finset.mem_range.mpr small
    rw [← all] at member
    exact (Finset.mem_filter.mp member).2
  · exact injective (Finset.mem_coe.mpr (Finset.mem_range.mpr small)) (Finset.mem_coe.mpr (Finset.mem_range.mpr small')) same

section Steps

theorem enter (valid : Valid parties barrier) {party : Nat} (name : Name)
    (idle : (barrier.entries party).length = barrier.passed party) :
    Valid parties
      { barrier with entries := Function.update barrier.entries party (barrier.entries party ++ [name]) } := by
  have longer (other : Nat) : (barrier.entries other).length ≤
      (Function.update barrier.entries party (barrier.entries party ++ [name]) other).length := by
    by_cases same : other = party
    · subst same
      simp
    · rw [Function.update_of_ne same]
  have kept {other index : Nat} (old : index < (barrier.entries other).length) :
      (Function.update barrier.entries party (barrier.entries party ++ [name]) other)[index]? =
        (barrier.entries other)[index]? := by
    by_cases same : other = party
    · subst same
      rw [Function.update_self, List.getElem?_append_left old]
    · rw [Function.update_of_ne same]
  refine
    { valid with
      waits := fun other => ?_
      taken := fun other => (valid.taken other).trans (longer other)
      members := fun item => ?_
      apart := fun round early one small other small' same => ?_ }
  · by_cases same : other = party
    · subst same
      simp [idle]
    · simp only [Function.update_of_ne same]
      exact valid.waits other
  · rw [valid.members]
    refine exists_congr fun other => and_congr_right fun _ => and_congr_right fun came => ?_
    have taken := valid.taken other
    have early : barrier.rounds < (barrier.entries other).length := by
      rw [came] at taken
      exact taken
    rw [kept early]
  · have old {other : Nat} (small : other < parties) : round < (barrier.entries other).length := by
      have taken := valid.taken other
      have turn := (valid.turn other small).1
      by_cases full : 0 < barrier.full
      · have came := valid.everybody full other small
        have single := valid.single
        change round < barrier.rounds + barrier.full at early
        omega
      · change round < barrier.rounds + barrier.full at early
        omega
    rw [kept (old small), kept (old small')] at same
    exact valid.apart round early one small other small' same

theorem checkIn [DecidableEq Name] (valid : Valid parties barrier) {party : Nat} {name : Name} (member : party < parties)
    (entry : (barrier.entries party)[barrier.checkedIn party]? = some name) :
    Valid parties
      { barrier with
        checkedIn := Function.update barrier.checkedIn party (barrier.checkedIn party + 1)
        names := barrier.names.insert name
        full := if (barrier.names.insert name).len = parties then barrier.full + 1 else barrier.full } := by
  obtain ⟨notFull, notCleared, here⟩ := valid.first member entry
  have counts (other : Nat) : Function.update barrier.checkedIn party (barrier.checkedIn party + 1) other =
      if other = party then barrier.rounds + 1 else barrier.checkedIn other := by
    rw [Function.update_apply, here]
  have members (item : Name) : item ∈ barrier.names.insert name ↔ ∃ other < parties,
      Function.update barrier.checkedIn party (barrier.checkedIn party + 1) other = barrier.rounds + 1 ∧
        (barrier.entries other)[barrier.rounds]? = some item := by
    rw [HashSet.mem_insert, valid.members]
    constructor
    · rintro (rfl | ⟨other, small, came, named⟩)
      · exact ⟨party, member, by rw [counts, if_pos rfl], here ▸ entry⟩
      · refine ⟨other, small, ?_, named⟩
        rw [counts]
        split <;> trivial
    · rintro ⟨other, small, came, named⟩
      by_cases same : other = party
      · subst same
        rw [here] at entry
        exact .inl (Option.some.inj (named.symm.trans entry))
      · rw [counts, if_neg same] at came
        exact .inr ⟨other, small, came, named⟩
  have filled (len : (barrier.names.insert name).len = parties) :=
    full_names (fun item listed => (members item).mp listed) len
  refine
    { valid with
      taken := fun other => ?_
      turn := fun other small => ?_
      single := ?_
      everybody := fun more => ?_
      unfilled := fun none => ?_
      members := members
      apart := fun round early => ?_ }
  · have bound := (List.getElem?_eq_some_iff.mp entry).1
    have taken := valid.taken other
    change Function.update barrier.checkedIn party (barrier.checkedIn party + 1) other ≤ (barrier.entries other).length
    rw [counts]
    split
    · rename_i same
      subst same
      omega
    · exact taken
  · have turn := valid.turn other small
    change barrier.rounds ≤ Function.update barrier.checkedIn party (barrier.checkedIn party + 1) other ∧
      Function.update barrier.checkedIn party (barrier.checkedIn party + 1) other ≤ barrier.rounds + 1
    rw [counts]
    split <;> omega
  · simp only
    split <;> omega
  · simp only at more
    split at more
    · rename_i len
      exact (filled len).1
    · omega
  · simp only at none
    split at none
    · omega
    · assumption
  · simp only at early
    split at early
    · rename_i len
      by_cases last : round = barrier.rounds
      · subst last
        exact (filled len).2
      · exact valid.apart round (by omega)
    · exact valid.apart round early

theorem clear (valid : Valid parties barrier) (positive : 0 < parties) (more : 0 < barrier.full) :
    Valid parties
      { barrier with names := ∅, full := barrier.full - 1, cleared := barrier.cleared + 1, rounds := barrier.rounds + 1 } := by
  have single := valid.single
  have everybody := valid.everybody more
  refine
    { valid with
      told := fun party => ?_
      turn := fun party small => ?_
      single := ?_
      everybody := fun again => ?_
      unfilled := fun _ => ?_
      members := fun name => ?_
      apart := fun round early => valid.apart round ?_ }
  · have told := valid.told party
    change barrier.passed party + (barrier.cleared + 1) ≤ barrier.rounds + 1
    omega
  · have came := everybody party small
    change barrier.rounds + 1 ≤ barrier.checkedIn party ∧ barrier.checkedIn party ≤ barrier.rounds + 1 + 1
    omega
  · change barrier.full - 1 + (barrier.cleared + 1) ≤ 1
    omega
  · change 0 < barrier.full - 1 at again
    omega
  · exact Nat.ne_of_lt positive
  · refine iff_of_false (HashSet.notMem_empty name) ?_
    rintro ⟨party, small, came, _⟩
    have before := everybody party small
    change barrier.checkedIn party = barrier.rounds + 1 + 1 at came
    omega
  · change round < barrier.rounds + 1 + (barrier.full - 1) at early
    omega

theorem release (valid : Valid parties barrier) (more : 0 < barrier.cleared) :
    Valid parties { barrier with cleared := barrier.cleared - 1 } := by
  have single := valid.single
  refine { valid with told := fun party => ?_, single := ?_ }
  · have told := valid.told party
    change barrier.passed party + (barrier.cleared - 1) ≤ barrier.rounds
    omega
  · change barrier.full + (barrier.cleared - 1) ≤ 1
    omega

theorem pass (valid : Valid parties barrier) {party : Nat} (entered : barrier.passed party < (barrier.entries party).length)
    (released : barrier.passed party + barrier.cleared < barrier.rounds) :
    Valid parties { barrier with passed := Function.update barrier.passed party (barrier.passed party + 1) } := by
  refine { valid with waits := fun other => ?_, told := fun other => ?_ }
  · have waits := valid.waits other
    simp only [Function.update_apply]
    split
    · rename_i same
      subst same
      omega
    · exact waits
  · have told := valid.told other
    simp only [Function.update_apply]
    split
    · rename_i same
      subst same
      omega
    · exact told

theorem step [DecidableEq Name] (valid : Valid parties barrier) (positive : 0 < parties) (taken : Step parties barrier next) :
    Valid parties next := by
  cases taken with
  | enter party name _ idle => exact valid.enter name idle
  | checkIn party name member entry => exact valid.checkIn member entry
  | clear more => exact valid.clear positive more
  | release more => exact valid.release more
  | pass party entered released => exact valid.pass entered released

end Steps

/-- Nobody passes for the n-th time before everybody has entered n times. -/
theorem safe (valid : Valid parties barrier) (party : Nat) {other : Nat} (member : other < parties) :
    barrier.passed party ≤ (barrier.entries other).length := by
  have told := valid.told party
  have turn := (valid.turn other member).1
  have taken := valid.taken other
  omega

/-- If every entry was checked in and everybody told, and everybody waits for another round,
two parties entered it under one name. -/
theorem blocked (valid : Valid parties barrier) (notFull : barrier.full = 0)
    (all : ∀ party < parties, barrier.checkedIn party = (barrier.entries party).length ∧
      barrier.rounds < (barrier.entries party).length) :
    ∃ party < parties, ∃ other < parties, party ≠ other ∧
      (barrier.entries party)[barrier.rounds]? = (barrier.entries other)[barrier.rounds]? := by
  classical
  by_contra apart
  simp only [not_exists, not_and] at apart
  have came (party : Nat) (small : party < parties) : barrier.checkedIn party = barrier.rounds + 1 := by
    have turn := (valid.turn party small).2
    obtain ⟨checked, entered⟩ := all party small
    omega
  refine valid.unfilled notFull ?_
  have images : barrier.names.elems.toFinset.image some =
      (Finset.range parties).image fun party => (barrier.entries party)[barrier.rounds]? := by
    ext item
    simp only [Finset.mem_image, List.mem_toFinset, Finset.mem_range]
    constructor
    · rintro ⟨name, listed, rfl⟩
      obtain ⟨party, small, _, named⟩ := (valid.members name).mp listed
      exact ⟨party, small, named⟩
    · rintro ⟨party, small, rfl⟩
      have bound := (all party small).2
      refine ⟨(barrier.entries party)[barrier.rounds], (valid.members _).mpr ⟨party, small, came party small, ?_⟩, ?_⟩
      · exact List.getElem?_eq_getElem bound
      · exact (List.getElem?_eq_getElem bound).symm
  have cards := congrArg Finset.card images
  rw [Finset.card_image_of_injective _ (Option.some_injective _), List.toFinset_card_of_nodup barrier.names.nodup,
    Finset.card_image_of_injOn, Finset.card_range] at cards
  · exact cards
  · intro party small other small' same
    by_contra different
    exact apart party (Finset.mem_range.mp small) other (Finset.mem_range.mp small') different same

end Valid

end CyclicBarrier

end Collections
