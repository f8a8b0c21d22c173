import Mathlib.Data.Finset.Sort
import Veloce.FrontEnd.SlurmTime

/-! The option `--array`: which indices a text stands for, and which the parser makes of it. -/

namespace Veloce

open Collections

/-- `(start..=stop).step_by(step)` for a step other than zero. -/
def stepBy (start stop step : Nat) : List Nat :=
  (List.range ((stop + 1 - start + (step - 1)) / step)).map fun count => start + count * step

def asUsize (step : Int) : Nat := (step % 2 ^ 64).toNat

/-- The indices of one part; `none` is the panic of `step_by(0)`. The step is an `i32`,
since nothing says otherwise. -/
def partIndices (part : List Char) : Option (Except String (List Nat)) :=
  if '-' ∈ part then
    let innerParts := part.splitOn ':'
    match innerParts[1]?.elim (some 1) parseI32 with
    | none => some (.error "Invalid array step size")
    | some step =>
      match (innerParts.headD []).splitOn '-' with
      | [start, stop] =>
        match parseU32 (String.ofList start) with
        | none => some (.error "Invalid array start")
        | some start =>
          match parseU32 (String.ofList stop) with
          | none => some (.error "Invalid array end")
          | some stop => if step = 0 then none else some (.ok (stepBy start stop (asUsize step)))
      | _ => some (.error s!"Invalid array range: {String.ofList (innerParts.headD [])}")
  else
    match parseU32 (String.ofList part) with
    | none => some (.error "Invalid array discrete single value")
    | some index => some (.ok [index])

def collectIndices : (indices : List Nat) → (parts : List (List Char)) → Option (Except String (List Nat))
  | indices, [] => some (.ok indices)
  | indices, part :: parts =>
    match partIndices part with
    | none => none
    | some (.error error) => some (.error error)
    | some (.ok more) => collectIndices (indices ++ more) parts

def parseArrayRange (arrayStr : String) : Option (Except String (List Nat)) :=
  match collectIndices [] (arrayStr.toList.splitOn ',') with
  | none => none
  | some (.error error) => some (.error error)
  | some (.ok collected) =>
    let indices := (collected.insertionSort (· ≤ ·)).dedup
    if indices.isEmpty then some (.error "Array range is empty")
    else if indices.length > 10000 then some (.error "Array range is too large (max 10000 tasks)")
    else some (.ok indices)

def validateArray (value : String) : Except String Unit :=
  if value.isEmpty then .error "empty --array value"
  else if value.toList.all fun char => char.isDigit || char ∈ ['-', ',', ':', '%'] then .ok ()
  else .error s!"malformed --array value '{value}'"

structure IndexRange where
  start : Nat
  stop : Nat
  step : Nat

namespace IndexRange

def Covers (range : IndexRange) (index : Nat) : Prop :=
  range.start ≤ index ∧ index ≤ range.stop ∧ range.step ∣ index - range.start

instance (range : IndexRange) (index : Nat) : Decidable (range.Covers index) :=
  inferInstanceAs (Decidable (_ ∧ _ ∧ _))

/-- The indices, which are `u32`, that some of the ranges cover. -/
def covered (ranges : List IndexRange) : Finset Nat :=
  (Finset.range (2 ^ 32)).filter fun index => ∃ range ∈ ranges, range.Covers index

/-- A job array can have as many tasks. -/
def Sized (ranges : List IndexRange) : Prop := 1 ≤ (covered ranges).card ∧ (covered ranges).card ≤ 10000

end IndexRange

/-- One of the items between commas. A step can be followed by another colon and anything. -/
inductive ArrayItem where
  | single (index : List Char)
  | span (start stop : List Char)
  | stepped (start stop step : List Char) (more : Option (List Char))

namespace ArrayItem

def text : ArrayItem → List Char
  | .single index => index
  | .span start stop => start ++ '-' :: stop
  | .stepped start stop step more =>
    start ++ '-' :: (stop ++ ':' :: (step ++ (more.map (':' :: ·)).getD []))

/-- A text of digits for a `u32`. -/
def IsIndex (text : List Char) : Prop := IsDecimal text ∧ decimalValue text < 2 ^ 32

def Strict : ArrayItem → Prop
  | .single index => IsIndex index
  | .span start stop => IsIndex start ∧ IsIndex stop
  | .stepped start stop step more => IsIndex start ∧ IsIndex stop ∧ IsDecimal step ∧ 1 ≤ decimalValue step ∧ more = none

def range : ArrayItem → IndexRange
  | .single index => ⟨decimalValue index, decimalValue index, 1⟩
  | .span start stop => ⟨decimalValue start, decimalValue stop, 1⟩
  | .stepped start stop step _ => ⟨decimalValue start, decimalValue stop, decimalValue step⟩

def Lists (text : String) (items : List ArrayItem) : Prop := text.toList.splitOn ',' = items.map ArrayItem.text

def Denotes (text : String) (items : List ArrayItem) : Prop :=
  Lists text items ∧ (∀ item ∈ items, item.Strict) ∧ IndexRange.Sized (items.map range)

/-- The parser gives the indices in order, and an error for all other texts. -/
def ReadExactly (text : String) : Prop :=
  (∀ items, Denotes text items →
      parseArrayRange text = some (.ok ((IndexRange.covered (items.map range)).sort (· ≤ ·)))) ∧
    ((¬ ∃ items, Denotes text items) → ∃ error, parseArrayRange text = some (.error error))

/-- For Slurm a range goes up. -/
def Ascending (item : ArrayItem) : Prop := item.range.start ≤ item.range.stop

/-- What passes the front end means to the parser what it means to Slurm, or is refused by
it. A limit behind a percent sign has no counterpart, so such a text has to be refused. -/
def SlurmReads (text : String) : Prop :=
  validateArray text = .ok () → (∃ error, parseArrayRange text = some (.error error)) ∨
    ∃ items, Lists text items ∧ (∀ item ∈ items, item.Strict ∧ item.Ascending) ∧
      parseArrayRange text = some (.ok ((IndexRange.covered (items.map range)).sort (· ≤ ·)))

/-- What the parser takes: plus signs, a signed step, and anything after a second colon. -/
def Loose : ArrayItem → Prop
  | .single index => IsIndex (withoutPlus index)
  | .span start stop => IsIndex (withoutPlus start) ∧ IsIndex (withoutPlus stop)
  | .stepped start stop step more =>
    IsIndex (withoutPlus start) ∧ IsIndex (withoutPlus stop) ∧ (parseI32 step).isSome ∧ ∀ rest ∈ more, ',' ∉ rest

/-- A negative step is a large one. -/
def looseRange : ArrayItem → IndexRange
  | .single index => ⟨decimalValue (withoutPlus index), decimalValue (withoutPlus index), 1⟩
  | .span start stop => ⟨decimalValue (withoutPlus start), decimalValue (withoutPlus stop), 1⟩
  | .stepped start stop step _ => ⟨decimalValue (withoutPlus start), decimalValue (withoutPlus stop),
      asUsize ((parseI32 step).getD 0)⟩

def Passable (item : ArrayItem) : Prop := item.Loose ∧ item.looseRange.step ≠ 0

/-- The parser takes the text for items that stand for so many indices. -/
def Passes (text : String) : Prop :=
  ∃ items, Lists text items ∧ (∀ item ∈ items, item.Passable) ∧
    IndexRange.Sized (items.map looseRange)

/-- The parser has the step in its range. -/
def SmallStep : ArrayItem → Prop
  | .stepped _ _ step _ => decimalValue step < 2 ^ 31
  | _ => True

/-- It comes to a step of zero. -/
def Stumbles (text : String) : Prop :=
  ∃ (before : List ArrayItem) (item : ArrayItem) (after : List (List Char)),
    text.toList.splitOn ',' = before.map ArrayItem.text ++ item.text :: after ∧
      (∀ item ∈ before, item.Passable) ∧ item.Loose ∧ item.looseRange.step = 0

end ArrayItem

section Parts

variable {start stop step index : Nat} {text part : List Char} {item : ArrayItem} {char : Char}

theorem mem_stepBy (positive : 0 < step) :
    index ∈ stepBy start stop step ↔ start ≤ index ∧ index ≤ stop ∧ step ∣ index - start := by
  have counted (count : Nat) : count < (stop + 1 - start + (step - 1)) / step ↔ count * step < stop + 1 - start := by
    rw [← Nat.succ_le_iff, Nat.le_div_iff_mul_le positive, Nat.succ_mul]
    omega
  simp only [stepBy, List.mem_map, List.mem_range, counted]
  constructor
  · rintro ⟨count, inside, rfl⟩
    exact ⟨Nat.le_add_right .., by omega, by rw [Nat.add_sub_cancel_left]; exact Nat.dvd_mul_left ..⟩
  · rintro ⟨above, below, count, same⟩
    refine ⟨count, ?_, ?_⟩
    · rw [Nat.mul_comm]
      omega
    · rw [Nat.mul_comm]
      omega

theorem stepBy_self (index : Nat) : stepBy index index 1 = [index] := by
  simp [stepBy]

theorem parseI32_bounds {value : Int} (read : parseI32 text = some value) : -2 ^ 31 ≤ value ∧ value < 2 ^ 31 := by
  unfold parseI32 at read
  split at read
  · split at read
    · cases read
      omega
    · cases read
  · split at read
    · cases read
      omega
    · cases read

theorem not_mem_of_parseI32 (read : (parseI32 text).isSome) (other : char.isDigit = false) (unsigned : char ≠ '+')
    (positive : char ≠ '-') : char ∉ text := by
  unfold parseI32 at read
  split at read
  · split at read
    · rename_i good
      simpa [positive] using good.1.not_mem other
    · cases read
  · split at read
    · rename_i good
      exact not_mem_of_decimal good.1 other unsigned
    · cases read

theorem asUsize_eq_zero {value : Int} (lower : -2 ^ 31 ≤ value) (upper : value < 2 ^ 31) : asUsize value = 0 ↔ value = 0 := by
  unfold asUsize
  omega

theorem parseI32_decimal (decimal : IsDecimal text) (small : decimalValue text < 2 ^ 31) :
    parseI32 text = some (decimalValue text : Int) := by
  unfold parseI32
  split
  · exact absurd List.mem_cons_self (decimal.not_mem (by decide))
  · rw [decimal.withoutPlus, if_pos ⟨decimal, small⟩]

end Parts

namespace ArrayItem

section Items

variable {item : ArrayItem} {part text : List Char} {indices : List Nat}

theorem isIndex_iff {value : Nat} : parseU32 (String.ofList text) = some value ↔
    IsIndex (withoutPlus text) ∧ decimalValue (withoutPlus text) = value := by
  rw [parseU32_eq_some_iff, IsIndex]
  constructor
  · rintro ⟨decimal, rfl, small⟩
    exact ⟨⟨decimal, small⟩, rfl⟩
  · rintro ⟨⟨decimal, small⟩, rfl⟩
    exact ⟨decimal, rfl, small⟩

theorem parse_index (index : IsIndex (withoutPlus text)) :
    parseU32 (String.ofList text) = some (decimalValue (withoutPlus text)) := isIndex_iff.mpr ⟨index, rfl⟩

theorem index_apart (index : IsIndex (withoutPlus text)) : '-' ∉ text ∧ ':' ∉ text ∧ ',' ∉ text :=
  ⟨not_mem_of_decimal index.1 (by decide) (by decide), not_mem_of_decimal index.1 (by decide) (by decide),
    not_mem_of_decimal index.1 (by decide) (by decide)⟩

theorem step_apart (step : (parseI32 text).isSome) : ':' ∉ text ∧ ',' ∉ text :=
  ⟨not_mem_of_parseI32 step (by decide) (by decide) (by decide),
    not_mem_of_parseI32 step (by decide) (by decide) (by decide)⟩

def taken (item : ArrayItem) : List Nat := stepBy item.looseRange.start item.looseRange.stop item.looseRange.step

theorem splitOn_span {start stop : List Char} (start' : '-' ∉ start) (stop' : '-' ∉ stop) :
    (start ++ '-' :: stop).splitOn '-' = [start, stop] := by
  rw [splitOn_append start', List.splitOn_eq_singleton stop']

theorem splitOn_stepped {start stop step : List Char} (body : ':' ∉ start ++ '-' :: stop) (step' : ':' ∉ step)
    (more : Option (List Char)) : (ArrayItem.stepped start stop step more).text.splitOn ':' =
      (start ++ '-' :: stop) :: step :: (more.map (·.splitOn ':')).getD [] := by
  have joined : (ArrayItem.stepped start stop step more).text =
      (start ++ '-' :: stop) ++ ':' :: (step ++ (more.map (':' :: ·)).getD []) := by simp [ArrayItem.text]
  rw [joined, splitOn_append body]
  cases more with
  | none => simp [List.splitOn_eq_singleton step']
  | some rest => simp [splitOn_append step']

theorem partIndices_text (loose : item.Loose) :
    partIndices item.text = if item.looseRange.step = 0 then none else some (.ok item.taken) := by
  cases item with
  | single index =>
    have apart := index_apart loose
    simp only [ArrayItem.text, partIndices, if_neg apart.1, parse_index loose, looseRange, taken, stepBy_self]
    rfl
  | span start stop =>
    obtain ⟨start', stop'⟩ := loose
    have inner : (start ++ '-' :: stop).splitOn ':' = [start ++ '-' :: stop] := by
      refine List.splitOn_eq_singleton ?_
      simp [index_apart start', index_apart stop']
    have dash : '-' ∈ start ++ '-' :: stop := by simp
    simp only [ArrayItem.text, partIndices, if_pos dash, inner, parse_index start', parse_index stop', List.headD_cons,
      splitOn_span (index_apart start').1 (index_apart stop').1]
    rfl
  | stepped start stop step more =>
    obtain ⟨start', stop', step', _⟩ := loose
    have body : ':' ∉ start ++ '-' :: stop := by simp [index_apart start', index_apart stop']
    have inner := splitOn_stepped body (step_apart step').1 more
    have dash : '-' ∈ (ArrayItem.stepped start stop step more).text := by simp [ArrayItem.text]
    obtain ⟨value, read⟩ := Option.isSome_iff_exists.mp step'
    have zero := asUsize_eq_zero (parseI32_bounds read).1 (parseI32_bounds read).2
    simp only [partIndices, if_pos dash, inner, List.getElem?_cons_succ, List.getElem?_cons_zero, Option.elim_some, read,
      parse_index start', parse_index stop', List.headD_cons, splitOn_span (index_apart start').1 (index_apart stop').1,
      looseRange, taken, Option.getD_some, zero]

def Apart : ArrayItem → Prop
  | .single index => '-' ∉ index
  | .span start stop => '-' ∉ start ∧ '-' ∉ stop ∧ ':' ∉ start ++ '-' :: stop
  | .stepped start stop step _ => '-' ∉ start ∧ '-' ∉ stop ∧ ':' ∉ start ++ '-' :: stop ∧ ':' ∉ step

theorem Loose.apart (loose : item.Loose) : item.Apart := by
  cases item with
  | single index => exact (index_apart loose).1
  | span start stop =>
    obtain ⟨start', stop'⟩ := loose
    exact ⟨(index_apart start').1, (index_apart stop').1, by simp [index_apart start', index_apart stop']⟩
  | stepped start stop step more =>
    obtain ⟨start', stop', step', _⟩ := loose
    exact ⟨(index_apart start').1, (index_apart stop').1, by simp [index_apart start', index_apart stop'],
      (step_apart step').1⟩

theorem isIndex_withoutPlus (index : IsIndex text) : IsIndex (withoutPlus text) := by
  rw [index.1.withoutPlus]
  exact index

theorem Strict.apart (strict : item.Strict) : item.Apart := by
  cases item with
  | single index => exact (index_apart (isIndex_withoutPlus strict)).1
  | span start stop =>
    have start' := index_apart (isIndex_withoutPlus strict.1)
    have stop' := index_apart (isIndex_withoutPlus strict.2)
    exact ⟨start'.1, stop'.1, by simp [start', stop']⟩
  | stepped start stop step more =>
    have start' := index_apart (isIndex_withoutPlus strict.1)
    have stop' := index_apart (isIndex_withoutPlus strict.2.1)
    exact ⟨start'.1, stop'.1, by simp [start', stop'], strict.2.2.1.not_mem (by decide)⟩

def ofText (part : List Char) : Option ArrayItem :=
  if '-' ∈ part then
    match part.splitOn ':' with
    | [] => none
    | body :: rest =>
      match body.splitOn '-', rest with
      | [start, stop], [] => some (.span start stop)
      | [start, stop], step :: more =>
        some (.stepped start stop step (if more.isEmpty then none else some ([':'].intercalate more)))
      | _, _ => none
  else some (.single part)

theorem Apart.ofText (apart : item.Apart) : ofText item.text = some item := by
  cases item with
  | single index => exact if_neg apart
  | span start stop =>
    obtain ⟨start', stop', body⟩ := apart
    have dash : '-' ∈ start ++ '-' :: stop := by simp
    simp only [ArrayItem.ofText, ArrayItem.text, if_pos dash, List.splitOn_eq_singleton body, splitOn_span start' stop']
  | stepped start stop step more =>
    obtain ⟨start', stop', body, step'⟩ := apart
    have dash : '-' ∈ (ArrayItem.stepped start stop step more).text := by simp [ArrayItem.text]
    simp only [ArrayItem.ofText, if_pos dash, splitOn_stepped body step', splitOn_span start' stop']
    cases more with
    | none => rfl
    | some rest => simp [List.splitOn_ne_nil, List.intercalate_splitOn]

theorem Apart.unique {items items' : List ArrayItem} (apart : ∀ item ∈ items, item.Apart)
    (apart' : ∀ item ∈ items', item.Apart) (same : items.map ArrayItem.text = items'.map ArrayItem.text) : items = items' := by
  have read {items : List ArrayItem} (apart : ∀ item ∈ items, item.Apart) :
      (items.map ArrayItem.text).filterMap ArrayItem.ofText = items := by
    induction items with
    | nil => rfl
    | cons item items ih =>
      obtain ⟨here, later⟩ := List.forall_mem_cons.mp apart
      simp [here.ofText, ih later]
  rw [← read apart, same, read apart']

theorem eq_span {start stop : List Char} (pieces : text.splitOn '-' = [start, stop]) : text = start ++ '-' :: stop := by
  have joined : ['-'].intercalate (text.splitOn '-') = text := List.intercalate_splitOn '-'
  rw [← joined, pieces]
  simp

/-- Whatever the parser does not reject is an item to it. -/
theorem exists_item (clean : ',' ∉ part) (read : ∀ error, partIndices part ≠ some (.error error)) :
    ∃ item : ArrayItem, item.Loose ∧ item.text = part := by
  unfold partIndices at read
  split at read
  · cases inner : part.splitOn ':' with
    | nil => exact absurd inner (List.splitOn_ne_nil _ _)
    | cons body rest =>
      have whole : [':'].intercalate (part.splitOn ':') = part := List.intercalate_splitOn ':'
      rw [inner] at whole
      simp only [inner, List.headD_cons] at read
      split at read
      · exact absurd rfl (read _)
      rename_i step stepped
      split at read
      · rename_i start stop pieces
        split at read
        · exact absurd rfl (read _)
        · rename_i first start'
          split at read
          · exact absurd rfl (read _)
          · rename_i last stop'
            have body' := eq_span pieces
            have start' := (isIndex_iff.mp start').1
            have stop' := (isIndex_iff.mp stop').1
            cases rest with
            | nil => exact ⟨.span start stop, ⟨start', stop'⟩, by rw [← whole, body']; simp [ArrayItem.text]⟩
            | cons second more =>
              have second' : (parseI32 second).isSome := by
                simp only [List.getElem?_cons_succ, List.getElem?_cons_zero, Option.elim_some] at stepped
                rw [stepped]
                rfl
              cases more with
              | nil =>
                refine ⟨.stepped start stop second none, ⟨start', stop', second', by simp⟩, ?_⟩
                rw [← whole, body']
                simp [ArrayItem.text]
              | cons third more =>
                refine ⟨.stepped start stop second (some ([':'].intercalate (third :: more))),
                  ⟨start', stop', second', ?_⟩, ?_⟩
                · rintro rest ⟨⟩ member
                  refine clean ?_
                  rw [← whole]
                  simp [member]
                · rw [← whole, body']
                  simp [ArrayItem.text]
      · exact absurd rfl (read _)
  · split at read
    · exact absurd rfl (read _)
    · rename_i value found
      exact ⟨.single part, (isIndex_iff.mp found).1, rfl⟩

end Items

section Lists

variable {items before : List ArrayItem} {item : ArrayItem} {parts : List (List Char)} {acc indices : List Nat} {text : String}

theorem collect_items (passable : ∀ item ∈ items, item.Passable) (parts : List (List Char)) :
    collectIndices acc (items.map ArrayItem.text ++ parts) = collectIndices (acc ++ items.flatMap taken) parts := by
  induction items generalizing acc with
  | nil => simp
  | cons item items ih =>
    obtain ⟨⟨loose, positive⟩, rest⟩ := List.forall_mem_cons.mp passable
    rw [List.map_cons, List.cons_append, collectIndices, partIndices_text loose, if_neg positive]
    simp only [ih rest, List.flatMap_cons, List.append_assoc]

theorem collect_cases (clean : ∀ part ∈ parts, ',' ∉ part) (read : ∀ error, collectIndices acc parts ≠ some (.error error)) :
    (∃ items : List ArrayItem, parts = items.map ArrayItem.text ∧ ∀ item ∈ items, item.Passable) ∨
      ∃ (before : List ArrayItem) (item : ArrayItem) (after : List (List Char)),
        parts = before.map ArrayItem.text ++ item.text :: after ∧
          (∀ item ∈ before, item.Passable) ∧ item.Loose ∧ item.looseRange.step = 0 := by
  induction parts generalizing acc with
  | nil => exact .inl ⟨[], rfl, by simp⟩
  | cons part parts ih =>
    obtain ⟨here, later⟩ := List.forall_mem_cons.mp clean
    have accepted : ∀ error, partIndices part ≠ some (.error error) := by
      intro error rejected
      exact read error (by rw [collectIndices, rejected])
    obtain ⟨item, loose, rfl⟩ := exists_item here accepted
    by_cases zero : item.looseRange.step = 0
    · exact .inr ⟨[], item, parts, rfl, by simp, loose, zero⟩
    · have rest : ∀ error, collectIndices (acc ++ item.taken) parts ≠ some (.error error) := by
        intro error rejected
        refine read error ?_
        rw [collectIndices, partIndices_text loose, if_neg zero]
        exact rejected
      rcases ih later rest with ⟨items, rfl, passable⟩ | ⟨before, last, after, rfl, passable, stuck⟩
      · exact .inl ⟨item :: items, rfl, List.forall_mem_cons.mpr ⟨⟨loose, zero⟩, passable⟩⟩
      · exact .inr ⟨item :: before, last, after, rfl, List.forall_mem_cons.mpr ⟨⟨loose, zero⟩, passable⟩, stuck⟩

theorem mem_taken {index : Nat} (passable : item.Passable) :
    index ∈ item.taken ↔ item.looseRange.Covers index :=
  mem_stepBy (Nat.pos_of_ne_zero passable.2)

theorem Loose.stop_lt (loose : item.Loose) : item.looseRange.stop < 2 ^ 32 := by
  cases item with
  | single index => exact loose.2
  | span start stop => exact loose.2.2
  | stepped start stop step more => exact loose.2.1.2

theorem toFinset_taken (passable : ∀ item ∈ items, item.Passable) :
    (items.flatMap taken).toFinset = IndexRange.covered (items.map looseRange) := by
  ext index
  simp only [List.mem_toFinset, List.mem_flatMap, IndexRange.covered, Finset.mem_filter, Finset.mem_range, List.mem_map]
  constructor
  · rintro ⟨item, member, inside⟩
    have covers := (mem_taken (passable item member)).mp inside
    have below := (passable item member).1.stop_lt
    exact ⟨Nat.lt_of_le_of_lt covers.2.1 below, _, ⟨item, member, rfl⟩, covers⟩
  · rintro ⟨_, _, ⟨item, member, rfl⟩, covers⟩
    exact ⟨item, member, (mem_taken (passable item member)).mpr covers⟩

/-- Sorted and without repetition, they are the covered indices in order. -/
theorem sort_taken (collected : List Nat) :
    (collected.insertionSort (· ≤ ·)).dedup = collected.toFinset.sort (· ≤ ·) := by
  have sorted : ((collected.insertionSort (· ≤ ·)).dedup).Pairwise (· ≤ ·) :=
    (List.pairwise_insertionSort (· ≤ ·) collected).sublist (List.dedup_sublist _)
  have whole : ((collected.insertionSort (· ≤ ·)).dedup).toFinset = collected.toFinset := by
    ext index
    simp
  rw [← whole]
  exact ((List.toFinset_sort (· ≤ ·) (List.nodup_dedup _)).mpr sorted).symm

theorem parse_items (lists : Lists text items) (passable : ∀ item ∈ items, item.Passable) :
    parseArrayRange text =
      let covered := IndexRange.covered (items.map looseRange)
      if covered.card = 0 then some (.error "Array range is empty")
      else if covered.card > 10000 then some (.error "Array range is too large (max 10000 tasks)")
      else some (.ok (covered.sort (· ≤ ·))) := by
  have collected : collectIndices [] (items.map ArrayItem.text ++ []) = some (.ok ([] ++ items.flatMap taken)) :=
    collect_items passable []
  rw [List.append_nil, List.nil_append] at collected
  rw [parseArrayRange, lists, collected]
  simp only [sort_taken, toFinset_taken passable, Finset.length_sort, List.isEmpty_iff_length_eq_zero]

theorem parse_passes (lists : Lists text items) (passable : ∀ item ∈ items, item.Passable)
    (sized : IndexRange.Sized (items.map looseRange)) :
    parseArrayRange text = some (.ok ((IndexRange.covered (items.map looseRange)).sort (· ≤ ·))) := by
  simp only [parse_items lists passable, if_neg (Nat.ne_of_gt sized.1), if_neg (Nat.not_lt.mpr sized.2)]

theorem clean_parts : ∀ part ∈ text.toList.splitOn ',', ',' ∉ part := fun _ member => (mem_splitOn member).1

theorem collected_cases (accepted : ∀ error, collectIndices [] (text.toList.splitOn ',') ≠ some (.error error)) :
    (∃ items, Lists text items ∧ ∀ item ∈ items, item.Passable) ∨ Stumbles text :=
  collect_cases clean_parts accepted

theorem stumbles (stuck : Stumbles text) : parseArrayRange text = none := by
  obtain ⟨before, item, after, parts, passable, loose, zero⟩ := stuck
  rw [parseArrayRange, parts, collect_items passable, collectIndices, partIndices_text loose, if_pos zero]

/-- The parser rejects exactly the texts that neither pass nor make it stumble. -/
theorem rejects_iff : (∃ error, parseArrayRange text = some (.error error)) ↔ ¬ Passes text ∧ ¬ Stumbles text := by
  constructor
  · rintro ⟨error, rejected⟩
    constructor
    · rintro ⟨items, lists, passable, sized⟩
      rw [parse_passes lists passable sized] at rejected
      cases rejected
    · intro stuck
      rw [stumbles stuck] at rejected
      cases rejected
  · rintro ⟨blocked, steady⟩
    cases result : collectIndices [] (text.toList.splitOn ',') with
    | none =>
      have accepted : ∀ error, collectIndices [] (text.toList.splitOn ',') ≠ some (.error error) := by simp [result]
      rcases collected_cases accepted with ⟨items, parts, passable⟩ | stuck
      · have collected : collectIndices [] (items.map ArrayItem.text ++ []) = some (.ok ([] ++ items.flatMap taken)) :=
          collect_items passable []
        rw [List.append_nil, ← parts, result] at collected
        cases collected
      · exact absurd stuck steady
    | some outcome =>
      cases outcome with
      | error error => exact ⟨error, by rw [parseArrayRange, result]⟩
      | ok indices =>
        have accepted : ∀ error, collectIndices [] (text.toList.splitOn ',') ≠ some (.error error) := by simp [result]
        rcases collected_cases accepted with ⟨items, parts, passable⟩ | stuck
        · have whole := parse_items parts passable
          simp only at whole
          split at whole
          · exact ⟨_, whole⟩
          · split at whole
            · exact ⟨_, whole⟩
            · rename_i some few
              exact absurd ⟨items, parts, passable, Nat.pos_of_ne_zero some, Nat.not_lt.mp few⟩ blocked
        · exact absurd stuck steady

theorem passable_of_ok (done : parseArrayRange text = some (.ok indices)) :
    ∃ items, Lists text items ∧ ∀ item ∈ items, item.Passable := by
  have accepted : ∀ error, collectIndices [] (text.toList.splitOn ',') ≠ some (.error error) := by
    intro error rejected
    rw [parseArrayRange, rejected] at done
    cases done
  rcases collected_cases accepted with found | stuck
  · exact found
  · rw [stumbles stuck] at done
    cases done

end Lists

section Exactness

variable {items items' : List ArrayItem} {item : ArrayItem} {text : String}

theorem Strict.passable (strict : item.Strict) (small : item.SmallStep) :
    item.Passable ∧ item.looseRange = item.range := by
  cases item with
  | single index =>
    refine ⟨⟨isIndex_withoutPlus strict, Nat.one_ne_zero⟩, ?_⟩
    simp [looseRange, range, strict.1.withoutPlus]
  | span start stop =>
    refine ⟨⟨⟨isIndex_withoutPlus strict.1, isIndex_withoutPlus strict.2⟩, Nat.one_ne_zero⟩, ?_⟩
    simp [looseRange, range, strict.1.1.withoutPlus, strict.2.1.withoutPlus]
  | stepped start stop step more =>
    obtain ⟨start', stop', step', positive, rfl⟩ := strict
    have read := parseI32_decimal step' small
    have value : asUsize (decimalValue step) = decimalValue step := by
      have bound : decimalValue step < 2 ^ 31 := small
      unfold asUsize
      omega
    have same : (ArrayItem.stepped start stop step none).looseRange = (ArrayItem.stepped start stop step none).range := by
      simp [looseRange, range, start'.1.withoutPlus, stop'.1.withoutPlus, read, value]
    refine ⟨⟨⟨isIndex_withoutPlus start', isIndex_withoutPlus stop', by rw [read]; rfl, by simp⟩, ?_⟩, same⟩
    rw [same]
    exact Nat.ne_of_gt positive

theorem smallStep_of_loose (strict : item.Strict) (loose : item.Loose) : item.SmallStep := by
  cases item with
  | single index => trivial
  | span start stop => trivial
  | stepped start stop step more =>
    obtain ⟨value, read⟩ := Option.isSome_iff_exists.mp loose.2.2.1
    have bounds := parseI32_bounds read
    have decimal : IsDecimal step := strict.2.2.1
    unfold parseI32 at read
    split at read
    · exact absurd List.mem_cons_self (decimal.not_mem (by decide))
    · rw [decimal.withoutPlus] at read
      split at read
      · rename_i good
        exact good.2
      · cases read

theorem Lists.unique (lists : Lists text items) (lists' : Lists text items') (apart : ∀ item ∈ items, item.Apart)
    (apart' : ∀ item ∈ items', item.Apart) : items = items' :=
  Apart.unique apart apart' (lists.symm.trans lists')

theorem IsDecimal.chars {text : List Char} (decimal : IsDecimal text) :
    ∀ char ∈ text, (char.isDigit || char ∈ ['-', ',', ':', '%']) = true :=
  fun char member => by rw [decimal.digits char member, Bool.true_or]

theorem Strict.chars (strict : item.Strict) : item.text ≠ [] ∧
    ∀ char ∈ item.text, (char.isDigit || char ∈ ['-', ',', ':', '%']) = true := by
  cases item with
  | single index => exact ⟨strict.1.filled, IsDecimal.chars strict.1⟩
  | span start stop =>
    have start' := IsDecimal.chars strict.1.1
    have stop' := IsDecimal.chars strict.2.1
    refine ⟨by simp [ArrayItem.text], fun char member => ?_⟩
    simp only [ArrayItem.text, List.mem_append, List.mem_cons] at member
    rcases member with inside | rfl | inside
    · exact start' char inside
    · decide
    · exact stop' char inside
  | stepped start stop step more =>
    obtain ⟨start', stop', step', _, rfl⟩ := strict
    refine ⟨by simp [ArrayItem.text], fun char member => ?_⟩
    simp only [ArrayItem.text, Option.map_none, Option.getD_none, List.append_nil, List.mem_append, List.mem_cons] at member
    rcases member with inside | rfl | inside | rfl | inside
    · exact IsDecimal.chars start'.1 char inside
    · decide
    · exact IsDecimal.chars stop'.1 char inside
    · decide
    · exact IsDecimal.chars step' char inside

theorem validate_strict (lists : Lists text items) (strict : ∀ item ∈ items, item.Strict) : validateArray text = .ok () := by
  have whole : text.toList = [','].intercalate (items.map ArrayItem.text) := by rw [← lists, List.intercalate_splitOn]
  have filled : ¬ text.isEmpty = true := by
    intro empty
    rw [Lists, String.isEmpty_iff.mp empty] at lists
    cases items with
    | nil => cases lists
    | cons item items =>
      have first : [] = item.text := (List.cons.inj lists).1
      exact (strict item List.mem_cons_self).chars.1 first.symm
  have chars : text.toList.all (fun char => char.isDigit || char ∈ ['-', ',', ':', '%']) = true := by
    refine List.all_eq_true.mpr fun char member => ?_
    rw [whole] at member
    rcases mem_intercalate member with rfl | ⟨part, listed, inside⟩
    · decide
    · obtain ⟨item, member, rfl⟩ := List.mem_map.mp listed
      exact (strict item member).chars.2 char inside
  rw [validateArray, if_neg filled, if_pos chars]

/-- A text is read exactly, by Slurm's lights as well, if and only if its ranges go up and
its steps are small when it has the form, and the parser has nothing to take when it has not. -/
theorem readExactly_iff (text : String) : ReadExactly text ∧ SlurmReads text ↔
    (∀ items, Denotes text items → ∀ item ∈ items, item.Ascending ∧ item.SmallStep) ∧
      ((¬ ∃ items, Denotes text items) → ¬ Passes text ∧ ¬ Stumbles text) := by
  constructor
  · rintro ⟨⟨exact, rejects⟩, slurm⟩
    refine ⟨fun items denotes => ?_, fun none => rejects_iff.mp (rejects none)⟩
    obtain ⟨lists, strict, sized⟩ := denotes
    have done := exact items ⟨lists, strict, sized⟩
    have apart : ∀ item ∈ items, item.Apart := fun item member => (strict item member).apart
    obtain ⟨items', lists', passable⟩ := passable_of_ok done
    obtain rfl := lists.unique lists' apart fun item member => (passable item member).1.apart
    rcases slurm (validate_strict lists strict) with ⟨error, rejected⟩ | ⟨items', lists', meant, _⟩
    · rw [done] at rejected
      cases rejected
    · obtain rfl := lists.unique lists' apart fun item member => (meant item member).1.apart
      exact fun item member => ⟨(meant item member).2, smallStep_of_loose (strict item member) (passable item member).1⟩
  · rintro ⟨formed, other⟩
    have taken {items : List ArrayItem} (denotes : Denotes text items) :
        parseArrayRange text = some (.ok ((IndexRange.covered (items.map range)).sort (· ≤ ·))) := by
      obtain ⟨lists, strict, sized⟩ := denotes
      have facts : ∀ item ∈ items, item.Passable ∧ item.looseRange = item.range := fun item member =>
        (strict item member).passable (formed items ⟨lists, strict, sized⟩ item member).2
      have same : items.map looseRange = items.map range := List.map_congr_left fun item member => (facts item member).2
      rw [parse_passes lists (fun item member => (facts item member).1) (same ▸ sized), same]
    refine ⟨⟨fun items denotes => taken denotes, fun none => rejects_iff.mpr (other none)⟩, fun _ => ?_⟩
    by_cases denotes : ∃ items, Denotes text items
    · obtain ⟨items, denotes⟩ := denotes
      refine .inr ⟨items, denotes.1, fun item member => ?_, taken denotes⟩
      exact ⟨denotes.2.1 item member, (formed items denotes item member).1⟩
    · exact .inl (rejects_iff.mpr (other denotes))

/-- A step of zero panics. -/
theorem zero_step_panics : ¬ (ReadExactly "0-5:0" ∧ SlurmReads "0-5:0") := by
  rintro ⟨_, slurm⟩
  have panics : parseArrayRange "0-5:0" = none := by decide +kernel
  rcases slurm (by decide) with ⟨error, rejected⟩ | ⟨items, _, _, done⟩
  · rw [panics] at rejected
    cases rejected
  · rw [panics] at done
    cases done

end Exactness

end ArrayItem

end Veloce
