import Veloce.Collections.Pieces
import Veloce.FrontEnd.Decimals

/-! Time limits of Slurm in seconds. -/

namespace Veloce

open Collections

/-- The saturating operations of `u64` stop at its largest value. -/
def saturate (value : Nat) : Nat := min value (2 ^ 64 - 1)

def parseTimeField (text : List Char) (field : String) : Except String Nat :=
  match parseU64 text with
  | some value => .ok value
  | none => .error s!"invalid {field} in time value '{String.ofList text}'"

def splitDays (value : String) : Except String (Nat × String) :=
  match splitOnce '-' value with
  | some (days, rest) => do return (← parseTimeField days.toList "days", rest)
  | none => return (0, value)

/-- Hours, minutes and seconds from the parts between colons. -/
def clockFields (raw : String) (days : Nat) (parts : List (List Char)) : Except String (Nat × Nat × Nat) :=
  match parts with
  | [minutes] =>
    if days = 0 then do return (0, ← parseTimeField minutes "minutes", 0)
    else do return (← parseTimeField minutes "hours", 0, 0)
  | [minutes, seconds] =>
    if days = 0 then do return (0, ← parseTimeField minutes "minutes", ← parseTimeField seconds "seconds")
    else do return (← parseTimeField minutes "hours", ← parseTimeField seconds "minutes", 0)
  | [hours, minutes, seconds] => do
    return (← parseTimeField hours "hours", ← parseTimeField minutes "minutes", ← parseTimeField seconds "seconds")
  | _ => .error s!"invalid time value '{raw}'"

def parseSlurmTime (raw : String) : Except String Nat :=
  let value := trimWhitespace raw
  if value = "" then .error "empty time value"
  else do
    let (days, rest) ← splitDays value
    let (hours, minutes, seconds) ← clockFields raw days (rest.toList.splitOn ':')
    return saturate (saturate (saturate (saturate (days * 86400) + saturate (hours * 3600)) + saturate (minutes * 60)) +
      seconds)

/-- The six forms of a time limit. -/
inductive TimeLimit (α : Type) where
  | minutesOnly (minutes : α)
  | minutesSeconds (minutes seconds : α)
  | hoursMinutesSeconds (hours minutes seconds : α)
  | daysHours (days hours : α)
  | daysHoursMinutes (days hours minutes : α)
  | daysHoursMinutesSeconds (days hours minutes seconds : α)

namespace TimeLimit

variable {α β : Type}

def components : TimeLimit α → List α
  | .minutesOnly minutes => [minutes]
  | .minutesSeconds minutes seconds => [minutes, seconds]
  | .hoursMinutesSeconds hours minutes seconds => [hours, minutes, seconds]
  | .daysHours days hours => [days, hours]
  | .daysHoursMinutes days hours minutes => [days, hours, minutes]
  | .daysHoursMinutesSeconds days hours minutes seconds => [days, hours, minutes, seconds]

def map (f : α → β) : TimeLimit α → TimeLimit β
  | .minutesOnly minutes => .minutesOnly (f minutes)
  | .minutesSeconds minutes seconds => .minutesSeconds (f minutes) (f seconds)
  | .hoursMinutesSeconds hours minutes seconds => .hoursMinutesSeconds (f hours) (f minutes) (f seconds)
  | .daysHours days hours => .daysHours (f days) (f hours)
  | .daysHoursMinutes days hours minutes => .daysHoursMinutes (f days) (f hours) (f minutes)
  | .daysHoursMinutesSeconds days hours minutes seconds =>
    .daysHoursMinutesSeconds (f days) (f hours) (f minutes) (f seconds)

def text : TimeLimit (List Char) → List Char
  | .minutesOnly minutes => minutes
  | .minutesSeconds minutes seconds => minutes ++ ':' :: seconds
  | .hoursMinutesSeconds hours minutes seconds => hours ++ ':' :: (minutes ++ ':' :: seconds)
  | .daysHours days hours => days ++ '-' :: hours
  | .daysHoursMinutes days hours minutes => days ++ '-' :: (hours ++ ':' :: minutes)
  | .daysHoursMinutesSeconds days hours minutes seconds => days ++ '-' :: (hours ++ ':' :: (minutes ++ ':' :: seconds))

def seconds : TimeLimit Nat → Nat
  | .minutesOnly minutes => minutes * 60
  | .minutesSeconds minutes seconds => minutes * 60 + seconds
  | .hoursMinutesSeconds hours minutes seconds => hours * 3600 + minutes * 60 + seconds
  | .daysHours days hours => days * 86400 + hours * 3600
  | .daysHoursMinutes days hours minutes => days * 86400 + hours * 3600 + minutes * 60
  | .daysHoursMinutesSeconds days hours minutes seconds => days * 86400 + hours * 3600 + minutes * 60 + seconds

/-- The text is a time limit of digits. -/
def Denotes (raw : String) (time : TimeLimit (List Char)) : Prop :=
  time.text = raw.toList ∧ ∀ part ∈ time.components, IsDecimal part

/-- A text is read as what it denotes, and rejected if it is of no form. -/
def ReadCorrectly (raw : String) : Prop :=
  (∀ time, Denotes raw time → parseSlurmTime raw = .ok (saturate (time.map decimalValue).seconds)) ∧
    ((¬ ∃ time, Denotes raw time) → ∃ error, parseSlurmTime raw = .error error)

/-- Hours behind a day part of zero are read as minutes, which is no mistake if there are
none, or so many that both are out of range. -/
def Clear : TimeLimit Nat → Prop
  | .daysHours days hours => days ≠ 0 ∨ hours = 0 ∨ 2 ^ 64 - 1 ≤ hours * 60
  | .daysHoursMinutes days hours minutes =>
    days ≠ 0 ∨ (hours = 0 ∧ minutes = 0) ∨ 2 ^ 64 - 1 ≤ hours * 60 + minutes
  | _ => True

/-- Written with blanks around it, or with plus signs before the numbers. -/
def Loosely (raw : String) (time : TimeLimit (List Char)) : Prop :=
  time.text = (trimWhitespace raw).toList ∧ ∀ part ∈ time.components, IsDecimal (withoutPlus part)

def Fits (time : TimeLimit (List Char)) : Prop := ∀ part ∈ time.components, decimalValue (withoutPlus part) < 2 ^ 64

end TimeLimit

section Splitting

variable {sep : Char} {text before after : List Char}

theorem dropWhile_solid (solid : ∀ char ∈ text, isWhitespace char = false) : text.dropWhile isWhitespace = text := by
  cases text with
  | nil => rfl
  | cons char rest => simp [solid char List.mem_cons_self]

theorem trimWhitespace_solid {text : String} (solid : ∀ char ∈ text.toList, isWhitespace char = false) :
    trimWhitespace text = text := by
  rw [trimWhitespace, dropWhile_solid solid, dropWhile_solid fun char member => solid char (List.mem_reverse.mp member),
    List.reverse_reverse, String.ofList_toList]

theorem isWhitespace_of_isDigit {char : Char} (digit : char.isDigit = true) : isWhitespace char = false := by
  have range : 48 ≤ char.toNat ∧ char.toNat ≤ 57 := by
    simpa [Char.isDigit, UInt32.le_iff_toNat_le] using digit
  simp [isWhitespace]
  omega

end Splitting

namespace TimeLimit

section Reading

variable {raw : String} {field : String} {text : List Char} {value seconds : Nat} {time : TimeLimit (List Char)}
  {parts : List (List Char)} {fields : Nat × Nat × Nat}

theorem parseTimeField_ok_iff : parseTimeField text field = .ok value ↔
    IsDecimal (withoutPlus text) ∧ decimalValue (withoutPlus text) = value ∧ value < 2 ^ 64 := by
  rw [← parseU64_eq_some_iff, parseTimeField]
  cases parseU64 text <;> simp

/-- A number that a parser of unsigned integers takes. -/
def Readable (part : List Char) : Prop := IsDecimal (withoutPlus part) ∧ decimalValue (withoutPlus part) < 2 ^ 64

theorem readable_of_ok (done : parseTimeField text field = .ok value) : Readable text := by
  obtain ⟨decimal, rfl, small⟩ := parseTimeField_ok_iff.mp done
  exact ⟨decimal, small⟩

theorem Readable.ok (readable : Readable text) (field : String) :
    parseTimeField text field = .ok (decimalValue (withoutPlus text)) :=
  parseTimeField_ok_iff.mpr ⟨readable.1, rfl, readable.2⟩

theorem Readable.not_mem {char : Char} (readable : Readable text) (other : char.isDigit = false)
    (unsigned : char ≠ '+') : char ∉ text := not_mem_of_decimal readable.1 other unsigned

theorem clockFields_ok (done : clockFields raw value parts = .ok fields) :
    (∃ first, parts = [first] ∧ Readable first) ∨
      (∃ first second, parts = [first, second] ∧ Readable first ∧ Readable second) ∨
      ∃ first second third, parts = [first, second, third] ∧ Readable first ∧ Readable second ∧ Readable third := by
  unfold clockFields at done
  split at done
  · rename_i first
    left
    split at done
    all_goals
      obtain ⟨number, read, _⟩ := except_bind_ok done
      exact ⟨first, rfl, readable_of_ok read⟩
  · rename_i first second
    right; left
    split at done
    all_goals
      obtain ⟨number, read, done⟩ := except_bind_ok done
      obtain ⟨number', read', _⟩ := except_bind_ok done
      exact ⟨first, second, rfl, readable_of_ok read, readable_of_ok read'⟩
  · rename_i first second third
    right; right
    obtain ⟨number, read, done⟩ := except_bind_ok done
    obtain ⟨number', read', done⟩ := except_bind_ok done
    obtain ⟨number'', read'', _⟩ := except_bind_ok done
    exact ⟨first, second, third, rfl, readable_of_ok read, readable_of_ok read', readable_of_ok read''⟩
  · cases done

def taken : TimeLimit Nat → Nat
  | .daysHours days hours => if days = 0 then hours * 60 else days * 86400 + hours * 3600
  | .daysHoursMinutes days hours minutes =>
    if days = 0 then hours * 60 + minutes else days * 86400 + hours * 3600 + minutes * 60
  | time => time.seconds

theorem eq_of_splitOn (pieces : text.splitOn ':' = parts) : text = [':'].intercalate parts := by
  rw [← pieces, List.intercalate_splitOn]

theorem of_parse (done : parseSlurmTime raw = .ok seconds) : ∃ time, Loosely raw time ∧ time.Fits := by
  suffices found : ∃ time : TimeLimit (List Char), time.text = (trimWhitespace raw).toList ∧
      ∀ part ∈ time.components, Readable part by
    obtain ⟨time, written, readable⟩ := found
    exact ⟨time, ⟨written, fun part member => (readable part member).1⟩, fun part member => (readable part member).2⟩
  simp only [parseSlurmTime] at done
  split at done
  · cases done
  obtain ⟨⟨days, rest⟩, dated, done⟩ := except_bind_ok done
  obtain ⟨fields, clock, _⟩ := except_bind_ok done
  rcases splitOnce_cases '-' (trimWhitespace raw) with ⟨_, whole⟩ | ⟨before, after, same, _, cut⟩
  · simp only [splitDays, whole] at dated
    cases dated
    rcases clockFields_ok clock with ⟨first, parts, _⟩ | ⟨first, second, parts, _⟩ | ⟨first, second, third, parts, _⟩
    · exact ⟨.minutesOnly first, by simp [text, eq_of_splitOn parts], by simpa [components]⟩
    · exact ⟨.minutesSeconds first second, by simp [text, eq_of_splitOn parts], by simpa [components]⟩
    · exact ⟨.hoursMinutesSeconds first second third, by simp [text, eq_of_splitOn parts], by simpa [components]⟩
  · simp only [splitDays, cut, String.toList_ofList] at dated
    obtain ⟨number, read, dated⟩ := except_bind_ok dated
    cases dated
    have day := readable_of_ok read
    simp only [String.toList_ofList] at clock
    rcases clockFields_ok clock with ⟨first, parts, _⟩ | ⟨first, second, parts, _⟩ | ⟨first, second, third, parts, _⟩
    · exact ⟨.daysHours before first, by simp [text, same, eq_of_splitOn parts], by simp [components, *]⟩
    · exact ⟨.daysHoursMinutes before first second, by simp [text, same, eq_of_splitOn parts], by simp [components, *]⟩
    · exact ⟨.daysHoursMinutesSeconds before first second third, by simp [text, same, eq_of_splitOn parts],
        by simp [components, *]⟩

theorem saturate_steps (days hours minutes seconds : Nat) :
    saturate (saturate (saturate (saturate (days * 86400) + saturate (hours * 3600)) + saturate (minutes * 60)) + seconds) =
      saturate (days * 86400 + hours * 3600 + minutes * 60 + seconds) := by
  simp only [saturate]
  omega

theorem splitDays_none (undated : '-' ∉ text) : splitDays (String.ofList text) = .ok (0, String.ofList text) := by
  rw [splitDays, splitOnce_of_not_mem undated]
  rfl

theorem splitDays_some {days : List Char} (readable : Readable days) (rest : List Char) :
    splitDays (String.ofList (days ++ '-' :: rest)) = .ok (decimalValue (withoutPlus days), String.ofList rest) := by
  rw [splitDays, splitOnce_append (readable.not_mem (by decide) (by decide))]
  simp only [String.toList_ofList, readable.ok]
  rfl

def fieldsOf (days : Nat) : List (List Char) → Nat × Nat × Nat
  | [minutes] =>
    if days = 0 then (0, decimalValue (withoutPlus minutes), 0) else (decimalValue (withoutPlus minutes), 0, 0)
  | [minutes, seconds] =>
    if days = 0 then (0, decimalValue (withoutPlus minutes), decimalValue (withoutPlus seconds))
    else (decimalValue (withoutPlus minutes), decimalValue (withoutPlus seconds), 0)
  | [hours, minutes, seconds] =>
    (decimalValue (withoutPlus hours), decimalValue (withoutPlus minutes), decimalValue (withoutPlus seconds))
  | _ => (0, 0, 0)

theorem clockFields_of (readable : ∀ part ∈ parts, Readable part) (some : parts ≠ []) (few : parts.length ≤ 3) :
    clockFields raw value parts = .ok (fieldsOf value parts) := by
  match parts with
  | [] => exact absurd rfl some
  | [first] =>
    have read := (readable first (by simp)).ok
    simp only [clockFields, fieldsOf, read]
    split <;> rfl
  | [first, second] =>
    have read := (readable first (by simp)).ok
    have read' := (readable second (by simp)).ok
    simp only [clockFields, fieldsOf, read, read']
    split <;> rfl
  | [first, second, third] =>
    have read := (readable first (by simp)).ok
    have read' := (readable second (by simp)).ok
    have read'' := (readable third (by simp)).ok
    simp only [clockFields, fieldsOf, read, read', read'']
    rfl
  | _ :: _ :: _ :: _ :: _ =>
    simp only [List.length_cons] at few
    omega

theorem splitOn_clock (readable : ∀ part ∈ parts, Readable part) (some : parts ≠ []) :
    ([':'].intercalate parts).splitOn ':' = parts :=
  splitOn_intercalate_iff.mpr ⟨some, fun part member => (readable part member).not_mem (by decide) (by decide)⟩

theorem clock_ne_nil (readable : ∀ part ∈ parts, Readable part) (some : parts ≠ []) : [':'].intercalate parts ≠ [] := by
  intro empty
  have pieces := splitOn_clock readable some
  rw [empty, List.splitOn_nil] at pieces
  have blank := readable [] (pieces ▸ List.mem_singleton_self [])
  exact blank.1.filled rfl

theorem undated_intercalate (undated : ∀ part ∈ parts, '-' ∉ part) : '-' ∉ [':'].intercalate parts := by
  intro member
  rcases mem_intercalate member with same | ⟨part, inside, member⟩
  · exact absurd same (by decide)
  · exact undated part inside member

theorem undated_clock (readable : ∀ part ∈ parts, Readable part) : '-' ∉ [':'].intercalate parts :=
  undated_intercalate fun part member => (readable part member).not_mem (by decide) (by decide)

def spent (days : Nat) (fields : Nat × Nat × Nat) : Nat :=
  days * 86400 + fields.1 * 3600 + fields.2.1 * 60 + fields.2.2

theorem parse_undated (readable : ∀ part ∈ parts, Readable part) (some : parts ≠ []) (few : parts.length ≤ 3)
    (written : (trimWhitespace raw).toList = [':'].intercalate parts) :
    parseSlurmTime raw = .ok (saturate (spent 0 (fieldsOf 0 parts))) := by
  have text : trimWhitespace raw = String.ofList ([':'].intercalate parts) := by rw [← written, String.ofList_toList]
  have filled : trimWhitespace raw ≠ "" := fun empty => clock_ne_nil readable some (by rw [← written, empty]; rfl)
  simp only [parseSlurmTime, if_neg filled]
  simp only [text, splitDays_none (undated_clock readable), bind, Except.bind, String.toList_ofList,
    splitOn_clock readable some, clockFields_of readable some few]
  exact congrArg Except.ok (saturate_steps ..)

theorem parse_dated {days : List Char} (day : Readable days) (readable : ∀ part ∈ parts, Readable part)
    (some : parts ≠ []) (few : parts.length ≤ 3)
    (written : (trimWhitespace raw).toList = days ++ '-' :: [':'].intercalate parts) :
    parseSlurmTime raw = .ok (saturate (spent (decimalValue (withoutPlus days))
      (fieldsOf (decimalValue (withoutPlus days)) parts))) := by
  have text : trimWhitespace raw = String.ofList (days ++ '-' :: [':'].intercalate parts) := by
    rw [← written, String.ofList_toList]
  have filled : trimWhitespace raw ≠ "" := fun empty => by
    rw [empty] at written
    simp at written
  simp only [parseSlurmTime, if_neg filled]
  simp only [text, splitDays_some day, bind, Except.bind, String.toList_ofList,
    splitOn_clock readable some, clockFields_of readable some few]
  exact congrArg Except.ok (saturate_steps ..)

/-- And those are accepted, with the seconds taken. -/
theorem parse_of (loose : Loosely raw time) (fits : time.Fits) :
    parseSlurmTime raw = .ok (saturate (time.map (fun part => decimalValue (withoutPlus part))).taken) := by
  have readable : ∀ part ∈ time.components, Readable part := fun part member => ⟨loose.2 part member, fits part member⟩
  have written := loose.1.symm
  cases time with
  | minutesOnly minutes | minutesSeconds minutes seconds | hoursMinutesSeconds hours minutes seconds =>
    rw [parse_undated readable (by simp [components]) (by simp [components]) (by simpa [components, text] using written)]
    simp [fieldsOf, components, spent, map, taken, TimeLimit.seconds]
  | daysHours days hours | daysHoursMinutes days hours minutes =>
    obtain ⟨day, readable⟩ := List.forall_mem_cons.mp readable
    rw [parse_dated day readable (by simp) (by simp) (by simpa [text] using written)]
    simp only [fieldsOf, spent, map, taken]
    split <;> simp [*]
  | daysHoursMinutesSeconds days hours minutes seconds =>
    obtain ⟨day, readable⟩ := List.forall_mem_cons.mp readable
    rw [parse_dated day readable (by simp) (by simp) (by simpa [text] using written)]
    rfl

def day? : TimeLimit (List Char) → Option (List Char)
  | .daysHours days _ | .daysHoursMinutes days _ _ | .daysHoursMinutesSeconds days _ _ _ => some days
  | _ => none

def clock : TimeLimit (List Char) → List (List Char)
  | .minutesOnly minutes => [minutes]
  | .minutesSeconds minutes seconds => [minutes, seconds]
  | .hoursMinutesSeconds hours minutes seconds => [hours, minutes, seconds]
  | .daysHours _ hours => [hours]
  | .daysHoursMinutes _ hours minutes => [hours, minutes]
  | .daysHoursMinutesSeconds _ hours minutes seconds => [hours, minutes, seconds]

theorem components_eq (time : TimeLimit (List Char)) : time.components = time.day?.toList ++ time.clock := by
  cases time <;> rfl

theorem text_eq (time : TimeLimit (List Char)) :
    time.text = (time.day?.map (· ++ ['-'])).getD [] ++ [':'].intercalate time.clock := by
  cases time <;> simp [text, day?, clock]

/-- The form with these days and these parts. -/
def ofLayout : Option (List Char) → List (List Char) → Option (TimeLimit (List Char))
  | none, [minutes] => some (.minutesOnly minutes)
  | none, [minutes, seconds] => some (.minutesSeconds minutes seconds)
  | none, [hours, minutes, seconds] => some (.hoursMinutesSeconds hours minutes seconds)
  | some days, [hours] => some (.daysHours days hours)
  | some days, [hours, minutes] => some (.daysHoursMinutes days hours minutes)
  | some days, [hours, minutes, seconds] => some (.daysHoursMinutesSeconds days hours minutes seconds)
  | _, _ => none

theorem ofLayout_eq (time : TimeLimit (List Char)) : ofLayout time.day? time.clock = some time := by
  cases time <;> rfl

theorem clock_filled (time : TimeLimit (List Char)) : time.clock ≠ [] := by
  cases time <;> simp [clock]

def Apart (time : TimeLimit (List Char)) : Prop := ∀ part ∈ time.components, '-' ∉ part ∧ ':' ∉ part

theorem Apart.splitOnce (apart : time.Apart) : splitOnce '-' (String.ofList time.text) =
    time.day?.map fun days => (String.ofList days, String.ofList ([':'].intercalate time.clock)) := by
  rw [Apart, components_eq] at apart
  rw [text_eq]
  cases dated : time.day? with
  | none =>
    rw [dated] at apart
    exact splitOnce_of_not_mem (undated_intercalate fun part member => (apart part member).1)
  | some days =>
    rw [dated] at apart
    simpa using splitOnce_append (apart days (by simp)).1

/-- The form and the parts of a time limit can be told from its text. -/
theorem Apart.unique {other : TimeLimit (List Char)} (apart : time.Apart) (apart' : other.Apart)
    (same : time.text = other.text) : time = other := by
  have pieces {time : TimeLimit (List Char)} (apart : time.Apart) :
      ([':'].intercalate time.clock).splitOn ':' = time.clock := by
    rw [Apart, components_eq] at apart
    exact splitOn_intercalate_iff.mpr ⟨time.clock_filled, fun part member =>
      (apart part (List.mem_append_right _ member)).2⟩
  have cut := apart.splitOnce
  rw [same, apart'.splitOnce] at cut
  have days : time.day? = other.day? ∧ [':'].intercalate time.clock = [':'].intercalate other.clock := by
    cases dated : time.day? with
    | none =>
      cases dated' : other.day? with
      | none => exact ⟨rfl, by simpa [text_eq, dated, dated'] using same⟩
      | some _ => simp [dated, dated'] at cut
    | some _ =>
      cases dated' : other.day? with
      | none => simp [dated, dated'] at cut
      | some _ =>
        simp only [dated, dated', Option.map_some, Option.some.injEq, Prod.mk.injEq, String.ofList_inj] at cut
        exact ⟨congrArg some cut.1.symm, cut.2.symm⟩
  have clock : time.clock = other.clock := by rw [← pieces apart, days.2, pieces apart']
  have whole := ofLayout_eq time
  rw [days.1, clock, ofLayout_eq] at whole
  exact (Option.some.inj whole).symm

theorem Loosely.apart (loose : Loosely raw time) : time.Apart := fun part member =>
  ⟨not_mem_of_decimal (loose.2 part member) (by decide) (by decide),
    not_mem_of_decimal (loose.2 part member) (by decide) (by decide)⟩

theorem mem_text {char : Char} (member : char ∈ time.text) :
    char = '-' ∨ char = ':' ∨ ∃ part ∈ time.components, char ∈ part := by
  cases time <;> simp only [text, components, List.mem_append, List.mem_cons] at member ⊢ <;> grind

theorem Denotes.loosely (denotes : Denotes raw time) : Loosely raw time := by
  have solid : ∀ char ∈ raw.toList, isWhitespace char = false := by
    intro char member
    rw [← denotes.1] at member
    rcases mem_text member with rfl | rfl | ⟨part, inside, member⟩
    · decide
    · decide
    · exact isWhitespace_of_isDigit ((denotes.2 part inside).digits char member)
  refine ⟨by rw [denotes.1, trimWhitespace_solid solid], fun part member => ?_⟩
  rw [(denotes.2 part member).withoutPlus]
  exact denotes.2 part member

theorem map_withoutPlus (decimal : ∀ part ∈ time.components, IsDecimal part) :
    time.map (fun part => decimalValue (withoutPlus part)) = time.map decimalValue := by
  cases time <;> simp_all [map, components, IsDecimal.withoutPlus]

theorem saturate_taken_iff (time : TimeLimit Nat) : saturate time.taken = saturate time.seconds ↔ time.Clear := by
  cases time with
  | minutesOnly | minutesSeconds | hoursMinutesSeconds | daysHoursMinutesSeconds => simp [taken, Clear]
  | daysHours days hours =>
    simp only [taken, TimeLimit.seconds, Clear, saturate]
    split <;> omega
  | daysHoursMinutes days hours minutes =>
    simp only [taken, TimeLimit.seconds, Clear, saturate]
    split <;> omega

/-- A time limit is read correctly if and only if it is written with numbers in range and
without a day part of zero that shifts the rest, or cannot be mistaken for one that is. -/
theorem readCorrectly_iff (raw : String) : ReadCorrectly raw ↔
    (∀ time, Denotes raw time → time.Fits ∧ (time.map decimalValue).Clear) ∧
      ((¬ ∃ time, Denotes raw time) → ¬ ∃ time, Loosely raw time ∧ time.Fits) := by
  refine and_congr (forall_congr' fun time => imp_congr_right fun denotes => ?_) (imp_congr_right fun _ => ?_)
  · have loose := denotes.loosely
    rw [← saturate_taken_iff]
    constructor
    · intro done
      obtain ⟨other, loose', fits⟩ := of_parse done
      have same : time = other := loose.apart.unique loose'.apart (loose.1.trans loose'.1.symm)
      rw [← same] at fits
      rw [parse_of loose fits, map_withoutPlus denotes.2] at done
      exact ⟨fits, Except.ok.inj done⟩
    · rintro ⟨fits, same⟩
      rw [parse_of loose fits, map_withoutPlus denotes.2, same]
  · constructor
    · rintro ⟨error, rejected⟩ ⟨time, loose, fits⟩
      rw [parse_of loose fits] at rejected
      cases rejected
    · intro none
      cases result : parseSlurmTime raw with
      | error error => exact ⟨error, rfl⟩
      | ok seconds => exact absurd (of_parse result) none

/-- No days and five hours are taken for five minutes. -/
theorem zero_days_misread : ¬ ReadCorrectly "0-5" := by
  intro correct
  have read := correct.1 (.daysHours ['0'] ['5']) ⟨rfl, by decide⟩
  revert read
  decide +kernel

end Reading

end TimeLimit

end Veloce
