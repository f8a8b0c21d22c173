import Mathlib.Data.List.Basic
import Mathlib.Data.List.Infix
import Mathlib.Data.List.TakeWhile

/-! The text in which metrics are exposed: a sample on each line, with the values of its labels in
quotes. -/

namespace Collections.MetricsText

def isBlank (char : Char) : Bool := char = ' ' || char = '\t'

def skipBlanks (text : List Char) : List Char := text.dropWhile isBlank

/-- The first character of a name; a metric's may be a colon. -/
def isNameStart (colon : Bool) (char : Char) : Bool := char.isAlpha || char = '_' || (colon && char = ':')

def isNameChar (colon : Bool) (char : Char) : Bool := isNameStart colon char || char.isDigit

def readName (colon : Bool) (text : List Char) : Option (List Char × List Char) :=
  match text with
  | [] => none
  | char :: rest =>
    if isNameStart colon char then some (char :: rest.takeWhile (isNameChar colon), rest.dropWhile (isNameChar colon))
    else none

def unescape (char : Char) : Option Char :=
  if char = '\\' then some '\\' else if char = '"' then some '"' else if char = 'n' then some '\n' else none

/-- The value of a label up to its closing quote, and what follows. -/
def readValue : List Char → Option (List Char × List Char)
  | [] => none
  | '"' :: rest => some ([], rest)
  | '\\' :: escaped :: rest =>
    (unescape escaped).bind fun char => (readValue rest).map fun (value, rest) => (char :: value, rest)
  | char :: rest =>
    if char = '\\' ∨ char = '\n' then none else (readValue rest).map fun (value, rest) => (char :: value, rest)
termination_by structural text => text

def readLabel (text : List Char) : Option ((List Char × List Char) × List Char) :=
  (readName false text).bind fun (name, rest) =>
    match skipBlanks rest with
    | '=' :: rest =>
      match skipBlanks rest with
      | '"' :: rest => (readValue rest).map fun (value, rest) => ((name, value), rest)
      | _ => none
    | _ => none

/-- The labels up to the closing brace; a comma may stand before it. -/
def readLabels : Nat → List Char → Option (List (List Char × List Char) × List Char)
  | 0, _ => none
  | fuel + 1, text =>
    match skipBlanks text with
    | '}' :: rest => some ([], rest)
    | text => (readLabel text).bind fun (label, rest) =>
      match skipBlanks rest with
      | '}' :: rest => some ([label], rest)
      | ',' :: rest => (readLabels fuel rest).map fun (labels, rest) => (label :: labels, rest)
      | _ => none

def skipSign : List Char → List Char
  | '+' :: rest => rest
  | '-' :: rest => rest
  | text => text

def isDigits (text : List Char) : Bool := !text.isEmpty && text.all Char.isDigit

def isExponent : List Char → Bool
  | [] => true
  | char :: rest => (char = 'e' || char = 'E') && isDigits (skipSign rest)

def fraction : List Char → List Char × List Char
  | '.' :: rest => (rest.takeWhile Char.isDigit, rest.dropWhile Char.isDigit)
  | text => ([], text)

def isDecimal (text : List Char) : Bool :=
  let whole := text.takeWhile Char.isDigit
  let (decimals, rest) := fraction (text.dropWhile Char.isDigit)
  (!whole.isEmpty || !decimals.isEmpty) && isExponent rest

def isSpecial (text : List Char) : Bool :=
  let word := (skipSign text).map Char.toLower
  word = ['i', 'n', 'f'] || word = ['i', 'n', 'f', 'i', 'n', 'i', 't', 'y'] || text.map Char.toLower = ['n', 'a', 'n']

/-- The value of a sample: a decimal number, an infinity or no number. -/
def isNumber (text : List Char) : Bool := isSpecial text || isDecimal (skipSign text)

structure Sample where
  name : List Char
  labels : List (List Char × List Char)
  value : List Char

inductive Line where
  | blank
  | comment
  | sample (sample : Sample)

def readBraces (text : List Char) : Option (List (List Char × List Char) × List Char) :=
  match text with
  | '{' :: rest => readLabels (rest.length + 1) rest
  | text => some ([], text)

def word (text : List Char) : List Char := text.takeWhile fun char => !isBlank char

def afterWord (text : List Char) : List Char := skipBlanks (text.dropWhile fun char => !isBlank char)

def endsLine (text : List Char) : Bool :=
  isNumber (word text) && ((afterWord text).isEmpty || isDigits (skipSign (word (afterWord text))) && (afterWord (afterWord text)).isEmpty)

def parseSample (text : List Char) : Option Sample :=
  (readName true text).bind fun (name, rest) => (readBraces (skipBlanks rest)).bind fun (labels, rest) =>
    if endsLine (skipBlanks rest) then some ⟨name, labels, word (skipBlanks rest)⟩ else none

def parseLine (line : List Char) : Option Line :=
  match skipBlanks line with
  | [] => some .blank
  | '#' :: _ => some .comment
  | text => (parseSample text).map .sample

def Sample.label (sample : Sample) (name : List Char) : Option (List Char) := sample.labels.lookup name

section Values

variable {text rest more value : List Char} {char escaped : Char}

theorem readValue_quote (rest : List Char) : readValue ('"' :: rest) = some ([], rest) := rfl

theorem readValue_escape (escaped : Char) (rest : List Char) : readValue ('\\' :: escaped :: rest) =
    (unescape escaped).bind fun char => (readValue rest).map fun (value, rest) => (char :: value, rest) := rfl

theorem readValue_plain (quote : char ≠ '"') (plain : ¬ (char = '\\' ∨ char = '\n')) :
    readValue (char :: rest) = (readValue rest).map fun (value, rest) => (char :: value, rest) := by
  rw [readValue, if_neg plain]
  · exact quote
  · intro escaped later same
    exact absurd (.inl same) plain

/-- A character that stops the reading of a value, other than a quote or an escape. -/
theorem readValue_eq_none (quote : char ≠ '"') (lone : ∀ escaped later, char = '\\' → rest = escaped :: later → False)
    (stuck : char = '\\' ∨ char = '\n') : readValue (char :: rest) = none := by
  rw [readValue, if_pos stuck]
  · exact quote
  · exact lone

/-- A value is read from the text before a quote, which has no newline and no fewer
characters. -/
theorem exists_raw (read : readValue text = some (value, rest)) :
    ∃ raw, text = raw ++ '"' :: rest ∧ '\n' ∉ raw ∧ value.length ≤ raw.length := by
  induction text using readValue.induct generalizing value with
  | case1 => cases read
  | case2 rest' =>
    cases read
    exact ⟨[], rfl, List.not_mem_nil, Nat.le_refl _⟩
  | case3 escaped rest' ih =>
    rw [readValue_escape] at read
    obtain ⟨char, known, read⟩ := Option.bind_eq_some_iff.mp read
    obtain ⟨⟨value, rest⟩, read, same⟩ := Option.map_eq_some_iff.mp read
    cases same
    obtain ⟨raw, rfl, free, long⟩ := ih read
    have apart : '\n' ≠ escaped := by
      rintro rfl
      cases known
    refine ⟨'\\' :: escaped :: raw, rfl, ?_, ?_⟩
    · simp [free, apart]
    · simp only [List.length_cons]
      omega
  | case4 char rest' quote lone stuck =>
    rw [readValue_eq_none quote lone stuck] at read
    cases read
  | case5 char rest' quote _ plain ih =>
    rw [readValue_plain quote plain] at read
    obtain ⟨⟨value, rest⟩, read, same⟩ := Option.map_eq_some_iff.mp read
    cases same
    obtain ⟨raw, rfl, free, long⟩ := ih read
    refine ⟨char :: raw, rfl, ?_, Nat.succ_le_succ long⟩
    have apart : '\n' ≠ char := fun same => plain (.inr same.symm)
    simp [free, apart]

/-- What stands after the quote does not matter. -/
theorem readValue_append (read : readValue text = some (value, rest)) (more : List Char) :
    readValue (text ++ more) = some (value, rest ++ more) := by
  induction text using readValue.induct generalizing value with
  | case1 => cases read
  | case2 rest' =>
    cases read
    rfl
  | case3 escaped rest' ih =>
    rw [readValue_escape] at read
    obtain ⟨char, known, read⟩ := Option.bind_eq_some_iff.mp read
    obtain ⟨⟨value, rest⟩, read, same⟩ := Option.map_eq_some_iff.mp read
    cases same
    rw [List.cons_append, List.cons_append, readValue_escape, known, Option.bind_some, ih read]
    rfl
  | case4 char rest' quote lone stuck =>
    rw [readValue_eq_none quote lone stuck] at read
    cases read
  | case5 char rest' quote _ plain ih =>
    rw [readValue_plain quote plain] at read
    obtain ⟨⟨value, rest⟩, read, same⟩ := Option.map_eq_some_iff.mp read
    cases same
    rw [List.cons_append, readValue_plain quote plain, ih read]
    rfl

end Values

/-- How a writer puts a value between the quotes: as it is, or with its quotes escaped. -/
def encode (quotes : Bool) (value : List Char) : List Char :=
  value.flatMap fun char => if quotes = true ∧ char = '"' then ['\\', '"'] else [char]

/-- The value has nothing that its writer would have to escape. -/
def Clean (quotes : Bool) (value : List Char) : Prop := ∀ char ∈ value, char ≠ '\\' ∧ char ≠ '\n' ∧ (char = '"' → quotes = true)

instance (quotes : Bool) (value : List Char) : Decidable (Clean quotes value) :=
  List.decidableBAll (fun char => char ≠ '\\' ∧ char ≠ '\n' ∧ (char = '"' → quotes = true)) value

section Encoded

variable {quotes : Bool} {value rest : List Char} {char : Char}

theorem encode_false (value : List Char) : encode false value = value := by simp [encode]

theorem encode_cons (char : Char) (value more : List Char) : encode quotes (char :: value) ++ more =
    if quotes = true ∧ char = '"' then '\\' :: '"' :: (encode quotes value ++ more) else char :: (encode quotes value ++ more) := by
  rw [encode, List.flatMap_cons, ← encode, List.append_assoc]
  split <;> rfl

theorem readValue_encode (clean : Clean quotes value) (rest : List Char) :
    readValue (encode quotes value ++ '"' :: rest) = some (value, rest) := by
  induction value with
  | nil => rfl
  | cons char value ih =>
    obtain ⟨⟨backslash, newline, quote⟩, later⟩ := List.forall_mem_cons.mp clean
    rw [encode_cons]
    by_cases quoted : char = '"'
    · subst quoted
      rw [if_pos ⟨quote rfl, rfl⟩, readValue_escape, ih later]
      rfl
    · rw [if_neg fun both => quoted both.2, readValue_plain quoted (not_or.mpr ⟨backslash, newline⟩), ih later]
      rfl

/-- Only two backslashes are read as one. -/
theorem readValue_backslash {text : List Char} (read : readValue text = some ('\\' :: value, rest)) :
    ∃ later, text = '\\' :: '\\' :: later ∧ readValue later = some (value, rest) := by
  cases text using readValue.fun_cases with
  | case1 => cases read
  | case2 later => cases read
  | case3 escaped later =>
    rw [readValue_escape] at read
    obtain ⟨char, known, read⟩ := Option.bind_eq_some_iff.mp read
    obtain ⟨⟨value, rest⟩, read, same⟩ := Option.map_eq_some_iff.mp read
    cases same
    rw [unescape] at known
    split_ifs at known with backslash
    · exact ⟨later, by rw [backslash], read⟩
    · cases known
    · cases known
  | case4 char later quote lone stuck =>
    rw [readValue_eq_none quote lone stuck] at read
    cases read
  | case5 char later quote _ plain =>
    rw [readValue_plain quote plain] at read
    obtain ⟨⟨value, rest⟩, read, same⟩ := Option.map_eq_some_iff.mp read
    cases same
    exact absurd (.inl rfl) plain

/-- The first two characters of an encoded value are backslashes if those of the value are,
or if an escaped quote follows one. -/
theorem encode_backslashes {later : List Char} (same : encode quotes value ++ '"' :: rest = '\\' :: '\\' :: later) :
    ∃ value', value = '\\' :: value' ∧ ((∃ more, value' = '"' :: more ∧ later = '"' :: (encode quotes more ++ '"' :: rest)) ∨
      ∃ more, value' = '\\' :: more ∧ later = encode quotes more ++ '"' :: rest) := by
  rcases value with _ | ⟨char, value⟩
  · cases same
  · rw [encode_cons] at same
    split_ifs at same
    · cases same
    · obtain ⟨rfl, next⟩ := List.cons.inj same
      refine ⟨value, rfl, ?_⟩
      clear same
      rcases value with _ | ⟨char, more⟩
      · cases next
      · rw [encode_cons] at next
        split_ifs at next with escaped
        · exact .inl ⟨more, by rw [escaped.2], (List.cons.inj next).2.symm⟩
        · obtain ⟨rfl, rfl⟩ := List.cons.inj next
          exact .inr ⟨more, rfl, rfl⟩

/-- Behind a backslash the reading stays ahead of the value: it never reads it with
backslashes before it. -/
theorem readValue_ne_shifted (quotes : Bool) (rest : List Char) {rest' : List Char} (value : List Char) (shift : Nat) :
    readValue (encode quotes value ++ '"' :: rest) ≠ some (List.replicate (shift + 1) '\\' ++ value, rest') := by
  induction length : value.length using Nat.strong_induction_on generalizing value shift with
  | _ n ih =>
    intro read
    rw [List.replicate_succ, List.cons_append] at read
    obtain ⟨later, same, read⟩ := readValue_backslash read
    obtain ⟨value', rfl, ⟨more, rfl, rfl⟩ | ⟨more, rfl, rfl⟩⟩ := encode_backslashes same
    · rw [readValue_quote, Option.some.injEq, Prod.mk.injEq, eq_comm, List.append_eq_nil_iff] at read
      cases read.1.2
    · refine ih more.length (by simp only [List.length_cons] at length; omega) more (shift + 1) rfl ?_
      rw [read, List.replicate_succ', List.replicate_succ', List.append_assoc, List.append_assoc]
      rfl

/-- A value that is read back is clean. -/
theorem clean_of_readValue {rest' : List Char} (read : readValue (encode quotes value ++ '"' :: rest) = some (value, rest')) :
    Clean quotes value := by
  induction value with
  | nil => exact List.forall_mem_nil _
  | cons char value ih =>
    by_cases backslash : char = '\\'
    · subst backslash
      obtain ⟨later, same, read⟩ := readValue_backslash read
      obtain ⟨value', same', ⟨more, rfl, rfl⟩ | ⟨more, rfl, rfl⟩⟩ := encode_backslashes same
      · cases same'
        cases read
      · cases same'
        exact absurd read (readValue_ne_shifted quotes rest more 0)
    · rw [encode_cons] at read
      split_ifs at read with escaped
      · obtain ⟨on, rfl⟩ := escaped
        rw [readValue_escape] at read
        obtain ⟨_, known, read⟩ := Option.bind_eq_some_iff.mp read
        obtain ⟨⟨read', rest⟩, read, same⟩ := Option.map_eq_some_iff.mp read
        cases same
        exact List.forall_mem_cons.mpr ⟨⟨backslash, by decide, fun _ => on⟩, ih read⟩
      · have quote : char ≠ '"' := by
          rintro rfl
          cases read
        have newline : char ≠ '\n' := by
          rintro rfl
          cases read
        rw [readValue_plain quote (not_or.mpr ⟨backslash, newline⟩)] at read
        obtain ⟨⟨read', rest⟩, read, same⟩ := Option.map_eq_some_iff.mp read
        cases same
        exact List.forall_mem_cons.mpr ⟨⟨backslash, newline, fun same => absurd same quote⟩, ih read⟩

theorem Clean.newline (clean : Clean quotes value) : '\n' ∉ encode quotes value := by
  obtain ⟨raw, same, free, -⟩ := exists_raw (readValue_encode clean [])
  rwa [List.append_cancel_right same]

end Encoded

def IsName (colon : Bool) (name : List Char) : Prop :=
  ∃ char rest, name = char :: rest ∧ isNameStart colon char = true ∧ ∀ other ∈ rest, isNameChar colon other = true

instance (colon : Bool) (name : List Char) : Decidable (IsName colon name) :=
  match name with
  | [] => isFalse fun ⟨_, _, same, _⟩ => nomatch same
  | char :: rest =>
    decidable_of_iff (isNameStart colon char = true ∧ rest.all (isNameChar colon) = true)
      ⟨fun ⟨start, named⟩ => ⟨char, rest, rfl, start, List.all_eq_true.mp named⟩, fun ⟨_, _, same, start, named⟩ => by
        cases same
        exact ⟨start, List.all_eq_true.mpr named⟩⟩

/-- A label as a writer has it. -/
structure Field where
  name : List Char
  value : List Char
  quotes : Bool := false

def Field.text (field : Field) : List Char := field.name ++ '=' :: '"' :: (encode field.quotes field.value ++ ['"'])

def Field.Clean (field : Field) : Prop := MetricsText.Clean field.quotes field.value

def fieldsText (fields : List Field) : List Char := [',', ' '].intercalate (fields.map Field.text)

def firstLine (text : List Char) : List Char := text.takeWhile fun char => char ≠ '\n'

section Labels

variable {colon : Bool} {name tail rest value : List Char} {char : Char} {fuel : Nat} {field : Field} {fields : List Field}
  {labels : List (List Char × List Char)}

theorem firstLine_append {text : List Char} (free : '\n' ∉ text) (more : List Char) :
    firstLine (text ++ more) = text ++ firstLine more := by
  refine List.takeWhile_append_of_pos fun char member => decide_eq_true ?_
  rintro rfl
  exact free member

theorem firstLine_cons (newline : char ≠ '\n') (more : List Char) : firstLine (char :: more) = char :: firstLine more :=
  List.takeWhile_cons_of_pos (decide_eq_true newline)

theorem skipBlanks_cons (visible : isBlank char = false) (rest : List Char) : skipBlanks (char :: rest) = char :: rest :=
  List.dropWhile_cons_of_neg (by simp [visible])

theorem isBlank_of_isNameStart (start : isNameStart colon char = true) : isBlank char = false := by
  by_contra blank
  rw [Bool.not_eq_false, isBlank, Bool.or_eq_true, decide_eq_true_eq, decide_eq_true_eq] at blank
  rcases blank with rfl | rfl <;> cases colon <;> exact absurd start (by decide)

theorem IsName.newline (named : IsName colon name) : '\n' ∉ name := by
  obtain ⟨char, rest, rfl, start, named⟩ := named
  intro member
  rcases List.mem_cons.mp member with rfl | member
  · cases colon <;> exact absurd start (by decide)
  · have named := named _ member
    cases colon <;> exact absurd named (by decide)

theorem readName_append (named : IsName colon name) (other : isNameChar colon char = false) (rest : List Char) :
    readName colon (name ++ char :: rest) = some (name, char :: rest) := by
  obtain ⟨first, later, rfl, start, named⟩ := named
  rw [List.cons_append, readName, if_pos start, List.takeWhile_append_of_pos named, List.dropWhile_append_of_pos named,
    List.takeWhile_cons_of_neg (by simp [other]), List.dropWhile_cons_of_neg (by simp [other]), List.append_nil]

theorem readLabel_append (named : IsName false name) (tail : List Char) :
    readLabel (name ++ '=' :: '"' :: tail) = (readValue tail).map fun (value, rest) => ((name, value), rest) := by
  rw [readLabel, readName_append named (by decide)]
  rfl

theorem readLabels_append (named : IsName false name) (fuel : Nat) (tail : List Char) :
    readLabels (fuel + 1) (name ++ '=' :: '"' :: tail) = (readValue tail).bind fun (value, rest) =>
      match skipBlanks rest with
      | '}' :: rest => some ([(name, value)], rest)
      | ',' :: rest => (readLabels fuel rest).map fun (labels, rest) => ((name, value) :: labels, rest)
      | _ => none := by
  obtain ⟨char, later, rfl, start, -⟩ := id named
  have visible := isBlank_of_isNameStart start
  rw [List.cons_append, readLabels, skipBlanks_cons visible]
  split
  · rename_i same
    obtain ⟨rfl, -⟩ := List.cons.inj same
    exact absurd start (by decide)
  · rw [← List.cons_append, readLabel_append named]
    cases readValue tail with
    | none => rfl
    | some read => rfl

theorem readLabels_blank (fuel : Nat) (text : List Char) : readLabels fuel (' ' :: text) = readLabels fuel text := by
  cases fuel with
  | zero => rfl
  | succ fuel =>
    have skipped : skipBlanks (' ' :: text) = skipBlanks text := List.dropWhile_cons_of_pos rfl
    rw [readLabels, readLabels, skipped]

theorem fieldsText_singleton (field : Field) (more : List Char) :
    fieldsText [field] ++ more = field.name ++ '=' :: '"' :: (encode field.quotes field.value ++ '"' :: more) := by
  simp [fieldsText, Field.text]

theorem fieldsText_cons (field next : Field) (fields : List Field) (more : List Char) :
    fieldsText (field :: next :: fields) ++ more =
      field.name ++ '=' :: '"' :: (encode field.quotes field.value ++ '"' :: ',' :: ' ' :: (fieldsText (next :: fields) ++ more)) := by
  simp [fieldsText, Field.text, List.intercalate_cons_cons]

theorem readLabels_fieldsText (named : ∀ field ∈ fields, IsName false field.name) (clean : ∀ field ∈ fields, field.Clean)
    (filled : fields ≠ []) (enough : fields.length ≤ fuel) (rest : List Char) :
    readLabels fuel (fieldsText fields ++ '}' :: rest) = some (fields.map fun field => (field.name, field.value), rest) := by
  induction fields generalizing fuel with
  | nil => exact absurd rfl filled
  | cons field fields ih =>
    obtain ⟨own, named⟩ := List.forall_mem_cons.mp named
    obtain ⟨own', clean⟩ := List.forall_mem_cons.mp clean
    obtain ⟨fuel, rfl⟩ := Nat.exists_eq_add_of_lt (Nat.lt_of_lt_of_le (Nat.succ_pos _) enough)
    rw [Nat.zero_add] at enough ⊢
    cases fields with
    | nil =>
      rw [fieldsText_singleton, readLabels_append own, readValue_encode own']
      rfl
    | cons next fields =>
      rw [fieldsText_cons, readLabels_append own, readValue_encode own', Option.bind_some]
      show (readLabels fuel (' ' :: (fieldsText (next :: fields) ++ '}' :: rest))).map _ = _
      rw [readLabels_blank, ih named clean (List.cons_ne_nil _ _) (Nat.le_of_succ_le_succ enough)]
      rfl

/-- What the first line says after a label, if its value is clean or is read back. -/
theorem readLabels_first {after : List Char} (named : IsName false field.name)
    (read : readLabels fuel (firstLine (field.name ++ '=' :: '"' :: (encode field.quotes field.value ++ '"' :: after))) = some (labels, rest))
    (faithful : field.Clean ∨ labels.lookup field.name = some field.value) :
    field.Clean ∧ ∃ fuel', (match skipBlanks (firstLine after) with
      | '}' :: rest => some ([(field.name, field.value)], rest)
      | ',' :: rest => (readLabels fuel' rest).map fun (labels, rest) => ((field.name, field.value) :: labels, rest)
      | _ => none) = some (labels, rest) := by
  cases fuel with
  | zero => cases read
  | succ fuel =>
    rw [firstLine_append named.newline, firstLine_cons (by decide), firstLine_cons (by decide), readLabels_append named] at read
    have clean : field.Clean := by
      refine faithful.elim id fun found => ?_
      obtain ⟨⟨value, later⟩, taken, continued⟩ := Option.bind_eq_some_iff.mp read
      have head : ∃ others, labels = (field.name, value) :: others := by
        dsimp only at continued
        split at continued
        · cases continued
          exact ⟨_, rfl⟩
        · obtain ⟨_, _, same⟩ := Option.map_eq_some_iff.mp continued
          cases same
          exact ⟨_, rfl⟩
        · cases continued
      obtain ⟨others, rfl⟩ := head
      rw [List.lookup_cons_self, Option.some.injEq] at found
      subst found
      have whole := readValue_append taken ((encode field.quotes field.value ++ '"' :: after).dropWhile fun char => char ≠ '\n')
      rw [firstLine, List.takeWhile_append_dropWhile] at whole
      exact clean_of_readValue whole
    rw [firstLine_append clean.newline, firstLine_cons (by decide), readValue_encode clean] at read
    exact ⟨clean, fuel, read⟩

/-- If the first line reads every label either has a clean value or is read back, then all
of them are clean. -/
theorem clean_of_readLabels (named : ∀ field ∈ fields, IsName false field.name) (distinct : (fields.map Field.name).Nodup)
    (read : readLabels fuel (firstLine (fieldsText fields ++ '}' :: tail)) = some (labels, rest))
    (faithful : ∀ field ∈ fields, field.Clean ∨ labels.lookup field.name = some field.value) : ∀ field ∈ fields, field.Clean := by
  induction fields generalizing fuel labels with
  | nil => exact List.forall_mem_nil _
  | cons field fields ih =>
    obtain ⟨own, named⟩ := List.forall_mem_cons.mp named
    obtain ⟨apart, distinct⟩ := List.nodup_cons.mp distinct
    obtain ⟨own', faithful⟩ := List.forall_mem_cons.mp faithful
    cases fields with
    | nil =>
      rw [fieldsText_singleton] at read
      exact List.forall_mem_singleton.mpr (readLabels_first own read own').1
    | cons next fields =>
      rw [fieldsText_cons] at read
      obtain ⟨clean, fuel', continued⟩ := readLabels_first own read own'
      rw [firstLine_cons (by decide), firstLine_cons (by decide)] at continued
      obtain ⟨⟨others, later⟩, read, same⟩ := Option.map_eq_some_iff.mp continued
      rw [readLabels_blank] at read
      cases same
      refine List.forall_mem_cons.mpr ⟨clean, ih named distinct read fun other member => (faithful other member).imp_right fun found => ?_⟩
      have differs : (other.name == field.name) = false :=
        beq_eq_false_iff_ne.mpr fun same => apart (same ▸ List.mem_map_of_mem member)
      rwa [List.lookup_cons, differs] at found

theorem length_le_fieldsText (fields : List Field) : fields.length ≤ (fieldsText fields).length := by
  induction fields with
  | nil => exact Nat.le_refl 0
  | cons field fields ih =>
    cases fields with
    | nil =>
      have shown := congrArg List.length (fieldsText_singleton field [])
      simp only [List.length_append, List.length_cons, List.length_nil] at shown ⊢
      omega
    | cons next fields =>
      have shown := congrArg List.length (fieldsText_cons field next fields [])
      simp only [List.length_append, List.length_cons, List.length_nil] at shown ih ⊢
      omega

end Labels

/-- A line as a writer puts it. -/
def lineText (name : List Char) (fields : List Field) (value : List Char) : List Char :=
  name ++ ((if fields = [] then [] else '{' :: (fieldsText fields ++ ['}'])) ++ ' ' :: value)

/-- A value that stands in the text between two quotes. -/
def Quoted (text value : List Char) : Prop :=
  ∃ before raw after, text = before ++ '"' :: (raw ++ '"' :: after) ∧ value.length ≤ raw.length

section Lines

variable {name value text rest : List Char} {char : Char} {fields : List Field} {line : Line} {sample : Sample}

theorem endsLine_of_isNumber (number : isNumber value = true) (visible : ∀ char ∈ value, isBlank char = false) :
    word value = value ∧ endsLine value = true := by
  have whole : word value = value := List.takeWhile_eq_self_iff.mpr fun char member => by simp [visible char member]
  have none : afterWord value = [] := by
    rw [afterWord, List.dropWhile_eq_nil_iff.mpr fun char member => by simp [visible char member]]
    rfl
  refine ⟨whole, ?_⟩
  rw [endsLine, whole, none, number]
  rfl

theorem skipBlanks_of_visible (visible : ∀ char ∈ text, isBlank char = false) : skipBlanks text = text := by
  cases text with
  | nil => rfl
  | cons char text => exact skipBlanks_cons (visible char List.mem_cons_self) text

theorem parseLine_eq (named : IsName true name) (text : List Char) :
    parseLine (name ++ text) = (parseSample (name ++ text)).map .sample := by
  obtain ⟨char, later, rfl, start, -⟩ := named
  rw [List.cons_append, parseLine, skipBlanks_cons (isBlank_of_isNameStart start)]
  split
  · rename_i none
    cases none
  · rename_i same
    obtain ⟨rfl, -⟩ := List.cons.inj same
    exact absurd start (by decide)
  · rfl

theorem parseLine_lineText (named : IsName true name) (names : ∀ field ∈ fields, IsName false field.name)
    (clean : ∀ field ∈ fields, field.Clean) (number : isNumber value = true) (visible : ∀ char ∈ value, isBlank char = false) :
    parseLine (lineText name fields value) = some (.sample ⟨name, fields.map fun field => (field.name, field.value), value⟩) := by
  obtain ⟨whole, ends⟩ := endsLine_of_isNumber number visible
  have skipped : skipBlanks (' ' :: value) = value := skipBlanks_of_visible visible
  rw [lineText, parseLine_eq named]
  by_cases bare : fields = []
  · rw [if_pos bare, List.nil_append, parseSample, readName_append named (by decide), Option.bind_some]
    dsimp only
    rw [skipped]
    have none : readBraces value = some ([], value) := by
      unfold readBraces
      split
      · exact absurd number (by simp [isNumber, isSpecial, isDecimal, skipSign, fraction])
      · rfl
    rw [none, Option.bind_some, skipBlanks_of_visible visible, if_pos ends, whole, bare]
    rfl
  · rw [if_neg bare, List.cons_append, List.append_assoc, List.singleton_append, parseSample, readName_append named (by decide),
      Option.bind_some]
    have enough : fields.length ≤ (fieldsText fields ++ '}' :: ' ' :: value).length + 1 := by
      have long := length_le_fieldsText fields
      rw [List.length_append]
      omega
    show ((readLabels _ (fieldsText fields ++ '}' :: ' ' :: value)).bind _).map _ = _
    rw [readLabels_fieldsText names clean bare enough, Option.bind_some]
    dsimp only
    rw [skipped, if_pos ends, whole]
    rfl

theorem parseLine_name (named : IsName true name) (other : isNameChar true char = false)
    (parsed : parseLine (name ++ char :: rest) = some line) : ∃ sample, line = .sample sample ∧ sample.name = name := by
  rw [parseLine_eq named, parseSample, readName_append named other, Option.bind_some, Option.map_eq_some_iff] at parsed
  obtain ⟨sample, parsed, rfl⟩ := parsed
  obtain ⟨⟨labels, later⟩, _, parsed⟩ := Option.bind_eq_some_iff.mp parsed
  dsimp only at parsed
  split_ifs at parsed
  cases parsed
  exact ⟨_, rfl, rfl⟩

theorem parseLine_labels (named : IsName true name) (parsed : parseLine (name ++ '{' :: text) = some (.sample sample)) :
    ∃ fuel rest, readLabels fuel text = some (sample.labels, rest) := by
  rw [parseLine_eq named, parseSample, readName_append named (by decide), Option.bind_some, Option.map_eq_some_iff] at parsed
  obtain ⟨sample, parsed, same⟩ := parsed
  cases same
  obtain ⟨⟨labels, later⟩, read, parsed⟩ := Option.bind_eq_some_iff.mp parsed
  dsimp only at parsed
  split_ifs at parsed
  cases parsed
  exact ⟨_, later, read⟩

end Lines

section Quotes

variable {text text' value rest name : List Char} {label : List Char × List Char} {labels : List (List Char × List Char)}

theorem Quoted.of_suffix (quoted : Quoted text' value) (suffix : text' <:+ text) : Quoted text value := by
  obtain ⟨front, rfl⟩ := suffix
  obtain ⟨before, raw, after, rfl, long⟩ := quoted
  exact ⟨front ++ before, raw, after, (List.append_assoc _ _ _).symm, long⟩

theorem readName_suffix {colon : Bool} (read : readName colon text = some (name, rest)) : rest <:+ text := by
  unfold readName at read
  split at read
  · cases read
  · split_ifs at read
    cases read
    exact (List.dropWhile_suffix _).trans (List.suffix_cons _ _)

theorem skipBlanks_suffix {char : Char} (skipped : skipBlanks text = char :: rest) : rest <:+ text :=
  (List.suffix_cons char rest).trans (skipped ▸ List.dropWhile_suffix _)

theorem readLabel_quoted (read : readLabel text = some (label, rest)) : Quoted text label.2 ∧ rest <:+ text := by
  obtain ⟨⟨name, later⟩, named, read⟩ := Option.bind_eq_some_iff.mp read
  have start := readName_suffix named
  dsimp only at read
  split at read
  · rename_i opened equals
    split at read
    · rename_i later' quote
      obtain ⟨⟨value, rest'⟩, valued, same⟩ := Option.map_eq_some_iff.mp read
      cases same
      obtain ⟨raw, rfl, -, long⟩ := exists_raw valued
      have quoted : skipBlanks opened <:+ opened := List.dropWhile_suffix _
      rw [quote] at quoted
      have opens := quoted.trans ((skipBlanks_suffix equals).trans start)
      exact ⟨.of_suffix ⟨[], raw, _, rfl, long⟩ opens,
        (List.suffix_cons _ _).trans ((List.suffix_append _ _).trans ((List.suffix_cons _ _).trans opens))⟩
    · cases read
  · cases read

theorem readLabels_quoted (fuel : Nat) : ∀ {text : List Char} {labels : List (List Char × List Char)} {rest : List Char},
    readLabels fuel text = some (labels, rest) → ∀ label ∈ labels, Quoted text label.2 := by
  induction fuel with
  | zero =>
    intro text labels rest read
    cases read
  | succ fuel ih =>
    intro text labels rest read
    rw [readLabels] at read
    split at read
    · cases read
      exact List.forall_mem_nil _
    · obtain ⟨⟨label, later⟩, first, read⟩ := Option.bind_eq_some_iff.mp read
      obtain ⟨quoted, onward⟩ := readLabel_quoted first
      have skipped : skipBlanks text <:+ text := List.dropWhile_suffix _
      dsimp only at read
      split at read
      · cases read
        exact List.forall_mem_singleton.mpr (quoted.of_suffix skipped)
      · rename_i comma
        obtain ⟨⟨others, _⟩, continued, same⟩ := Option.map_eq_some_iff.mp read
        cases same
        refine List.forall_mem_cons.mpr ⟨quoted.of_suffix skipped, fun other member => ?_⟩
        exact (ih continued other member).of_suffix ((skipBlanks_suffix comma).trans (onward.trans skipped))
      · cases read

theorem parseLine_quoted {sample : Sample} (parsed : parseLine text = some (.sample sample)) :
    ∀ label ∈ sample.labels, Quoted text label.2 := by
  have start : skipBlanks text <:+ text := List.dropWhile_suffix _
  unfold parseLine at parsed
  split at parsed
  · cases parsed
  · cases parsed
  · obtain ⟨sample, parsed, same⟩ := Option.map_eq_some_iff.mp parsed
    cases same
    obtain ⟨⟨name, later⟩, named, parsed⟩ := Option.bind_eq_some_iff.mp parsed
    obtain ⟨⟨labels, rest⟩, braced, parsed⟩ := Option.bind_eq_some_iff.mp parsed
    dsimp only at parsed
    split_ifs at parsed
    cases parsed
    have onward := (readName_suffix named).trans start
    unfold readBraces at braced
    split at braced
    · rename_i opened
      exact fun label member => (readLabels_quoted _ braced label member).of_suffix ((skipBlanks_suffix opened).trans onward)
    · cases braced
      exact List.forall_mem_nil _

end Quotes

def lines (text : List Char) : List (List Char) := text.splitOn '\n'

def Parses (text : List Char) : Prop := ∀ line ∈ lines text, ∃ parsed, parseLine line = some parsed

def sampleOf (metric line : List Char) : Option Sample :=
  match parseLine line with
  | some (.sample sample) => if sample.name = metric then some sample else none
  | _ => none

def samplesOf (metric text : List Char) : List Sample := (lines text).filterMap (sampleOf metric)

section Documents

variable {metric text more line value : List Char} {sample : Sample}

theorem lines_append (text more : List Char) : lines (text ++ '\n' :: more) = lines text ++ lines more :=
  List.splitOn_append_cons_self text more

theorem samplesOf_append (metric text more : List Char) :
    samplesOf metric (text ++ '\n' :: more) = samplesOf metric text ++ samplesOf metric more := by
  rw [samplesOf, lines_append, List.filterMap_append]
  rfl

theorem parses_append : Parses (text ++ '\n' :: more) ↔ Parses text ∧ Parses more := by
  rw [Parses, lines_append, List.forall_mem_append]
  rfl

theorem lines_cons (char : Char) (text : List Char) :
    lines (char :: text) = if char = '\n' then [] :: lines text else (lines text).modifyHead (List.cons char) := by
  rw [lines, List.splitOn_cons_eq_if_modifyHead]
  simp only [beq_iff_eq]
  rfl

theorem lines_eq (text : List Char) : lines text = firstLine text :: (lines text).tail := by
  induction text with
  | nil => rfl
  | cons char text ih =>
    rw [lines_cons]
    by_cases newline : char = '\n'
    · subst newline
      rfl
    · rw [if_neg newline, ih, firstLine_cons newline]
      rfl

theorem exists_of_mem_tail (member : line ∈ (lines text).tail) : ∃ before after, text = before ++ '\n' :: (line ++ after) := by
  induction text with
  | nil => cases member
  | cons char text ih =>
    rw [lines_cons] at member
    split_ifs at member with newline
    · subst newline
      rw [List.tail_cons, lines_eq] at member
      rcases List.mem_cons.mp member with rfl | member
      · exact ⟨[], text.dropWhile fun char => char ≠ '\n', by rw [firstLine, List.takeWhile_append_dropWhile]; rfl⟩
      · obtain ⟨before, after, same⟩ := ih member
        exact ⟨'\n' :: before, after, by rw [same]; rfl⟩
    · rw [lines_eq, List.modifyHead_cons, List.tail_cons] at member
      obtain ⟨before, after, same⟩ := ih member
      exact ⟨char :: before, after, by rw [same]; rfl⟩

/-- What a later line has in quotes is shorter than the text that the line is from: after
that text there is one quote only. -/
theorem Quoted.short {front raw back : List Char} (free : '\n' ∉ front) (unquoted : '"' ∉ back)
    (member : line ∈ (lines (front ++ (raw ++ '"' :: back))).tail) (quoted : Quoted line value) : value.length < raw.length := by
  obtain ⟨before, after, same⟩ := exists_of_mem_tail member
  obtain ⟨opening, inner, closing, rfl, long⟩ := quoted
  have early : front.length ≤ before.length := by
    by_contra shorter
    have ahead : before ++ ['\n'] <+: front := by
      refine List.prefix_of_prefix_length_le ⟨_, (List.append_cons _ _ _).symm.trans same.symm⟩ (List.prefix_append _ _) ?_
      rw [List.length_append, List.length_singleton]
      omega
    exact free (ahead.subset (by simp))
  have late : back.length ≤ (closing ++ after).length := by
    by_contra longer
    have closes : '"' :: (closing ++ after) <:+ front ++ (raw ++ '"' :: back) :=
      ⟨before ++ '\n' :: (opening ++ '"' :: inner), by simp [same]⟩
    have ends : back <:+ front ++ (raw ++ '"' :: back) := ⟨front ++ (raw ++ ['"']), by simp⟩
    have behind : '"' :: (closing ++ after) <:+ back := by
      refine List.suffix_of_suffix_length_le closes ends ?_
      rw [List.length_cons]
      omega
    exact unquoted (behind.subset List.mem_cons_self)
  have total := congrArg List.length same
  simp only [List.length_append, List.length_cons] at total late
  omega

end Documents

/-- A decimal number as it is printed. -/
def numberText (negative : Bool) (whole decimals : List Char) : List Char :=
  (if negative then ['-'] else []) ++ (whole ++ if decimals = [] then [] else '.' :: decimals)

section Numbers

variable {whole decimals : List Char}

theorem isDecimal_append (filled : whole ≠ []) (digits : ∀ char ∈ whole, char.isDigit = true)
    (digits' : ∀ char ∈ decimals, char.isDigit = true) : isDecimal (whole ++ if decimals = [] then [] else '.' :: decimals) = true := by
  have nonempty : whole.isEmpty = false := List.isEmpty_eq_false_iff.mpr filled
  rw [isDecimal, List.takeWhile_append_of_pos digits, List.dropWhile_append_of_pos digits]
  split_ifs with none
  · simp [nonempty, fraction, isExponent]
  · have point : ('.' :: decimals).takeWhile Char.isDigit = [] ∧ ('.' :: decimals).dropWhile Char.isDigit = '.' :: decimals :=
      ⟨List.takeWhile_cons_of_neg (by decide), List.dropWhile_cons_of_neg (by decide)⟩
    have rest : decimals.dropWhile Char.isDigit = [] := List.dropWhile_eq_nil_iff.mpr digits'
    simp [point.1, point.2, nonempty, fraction, rest, isExponent]

theorem isNumber_numberText (negative : Bool) (filled : whole ≠ []) (digits : ∀ char ∈ whole, char.isDigit = true)
    (digits' : ∀ char ∈ decimals, char.isDigit = true) : isNumber (numberText negative whole decimals) = true := by
  rw [isNumber, Bool.or_eq_true]
  refine .inr ?_
  have plain := isDecimal_append filled digits digits'
  cases negative with
  | true => exact plain
  | false =>
    obtain ⟨char, later, rfl⟩ := List.exists_cons_of_ne_nil filled
    have digit := digits char List.mem_cons_self
    show isDecimal (skipSign (char :: (later ++ _))) = true
    unfold skipSign
    split
    · rename_i same
      cases same
      cases digit
    · rename_i same
      cases same
      cases digit
    · exact plain

theorem mem_numberText {negative : Bool} {char : Char} (digits : ∀ char ∈ whole, char.isDigit = true)
    (digits' : ∀ char ∈ decimals, char.isDigit = true) (member : char ∈ numberText negative whole decimals) :
    char.isDigit = true ∨ char = '-' ∨ char = '.' := by
  rw [numberText, List.mem_append, List.mem_append] at member
  rcases member with sign | whole | rest
  · split_ifs at sign
    · exact .inr (.inl (List.mem_singleton.mp sign))
    · cases sign
  · exact .inl (digits char whole)
  · split_ifs at rest
    · cases rest
    · rcases List.mem_cons.mp rest with point | decimal
      · exact .inr (.inr point)
      · exact .inl (digits' char decimal)

theorem visible_of_mem_numberText {negative : Bool} {char : Char} (digits : ∀ char ∈ whole, char.isDigit = true)
    (digits' : ∀ char ∈ decimals, char.isDigit = true) (member : char ∈ numberText negative whole decimals) :
    isBlank char = false ∧ char ≠ '\n' ∧ char ≠ '"' := by
  rcases mem_numberText digits digits' member with digit | rfl | rfl
  · refine ⟨?_, ?_, ?_⟩
    · by_contra blank
      rw [Bool.not_eq_false, isBlank, Bool.or_eq_true, decide_eq_true_eq, decide_eq_true_eq] at blank
      rcases blank with rfl | rfl <;> cases digit
    · rintro rfl
      cases digit
    · rintro rfl
      cases digit
  · decide
  · decide

end Numbers

/-- A line that a writer puts into the text. -/
structure MetricEntry where
  name : List Char
  fields : List Field
  value : List Char

namespace MetricEntry

def text (entry : MetricEntry) : List Char := lineText entry.name entry.fields entry.value

/-- Its names are names and its value is a number. -/
structure WellFormed (entry : MetricEntry) : Prop where
  named : IsName true entry.name
  names : ∀ field ∈ entry.fields, IsName false field.name
  distinct : (entry.fields.map Field.name).Nodup
  number : isNumber entry.value = true
  visible : ∀ char ∈ entry.value, isBlank char = false ∧ char ≠ '\n' ∧ char ≠ '"'

def Clean (entry : MetricEntry) : Prop := ∀ field ∈ entry.fields, field.Clean

def sample (entry : MetricEntry) : Sample :=
  ⟨entry.name, entry.fields.map fun field => (field.name, field.value), entry.value⟩

end MetricEntry

def document (entries : List MetricEntry) : List Char := entries.flatMap fun entry => entry.text ++ ['\n']

section Entries

variable {entry : MetricEntry} {entries : List MetricEntry} {metric more : List Char} {sample : Sample} {field : Field} {fields : List Field}

theorem document_cons (entry : MetricEntry) (entries : List MetricEntry) (more : List Char) :
    document (entry :: entries) ++ more = entry.text ++ '\n' :: (document entries ++ more) := by
  simp [document]

theorem document_append (entries entries' : List MetricEntry) : document (entries ++ entries') = document entries ++ document entries' :=
  List.flatMap_append

theorem MetricEntry.Clean.parseLine (clean : entry.Clean) (formed : entry.WellFormed) : parseLine entry.text = some (.sample entry.sample) :=
  parseLine_lineText formed.named formed.names clean formed.number fun char member => (formed.visible char member).1

theorem exists_front (names : ∀ other ∈ fields ++ [field], IsName false other.name) (clean : ∀ other ∈ fields, other.Clean) :
    ∃ front, '\n' ∉ front ∧
      ∀ more, fieldsText (fields ++ [field]) ++ more = front ++ (encode field.quotes field.value ++ '"' :: more) := by
  induction fields with
  | nil =>
    have named := names field (List.mem_singleton_self _)
    refine ⟨field.name ++ ['=', '"'], ?_, fun more => ?_⟩
    · simp [named.newline]
    · rw [List.nil_append, fieldsText_singleton]
      simp
  | cons first fields ih =>
    obtain ⟨named, names⟩ := List.forall_mem_cons.mp names
    obtain ⟨own, clean⟩ := List.forall_mem_cons.mp clean
    obtain ⟨front, free, same⟩ := ih names clean
    refine ⟨first.name ++ '=' :: '"' :: (encode first.quotes first.value ++ '"' :: ',' :: ' ' :: front), ?_, fun more => ?_⟩
    · have free' := Clean.newline own
      simp [named.newline, free, free']
    · obtain ⟨next, later, split⟩ := List.exists_cons_of_ne_nil (List.append_ne_nil_of_right_ne_nil fields (List.cons_ne_nil field []))
      rw [List.cons_append, split, fieldsText_cons, ← split, same]
      simp

theorem MetricEntry.Clean.newline (clean : entry.Clean) (formed : entry.WellFormed) : '\n' ∉ entry.text := by
  have value : '\n' ∉ entry.value := fun member => (formed.visible _ member).2.1 rfl
  have labels : '\n' ∉ fieldsText entry.fields := by
    rcases List.eq_nil_or_concat entry.fields with none | ⟨front, last, same⟩
    · rw [none]
      exact List.not_mem_nil
    · rw [List.concat_eq_append] at same
      obtain ⟨before, free, shown⟩ := exists_front (same ▸ formed.names)
        fun other member => clean other (same ▸ List.mem_append_left _ member)
      have own := MetricsText.Clean.newline (clean last (same ▸ List.mem_append_right _ (List.mem_singleton_self _)))
      have shown := shown []
      rw [List.append_nil] at shown
      rw [same, shown]
      simp [free, own]
  rw [MetricEntry.text, lineText]
  split_ifs
  · simp [formed.named.newline, value]
  · simp [formed.named.newline, value, labels]

theorem MetricEntry.Clean.lines (clean : entry.Clean) (formed : entry.WellFormed) : lines entry.text = [entry.text] :=
  List.splitOn_eq_singleton (clean.newline formed)

/-- A text that ends with its lines is read if each of them is. -/
theorem parses_document_append (entries : List MetricEntry) (more : List Char) :
    Parses (document entries ++ more) ↔ (∀ entry ∈ entries, Parses entry.text) ∧ Parses more := by
  induction entries with
  | nil => simp [document]
  | cons entry entries ih => rw [document_cons, parses_append, ih, List.forall_mem_cons, and_assoc]

theorem samplesOf_document_append (metric : List Char) (entries : List MetricEntry) (more : List Char) :
    samplesOf metric (document entries ++ more) =
      (entries.flatMap fun entry => samplesOf metric entry.text) ++ samplesOf metric more := by
  induction entries with
  | nil => rfl
  | cons entry entries ih => rw [document_cons, samplesOf_append, ih, List.flatMap_cons, List.append_assoc]

theorem parses_document (formed : ∀ entry ∈ entries, entry.WellFormed) (clean : ∀ entry ∈ entries, entry.Clean) :
    Parses (document entries ++ more) ↔ Parses more := by
  induction entries with
  | nil => exact Iff.rfl
  | cons entry entries ih =>
    obtain ⟨own, formed⟩ := List.forall_mem_cons.mp formed
    obtain ⟨own', clean⟩ := List.forall_mem_cons.mp clean
    rw [document_cons, parses_append, ih formed clean, Parses, own'.lines own, List.forall_mem_singleton]
    exact and_iff_right ⟨_, own'.parseLine own⟩

theorem samplesOf_document (formed : ∀ entry ∈ entries, entry.WellFormed) (clean : ∀ entry ∈ entries, entry.Clean)
    (metric more : List Char) : samplesOf metric (document entries ++ more) =
      (entries.filter fun entry => entry.name = metric).map MetricEntry.sample ++ samplesOf metric more := by
  induction entries with
  | nil => rfl
  | cons entry entries ih =>
    obtain ⟨own, formed⟩ := List.forall_mem_cons.mp formed
    obtain ⟨own', clean⟩ := List.forall_mem_cons.mp clean
    rw [document_cons, samplesOf_append, ih formed clean, samplesOf, own'.lines own, List.filterMap_cons, List.filterMap_nil,
      sampleOf, own'.parseLine own]
    by_cases same : entry.name = metric
    · rw [List.filter_cons_of_pos (by simpa using same)]
      simp [MetricEntry.sample, same]
    · rw [List.filter_cons_of_neg (by simpa using same)]
      simp [MetricEntry.sample, same]

theorem exists_first_sample (formed : entry.WellFormed) (filled : entry.fields ≠ []) (readable : Parses (entry.text ++ '\n' :: more)) :
    ∃ sample later, samplesOf entry.name (entry.text ++ '\n' :: more) = sample :: later ∧
      ((∀ field ∈ entry.fields, field.Clean ∨ sample.label field.name = some field.value) → entry.Clean) := by
  have first : firstLine entry.text = entry.name ++ '{' :: firstLine (fieldsText entry.fields ++ '}' :: ' ' :: entry.value) := by
    rw [MetricEntry.text, lineText, if_neg filled, List.cons_append, List.append_assoc, List.singleton_append,
      firstLine_append formed.named.newline, firstLine_cons (by decide)]
  have head := lines_eq entry.text
  obtain ⟨parsed, read⟩ := (parses_append.mp readable).1 (firstLine entry.text) (head ▸ List.mem_cons_self)
  rw [first] at read
  obtain ⟨sample, rfl, named⟩ := parseLine_name formed.named (by decide) read
  refine ⟨sample, (lines entry.text).tail.filterMap (sampleOf entry.name) ++ samplesOf entry.name more, ?_, fun faithful => ?_⟩
  · rw [samplesOf_append, samplesOf, head, List.filterMap_cons, sampleOf, first, read]
    simp [named]
  · obtain ⟨fuel, rest, labels⟩ := parseLine_labels formed.named read
    exact clean_of_readLabels formed.names formed.distinct labels faithful

/-- The samples of other metrics that the last label of a line forges have shorter labels
than that label is. -/
theorem short_of_forged (formed : entry.WellFormed) (same : entry.fields = fields ++ [field]) (clean : ∀ other ∈ fields, other.Clean)
    (other : entry.name ≠ metric) (forged : sample ∈ samplesOf metric entry.text) :
    ∀ label ∈ sample.labels, label.2.length < (encode field.quotes field.value).length := by
  have filled : entry.fields ≠ [] := by simp [same]
  obtain ⟨line, member, found⟩ := List.mem_filterMap.mp forged
  have parsed : parseLine line = some (.sample sample) ∧ sample.name = metric := by
    rw [sampleOf] at found
    split at found
    · split_ifs at found with own
      cases found
      exact ⟨‹_›, own⟩
    · cases found
  obtain ⟨front, free, shown⟩ := exists_front (same ▸ formed.names) clean
  have text : entry.text = entry.name ++ '{' :: front ++ (encode field.quotes field.value ++ '"' :: '}' :: ' ' :: entry.value) := by
    rw [MetricEntry.text, lineText, if_neg filled, same, List.cons_append, List.append_assoc, List.singleton_append, shown]
    simp
  rw [lines_eq] at member
  rcases List.mem_cons.mp member with rfl | member
  · rw [MetricEntry.text, lineText, if_neg filled, List.cons_append, firstLine_append formed.named.newline, firstLine_cons (by decide)] at parsed
    obtain ⟨read, same, named⟩ := parseLine_name formed.named (by decide) parsed.1
    cases same
    exact absurd (named.symm.trans parsed.2) other
  · rw [text] at member
    intro label labelled
    refine Quoted.short ?_ ?_ member (parseLine_quoted parsed.1 label labelled)
    · simp [formed.named.newline, free]
    · have unquoted : '"' ∉ entry.value := fun member => (formed.visible _ member).2.2 rfl
      simp [unquoted]

end Entries

end Collections.MetricsText
