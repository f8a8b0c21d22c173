import Mathlib.Data.List.Basic
import Mathlib.Algebra.BigOperators.Group.List.Basic
import Mathlib.Algebra.Order.Ring.Nat

/-! The words of a command line by the rules of the POSIX shell: blanks, quotes, backslashes and
comments. -/

namespace Collections.ShellWords

/-- Between words, inside an unquoted part of a word, inside quotes, behind a backslash, or
in a comment. -/
inductive Mode where
  | gap
  | plain
  | single
  | double
  | gapEscape
  | escape
  | doubleEscape
  | comment
deriving DecidableEq

/-- The mode and what has been read of the word. -/
structure State where
  mode : Mode
  word : List Char
deriving DecidableEq

/-- What ends the reading outside quotes, at the beginning of a word, and inside double quotes. -/
structure Dialect where
  reserved : Char → Bool
  leading : Char → Bool
  active : Char → Bool

/-- No character is reserved: the line is only split. -/
def Dialect.splitting : Dialect where
  reserved _ := false
  leading _ := false
  active _ := false

def isBlank (char : Char) : Bool := char = ' ' || char = '\t' || char = '\n'

/-- The characters that a backslash keeps inside double quotes. -/
def isDoubleEscaped (char : Char) : Bool := char = '$' || char = '\u0060' || char = '"' || char = '\\'

/-- The word that a character ends, if it ends one, and the state after it. -/
def Dialect.step (dialect : Dialect) (state : State) (char : Char) : Option (Option (List Char) × State) :=
  match state with
  | ⟨.gap, _⟩ =>
    if char = '\'' then some (none, ⟨.single, []⟩)
    else if char = '"' then some (none, ⟨.double, []⟩)
    else if char = '\\' then some (none, ⟨.gapEscape, []⟩)
    else if dialect.reserved char || dialect.leading char then none
    else if isBlank char then some (none, ⟨.gap, []⟩)
    else if char = '#' then some (none, ⟨.comment, []⟩)
    else some (none, ⟨.plain, [char]⟩)
  | ⟨.plain, word⟩ =>
    if char = '\'' then some (none, ⟨.single, word⟩)
    else if char = '"' then some (none, ⟨.double, word⟩)
    else if char = '\\' then some (none, ⟨.escape, word⟩)
    else if dialect.reserved char then none
    else if isBlank char then some (some word, ⟨.gap, []⟩)
    else some (none, ⟨.plain, word ++ [char]⟩)
  | ⟨.single, word⟩ =>
    if char = '\'' then some (none, ⟨.plain, word⟩) else some (none, ⟨.single, word ++ [char]⟩)
  | ⟨.double, word⟩ =>
    if char = '"' then some (none, ⟨.plain, word⟩)
    else if char = '\\' then some (none, ⟨.doubleEscape, word⟩)
    else if dialect.active char then none
    else some (none, ⟨.double, word ++ [char]⟩)
  | ⟨.gapEscape, _⟩ => if char = '\n' then some (none, ⟨.gap, []⟩) else some (none, ⟨.plain, [char]⟩)
  | ⟨.escape, word⟩ => if char = '\n' then some (none, ⟨.plain, word⟩) else some (none, ⟨.plain, word ++ [char]⟩)
  | ⟨.doubleEscape, word⟩ =>
    if char = '\n' then some (none, ⟨.double, word⟩)
    else if isDoubleEscaped char then some (none, ⟨.double, word ++ [char]⟩)
    else some (none, ⟨.double, word ++ ['\\', char]⟩)
  | ⟨.comment, _⟩ =>
    if char = '\n' then if dialect.reserved char then none else some (none, ⟨.gap, []⟩)
    else some (none, ⟨.comment, []⟩)

/-- The words at the end of the text; a quote must have been closed. -/
def State.finish : State → Option (List (List Char))
  | ⟨.gap, _⟩ | ⟨.comment, _⟩ => some []
  | ⟨.plain, word⟩ => some [word]
  | ⟨.gapEscape, word⟩ | ⟨.escape, word⟩ => some [word ++ ['\\']]
  | ⟨.single, _⟩ | ⟨.double, _⟩ | ⟨.doubleEscape, _⟩ => none

/-- The words that a text ends, and the state after it. -/
def scan (dialect : Dialect) (state : State) : List Char → Option (List (List Char) × State)
  | [] => some ([], state)
  | char :: rest =>
    (dialect.step state char).bind fun (ended, next) =>
      (scan dialect next rest).map fun (words, last) => (ended.toList ++ words, last)

/-- The words of the rest of a text. -/
def read (dialect : Dialect) (state : State) : List Char → Option (List (List Char))
  | [] => state.finish
  | char :: rest =>
    (dialect.step state char).bind fun (ended, next) => (read dialect next rest).map (ended.toList ++ ·)

def start : State := ⟨.gap, []⟩

def split (dialect : Dialect) (line : String) : Option (List String) :=
  (read dialect start line.toList).map (·.map String.ofList)

/-- A character that stands for itself outside quotes. -/
def Dialect.isPlain (dialect : Dialect) (char : Char) : Bool :=
  !(char = '\'' || char = '"' || char = '\\' || dialect.reserved char || isBlank char)

/-- A word that needs no quotes: not empty, of plain characters, and with a beginning that
makes it neither a comment nor anything else. -/
structure Dialect.Plain (dialect : Dialect) (word : List Char) : Prop where
  filled : word ≠ []
  chars : ∀ char ∈ word, dialect.isPlain char = true
  begun : ∀ char ∈ word.head?, char ≠ '#' ∧ dialect.leading char = false

-- A decision looks at the characters of the word, and not at all there are.
instance (dialect : Dialect) (word : List Char) : Decidable (dialect.Plain word) :=
  have : Decidable (∀ char ∈ word, dialect.isPlain char = true) := List.decidableBAll _ word
  have : Decidable (∀ char ∈ word.head?, char ≠ '#' ∧ dialect.leading char = false) := word.head?.decidableForallMem
  decidable_of_iff (word ≠ [] ∧ (∀ char ∈ word, dialect.isPlain char = true) ∧
      ∀ char ∈ word.head?, char ≠ '#' ∧ dialect.leading char = false)
    ⟨fun ⟨filled, chars, begun⟩ => ⟨filled, chars, begun⟩, fun plain => ⟨plain.filled, plain.chars, plain.begun⟩⟩

section Scan

variable {dialect : Dialect} {state : State} {text rest word : List Char}

theorem scan_append : scan dialect state (text ++ rest) =
    (scan dialect state text).bind fun (words, last) =>
      (scan dialect last rest).map fun (more, last) => (words ++ more, last) := by
  induction text generalizing state with
  | nil => simp [scan]
  | cons char text ih =>
    rw [List.cons_append, scan, scan]
    cases dialect.step state char with
    | none => rfl
    | some next => simp [ih, Option.map_bind, Option.bind_map, Function.comp_def]

/-- A text is read from where the scan of what stands before it has ended. -/
theorem read_append : read dialect state (text ++ rest) =
    (scan dialect state text).bind fun (words, last) => (read dialect last rest).map (words ++ ·) := by
  induction text generalizing state with
  | nil => simp [scan]
  | cons char text ih =>
    rw [List.cons_append, read, scan]
    cases dialect.step state char with
    | none => rfl
    | some next => simp [ih, Option.map_bind, Option.bind_map, Function.comp_def]

theorem scan_cons_of {char : Char} {ended : Option (List Char)} {next : State}
    (step : dialect.step state char = some (ended, next)) : scan dialect state (char :: rest) =
      (scan dialect next rest).map fun (words, last) => (ended.toList ++ words, last) := by
  rw [scan, step]
  rfl

theorem read_cons_of {char : Char} {ended : Option (List Char)} {next : State}
    (step : dialect.step state char = some (ended, next)) :
    read dialect state (char :: rest) = (read dialect next rest).map (ended.toList ++ ·) := by
  rw [read, step]
  rfl

theorem scan_append_of {words : List (List Char)} {last : State} (done : scan dialect state text = some (words, last)) :
    scan dialect state (text ++ rest) = (scan dialect last rest).map fun (more, last) => (words ++ more, last) := by
  rw [scan_append, done]
  rfl

theorem read_append_of {words : List (List Char)} {last : State} (done : scan dialect state text = some (words, last)) :
    read dialect state (text ++ rest) = (read dialect last rest).map (words ++ ·) := by
  rw [read_append, done]
  rfl

end Scan

section Plain

variable {dialect : Dialect} {word text rest : List Char} {char : Char}

theorem isPlain_iff : dialect.isPlain char = true ↔
    char ≠ '\'' ∧ char ≠ '"' ∧ char ≠ '\\' ∧ dialect.reserved char = false ∧ isBlank char = false := by
  simp only [Dialect.isPlain, Bool.not_eq_true', Bool.or_eq_false_iff, decide_eq_false_iff_not, and_assoc, ne_eq]

theorem scan_plain (plain : ∀ char ∈ text, dialect.isPlain char = true) :
    scan dialect ⟨.plain, word⟩ text = some ([], ⟨.plain, word ++ text⟩) := by
  induction text generalizing word with
  | nil => rw [scan, List.append_nil]
  | cons char text ih =>
    obtain ⟨single, double, backslash, free, solid⟩ := isPlain_iff.mp (plain char List.mem_cons_self)
    have step : dialect.step ⟨.plain, word⟩ char = some (none, ⟨.plain, word ++ [char]⟩) := by
      simp [Dialect.step, single, double, backslash, free, solid]
    rw [scan_cons_of step, ih fun other member => plain other (List.mem_cons_of_mem _ member)]
    simp

theorem scan_start_plain (plain : dialect.Plain text) : scan dialect start text = some ([], ⟨.plain, text⟩) := by
  obtain ⟨filled, chars, begun⟩ := plain
  cases text with
  | nil => exact absurd rfl filled
  | cons char text =>
    obtain ⟨single, double, backslash, free, solid⟩ := isPlain_iff.mp (chars char List.mem_cons_self)
    obtain ⟨comment, unled⟩ := begun char rfl
    have step : dialect.step start char = some (none, ⟨.plain, [char]⟩) := by
      simp [Dialect.step, start, single, double, backslash, free, solid, comment, unled]
    rw [scan_cons_of step, scan_plain fun other member => chars other (List.mem_cons_of_mem _ member)]
    simp

theorem read_plain_word (plain : dialect.Plain text) : read dialect start text = some [text] := by
  have whole : read dialect start (text ++ []) = some [text] := read_append_of (scan_start_plain plain)
  rwa [List.append_nil] at whole

theorem step_plain_blank (free : dialect.reserved ' ' = false) :
    dialect.step ⟨.plain, word⟩ ' ' = some (some word, start) := by
  simp [Dialect.step, free, isBlank, start]

theorem scan_plain_blank (free : dialect.reserved ' ' = false) :
    scan dialect ⟨.plain, word⟩ [' '] = some ([word], start) := by
  rw [scan_cons_of (step_plain_blank free)]
  rfl

theorem scan_plain_then (plain : dialect.Plain text) (free : dialect.reserved ' ' = false) :
    scan dialect start (text ++ [' ']) = some ([text], start) := by
  rw [scan_append_of (scan_start_plain plain), scan_plain_blank free]
  rfl

theorem read_plain_then (plain : dialect.Plain text) (free : dialect.reserved ' ' = false) :
    read dialect start (text ++ ' ' :: rest) = (read dialect start rest).map (text :: ·) := by
  rw [← List.singleton_append, ← List.append_assoc, read_append_of (scan_plain_then plain free)]
  rfl

end Plain

section Comment

variable {dialect : Dialect} {word text : List Char}

theorem read_comment (line : '\n' ∉ text) : read dialect ⟨.comment, word⟩ text = some [] := by
  induction text generalizing word with
  | nil => rfl
  | cons char text ih =>
    have other : char ≠ '\n' := fun same => line (same ▸ List.mem_cons_self)
    have step : dialect.step ⟨.comment, word⟩ char = some (none, ⟨.comment, []⟩) := by simp [Dialect.step, other]
    rw [read_cons_of step, ih fun inside => line (List.mem_cons_of_mem _ inside)]
    rfl

end Comment

section Size

/-- The characters of some words, with one more for each word. -/
def size (words : List String) : Nat := (words.map fun word => word.toList.length + 1).sum

@[simp] theorem size_nil : size [] = 0 := rfl

@[simp] theorem size_cons (word : String) (words : List String) :
    size (word :: words) = word.toList.length + 1 + size words := by
  rw [size, List.map_cons, List.sum_cons, size]

@[simp] theorem size_append (words others : List String) : size (words ++ others) = size words + size others := by
  rw [size, List.map_append, List.sum_append, size, size]

def State.held (state : State) : Nat :=
  match state.mode with
  | .gap | .comment => 0
  | .plain | .single | .double => state.word.length
  | .gapEscape | .escape | .doubleEscape => state.word.length + 1

variable {dialect : Dialect} {state next : State} {char : Char} {ended : Option (List Char)} {text : List Char}
  {words : List (List Char)}

theorem step_size (done : dialect.step state char = some (ended, next)) :
    (ended.elim 0 fun word => word.length + 1) + next.held ≤ state.held + 1 := by
  obtain ⟨mode, word⟩ := state
  cases mode
  all_goals
    simp only [Dialect.step] at done
    split_ifs at done
    all_goals
      simp only [Option.some.injEq, Prod.mk.injEq] at done
      obtain ⟨rfl, rfl⟩ := done
      simp only [State.held, Option.elim_some, Option.elim_none, List.length_append, List.length_cons, List.length_nil]
      omega

theorem read_size (found : read dialect state text = some words) :
    (words.map fun word => word.length + 1).sum ≤ state.held + text.length + 1 := by
  induction text generalizing state words with
  | nil =>
    obtain ⟨mode, word⟩ := state
    cases mode
    all_goals
      simp only [read, State.finish, Option.some.injEq, reduceCtorEq] at found
      try subst found
      try simp [State.held]
  | cons char text ih =>
    obtain ⟨⟨ended, next⟩, step, found⟩ := Option.bind_eq_some_iff.mp found
    obtain ⟨more, later, rfl⟩ := Option.map_eq_some_iff.mp found
    have bound := ih later
    have single := step_size step
    cases ended with
    | none =>
      simp only [Option.toList_none, List.nil_append, Option.elim_none, List.length_cons] at *
      omega
    | some word =>
      simp only [Option.toList_some, List.singleton_append, List.map_cons, List.sum_cons, Option.elim_some,
        List.length_cons] at *
      omega

end Size

/-- What `shell_words::split` promises: a plain word is itself, a plain word before a blank
comes first, nothing and a comment have no words, and no character is added. -/
structure Splitter (split : String → Option (List String)) : Prop where
  empty : split "" = some []
  comment : ∀ text, text.toList.head? = some '#' → '\n' ∉ text.toList → split text = some []
  word : ∀ text, Dialect.splitting.Plain text.toList → split text = some [text]
  first : ∀ word rest words, Dialect.splitting.Plain word.toList →
    split (word ++ " " ++ rest) = some words → words.head? = some word
  size : ∀ text words, split text = some words → size words ≤ text.toList.length + 1

theorem split_splitter : Splitter (split .splitting) where
  empty := rfl
  comment text begun line := by
    rw [split]
    cases chars : text.toList with
    | nil => rw [chars] at begun; cases begun
    | cons char rest =>
      rw [chars] at begun line
      obtain rfl := Option.some.inj begun
      have step : Dialect.splitting.step start '#' = some (none, ⟨.comment, []⟩) := by decide
      rw [read_cons_of step, read_comment fun inside => line (List.mem_cons_of_mem _ inside)]
      rfl
  word text plain := by
    rw [split, read_plain_word plain, Option.map_some, List.map_cons, List.map_nil, String.ofList_toList]
  first word rest words plain found := by
    have chars : (word ++ " " ++ rest).toList = word.toList ++ ' ' :: rest.toList := by
      rw [String.toList_append, String.toList_append, List.append_assoc]
      rfl
    rw [split, chars, read_plain_then plain rfl] at found
    obtain ⟨_, mapped, rfl⟩ := Option.map_eq_some_iff.mp found
    obtain ⟨_, _, rfl⟩ := Option.map_eq_some_iff.mp mapped
    rw [List.map_cons, List.head?_cons, String.ofList_toList]
  size text words found := by
    obtain ⟨chars, read, rfl⟩ := Option.map_eq_some_iff.mp found
    have bound := read_size read
    simpa [size, State.held, start, Function.comp_def] using bound

end Collections.ShellWords
