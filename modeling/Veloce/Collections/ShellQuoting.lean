import Veloce.Collections.ShellWords

/-! What can be said of a text that stands unquoted in a command line from the words of the
line: whether it leaves the shell outside quotes, and whether it is a word of its own. -/

namespace Collections.ShellWords

/-- A shell reserves the end of a line, and no letter, digit or sign of a path or an option. -/
structure Dialect.Shell (dialect : Dialect) : Prop where
  line : dialect.reserved '\n' = true
  free : ∀ char, char.isAlphanum = true ∨ char = '-' ∨ char = ':' ∨ char = '/' ∨ char = ' ' →
    dialect.reserved char = false ∧ dialect.leading char = false ∧ dialect.active char = false

/-- The POSIX shell: operators and expansions, and a tilde at the beginning of a word. -/
def Dialect.posix : Dialect where
  reserved char := char ∈ ['|', '&', ';', '<', '>', '(', ')', '$', '\u0060', '*', '?', '[', '\n']
  leading char := char = '~'
  active char := char ∈ ['$', '\u0060']

theorem shell_posix : Dialect.posix.Shell where
  line := by decide
  free char kind := by
    have letter {other : Char} (sign : other.isAlphanum = false) (same : char = other) : ¬ char.isAlphanum = true := by
      rw [same, sign]
      exact Bool.false_ne_true
    simp only [Dialect.posix, List.mem_cons, List.not_mem_nil, or_false, decide_eq_false_iff_not, not_or]
    rcases kind with alphanumeric | rfl | rfl | rfl | rfl
    · refine ⟨⟨?_, ?_, ?_, ?_, ?_, ?_, ?_, ?_, ?_, ?_, ?_, ?_, ?_⟩, ?_, ?_, ?_⟩
      all_goals exact fun same => letter (by decide) same alphanumeric
    all_goals decide

/-- The shell is outside quotes and in a word when a colon follows the text. -/
def Dialect.isClosed (dialect : Dialect) (text : List Char) : Bool :=
  match scan dialect start (text ++ [':']) with
  | none => false
  | some (_, state) => state.mode = .plain

def Mode.inWord : Mode → Bool
  | .plain | .single | .double | .escape | .doubleEscape => true
  | .gap | .gapEscape | .comment => false

/-- More in front of the first word. -/
def addFront (front : List Char) : List (List Char) → List (List Char)
  | [] => []
  | first :: rest => (front ++ first) :: rest

section Words

variable {dialect : Dialect} {mode : Mode} {state next : State} {front word text first : List Char} {char : Char}
  {ended : Option (List Char)} {words : List (List Char)}

theorem step_inWord (front : List Char) (inside : mode.inWord = true) (done : dialect.step ⟨mode, word⟩ char = some (ended, next)) :
    (ended = none ∧ next.mode.inWord = true ∧
        dialect.step ⟨mode, front ++ word⟩ char = some (none, ⟨next.mode, front ++ next.word⟩)) ∨
      (ended = some word ∧ next = start ∧
        dialect.step ⟨mode, front ++ word⟩ char = some (some (front ++ word), start)) := by
  cases mode
  all_goals
    simp only [Mode.inWord, Bool.false_eq_true] at inside
    try simp only [Dialect.step] at done ⊢
    try split_ifs at done ⊢
    all_goals
      simp only [Option.some.injEq, Prod.mk.injEq] at done
      obtain ⟨rfl, rfl⟩ := done
      simp [Mode.inWord, start]

theorem step_eq_none (inside : mode.inWord = true) (failed : dialect.step ⟨mode, word⟩ char = none) :
    dialect.step ⟨mode, front ++ word⟩ char = none := by
  cases mode
  all_goals
    simp only [Mode.inWord, Bool.false_eq_true] at inside
    try simp only [Dialect.step] at failed ⊢
    try split_ifs at failed ⊢
    all_goals rfl

theorem read_addFront (inside : mode.inWord = true) :
    read dialect ⟨mode, front ++ word⟩ text = (read dialect ⟨mode, word⟩ text).map (addFront front) := by
  induction text generalizing mode word with
  | nil => cases mode <;> simp [Mode.inWord] at inside <;> simp [read, State.finish, addFront]
  | cons char text ih =>
    cases step : dialect.step ⟨mode, word⟩ char with
    | none => rw [read, read, step, step_eq_none inside step]; rfl
    | some done =>
      obtain ⟨ended, next⟩ := done
      obtain ⟨rfl, inside', step'⟩ | ⟨rfl, rfl, step'⟩ := step_inWord front inside step
      · rw [read_cons_of step, read_cons_of step', ih inside', Option.map_map, Option.map_map]
        rfl
      · rw [read_cons_of step, read_cons_of step', Option.map_map]
        rfl

theorem read_inWord (inside : mode.inWord = true) (found : read dialect ⟨mode, word⟩ text = some words) :
    ∃ first rest, words = first :: rest := by
  induction text generalizing mode word words with
  | nil =>
    cases mode
    all_goals
      simp only [Mode.inWord, Bool.false_eq_true, read, State.finish, Option.some.injEq, reduceCtorEq] at inside found
      try exact ⟨_, _, found.symm⟩
  | cons char text ih =>
    obtain ⟨⟨ended, next⟩, step, found⟩ := Option.bind_eq_some_iff.mp found
    obtain ⟨more, later, rfl⟩ := Option.map_eq_some_iff.mp found
    obtain ⟨rfl, inside', -⟩ | ⟨rfl, rfl, -⟩ := step_inWord [] inside step
    · exact ih inside' later
    · exact ⟨word, more, rfl⟩

theorem read_comment_eq (line : dialect.reserved '\n' = true)
    (found : read dialect ⟨.comment, word⟩ text = some words) : words = [] := by
  induction text generalizing word with
  | nil => exact (Option.some.inj found).symm
  | cons char text ih =>
    obtain ⟨⟨ended, next⟩, step, found⟩ := Option.bind_eq_some_iff.mp found
    simp only [Dialect.step] at step
    split_ifs at step with newline free
    · exact absurd line (newline ▸ free)
    · obtain ⟨rfl, rfl⟩ := Prod.mk.inj (Option.some.inj step)
      obtain ⟨more, later, rfl⟩ := Option.map_eq_some_iff.mp found
      exact ih later

theorem first_size (found : read dialect state text = some (first :: words)) :
    first.length ≤ state.held + text.length := by
  have bound := read_size found
  rw [List.map_cons, List.sum_cons] at bound
  omega

end Words

section Itself

variable {dialect : Dialect} {word text first : List Char} {words : List (List Char)}

theorem eq_nil_of_escape {mode : Mode} (escaped : mode = .escape ∨ mode = .gapEscape)
    (found : read dialect ⟨mode, word⟩ text = some (first :: words))
    (long : word.length + 1 + text.length ≤ first.length) : text = [] := by
  cases text with
  | nil => rfl
  | cons char text =>
    obtain ⟨⟨ended, state⟩, step, found⟩ := Option.bind_eq_some_iff.mp found
    obtain ⟨more, later, split⟩ := Option.map_eq_some_iff.mp found
    rw [List.length_cons] at long
    rcases escaped with rfl | rfl
    all_goals
      simp only [Dialect.step] at step
      split_ifs at step
      all_goals
        obtain ⟨rfl, rfl⟩ := Prod.mk.inj (Option.some.inj step)
        simp only [Option.toList_none, List.nil_append] at split
        subst split
        have bound := first_size later
        simp only [State.held, List.length_append, List.length_singleton] at bound
        omega

/-- A word that is as long as its text is plain, apart from a backslash at the end. -/
theorem chars_of_long (found : read dialect ⟨.plain, word⟩ text = some (first :: words))
    (long : word.length + text.length ≤ first.length) :
    (∀ char ∈ text, dialect.isPlain char = true) ∨
      ∃ front, text = front ++ ['\\'] ∧ ∀ char ∈ front, dialect.isPlain char = true := by
  induction text generalizing word with
  | nil => exact .inl fun _ member => absurd member List.not_mem_nil
  | cons char text ih =>
    obtain ⟨⟨ended, next⟩, step, rest⟩ := Option.bind_eq_some_iff.mp found
    have same : read dialect _ (char :: text) = _ := read_cons_of step
    rw [found] at same
    rw [List.length_cons] at long
    simp only [Dialect.step] at step
    split_ifs at step with single double backslash free solid
    all_goals obtain ⟨rfl, rfl⟩ := Prod.mk.inj (Option.some.inj step)
    · obtain ⟨_, later, rfl⟩ := Option.map_eq_some_iff.mp same.symm
      have bound := first_size later
      simp only [State.held] at bound
      omega
    · obtain ⟨_, later, rfl⟩ := Option.map_eq_some_iff.mp same.symm
      have bound := first_size later
      simp only [State.held] at bound
      omega
    · obtain ⟨_, later, rfl⟩ := Option.map_eq_some_iff.mp same.symm
      obtain rfl := eq_nil_of_escape (.inl rfl) later (by omega)
      exact .inr ⟨[], by rw [backslash]; rfl, fun _ member => absurd member List.not_mem_nil⟩
    · obtain ⟨more, later, split⟩ := Option.map_eq_some_iff.mp same.symm
      rw [Option.toList_some, List.singleton_append, List.cons.injEq] at split
      obtain ⟨rfl, rfl⟩ := split
      omega
    · obtain ⟨_, later, rfl⟩ := Option.map_eq_some_iff.mp same.symm
      have plain : dialect.isPlain char = true :=
        isPlain_iff.mpr ⟨single, double, backslash, eq_false_of_ne_true free, eq_false_of_ne_true solid⟩
      rcases ih later (by rw [List.length_append, List.length_singleton]; omega) with chars | ⟨front, rfl, chars⟩
      · exact .inl (List.forall_mem_cons.mpr ⟨plain, chars⟩)
      · exact .inr ⟨char :: front, rfl, List.forall_mem_cons.mpr ⟨plain, chars⟩⟩

/-- A text that is read as itself is a plain word, apart from a backslash at the end. -/
theorem plain_of_read_self (found : read dialect start text = some [text]) :
    dialect.Plain text ∨ ∃ front, text = front ++ ['\\'] ∧ (front = [] ∨ dialect.Plain front) := by
  cases text with
  | nil => simp [read, State.finish, start] at found
  | cons char text =>
    obtain ⟨⟨ended, next⟩, step, rest⟩ := Option.bind_eq_some_iff.mp found
    have same : read dialect _ (char :: text) = _ := read_cons_of step
    rw [found] at same
    simp only [Dialect.step, start] at step
    split_ifs at step with single double backslash free solid comment
    all_goals
      obtain ⟨rfl, rfl⟩ := Prod.mk.inj (Option.some.inj step)
      obtain ⟨_, later, rfl⟩ := Option.map_eq_some_iff.mp same.symm
    · have bound := first_size later
      simp only [State.held, List.length_cons, List.length_nil] at bound
      omega
    · have bound := first_size later
      simp only [State.held, List.length_cons, List.length_nil] at bound
      omega
    · obtain rfl := eq_nil_of_escape (.inr rfl) later (by simp only [List.length_cons, List.length_nil]; omega)
      exact .inr ⟨[], by rw [backslash]; rfl, .inl rfl⟩
    · have bound := first_size later
      simp only [State.held, List.length_cons] at bound
      omega
    · have bound := first_size later
      simp only [State.held, List.length_cons] at bound
      omega
    · rw [Bool.or_eq_true, not_or] at free
      have plain : dialect.isPlain char = true :=
        isPlain_iff.mpr ⟨single, double, backslash, eq_false_of_ne_true free.1, eq_false_of_ne_true solid⟩
      have begun : char ≠ '#' ∧ dialect.leading char = false := ⟨comment, eq_false_of_ne_true free.2⟩
      have long : [char].length + text.length ≤ (char :: text).length := by
        simp only [List.length_cons, List.length_nil]
        omega
      rcases chars_of_long later long with chars | ⟨front, rfl, chars⟩
      · exact .inl ⟨List.cons_ne_nil _ _, List.forall_mem_cons.mpr ⟨plain, chars⟩,
          fun other first => Option.some.inj first ▸ begun⟩
      · exact .inr ⟨char :: front, rfl, .inr ⟨List.cons_ne_nil _ _, List.forall_mem_cons.mpr ⟨plain, chars⟩,
          fun other first => Option.some.inj first ▸ begun⟩⟩

end Itself

section Inserted

variable {dialect : Dialect} {mode : Mode} {state next : State} {char other : Char} {ended : Option (List Char)}
  {word text more : List Char} {words tail : List (List Char)}

/-- If a word in a list of words changes with a part of it, and the end of the list begins with
that part, then the word is that part. -/
theorem word_of_suffixes {front more tail : List (List Char)} {before after one two : List Char} (apart : one ≠ two)
    (first : one :: tail <:+ front ++ (before ++ one ++ after) :: more)
    (second : two :: tail <:+ front ++ (before ++ two ++ after) :: more) : before = [] ∧ after = [] ∧ more = tail := by
  have whole (middle : List Char) : middle :: more <:+ front ++ middle :: more := List.suffix_append ..
  have rest (middle : List Char) : more <:+ front ++ middle :: more := (List.suffix_cons ..).trans (whole middle)
  rcases Nat.lt_trichotomy tail.length more.length with short | same | long
  · have one_more := List.suffix_of_suffix_length_le first (rest _) short
    have two_more := List.suffix_of_suffix_length_le second (rest _) short
    have equal := (List.suffix_of_suffix_length_le one_more two_more (Nat.le_refl _)).eq_of_length rfl
    exact absurd (List.cons.inj equal).1 apart
  · have equal := (List.suffix_of_suffix_length_le first (whole _) (by simp [same])).eq_of_length (by simp [same])
    obtain ⟨here, later⟩ := List.cons.inj equal
    have lengths := congrArg List.length here
    simp only [List.length_append] at lengths
    refine ⟨List.length_eq_zero_iff.mp (by omega), List.length_eq_zero_iff.mp (by omega), later.symm⟩
  · have one_tail := List.suffix_of_suffix_length_le (whole _) ((List.suffix_cons ..).trans first) long
    have two_tail := List.suffix_of_suffix_length_le (whole _) ((List.suffix_cons ..).trans second) long
    have equal := (List.suffix_of_suffix_length_le one_tail two_tail (Nat.le_refl _)).eq_of_length rfl
    exact absurd (List.append_cancel_left (List.append_cancel_right (List.cons.inj equal).1)) apart

theorem step_space (free : dialect.reserved ' ' = false) (done : dialect.step state ' ' = some (ended, next)) :
    next = start ∨ next.mode = .comment ∨
      ((next.mode = .plain ∨ next.mode = .single ∨ next.mode = .double) ∧ next.word ≠ []) := by
  obtain ⟨mode, word⟩ := state
  cases mode
  all_goals
    simp only [Dialect.step, free, isBlank, isDoubleEscaped] at done
    split_ifs at done
    all_goals
      first
      | (simp at *; done)
      | (obtain ⟨rfl, rfl⟩ := Prod.mk.inj (Option.some.inj done); simp [start])

theorem step_colon (shell : dialect.Shell) (done : dialect.step state ':' = some (ended, next)) :
    next.mode = .plain ∨ next.mode = .single ∨ next.mode = .double ∨ next.mode = .comment := by
  have free := shell.free ':' (by decide)
  obtain ⟨mode, word⟩ := state
  cases mode
  all_goals
    simp only [Dialect.step, free.1, free.2.1, free.2.2, isBlank, isDoubleEscaped] at done
    split_ifs at done
    all_goals
      first
      | (simp at *; done)
      | (obtain ⟨rfl, rfl⟩ := Prod.mk.inj (Option.some.inj done); simp)

/-- Plain characters and blanks open no quotes, close none, and end no comment. -/
theorem scan_enclosed (enclosed : mode = .single ∨ mode = .double ∨ mode = .comment)
    (quiet : ∀ char ∈ text, dialect.isPlain char = true ∨ char = ' ')
    (done : scan dialect ⟨mode, word⟩ text = some (words, next)) : next.mode = mode := by
  induction text generalizing word words with
  | nil => exact (Prod.mk.inj (Option.some.inj done)).2 ▸ rfl
  | cons char text ih =>
    obtain ⟨⟨ended, state⟩, step, found⟩ := Option.bind_eq_some_iff.mp done
    obtain ⟨⟨later, last⟩, rest, whole⟩ := Option.map_eq_some_iff.mp found
    obtain ⟨rfl, rfl⟩ := Prod.mk.inj whole
    have calm : char ≠ '\'' ∧ char ≠ '"' ∧ char ≠ '\\' ∧ char ≠ '\n' := by
      rcases quiet char List.mem_cons_self with plain | rfl
      · obtain ⟨single, double, backslash, -, solid⟩ := isPlain_iff.mp plain
        exact ⟨single, double, backslash, fun same => by rw [same] at solid; exact absurd solid (by decide)⟩
      · decide
    have stays : state.mode = mode := by
      rcases enclosed with rfl | rfl | rfl
      all_goals
        simp only [Dialect.step, calm, if_false] at step
        try split_ifs at step
        all_goals
          obtain ⟨rfl, rfl⟩ := Prod.mk.inj (Option.some.inj step)
          rfl
    obtain ⟨_, word'⟩ := state
    obtain rfl := stays
    exact ih (fun other member => quiet other (List.mem_cons_of_mem _ member)) rest

theorem step_added (begun : mode = .plain ∨ mode = .single ∨ mode = .double) (plain : dialect.isPlain char = true)
    (quiet : dialect.active char = false) :
    dialect.step ⟨mode, word⟩ char = some (none, ⟨mode, word ++ [char]⟩) := by
  obtain ⟨single, double, backslash, free, solid⟩ := isPlain_iff.mp plain
  rcases begun with rfl | rfl | rfl
  all_goals simp [Dialect.step, single, double, backslash, free, solid, quiet]

/-- If each of two letters, set after a blank, is the word before the same last words, then the
shell is between words there, and what follows the letter ends its word and has the last words. -/
theorem between_words (shell : dialect.Shell) (apart : char ≠ other)
    (letter : char.isAlphanum = true) (letter' : other.isAlphanum = true)
    (first : ∃ words, read dialect start (text ++ [' '] ++ [char] ++ more) = some words ∧ [char] :: tail <:+ words)
    (second : ∃ words, read dialect start (text ++ [' '] ++ [other] ++ more) = some words ∧ [other] :: tail <:+ words) :
    (∃ words, scan dialect start (text ++ [' ']) = some (words, start)) ∧
      read dialect ⟨.plain, []⟩ more = some ([] :: tail) := by
  have different : [char] ≠ [other] := fun same => apart (List.cons.inj same).1
  have plain {char : Char} (letter : char.isAlphanum = true) : dialect.isPlain char = true := by
    refine isPlain_iff.mpr ⟨?_, ?_, ?_, (shell.free char (.inl letter)).1, eq_false_of_ne_true fun blank => ?_⟩
    · rintro rfl; exact absurd letter (by decide)
    · rintro rfl; exact absurd letter (by decide)
    · rintro rfl; exact absurd letter (by decide)
    · simp only [isBlank, Bool.or_eq_true, decide_eq_true_eq] at blank
      rcases blank with (rfl | rfl) | rfl <;> exact absurd letter (by decide)
  obtain ⟨words, found, ends⟩ := first
  obtain ⟨words', found', ends'⟩ := second
  rw [List.append_assoc] at found found'
  obtain ⟨⟨front, next⟩, scanned, -⟩ := Option.bind_eq_some_iff.mp (read_append.symm.trans found)
  rw [read_append_of scanned] at found found'
  obtain ⟨back, here, rfl⟩ := Option.map_eq_some_iff.mp found
  obtain ⟨back', there, rfl⟩ := Option.map_eq_some_iff.mp found'
  obtain ⟨before, state, step⟩ : ∃ before state, dialect.step state ' ' = some (before, next) := by
    rw [scan_append] at scanned
    obtain ⟨⟨_, state⟩, -, last⟩ := Option.bind_eq_some_iff.mp scanned
    obtain ⟨⟨_, _⟩, last, whole⟩ := Option.map_eq_some_iff.mp last
    obtain ⟨⟨before, _⟩, step, last⟩ := Option.bind_eq_some_iff.mp last
    obtain ⟨⟨_, _⟩, last, whole'⟩ := Option.map_eq_some_iff.mp last
    cases last
    cases whole'
    cases whole
    exact ⟨before, state, step⟩
  have added {mode : Mode} {word : List Char} {char : Char} {back : List (List Char)}
      (begun : mode = .plain ∨ mode = .single ∨ mode = .double)
      (found : read dialect ⟨mode, word ++ [char]⟩ more = some back) :
      ∃ first rest, read dialect ⟨mode, []⟩ more = some (first :: rest) ∧ back = (word ++ [char] ++ first) :: rest := by
    have inside : mode.inWord = true := by rcases begun with rfl | rfl | rfl <;> rfl
    have front : read dialect ⟨mode, word ++ [char] ++ []⟩ more = _ := read_addFront inside
    rw [List.append_nil, found] at front
    obtain ⟨shape, bare, rfl⟩ := Option.map_eq_some_iff.mp front.symm
    obtain ⟨first, rest, rfl⟩ := read_inWord inside bare
    exact ⟨first, rest, bare, rfl⟩
  -- in a word, or at the beginning of one, the letter is added to what has been read of it
  have shaped {mode : Mode} {word : List Char} (begun : mode = .plain ∨ mode = .single ∨ mode = .double)
      (here : read dialect ⟨mode, word ++ [char]⟩ more = some back)
      (there : read dialect ⟨mode, word ++ [other]⟩ more = some back') :
      word = [] ∧ read dialect ⟨mode, []⟩ more = some ([] :: tail) := by
    obtain ⟨after, rest, bare, rfl⟩ := added begun here
    obtain ⟨after', rest', bare', rfl⟩ := added begun there
    rw [bare, Option.some.injEq, List.cons.injEq] at bare'
    obtain ⟨rfl, rfl⟩ := bare'
    obtain ⟨none, ended, rfl⟩ := word_of_suffixes different ends ends'
    exact ⟨none, by rw [bare, ended]⟩
  rcases step_space (shell.free ' ' (by decide)).1 step with rfl | comment | ⟨begun, filled⟩
  · have begin {char : Char} (letter : char.isAlphanum = true) :
        read dialect start ([char] ++ more) = read dialect ⟨.plain, [] ++ [char]⟩ more := by
      have word : dialect.Plain [char] := by
        refine ⟨List.cons_ne_nil _ _, List.forall_mem_singleton.mpr (plain letter), fun other same => ?_⟩
        obtain rfl := Option.some.inj same
        exact ⟨fun same => by rw [same] at letter; exact absurd letter (by decide),
          (shell.free char (.inl letter)).2.1⟩
      rw [read_append_of (scan_start_plain word)]
      simp
    rw [begin letter] at here
    rw [begin letter'] at there
    exact ⟨⟨front, scanned⟩, (shaped (.inl rfl) here there).2⟩
  · obtain ⟨mode, word⟩ := next
    obtain rfl : mode = .comment := comment
    rw [read_comment_eq shell.line here, List.append_nil] at ends
    rw [read_comment_eq shell.line there, List.append_nil] at ends'
    have same := (List.suffix_of_suffix_length_le ends ends' (Nat.le_refl _)).eq_of_length rfl
    exact absurd (List.cons.inj same).1 different
  · obtain ⟨mode, word⟩ := next
    have step {char : Char} (letter : char.isAlphanum = true) :
        dialect.step ⟨mode, word⟩ char = some (none, ⟨mode, word ++ [char]⟩) :=
      step_added begun (plain letter) (shell.free char (.inl letter)).2.2
    rw [List.singleton_append, read_cons_of (step letter)] at here
    rw [List.singleton_append, read_cons_of (step letter')] at there
    simp only [Option.toList_none, List.nil_append, Option.map_id'] at here there
    exact absurd (shaped begun here there).1 filled

end Inserted

section Phrases

variable {dialect : Dialect} {text rest word scratch : List Char}

/-- A text of whole words, after which the shell is between words again. -/
def Dialect.Phrase (dialect : Dialect) (text : List Char) : Prop :=
  ∃ words, scan dialect start text = some (words, start)

theorem Dialect.Phrase.nil : dialect.Phrase [] := ⟨[], rfl⟩

theorem Dialect.Phrase.append (first : dialect.Phrase text) (second : dialect.Phrase rest) : dialect.Phrase (text ++ rest) := by
  obtain ⟨words, done⟩ := first
  obtain ⟨more, done'⟩ := second
  exact ⟨words ++ more, by rw [scan_append_of done, done']; rfl⟩

theorem Dialect.Plain.phrase (shell : dialect.Shell) (plain : dialect.Plain word) : dialect.Phrase (word ++ [' ']) :=
  ⟨[word], scan_plain_then plain (shell.free ' ' (by decide)).1⟩

/-- A phrase of plain words alone. -/
structure Dialect.PlainPhrase (dialect : Dialect) (text : List Char) : Prop where
  phrase : dialect.Phrase text
  quiet : ∀ char ∈ text, dialect.isPlain char = true ∨ char = ' '

theorem Dialect.PlainPhrase.nil : dialect.PlainPhrase [] := ⟨Dialect.Phrase.nil, fun _ member => absurd member List.not_mem_nil⟩

theorem Dialect.PlainPhrase.append (first : dialect.PlainPhrase text) (second : dialect.PlainPhrase rest) :
    dialect.PlainPhrase (text ++ rest) :=
  ⟨first.phrase.append second.phrase,
    fun char member => (List.mem_append.mp member).elim (first.quiet char) (second.quiet char)⟩

theorem Dialect.Plain.plainPhrase (shell : dialect.Shell) (plain : dialect.Plain word) :
    dialect.PlainPhrase (word ++ [' ']) :=
  ⟨plain.phrase shell, fun char member =>
    (List.mem_append.mp member).imp (plain.chars char) fun last => List.mem_singleton.mp last⟩

theorem Dialect.Plain.append (plain : dialect.Plain word) (more : ∀ char ∈ rest, dialect.isPlain char = true) :
    dialect.Plain (word ++ rest) where
  filled := List.append_ne_nil_of_left_ne_nil plain.filled _
  chars char member := (List.mem_append.mp member).elim (plain.chars char) (more char)
  begun char first := by
    rw [List.head?_append_of_ne_nil _ plain.filled] at first
    exact plain.begun char first

/-- Blanks between plain words, and before and after them. -/
def Dialect.PlainWords (dialect : Dialect) (text : List Char) : Prop :=
  ∀ word ∈ text.splitOn ' ', word = [] ∨ dialect.Plain word

instance (dialect : Dialect) (text : List Char) : Decidable (dialect.PlainWords text) :=
  inferInstanceAs (Decidable (∀ word ∈ text.splitOn ' ', _))

theorem phrase_of_plainWords (shell : dialect.Shell) (plain : dialect.PlainWords text) :
    dialect.Phrase (text ++ [' ']) := by
  have phrases {words : List (List Char)} (filled : words ≠ []) (plain : ∀ word ∈ words, word = [] ∨ dialect.Plain word) :
      dialect.Phrase ([' '].intercalate words ++ [' ']) := by
    induction words with
    | nil => exact absurd rfl filled
    | cons word words ih =>
      have first : dialect.Phrase (word ++ [' ']) := by
        rcases plain word List.mem_cons_self with rfl | word
        · have free := shell.free ' ' (by decide)
          have step : dialect.step start ' ' = some (none, start) := by
            simp [Dialect.step, start, free.1, free.2.1, isBlank]
          exact ⟨[], by rw [List.nil_append, scan_cons_of step]; rfl⟩
        · exact word.phrase shell
      by_cases last : words = []
      · rwa [last, List.intercalate_singleton]
      · rw [List.intercalate_cons_of_ne_nil last, List.append_assoc]
        exact first.append (ih last fun word member => plain word (List.mem_cons_of_mem _ member))
  have whole := phrases (List.splitOn_ne_nil ' ' text) plain
  rwa [List.intercalate_splitOn] at whole

/-- Letters, digits, and the signs of paths and options. -/
def isSign (char : Char) : Bool := char.isAlphanum || char = '-' || char = ':' || char = '/'

theorem isSign_iff {char : Char} :
    isSign char = true ↔ char.isAlphanum = true ∨ char = '-' ∨ char = ':' ∨ char = '/' := by
  simp only [isSign, Bool.or_eq_true, decide_eq_true_eq, or_assoc]

theorem Dialect.Shell.plain_of_signs (shell : dialect.Shell) (filled : word ≠ []) (signs : word.all isSign = true) :
    dialect.Plain word where
  filled := filled
  chars char member := by
    have kind := isSign_iff.mp (List.all_eq_true.mp signs char member)
    have other {sign : Char} (strange : ¬(sign.isAlphanum = true ∨ sign = '-' ∨ sign = ':' ∨ sign = '/')) : char ≠ sign :=
      fun same => strange (same ▸ kind)
    refine isPlain_iff.mpr ⟨other (by decide), other (by decide), other (by decide),
      (shell.free char (by tauto)).1, ?_⟩
    simp only [isBlank, Bool.or_eq_false_iff, decide_eq_false_iff_not]
    exact ⟨⟨other (by decide), other (by decide)⟩, other (by decide)⟩
  begun char first := by
    have kind := isSign_iff.mp (List.all_eq_true.mp signs char (List.mem_of_head? first))
    exact ⟨fun same => absurd (same ▸ kind) (by decide), (shell.free char (by tauto)).2.1⟩

/-- A text that leaves the shell in an unquoted word can be followed by a colon and plain
characters. -/
theorem phrase_of_closed (shell : dialect.Shell) (closed : dialect.isClosed scratch = true)
    (plain : ∀ char ∈ rest, dialect.isPlain char = true) : dialect.Phrase (scratch ++ [':'] ++ rest ++ [' ']) := by
  rw [Dialect.isClosed] at closed
  split at closed
  · cases closed
  · rename_i words state done
    obtain ⟨mode, word⟩ := state
    obtain rfl : mode = .plain := of_decide_eq_true closed
    refine ⟨words ++ ([] ++ [word ++ rest]), ?_⟩
    rw [List.append_assoc, scan_append_of done, scan_append_of (scan_plain plain),
      scan_plain_blank (shell.free ' ' (by decide)).1]
    rfl

/-- And only such a text can be followed by a colon and what opens and closes no quotes. -/
theorem closed_of_phrase (shell : dialect.Shell) (quiet : ∀ char ∈ rest, dialect.isPlain char = true ∨ char = ' ')
    {words : List (List Char)} (done : scan dialect start (scratch ++ [':'] ++ rest) = some (words, start)) :
    dialect.isClosed scratch = true := by
  rw [scan_append] at done
  obtain ⟨⟨front, state⟩, colon, later⟩ := Option.bind_eq_some_iff.mp done
  obtain ⟨⟨back, last⟩, after, whole⟩ := Option.map_eq_some_iff.mp later
  obtain ⟨rfl, rfl⟩ := Prod.mk.inj whole
  rw [Dialect.isClosed, colon]
  rw [scan_append] at colon
  obtain ⟨⟨_, before⟩, -, last⟩ := Option.bind_eq_some_iff.mp colon
  obtain ⟨⟨_, _⟩, last, whole⟩ := Option.map_eq_some_iff.mp last
  obtain ⟨⟨_, _⟩, step, last⟩ := Option.bind_eq_some_iff.mp last
  cases last
  cases whole
  rcases step_colon shell step with plain | enclosed
  · exact decide_eq_true plain
  · obtain ⟨mode, word⟩ := state
    have stays := scan_enclosed enclosed quiet after
    rw [← stays] at enclosed
    rcases enclosed with single | double | comment
    · cases single
    · cases double
    · cases comment

end Phrases

end Collections.ShellWords
