import Mathlib.Data.List.TakeWhile
import Veloce.Collections.ShellWords

/-! Words that are joined with blanks and split again. -/

namespace Collections.ShellWords

def weight (text : List Char) : Nat := text.countP fun char => !isBlank char

def totalWeight (words : List (List Char)) : Nat := (words.map weight).sum

/-- Nothing is before a character but a part of a word that needs no quotes. -/
def Opens (word : List Char) : Prop := word = [] ∨ Dialect.splitting.Plain word

/-- A character that is taken out, with the word before it and the text behind it. -/
def IsTakenOut (word : List Char) (char : Char) (rest : List Char) : Prop :=
  char = '\'' ∨ char = '"' ∨ (char = '\\' ∧ rest ≠ []) ∨ (char = '#' ∧ word = [])

/-- What `shell_words::split` does with a text of characters. -/
structure WordSplitter (split : List Char → Option (List (List Char))) : Prop where
  empty : split [] = some []
  blank : ∀ char rest, isBlank char = true → split (char :: rest) = split rest
  word : ∀ word, Dialect.splitting.Plain word → split word = some [word]
  first : ∀ word char rest, Dialect.splitting.Plain word → isBlank char = true →
    split (word ++ char :: rest) = (split rest).map (word :: ·)
  backslash : ∀ word, Opens word → split (word ++ ['\\']) = some [word ++ ['\\']]
  takesOut : ∀ word char rest words, Opens word → IsTakenOut word char rest →
    split (word ++ char :: rest) = some words → totalWeight words < weight (word ++ char :: rest)

/-- Plain words, where the last one may end in a backslash. -/
def Kept : List (List Char) → Prop
  | [] => True
  | [last] => Dialect.splitting.Plain last ∨ ∃ word, Opens word ∧ last = word ++ ['\\']
  | word :: rest => Dialect.splitting.Plain word ∧ Kept rest

section Weights

variable {text word : List Char} {words : List (List Char)} {char : Char}

@[simp] theorem weight_nil : weight [] = 0 := rfl

theorem weight_cons (char : Char) (text : List Char) : weight (char :: text) = weight text + if isBlank char then 0 else 1 := by
  rw [weight, List.countP_cons, weight]
  cases isBlank char <;> rfl

@[simp] theorem weight_append (text rest : List Char) : weight (text ++ rest) = weight text + weight rest := List.countP_append

@[simp] theorem totalWeight_nil : totalWeight [] = 0 := rfl

@[simp] theorem totalWeight_cons (word : List Char) (words : List (List Char)) :
    totalWeight (word :: words) = weight word + totalWeight words := rfl

theorem weight_join (words : List (List Char)) : weight ([' '].intercalate words) = totalWeight words := by
  induction words with
  | nil => rfl
  | cons word rest ih =>
    by_cases last : rest = []
    · simp [last]
    · rw [List.intercalate_cons_of_ne_nil last, weight_append, weight_append, ih]
      rfl

end Weights

section Plain

variable {text word : List Char} {char : Char}

theorem isPlain_splitting_iff : Dialect.splitting.isPlain char = true ↔
    char ≠ '\'' ∧ char ≠ '"' ∧ char ≠ '\\' ∧ isBlank char = false := by
  rw [isPlain_iff]
  simp [Dialect.splitting]

inductive Beginning : List Char → Prop where
  | empty : Beginning []
  | blank {char : Char} (blank : isBlank char = true) (rest : List Char) : Beginning (char :: rest)
  | word {word : List Char} (plain : Dialect.splitting.Plain word) : Beginning word
  | first {word : List Char} {char : Char} (plain : Dialect.splitting.Plain word) (blank : isBlank char = true)
      (rest : List Char) : Beginning (word ++ char :: rest)
  | backslash {word : List Char} (opens : Opens word) : Beginning (word ++ ['\\'])
  | takenOut {word rest : List Char} {char : Char} (opens : Opens word) (out : IsTakenOut word char rest) :
      Beginning (word ++ char :: rest)

theorem beginning_of_unplain (other : Dialect.splitting.isPlain char = false) (solid : isBlank char = false)
    (opens : Opens word) (rest : List Char) : Beginning (word ++ char :: rest) := by
  by_cases backslash : char = '\\'
  · subst backslash
    by_cases last : rest = []
    · exact last ▸ .backslash opens
    · exact .takenOut opens (.inr (.inr (.inl ⟨rfl, last⟩)))
  · refine .takenOut opens ?_
    by_cases single : char = '\''
    · exact .inl single
    · by_cases double : char = '"'
      · exact .inr (.inl double)
      · rw [isPlain_splitting_iff.mpr ⟨single, double, backslash, solid⟩] at other
        cases other

theorem beginning (text : List Char) : Beginning text := by
  cases text with
  | nil => exact .empty
  | cons char rest =>
    by_cases blank : isBlank char = true
    · exact .blank blank rest
    · have solid := Bool.eq_false_iff.mpr blank
      by_cases comment : char = '#'
      · exact .takenOut (.inl rfl) (.inr (.inr (.inr ⟨comment, rfl⟩)))
      · by_cases plain : Dialect.splitting.isPlain char = true
        · have begun : Dialect.splitting.Plain (char :: rest.takeWhile Dialect.splitting.isPlain) := by
            refine ⟨nofun, fun other member => ?_, fun first member => ?_⟩
            · rcases List.mem_cons.mp member with rfl | inside
              · exact plain
              · exact List.mem_takeWhile_imp inside
            · obtain rfl := Option.mem_some_iff.mp member
              exact ⟨comment, rfl⟩
          rw [← List.takeWhile_append_dropWhile (p := Dialect.splitting.isPlain) (l := rest), ← List.cons_append]
          have stopped := List.head?_dropWhile_not Dialect.splitting.isPlain rest
          cases after : rest.dropWhile Dialect.splitting.isPlain with
          | nil =>
            rw [List.append_nil]
            exact .word begun
          | cons next after' =>
            rw [after] at stopped
            by_cases ends : isBlank next = true
            · exact .first begun ends after'
            · exact beginning_of_unplain stopped (Bool.eq_false_iff.mpr ends) (.inr begun) after'
        · exact beginning_of_unplain (Bool.eq_false_iff.mpr plain) solid (.inl rfl) rest

end Plain

section Split

variable {split : List Char → Option (List (List Char))} {text word : List Char} {words rest : List (List Char)}

theorem kept_cons (plain : Dialect.splitting.Plain word) (kept : Kept words) : Kept (word :: words) := by
  cases words with
  | nil => exact .inl plain
  | cons => exact ⟨plain, kept⟩

/-- What is split without anything taken out are plain words, but for a backslash at the end. -/
theorem WordSplitter.kept (splits : WordSplitter split) (done : split text = some words)
    (whole : weight text ≤ totalWeight words) :
    Kept words ∧ (text.getLast? ≠ some '\\' → ∀ word ∈ words, Dialect.splitting.Plain word) := by
  induction length : text.length using Nat.strongRecOn generalizing text words with
  | ind count ih =>
    cases beginning text with
    | empty =>
      cases splits.empty.symm.trans done
      exact ⟨trivial, fun _ => nofun⟩
    | blank blank rest =>
      rw [splits.blank _ rest blank] at done
      rw [weight_cons, if_pos blank] at whole
      obtain ⟨kept, plain⟩ := ih rest.length (by rw [← length]; exact Nat.lt_succ_self _) done whole rfl
      refine ⟨kept, fun last => plain fun ends => last ?_⟩
      rw [List.getLast?_cons, ends]
      rfl
    | word plain =>
      cases (splits.word _ plain).symm.trans done
      exact ⟨.inl plain, fun _ => List.forall_mem_singleton.mpr plain⟩
    | @first word char plain blank rest =>
      rw [splits.first word char rest plain blank] at done
      obtain ⟨later, split, rfl⟩ := Option.map_eq_some_iff.mp done
      rw [weight_append, weight_cons, if_pos blank, totalWeight_cons] at whole
      have shorter : rest.length < count := by
        rw [← length, List.length_append, List.length_cons]
        omega
      obtain ⟨kept, plain'⟩ := ih rest.length shorter split (by omega) rfl
      refine ⟨kept_cons plain kept, fun last => List.forall_mem_cons.mpr ⟨plain, plain' fun ends => last ?_⟩⟩
      rw [List.getLast?_append, List.getLast?_cons, ends]
      rfl
    | @backslash word opens =>
      cases (splits.backslash word opens).symm.trans done
      exact ⟨.inr ⟨word, opens, rfl⟩, fun last => absurd List.getLast?_concat last⟩
    | takenOut opens out =>
      have less := splits.takesOut _ _ _ _ opens out done
      exact absurd whole (Nat.not_le_of_lt less)

theorem WordSplitter.join (splits : WordSplitter split) (kept : Kept words) :
    split ([' '].intercalate words) = some words := by
  induction words with
  | nil => exact splits.empty
  | cons word rest ih =>
    cases rest with
    | nil =>
      rw [List.intercalate_singleton]
      rcases kept with plain | ⟨word, opens, rfl⟩
      · exact splits.word _ plain
      · exact splits.backslash word opens
    | cons second rest =>
      rw [List.intercalate_cons_of_ne_nil (List.cons_ne_nil second rest), List.append_assoc, List.singleton_append,
        splits.first word ' ' _ kept.1 rfl, ih kept.2]
      rfl

/-- A first word with a blank behind it and more words, if any, are split into themselves if
and only if they are plain, but for a backslash at the end of the last one of several. -/
theorem WordSplitter.join_iff (splits : WordSplitter split) :
    split (word ++ ' ' :: [' '].intercalate rest) = some (word :: rest) ↔ Dialect.splitting.Plain word ∧ Kept rest := by
  constructor
  · intro done
    have same : weight (word ++ ' ' :: [' '].intercalate rest) = totalWeight (word :: rest) := by
      rw [weight_append, weight_cons, weight_join, totalWeight_cons]
      rfl
    obtain ⟨kept, plain⟩ := splits.kept done (Nat.le_of_eq same)
    cases rest with
    | nil =>
      refine ⟨plain ?_ word List.mem_cons_self, trivial⟩
      rw [List.intercalate_nil, List.getLast?_concat]
      exact nofun
    | cons second rest => exact kept
  · rintro ⟨plain, kept⟩
    rw [splits.first word ' ' _ plain rfl, splits.join kept]
    rfl

end Split

section Read

variable {dialect : Dialect} {state next : State} {char : Char} {ended : Option (List Char)} {text word rest : List Char}
variable {words : List (List Char)}

/-- What a state still has of the text before; a backslash is kept if nothing follows it. -/
def State.weight (state : State) : Nat :=
  match state.mode with
  | .gap | .comment => 0
  | .plain | .single | .double => ShellWords.weight state.word
  | .gapEscape | .escape | .doubleEscape => ShellWords.weight state.word + 1

theorem step_weight (done : dialect.step state char = some (ended, next)) :
    (ended.elim 0 weight) + next.weight ≤ state.weight + weight [char] := by
  have backslash (same : char = '\\') : (if isBlank char = true then 0 else 1) = 1 := by
    subst same
    rfl
  have kept : (if isBlank '\\' = true then 0 else 1) = 1 := rfl
  obtain ⟨mode, word⟩ := state
  cases mode
  all_goals
    simp only [Dialect.step] at done
    split_ifs at done
    all_goals
      simp only [Option.some.injEq, Prod.mk.injEq] at done
      obtain ⟨rfl, rfl⟩ := done
      simp only [State.weight, Option.elim_some, Option.elim_none, weight_append, weight_cons, weight_nil, kept]
      first
        | omega
        | have spent := backslash ‹_›
          omega

theorem read_weight (done : read dialect state text = some words) : totalWeight words ≤ state.weight + weight text := by
  induction text generalizing state words with
  | nil =>
    obtain ⟨mode, word⟩ := state
    cases mode
    all_goals
      simp only [read, State.finish, Option.some.injEq, reduceCtorEq] at done
      try subst done
      try simp [State.weight, weight_cons, isBlank]
  | cons char text ih =>
    obtain ⟨⟨ended, next⟩, step, done⟩ := Option.bind_eq_some_iff.mp done
    obtain ⟨more, later, rfl⟩ := Option.map_eq_some_iff.mp done
    have bound := ih later
    have single := step_weight step
    rw [weight_cons, weight_nil] at single
    rw [weight_cons]
    cases ended with
    | none =>
      simp only [Option.toList_none, List.nil_append, Option.elim_none] at *
      omega
    | some word =>
      simp only [Option.toList_some, List.singleton_append, totalWeight_cons, Option.elim_some] at *
      omega

theorem read_opens (opens : Opens word) (text : List Char) : read .splitting start (word ++ text) =
    read .splitting (if word = [] then start else ⟨.plain, word⟩) text := by
  rcases opens with rfl | plain
  · rfl
  · rw [read_append_of (scan_start_plain plain), if_neg plain.filled]
    simp

theorem weight_opened (word : List Char) : State.weight (if word = [] then start else ⟨.plain, word⟩) = weight word := by
  split
  · rename_i empty
    rw [empty]
    rfl
  · rfl

theorem step_opened_blank (blank : isBlank char = true) (word : List Char) :
    Dialect.splitting.step ⟨.plain, word⟩ char = some (some word, start) ∧
      Dialect.splitting.step start char = some (none, start) := by
  have single : char ≠ '\'' := by rintro rfl; cases blank
  have double : char ≠ '"' := by rintro rfl; cases blank
  have backslash : char ≠ '\\' := by rintro rfl; cases blank
  simp [Dialect.step, start, Dialect.splitting, blank, single, double, backslash]

theorem read_cons_none (step : dialect.step state char = some (none, next)) :
    read dialect state (char :: rest) = read dialect next rest := by
  rw [read_cons_of step]
  exact Option.map_id'

theorem step_opened {char : Char} (state : List Char → State)
    (outside : Dialect.splitting.step start char = some (none, state []))
    (inside : Dialect.splitting.step ⟨.plain, word⟩ char = some (none, state word)) :
    Dialect.splitting.step (if word = [] then start else ⟨.plain, word⟩) char = some (none, state word) := by
  split
  · rename_i empty
    rw [empty]
    exact outside
  · exact inside

/-- After what is taken out, the words have no more than what was begun and what is behind it. -/
theorem read_takenOut (out : IsTakenOut word char rest)
    (done : read .splitting (if word = [] then start else ⟨.plain, word⟩) (char :: rest) = some words) :
    totalWeight words ≤ weight word + weight rest := by
  rcases out with rfl | rfl | ⟨rfl, more⟩ | ⟨rfl, rfl⟩
  · rw [read_cons_none (step_opened (⟨.single, ·⟩) rfl rfl)] at done
    exact read_weight done
  · rw [read_cons_none (step_opened (⟨.double, ·⟩) rfl rfl)] at done
    exact read_weight done
  · have step : Dialect.splitting.step (if word = [] then start else ⟨.plain, word⟩) '\\' =
        some (none, if word = [] then ⟨.gapEscape, []⟩ else ⟨.escape, word⟩) := by
      split <;> rfl
    rw [read_cons_none step] at done
    cases rest with
    | nil => exact absurd rfl more
    | cons next rest =>
      have step' : Dialect.splitting.step (if word = [] then ⟨.gapEscape, []⟩ else ⟨.escape, word⟩) next =
          some (none, if next = '\n' then if word = [] then start else ⟨.plain, word⟩ else ⟨.plain, word ++ [next]⟩) := by
        by_cases empty : word = []
        · subst empty
          by_cases line : next = '\n' <;> simp [Dialect.step, start, line]
        · by_cases line : next = '\n' <;> simp [Dialect.step, empty, line]
      rw [read_cons_none step'] at done
      have bound := read_weight done
      split at bound
      · rw [weight_opened] at bound
        rw [weight_cons]
        omega
      · simp only [State.weight, weight_append, weight_cons, weight_nil] at bound
        rw [weight_cons]
        omega
  · have step : Dialect.splitting.step (if ([] : List Char) = [] then start else ⟨.plain, []⟩) '#' = some (none, ⟨.comment, []⟩) := rfl
    rw [read_cons_none step] at done
    exact read_weight done

theorem read_wordSplitter : WordSplitter (read .splitting start) where
  empty := rfl
  blank char rest blank := by
    exact read_cons_none (step_opened_blank blank []).2
  word word plain := read_plain_word plain
  first word char rest plain blank := by
    rw [read_opens (.inr plain), if_neg plain.filled, read_cons_of (step_opened_blank blank word).1]
    rfl
  backslash word opens := by
    rw [read_opens opens]
    split
    · rename_i empty
      rw [empty]
      rfl
    · rfl
  takesOut word char rest words opens out done := by
    rw [read_opens opens] at done
    have bound := read_takenOut out done
    have solid : isBlank char = false := by
      rcases out with rfl | rfl | ⟨rfl, _⟩ | ⟨rfl, _⟩ <;> rfl
    rw [weight_append, weight_cons, solid]
    exact Nat.lt_of_le_of_lt bound (by simp)

/-- A splitter of strings, by their characters. -/
def charwise (split : String → Option (List String)) (text : List Char) : Option (List (List Char)) :=
  (split (String.ofList text)).map (·.map String.toList)

theorem charwise_split (dialect : Dialect) : charwise (split dialect) = read dialect start := by
  funext text
  rw [charwise, split, String.toList_ofList, Option.map_map]
  simp [Function.comp_def]

end Read

end Collections.ShellWords
