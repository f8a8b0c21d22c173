import Veloce.Collections.LexicalPath
import Veloce.Collections.ShellWords
import Veloce.Handlers.Submission

/-! The worker's canonical form of a command: the binary and each argument are split as a shell
does, and words that name the binary again are dropped. -/

namespace Veloce

open Collections

/-- `Path::file_name`, or the whole text for a path that ends in no name. -/
def baseName (path : String) : String :=
  match ((Path.pieces path).rdropWhile Path.isTrivial).getLast? with
  | none => path
  | some last => if last = ".." then path else last

def splitWhitespace (text : String) : List String :=
  ((text.toList.splitOnP isWhitespace).filter (· ≠ [])).map String.ofList

section Canonical

variable (split : String → Option (List String))

/-- The words of a text, or its parts between blanks if it is no shell text. -/
def commandWords (text : String) : List String := (split text).getD (splitWhitespace text)

def isDuplicate (binPath firstWord : String) : Bool :=
  firstWord = binPath || firstWord = baseName binPath || baseName firstWord = baseName binPath

/-- What one argument adds to the new arguments. -/
def newArgsOf (binPath arg : String) : List String :=
  match commandWords split arg with
  | [] => []
  | firstWord :: rest => if isDuplicate binPath firstWord then rest else [arg]

def canonicalizeCommand (binary : String) (args : List String) : String × List String :=
  match commandWords split binary with
  | [] => (binary, args)
  | binPath :: binExtraArgs =>
    let newArgs := args.flatMap (newArgsOf split binPath)
    let matchesStart := binExtraArgs.isPrefixOf newArgs
    (binPath, binExtraArgs ++ if matchesStart then newArgs.drop binExtraArgs.length else newArgs)

/-- An argument with a first word that does not name the binary. -/
def isKept (binPath arg : String) : Bool :=
  match commandWords split arg with
  | [] => false
  | firstWord :: _ => !isDuplicate binPath firstWord

end Canonical

def slurmEnvExport : String :=
  "export SLURM_JOB_ID=\"$\x7bVELOCE_JOB_ID:-\x7d\" " ++
  "SLURM_ARRAY_JOB_ID=\"$\x7bVELOCE_ARRAY_JOB_ID:-\x7d\" " ++
  "SLURM_ARRAY_TASK_ID=\"$\x7bVELOCE_ARRAY_TASK_ID:-\x7d\" " ++
  "SLURM_NODELIST=\"$\x7bVELOCE_NODES:-\x7d\" " ++
  "SLURM_NNODES=\"$\x7bVELOCE_NODE_COUNT:-\x7d\" " ++
  "SLURM_PROCID=\"$\x7bVELOCE_RANK:-\x7d\"; exec \"$@\""

def wrapCommand (command : List String) : List String :=
  ["/bin/sh", "-c", slurmEnvExport, "slurm-env"] ++ command

/-- How the client takes a command line apart, `split_first`. -/
def splitFirst (command : List String) : Option (String × List String) :=
  match command with
  | [] => none
  | binary :: args => some (binary, args)

/-- No whitespace, quotes or backslashes. -/
def IsBare (text : String) : Prop :=
  ∀ char ∈ text.toList, isWhitespace char = false ∧ char ≠ '\'' ∧ char ≠ '"' ∧ char ≠ '\\'

instance (text : String) : Decidable (IsBare text) := List.decidableBAll _ text.toList

section Words

variable {split : String → Option (List String)} {text binPath arg : String}

theorem isBlank_isWhitespace {char : Char} (blank : ShellWords.isBlank char = true) : isWhitespace char = true := by
  simp only [ShellWords.isBlank, Bool.or_eq_true, decide_eq_true_eq] at blank
  rcases blank with (rfl | rfl) | rfl <;> decide

theorem IsBare.isPlain (bare : IsBare text) :
    ∀ char ∈ text.toList, ShellWords.Dialect.splitting.isPlain char = true := by
  intro char member
  obtain ⟨solid, single, double, backslash⟩ := bare char member
  have unbroken : ShellWords.isBlank char = false :=
    eq_false_of_ne_true fun blank => by rw [isBlank_isWhitespace blank] at solid; cases solid
  simp [ShellWords.Dialect.isPlain, ShellWords.Dialect.splitting, single, double, backslash, unbroken]

theorem IsBare.plain (bare : IsBare text) (filled : text.toList ≠ []) (comment : text.toList.head? ≠ some '#') :
    ShellWords.Dialect.splitting.Plain text.toList where
  filled := filled
  chars := bare.isPlain
  begun char first := ⟨fun same => comment (by rw [Option.mem_def.mp first, same]), rfl⟩

/-- A text without blanks and quotes is one word, or none if it is empty or a comment. -/
theorem IsBare.words (shell : ShellWords.Splitter split) (bare : IsBare text) :
    commandWords split text = [] ∨ commandWords split text = [text] := by
  rw [commandWords]
  by_cases filled : text.toList = []
  · left
    rw [String.toList_eq_nil_iff.mp filled, shell.empty, Option.getD_some]
  · by_cases comment : text.toList.head? = some '#'
    · left
      have line : '\n' ∉ text.toList := fun inside => by
        have solid := (bare _ inside).1
        exact absurd solid (by decide)
      rw [shell.comment text comment line, Option.getD_some]
    · right
      rw [shell.word text (bare.plain filled comment), Option.getD_some]

/-- The parts between blanks take no more than the text. -/
theorem splitOnP_size (chars : List Char) :
    (((chars.splitOnP isWhitespace).map fun piece => piece.length + 1).sum) = chars.length + 1 := by
  induction chars with
  | nil => rfl
  | cons char chars ih =>
    rw [List.splitOnP_cons_eq_if_modifyHead]
    split
    · rw [List.map_cons, List.sum_cons, ih, List.length_nil, List.length_cons]
      omega
    · cases pieces : chars.splitOnP isWhitespace with
      | nil => exact absurd pieces (List.splitOnP_ne_nil _ _)
      | cons first rest =>
        rw [pieces, List.map_cons, List.sum_cons] at ih
        rw [List.modifyHead_cons, List.map_cons, List.sum_cons, List.length_cons, List.length_cons]
        omega

theorem splitWhitespace_size : ShellWords.size (splitWhitespace text) ≤ text.toList.length + 1 := by
  rw [← splitOnP_size text.toList, ShellWords.size, splitWhitespace, List.map_map]
  have measure : ((fun word : String => word.toList.length + 1) ∘ String.ofList) = fun piece => piece.length + 1 := by
    funext piece
    rw [Function.comp_apply, String.toList_ofList]
  rw [measure]
  exact (List.filter_sublist.map _).sum_le_sum fun _ _ => Nat.zero_le _

theorem commandWords_size (shell : ShellWords.Splitter split) (text : String) :
    ShellWords.size (commandWords split text) ≤ text.toList.length + 1 := by
  rw [commandWords]
  cases found : split text with
  | none => exact splitWhitespace_size
  | some words => exact shell.size text words found

theorem commandWords_first (shell : ShellWords.Splitter split) {word rest : String}
    (plain : ShellWords.Dialect.splitting.Plain word.toList) (bare : IsBare word) :
    (commandWords split (word ++ " " ++ rest)).head? = some word := by
  rw [commandWords]
  cases found : split (word ++ " " ++ rest) with
  | some words => exact shell.first word rest words plain found
  | none =>
    have chars : (word ++ " " ++ rest).toList = word.toList ++ ' ' :: rest.toList := by
      rw [String.toList_append, String.toList_append, List.append_assoc]
      rfl
    rw [Option.getD_none, splitWhitespace, chars,
      List.splitOnP_append_cons_of_forall_mem (fun char member => (bare char member).1) ' ' (by decide),
      List.filter_cons_of_pos (by simpa using plain.filled), List.map_cons, List.head?_cons, String.ofList_toList]

end Words

section Kept

variable {split : String → Option (List String)} {binary binPath arg : String} {args extra : List String}

theorem newArgsOf_kept (kept : isKept split binPath arg = true) : newArgsOf split binPath arg = [arg] := by
  rw [isKept] at kept
  rw [newArgsOf]
  cases words : commandWords split arg with
  | nil => rw [words] at kept; cases kept
  | cons firstWord rest =>
    rw [words] at kept
    have other : isDuplicate binPath firstWord = false := by simpa using kept
    simp [other]

theorem newArgsOf_dropped (dropped : isKept split binPath arg = false) :
    newArgsOf split binPath arg = (commandWords split arg).tail := by
  rw [isKept] at dropped
  rw [newArgsOf]
  cases words : commandWords split arg with
  | nil => rfl
  | cons firstWord rest =>
    rw [words] at dropped
    have same : isDuplicate binPath firstWord = true := by simpa using dropped
    simp [same]

/-- What replaces a dropped argument is smaller. -/
theorem size_dropped (shell : ShellWords.Splitter split) (dropped : isKept split binPath arg = false) :
    ShellWords.size (newArgsOf split binPath arg) < arg.toList.length + 1 := by
  have whole := commandWords_size shell arg
  rw [newArgsOf_dropped dropped]
  cases words : commandWords split arg with
  | nil => exact Nat.succ_pos _
  | cons firstWord rest =>
    rw [words, ShellWords.size_cons] at whole
    rw [List.tail_cons]
    omega

theorem size_newArgs (shell : ShellWords.Splitter split) (binPath : String) (args : List String) :
    ShellWords.size (args.flatMap (newArgsOf split binPath)) ≤ ShellWords.size args := by
  induction args with
  | nil => exact Nat.le_refl _
  | cons arg args ih =>
    have first : ShellWords.size (newArgsOf split binPath arg) ≤ arg.toList.length + 1 := by
      cases kept : isKept split binPath arg with
      | true => rw [newArgsOf_kept kept, ShellWords.size_cons, ShellWords.size_nil, Nat.add_zero]
      | false => exact (size_dropped shell kept).le
    rw [List.flatMap_cons, ShellWords.size_append, ShellWords.size_cons]
    omega

/-- The arguments stay as they are if and only if each is kept: a dropped one makes them smaller. -/
theorem newArgs_eq_self_iff (shell : ShellWords.Splitter split) :
    args.flatMap (newArgsOf split binPath) = args ↔ ∀ arg ∈ args, isKept split binPath arg = true := by
  constructor
  · intro same arg member
    by_contra dropped
    have smaller := size_dropped shell (eq_false_of_ne_true dropped)
    obtain ⟨before, after, rfl⟩ := List.append_of_mem member
    have sizes := congrArg ShellWords.size same
    rw [List.flatMap_append, List.flatMap_cons, ShellWords.size_append, ShellWords.size_append,
      ShellWords.size_append, ShellWords.size_cons] at sizes
    have left := size_newArgs shell binPath before
    have right := size_newArgs shell binPath after
    omega
  · intro kept
    induction args with
    | nil => rfl
    | cons arg args ih =>
      rw [List.flatMap_cons, newArgsOf_kept (kept arg List.mem_cons_self),
        ih fun other member => kept other (List.mem_cons_of_mem _ member), List.singleton_append]

theorem canonicalizeCommand_nil (words : commandWords split binary = []) :
    canonicalizeCommand split binary args = (binary, args) := by
  rw [canonicalizeCommand, words]

theorem canonicalizeCommand_single (words : commandWords split binary = [binPath]) :
    canonicalizeCommand split binary args = (binPath, args.flatMap (newArgsOf split binPath)) := by
  rw [canonicalizeCommand, words]
  rfl

theorem canonicalizeCommand_fst (words : commandWords split binary = binPath :: extra) :
    (canonicalizeCommand split binary args).1 = binPath := by
  rw [canonicalizeCommand, words]

theorem mem_canonicalizeCommand (words : commandWords split binary = binPath :: extra) {word : String} :
    word ∈ (canonicalizeCommand split binary args).2 ↔
      word ∈ extra ∨ word ∈ args.flatMap (newArgsOf split binPath) := by
  simp only [canonicalizeCommand, words]
  rw [List.mem_append]
  split
  · rename_i begins
    obtain ⟨rest, whole⟩ := List.isPrefixOf_iff_prefix.mp begins
    rw [← whole, List.drop_left, List.mem_append, or_self_left]
  · exact Iff.rfl

/-- A command is its own canonical form if and only if the binary has no words, or is one word
and every argument is kept. -/
theorem canonicalizeCommand_eq_self_iff (shell : ShellWords.Splitter split) :
    canonicalizeCommand split binary args = (binary, args) ↔
      commandWords split binary = [] ∨
        (commandWords split binary = [binary] ∧ ∀ arg ∈ args, isKept split binary arg = true) := by
  cases words : commandWords split binary with
  | nil => exact ⟨fun _ => .inl rfl, fun _ => canonicalizeCommand_nil words⟩
  | cons binPath extra =>
    constructor
    · intro same
      obtain rfl : binPath = binary := (canonicalizeCommand_fst words).symm.trans (congrArg Prod.fst same)
      have bound := commandWords_size shell binPath
      rw [words, ShellWords.size_cons] at bound
      cases extra with
      | nil =>
        rw [canonicalizeCommand_single words, Prod.mk.injEq] at same
        exact .inr ⟨rfl, (newArgs_eq_self_iff shell).mp same.2⟩
      | cons word extra =>
        rw [ShellWords.size_cons] at bound
        omega
    · rintro (none | ⟨one, kept⟩)
      · cases none
      · rw [List.cons.injEq] at one
        obtain ⟨rfl, rfl⟩ := one
        rw [canonicalizeCommand_single words, (newArgs_eq_self_iff shell).mpr kept]

/-- Nothing that the first application leaves in the command would be dropped by a second one. -/
def Settles (split : String → Option (List String)) (binary : String) (args : List String) : Prop :=
  ∀ binPath extra, commandWords split binary = binPath :: extra →
    commandWords split binPath = [] ∨ (commandWords split binPath = [binPath] ∧
      (∀ word ∈ extra, isKept split binPath word = true) ∧
      ∀ arg ∈ args, isKept split binPath arg = false →
        ∀ word ∈ (commandWords split arg).tail, isKept split binPath word = true)

theorem mem_newArgs_kept_iff :
    (∀ word ∈ args.flatMap (newArgsOf split binPath), isKept split binPath word = true) ↔
      ∀ arg ∈ args, isKept split binPath arg = false →
        ∀ word ∈ (commandWords split arg).tail, isKept split binPath word = true := by
  constructor
  · intro kept arg member dropped word inside
    exact kept word (List.mem_flatMap.mpr ⟨arg, member, newArgsOf_dropped dropped ▸ inside⟩)
  · intro kept word inside
    obtain ⟨arg, member, found⟩ := List.mem_flatMap.mp inside
    cases state : isKept split binPath arg with
    | true =>
      rw [newArgsOf_kept state, List.mem_singleton] at found
      exact found ▸ state
    | false => exact kept arg member state word (newArgsOf_dropped state ▸ found)

theorem canonicalizeCommand_idempotent_iff (shell : ShellWords.Splitter split) :
    canonicalizeCommand split (canonicalizeCommand split binary args).1 (canonicalizeCommand split binary args).2 =
        canonicalizeCommand split binary args ↔ Settles split binary args := by
  cases words : commandWords split binary with
  | nil =>
    have settled : Settles split binary args := fun _ _ found => by rw [words] at found; cases found
    rw [canonicalizeCommand_nil words, canonicalizeCommand_nil words]
    exact ⟨fun _ => settled, fun _ => rfl⟩
  | cons binPath extra =>
    have kept : (∀ word ∈ (canonicalizeCommand split binary args).2, isKept split binPath word = true) ↔
        (∀ word ∈ extra, isKept split binPath word = true) ∧
          ∀ word ∈ args.flatMap (newArgsOf split binPath), isKept split binPath word = true := by
      simp only [mem_canonicalizeCommand words, or_imp, forall_and]
    have step := @canonicalizeCommand_eq_self_iff split (canonicalizeCommand split binary args).1
      (canonicalizeCommand split binary args).2 shell
    rw [canonicalizeCommand_fst words, kept, mem_newArgs_kept_iff] at step
    rw [canonicalizeCommand_fst words]
    have whole : (binPath, (canonicalizeCommand split binary args).2) = canonicalizeCommand split binary args :=
      Prod.ext (canonicalizeCommand_fst words).symm rfl
    rw [whole] at step
    rw [step]
    constructor
    · rintro settled path words' found
      rw [words, List.cons.injEq] at found
      obtain ⟨rfl, rfl⟩ := found
      exact settled
    · intro settled
      exact settled binPath extra words

end Kept

section Wrapped

variable {split : String → Option (List String)}

theorem isKept_of_head {binPath arg word : String} (found : (commandWords split arg).head? = some word)
    (other : isDuplicate binPath word = false) : isKept split binPath arg = true := by
  rw [isKept]
  cases words : commandWords split arg with
  | nil => rw [words] at found; cases found
  | cons firstWord rest =>
    rw [words, List.head?_cons, Option.some.injEq] at found
    simpa [found] using other

theorem regroup_append (head a b c d e f : String) :
    head ++ a ++ b ++ c ++ d ++ e ++ f = head ++ (a ++ b ++ c ++ d ++ e ++ f) := by
  simp only [String.append_assoc]

theorem slurmEnvExport_eq : ∃ rest, slurmEnvExport = "export" ++ " " ++ rest := by
  have first : "export SLURM_JOB_ID=\"$\x7bVELOCE_JOB_ID:-\x7d\" " =
      "export" ++ " " ++ "SLURM_JOB_ID=\"$\x7bVELOCE_JOB_ID:-\x7d\" " := by decide +kernel
  unfold slurmEnvExport
  rw [first, regroup_append]
  -- the head is hidden, or the unifier would compute with the text
  generalize "export" ++ " " = head
  exact ⟨_, rfl⟩

/-- The words that the wrapper adds are none that the worker drops. -/
theorem isKept_wrapper (shell : ShellWords.Splitter split) {arg : String}
    (member : arg ∈ ["-c", slurmEnvExport, "slurm-env"]) : isKept split "/bin/sh" arg = true := by
  have single (word : String) (plain : ShellWords.Dialect.splitting.Plain word.toList) :
      (commandWords split word).head? = some word := by
    rw [commandWords, shell.word word plain]
    rfl
  simp only [List.mem_cons, List.not_mem_nil, or_false] at member
  obtain rfl | rfl | rfl := member
  · exact isKept_of_head (single "-c" (by decide)) (by decide +kernel)
  · obtain ⟨rest, text⟩ := slurmEnvExport_eq
    rw [text]
    exact isKept_of_head (commandWords_first shell (by decide) (by decide)) (by decide +kernel)
  · exact isKept_of_head (single "slurm-env" (by decide)) (by decide +kernel)

/-- A bare binary keeps its arguments if and only if each has a first word that does not name
the binary again. -/
theorem IsBare.canonicalizeCommand_iff (shell : ShellWords.Splitter split) {binary : String} {args : List String}
    (bare : IsBare binary) : canonicalizeCommand split binary args = (binary, args) ↔
      commandWords split binary = [] ∨ ∀ arg ∈ args, isKept split binary arg = true := by
  rw [canonicalizeCommand_eq_self_iff shell]
  rcases bare.words shell with none | one
  · simp only [none, true_or]
  · simp only [one, true_and]

theorem canonicalizeCommand_wrapped_iff (shell : ShellWords.Splitter split) {command : List String} :
    (splitFirst (wrapCommand command)).map (fun line => canonicalizeCommand split line.1 line.2) =
      splitFirst (wrapCommand command) ↔ ∀ word ∈ command, isKept split "/bin/sh" word = true := by
  have wrapped : splitFirst (wrapCommand command) =
      some ("/bin/sh", ["-c", slurmEnvExport, "slurm-env"] ++ command) := rfl
  have bare : IsBare "/bin/sh" := by decide
  have word : commandWords split "/bin/sh" = ["/bin/sh"] := by
    rw [commandWords, shell.word _ (bare.plain (by decide) (by decide)), Option.getD_some]
  rw [wrapped, Option.map_some, Option.some.injEq, bare.canonicalizeCommand_iff shell, word]
  constructor
  · rintro (none | kept) arg member
    · cases none
    · exact kept arg (List.mem_append_right _ member)
  · intro kept
    refine .inr fun arg member => ?_
    rcases List.mem_append.mp member with wrapper | member
    · exact isKept_wrapper shell wrapper
    · exact kept arg member

end Wrapped

/-- A bare binary keeps its arguments if and only if each has a first word that does not name
the binary again; the form is stable if and only if that holds of what the first application
leaves; and a wrapped command reaches the process if and only if none of its words names the
shell and none is without words. -/
theorem command_unchanged_iff {split : String → Option (List String)} (shell : ShellWords.Splitter split) :
    (∀ binary args, IsBare binary → (canonicalizeCommand split binary args = (binary, args) ↔
      commandWords split binary = [] ∨ ∀ arg ∈ args, isKept split binary arg = true)) ∧
    (∀ binary args,
      canonicalizeCommand split (canonicalizeCommand split binary args).1 (canonicalizeCommand split binary args).2 =
        canonicalizeCommand split binary args ↔ Settles split binary args) ∧
    (∀ command, (splitFirst (wrapCommand command)).map (fun line => canonicalizeCommand split line.1 line.2) =
      splitFirst (wrapCommand command) ↔ ∀ word ∈ command, isKept split "/bin/sh" word = true) :=
  ⟨fun _ _ bare => bare.canonicalizeCommand_iff shell, fun _ _ => canonicalizeCommand_idempotent_iff shell,
    fun _ => canonicalizeCommand_wrapped_iff shell⟩

/-- With the shell's rules for words: `sleep 5` stays as it is. -/
theorem command_unchanged_iff_sleep :
    ShellWords.Splitter (ShellWords.split .splitting) ∧ IsBare "sleep" ∧
      (canonicalizeCommand (ShellWords.split .splitting) "sleep" ["5"] = ("sleep", ["5"]) ↔
        commandWords (ShellWords.split .splitting) "sleep" = [] ∨
          ∀ arg ∈ ["5"], isKept (ShellWords.split .splitting) "sleep" arg = true) :=
  ⟨ShellWords.split_splitter, by decide,
    (command_unchanged_iff ShellWords.split_splitter).1 "sleep" ["5"] (by decide)⟩

/-- An argument that is the binary's name is lost, a second application drops what the first
one has brought to light, and the wrapper loses the `sh` of `sh run.sh`. -/
theorem command_changed :
    (IsBare "echo" ∧ canonicalizeCommand (ShellWords.split .splitting) "echo" ["echo", "on"] = ("echo", ["on"])) ∧
    canonicalizeCommand (ShellWords.split .splitting) "echo" ["echo echo"] = ("echo", ["echo"]) ∧
    canonicalizeCommand (ShellWords.split .splitting) "echo" ["echo"] = ("echo", []) ∧
    (splitFirst (wrapCommand ["sh", "run.sh"])).map
        (fun line => canonicalizeCommand (ShellWords.split .splitting) line.1 line.2) ≠
      splitFirst (wrapCommand ["sh", "run.sh"]) := by
  refine ⟨by decide +kernel, by decide +kernel, by decide +kernel, fun same => ?_⟩
  have kept := (canonicalizeCommand_wrapped_iff ShellWords.split_splitter).mp same "sh" List.mem_cons_self
  exact absurd kept (by decide +kernel)

end Veloce
