import Veloce.Collections.LexicalPath
import Veloce.Collections.ShellQuoting
import Veloce.Common.Types
import Veloce.Worker.JobEnv
import Veloce.Worker.PmiReads

/-! The command line that runs a job in a container, and the words that the shell finds in it. -/

namespace Veloce

open Collections ShellWords

structure ApptainerRunner where
  manifest : SolverManifest
  jobScratch : String
  imagePath : String

def bindFlag (outside inside : String) : String := "--bind " ++ outside ++ ":" ++ inside ++ " "

def ApptainerRunner.buildCommand (runner : ApptainerRunner) (customArgs inputFile : String) (jobId : Nat)
    (pmixSocketDir : Option String) : String × List String :=
  let wrapper := trimWhitespace (runner.manifest.launchWrapper.getD "")
  let cmd := if wrapper = "" then "apptainer exec " else wrapper ++ " "
  let cmd := cmd ++ ("--pid --ipc --uts --hostname veloce-job-" ++ toString jobId ++ " ")
  let workingDir := runner.manifest.workingDir
  let cmd := cmd ++ bindFlag runner.jobScratch workingDir
  let cmd := cmd ++ ("--pwd " ++ workingDir ++ " ")
  let cmd := cmd ++ pmixSocketDir.elim "" fun socketDir => bindFlag socketDir socketDir
  let cmd := cmd ++ (Path.parent inputFile).elim "" fun parent =>
    if parent ≠ "" ∧ parent ≠ "/" then bindFlag parent parent else ""
  let cmd := cmd ++ runner.imagePath ++ " "
  let cmd := if inputFile ≠ "" then cmd ++ inputFile else cmd
  let cmd :=
    if customArgs ≠ "" then (if cmd.toList.getLast? = some ' ' then cmd else cmd ++ " ") ++ customArgs else cmd
  ("sh", ["-c", trimWhitespace cmd])

def ApptainerRunner.new (asset : ContainerAsset) (jobScratch imagePath : String) : ApptainerRunner where
  manifest := asset.manifest
  jobScratch := jobScratch
  imagePath := imagePath

/-- The command of a container job; `join` is `shell_words::join`. -/
def containerCommand (join : List String → String) (asset : ContainerAsset) (workingDirectory imagePath binary : String)
    (args : List String) (jobId : Nat) (pmixSocketDir : Option String) : String × List String :=
  (ApptainerRunner.new asset workingDirectory imagePath).buildCommand (join args) binary jobId pmixSocketDir

/-- What stands before the image. -/
def ApptainerRunner.options (runner : ApptainerRunner) (inputFile : String) (jobId : Nat)
    (pmixSocketDir : Option String) : String :=
  let wrapper := trimWhitespace (runner.manifest.launchWrapper.getD "")
  let workingDir := runner.manifest.workingDir
  (if wrapper = "" then "apptainer exec " else wrapper ++ " ") ++
    ("--pid --ipc --uts --hostname veloce-job-" ++ toString jobId ++ " ") ++ bindFlag runner.jobScratch workingDir ++
    ("--pwd " ++ workingDir ++ " ") ++ (pmixSocketDir.elim "" fun socketDir => bindFlag socketDir socketDir) ++
    (Path.parent inputFile).elim "" fun parent =>
      if parent ≠ "" ∧ parent ≠ "/" then bindFlag parent parent else ""

def commandBody (customArgs inputFile : String) : String :=
  inputFile ++ if customArgs = "" then "" else (if inputFile.toList.getLast? = some ' ' then "" else " ") ++ customArgs

theorem buildCommand_eq (runner : ApptainerRunner) (customArgs : String) {inputFile : String} (filled : inputFile ≠ "")
    (jobId : Nat) (pmixSocketDir : Option String) : runner.buildCommand customArgs inputFile jobId pmixSocketDir =
      ("sh", ["-c", trimWhitespace (runner.options inputFile jobId pmixSocketDir ++ runner.imagePath ++ " " ++
        commandBody customArgs inputFile)]) := by
  have last (front : String) : (front ++ inputFile).toList.getLast? = inputFile.toList.getLast? := by
    rw [String.toList_append, List.getLast?_append_of_ne_nil _ (mt String.toList_eq_nil_iff.mp filled)]
  simp only [ApptainerRunner.buildCommand, ApptainerRunner.options, commandBody, filled, ne_eq, not_false_eq_true,
    if_true, last]
  by_cases none : customArgs = ""
  · simp [none, String.append_assoc]
  · by_cases blank : inputFile.toList.getLast? = some ' '
    · simp [none, blank, String.append_assoc]
    · simp [none, blank, String.append_assoc]

section Options

variable {dialect : Dialect} {runner : ApptainerRunner} {binary path : String} {jobId : Nat}
  {pmixSocketDir : Option String}

theorem plainPhrase_bindFlag (shell : dialect.Shell) (plain : dialect.Plain path.toList) :
    dialect.PlainPhrase (bindFlag path path).toList := by
  have flag : dialect.Plain "--bind".toList := shell.plain_of_signs (by decide) (by decide)
  have colon : dialect.isPlain ':' = true :=
    (shell.plain_of_signs (List.cons_ne_nil ':' []) (by decide)).chars ':' List.mem_cons_self
  have pair : dialect.Plain (path.toList ++ ':' :: path.toList) :=
    plain.append (List.forall_mem_cons.mpr ⟨colon, plain.chars⟩)
  have whole := (flag.plainPhrase shell).append (pair.plainPhrase shell)
  have text : (bindFlag path path).toList =
      "--bind".toList ++ [' '] ++ (path.toList ++ ':' :: path.toList ++ [' ']) := by
    simp [bindFlag]
  rwa [text]

def ApptainerRunner.launch (runner : ApptainerRunner) (jobId : Nat) : String :=
  let wrapper := trimWhitespace (runner.manifest.launchWrapper.getD "")
  (if wrapper = "" then "apptainer exec " else wrapper ++ " ") ++
    ("--pid --ipc --uts --hostname veloce-job-" ++ toString jobId ++ " ") ++ "--bind "

/-- What stands between the first binding and the image. -/
def ApptainerRunner.places (runner : ApptainerRunner) (inputFile : String) (pmixSocketDir : Option String) : String :=
  ("--pwd " ++ runner.manifest.workingDir ++ " ") ++
    (pmixSocketDir.elim "" fun socketDir => bindFlag socketDir socketDir) ++
    (Path.parent inputFile).elim "" fun parent => if parent ≠ "" ∧ parent ≠ "/" then bindFlag parent parent else ""

theorem options_eq (runner : ApptainerRunner) (binary : String) (jobId : Nat) (pmixSocketDir : Option String) :
    (runner.options binary jobId pmixSocketDir).toList = (runner.launch jobId).toList ++
      (runner.jobScratch.toList ++ [':'] ++ runner.manifest.workingDir.toList ++ [' '] ++
        (runner.places binary pmixSocketDir).toList) := by
  simp [ApptainerRunner.options, ApptainerRunner.launch, ApptainerRunner.places, bindFlag]

theorem phrase_launch (shell : dialect.Shell) (jobId : Nat)
    (wrapper : dialect.PlainWords (trimWhitespace (runner.manifest.launchWrapper.getD "")).toList) :
    dialect.Phrase (runner.launch jobId).toList := by
  have words {text : List Char} (signs : ∀ word ∈ text.splitOn ' ', word ≠ [] ∧ word.all isSign = true) :
      dialect.Phrase (text ++ [' ']) :=
    phrase_of_plainWords shell fun word member => .inr (shell.plain_of_signs (signs word member).1 (signs word member).2)
  have first : dialect.Phrase ((if trimWhitespace (runner.manifest.launchWrapper.getD "") = "" then "apptainer exec "
      else trimWhitespace (runner.manifest.launchWrapper.getD "") ++ " ").toList) := by
    split
    · exact (words (by decide) : dialect.Phrase ("apptainer exec".toList ++ [' ']))
    · rw [String.toList_append]
      exact phrase_of_plainWords shell wrapper
  have flags : dialect.Phrase ("--pid --ipc --uts --hostname".toList ++ [' ']) := words (by decide)
  have host : dialect.Plain ("veloce-job-".toList ++ (toString jobId).toList) := by
    refine shell.plain_of_signs (by simp) (List.all_eq_true.mpr fun char member => ?_)
    rcases List.mem_append.mp member with fixed | digit
    · exact List.all_eq_true.mp (by decide : "veloce-job-".toList.all isSign = true) char fixed
    · rw [Nat.toString_eq_ofList_toDigits, String.toList_ofList] at digit
      have isDigit : char.isDigit := Nat.isDigit_of_mem_toDigits (by decide) (by decide) digit
      exact isSign_iff.mpr (.inl (by rw [Char.isAlphanum, isDigit, Bool.or_true]))
  have flag : dialect.Phrase ("--bind".toList ++ [' ']) := words (by decide)
  have whole := ((first.append flags).append (host.phrase shell)).append flag
  have text : (runner.launch jobId).toList = (if trimWhitespace (runner.manifest.launchWrapper.getD "") = "" then
      "apptainer exec " else trimWhitespace (runner.manifest.launchWrapper.getD "") ++ " ").toList ++
      ("--pid --ipc --uts --hostname".toList ++ [' ']) ++ ("veloce-job-".toList ++ (toString jobId).toList ++ [' ']) ++
      ("--bind".toList ++ [' ']) := by
    simp [ApptainerRunner.launch]
  rwa [text]

theorem places_blank (runner : ApptainerRunner) (binary : String) (pmixSocketDir : Option String) :
    ∃ front, (runner.places binary pmixSocketDir).toList = front ++ [' '] := by
  have bound (path : String) : ∃ front, (bindFlag path path).toList = front ++ [' '] :=
    ⟨("--bind " ++ path ++ ":" ++ path).toList, by simp [bindFlag]⟩
  have added {front : List Char} {last : String} (ends : ∃ text, last.toList = text ++ [' ']) :
      ∃ text, front ++ last.toList = text ++ [' '] := by
    obtain ⟨text, ends⟩ := ends
    exact ⟨front ++ text, by rw [ends, List.append_assoc]⟩
  have first : ∃ front, ("--pwd " ++ runner.manifest.workingDir ++ " " ++
      pmixSocketDir.elim "" fun socketDir => bindFlag socketDir socketDir).toList = front ++ [' '] := by
    cases pmixSocketDir with
    | none => exact ⟨("--pwd " ++ runner.manifest.workingDir).toList, by simp⟩
    | some socketDir =>
      rw [String.toList_append]
      exact added (bound socketDir)
  rw [ApptainerRunner.places, String.toList_append]
  cases Path.parent binary with
  | none => simpa using first
  | some parent =>
    by_cases named : parent ≠ "" ∧ parent ≠ "/"
    · rw [Option.elim_some, if_pos named]
      exact added (bound parent)
    · rw [Option.elim_some, if_neg named]
      simpa using first

/-- The directory of a binary is plain if the binary is, maybe apart from its last character. -/
theorem plain_of_parent {front last : List Char} {parent : String} (plain : dialect.Plain front)
    (text : binary.toList = front ++ last) (short : last.length ≤ 1) (found : Path.parent binary = some parent)
    (filled : parent ≠ "") (unrooted : parent ≠ "/") : dialect.Plain parent.toList := by
  obtain ⟨rest, whole⟩ := Path.eq_append_of_parent found filled fun _ => unrooted
  have begins : parent.toList <+: front := by
    have parts : binary.toList = parent.toList ++ ('/' :: rest.toList) := by
      rw [whole]
      simp
    have starts : parent.toList <+: binary.toList := parts ▸ List.prefix_append ..
    have fronts : front <+: binary.toList := text ▸ List.prefix_append ..
    refine List.prefix_of_prefix_length_le starts fronts ?_
    have lengths := congrArg List.length (text.symm.trans parts)
    rw [List.length_append, List.length_append, List.length_cons] at lengths
    omega
  obtain ⟨more, rfl⟩ := begins
  have nonempty : parent.toList ≠ [] := mt String.toList_eq_nil_iff.mp filled
  refine ⟨nonempty, fun char member => plain.chars char (List.mem_append_left _ member), fun char first => ?_⟩
  exact plain.begun char (by rwa [List.head?_append_of_ne_nil _ nonempty])

theorem plainPhrase_places (shell : dialect.Shell) (workingDir : dialect.Plain runner.manifest.workingDir.toList)
    (socketDir : ∀ dir ∈ pmixSocketDir, dialect.Plain dir.toList)
    (parent : ∀ above, Path.parent binary = some above → above ≠ "" → above ≠ "/" → dialect.Plain above.toList) :
    dialect.PlainPhrase (runner.places binary pmixSocketDir).toList := by
  have flag : dialect.Plain "--pwd".toList := shell.plain_of_signs (by decide) (by decide)
  have directory := (flag.plainPhrase shell).append (workingDir.plainPhrase shell)
  have socket : dialect.PlainPhrase (pmixSocketDir.elim "" fun dir => bindFlag dir dir).toList := by
    cases pmixSocketDir with
    | none => exact Dialect.PlainPhrase.nil
    | some dir => exact plainPhrase_bindFlag shell (socketDir dir rfl)
  have above : dialect.PlainPhrase ((Path.parent binary).elim "" fun parent =>
      if parent ≠ "" ∧ parent ≠ "/" then bindFlag parent parent else "").toList := by
    cases found : Path.parent binary with
    | none => exact Dialect.PlainPhrase.nil
    | some dir =>
      by_cases named : dir ≠ "" ∧ dir ≠ "/"
      · rw [Option.elim_some, if_pos named]
        exact plainPhrase_bindFlag shell (parent dir found named.1 named.2)
      · rw [Option.elim_some, if_neg named]
        exact Dialect.PlainPhrase.nil
  have whole := (directory.append socket).append above
  have text : (runner.places binary pmixSocketDir).toList = "--pwd".toList ++ [' '] ++
      (runner.manifest.workingDir.toList ++ [' ']) ++ (pmixSocketDir.elim "" fun dir => bindFlag dir dir).toList ++
      ((Path.parent binary).elim "" fun parent =>
        if parent ≠ "" ∧ parent ≠ "/" then bindFlag parent parent else "").toList := by
    simp [ApptainerRunner.places]
  rwa [text]

/-- With plain texts around it, the options are whole words if and only if the scratch
directory leaves the shell in an unquoted word. -/
theorem phrase_options_iff (shell : dialect.Shell) (jobId : Nat)
    (wrapper : dialect.PlainWords (trimWhitespace (runner.manifest.launchWrapper.getD "")).toList)
    (workingDir : dialect.Plain runner.manifest.workingDir.toList)
    (places : dialect.PlainPhrase (runner.places binary pmixSocketDir).toList) :
    dialect.Phrase (runner.options binary jobId pmixSocketDir).toList ↔
      dialect.isClosed runner.jobScratch.toList = true := by
  obtain ⟨words, launched⟩ := phrase_launch shell jobId wrapper
  rw [options_eq]
  constructor
  · rintro ⟨all, done⟩
    rw [scan_append_of launched] at done
    obtain ⟨⟨_, last⟩, later, whole⟩ := Option.map_eq_some_iff.mp done
    obtain rfl : last = start := (Prod.mk.inj whole).2
    rw [List.append_assoc, List.append_assoc] at later
    refine closed_of_phrase shell (fun char member => ?_) later
    rcases List.mem_append.mp member with directory | rest
    · exact .inl (workingDir.chars char directory)
    · rcases List.mem_append.mp rest with blank | rest
      · exact .inr (List.mem_singleton.mp blank)
      · exact places.quiet char rest
  · intro closed
    exact Dialect.Phrase.append ⟨words, launched⟩ ((phrase_of_closed shell closed workingDir.chars).append places.phrase)

end Options

section Trim

variable {front back text : List Char}

theorem rdropWhile_append (front back : List Char) : (front ++ back).rdropWhile isWhitespace =
    if back.rdropWhile isWhitespace = [] then front.rdropWhile isWhitespace
    else front ++ back.rdropWhile isWhitespace := by
  simp only [List.rdropWhile, List.reverse_append, List.dropWhile_append, List.isEmpty_iff, List.reverse_eq_nil_iff]
  split
  · rfl
  · rw [List.reverse_append, List.reverse_reverse]

theorem rdropWhile_length (text : List Char) : (text.rdropWhile isWhitespace).length ≤ text.length :=
  (List.rdropWhile_prefix ..).length_le

/-- A trim changes nothing before a text that it leaves something of. -/
theorem trimWhitespace_keeps (solid : ∃ char rest, front = char :: rest ∧ isWhitespace char = false)
    (kept : back.rdropWhile isWhitespace ≠ []) :
    trimWhitespace (String.ofList (front ++ back)) = String.ofList (front ++ back.rdropWhile isWhitespace) := by
  obtain ⟨char, rest, rfl, solid⟩ := solid
  rw [trimWhitespace_ofList, List.cons_append, List.dropWhile_cons_of_neg (by rw [solid]; exact Bool.false_ne_true),
    ← List.cons_append, rdropWhile_append, if_neg kept]

theorem head_trimWhitespace {text : String} (filled : trimWhitespace text ≠ "") :
    ∃ char rest, (trimWhitespace text).toList = char :: rest ∧ isWhitespace char = false := by
  obtain ⟨chars, rfl⟩ : ∃ chars, text = String.ofList chars := ⟨text.toList, String.ofList_toList.symm⟩
  rw [trimWhitespace_ofList] at filled ⊢
  rw [String.toList_ofList]
  rw [Ne, ← String.ofList_nil, String.ofList_inj] at filled
  obtain ⟨rest, whole⟩ := List.rdropWhile_prefix isWhitespace (chars.dropWhile isWhitespace)
  cases kept : (chars.dropWhile isWhitespace).rdropWhile isWhitespace with
  | nil => exact absurd kept filled
  | cons char more =>
    rw [kept] at whole
    have first : chars.dropWhile isWhitespace = char :: (more ++ rest) := whole.symm
    have solid := List.head_dropWhile_not isWhitespace (l := chars) (by rw [first]; exact List.cons_ne_nil _ _)
    simp only [first, List.head_cons] at solid
    exact ⟨char, more, rfl, solid⟩

theorem head_options (runner : ApptainerRunner) (binary : String) (jobId : Nat) (pmixSocketDir : Option String) :
    ∃ char rest, (runner.options binary jobId pmixSocketDir).toList = char :: rest ∧ isWhitespace char = false := by
  rw [options_eq, ApptainerRunner.launch]
  by_cases none : trimWhitespace (runner.manifest.launchWrapper.getD "") = ""
  · exact ⟨'a', _, by simp [none]; rfl, by decide⟩
  · obtain ⟨char, rest, text, solid⟩ := head_trimWhitespace none
    exact ⟨char, _, by simp [none, text]; rfl, solid⟩

end Trim

def trimEnd (text : String) : String := String.ofList (text.toList.rdropWhile isWhitespace)

def shellWords (dialect : Dialect) (command : String × List String) : Option (List String) :=
  match command with
  | ("sh", ["-c", line]) => split dialect line
  | _ => none

/-- One command, of which the last words are the image, the binary and the arguments. -/
def Runs (dialect : Dialect) (command : String × List String) (imagePath binary : String) (args : List String) : Prop :=
  ∃ words, shellWords dialect command = some words ∧ imagePath :: binary :: args <:+ words

section Runs

variable {dialect : Dialect} {runner : ApptainerRunner} {customArgs binary : String} {args : List String} {jobId : Nat}
  {pmixSocketDir : Option String}

theorem split_eq_some_iff {line : String} {words : List String} :
    split dialect line = some words ↔ read dialect start line.toList = some (words.map String.toList) := by
  rw [split, Option.map_eq_some_iff]
  constructor
  · rintro ⟨chars, found, rfl⟩
    rw [found, List.map_map]
    simp [Function.comp_def]
  · intro found
    exact ⟨_, found, by simp [Function.comp_def]⟩

theorem trimEnd_toList (text : String) : (trimEnd text).toList = text.toList.rdropWhile isWhitespace := by
  rw [trimEnd, String.toList_ofList]

theorem suffix_map_toList {words others : List String} (ends : words <:+ others) :
    words.map String.toList <:+ others.map String.toList := by
  obtain ⟨front, rfl⟩ := ends
  exact ⟨front.map String.toList, List.map_append.symm⟩

theorem rdropWhile_blank (back : List Char) : (' ' :: back).rdropWhile isWhitespace =
    if back.rdropWhile isWhitespace = [] then [] else ' ' :: back.rdropWhile isWhitespace := by
  have blank : [' '].rdropWhile isWhitespace = [] := by decide
  rw [← List.singleton_append, rdropWhile_append, blank]
  rfl

/-- The line of a command, for an image that ends in no white space or with something after it. -/
theorem runs_iff_read (runner : ApptainerRunner) (imagePath : String) (filled : binary ≠ "")
    (kept : (∃ front char, imagePath.toList = front ++ [char] ∧ isWhitespace char = false) ∨
      (commandBody customArgs binary).toList.rdropWhile isWhitespace ≠ []) :
    Runs dialect (ApptainerRunner.buildCommand { runner with imagePath } customArgs binary jobId pmixSocketDir)
        imagePath binary args ↔
      ∃ words, split dialect (String.ofList ((runner.options binary jobId pmixSocketDir).toList ++ imagePath.toList ++
        (' ' :: (commandBody customArgs binary).toList).rdropWhile isWhitespace)) = some words ∧
          imagePath :: binary :: args <:+ words := by
  obtain ⟨char, rest, first, solid⟩ := head_options runner binary jobId pmixSocketDir
  have line : runner.options binary jobId pmixSocketDir ++ imagePath ++ " " ++ commandBody customArgs binary =
      String.ofList ((runner.options binary jobId pmixSocketDir).toList ++ imagePath.toList ++
        ' ' :: (commandBody customArgs binary).toList) := by
    apply String.toList_inj.mp
    simp
  have trimmed : trimWhitespace (runner.options binary jobId pmixSocketDir ++ imagePath ++ " " ++
      commandBody customArgs binary) = String.ofList ((runner.options binary jobId pmixSocketDir).toList ++
        imagePath.toList ++ (' ' :: (commandBody customArgs binary).toList).rdropWhile isWhitespace) := by
    rw [line, first]
    by_cases back : (' ' :: (commandBody customArgs binary).toList).rdropWhile isWhitespace = []
    · rcases kept with ⟨front, last, image, dark⟩ | kept
      · have ended : ([last] ++ ' ' :: (commandBody customArgs binary).toList).rdropWhile isWhitespace = [last] := by
          rw [rdropWhile_append, if_pos back, List.rdropWhile, List.reverse_singleton,
            List.dropWhile_cons_of_neg (by rw [dark]; exact Bool.false_ne_true), List.reverse_singleton]
        have begun : ∃ head tail, char :: (rest ++ front) = head :: tail ∧ isWhitespace head = false :=
          ⟨char, _, rfl, solid⟩
        have keeps := trimWhitespace_keeps begun (by rw [ended]; exact List.cons_ne_nil _ _)
        rw [ended] at keeps
        rw [back, image, List.append_nil]
        simpa [List.append_assoc] using keeps
      · rw [rdropWhile_blank, if_neg kept] at back
        exact absurd back (List.cons_ne_nil _ _)
    · rw [List.cons_append]
      exact trimWhitespace_keeps ⟨char, _, rfl, solid⟩ back
  have command : ApptainerRunner.buildCommand { runner with imagePath } customArgs binary jobId pmixSocketDir =
      ("sh", ["-c", trimWhitespace (runner.options binary jobId pmixSocketDir ++ imagePath ++ " " ++
        commandBody customArgs binary)]) := buildCommand_eq _ _ filled _ _
  rw [Runs, command, trimmed]
  rfl

/-- The command runs every image if and only if the options are whole words and what follows
the image is read as the binary and the arguments. -/
theorem runs_iff (shell : dialect.Shell) (runner : ApptainerRunner) (customArgs : String) (filled : binary ≠ "") :
    (∀ imagePath, dialect.Plain imagePath.toList →
      Runs dialect (ApptainerRunner.buildCommand { runner with imagePath } customArgs binary jobId pmixSocketDir)
        imagePath binary args) ↔
      dialect.Phrase (runner.options binary jobId pmixSocketDir).toList ∧
        split dialect (trimEnd (commandBody customArgs binary)) = some (binary :: args) := by
  rw [split_eq_some_iff, trimEnd_toList]
  constructor
  · intro runs
    have letter (char : Char) (letter : char.isAlphanum = true) (solid : isWhitespace char = false) :
        ∃ words, read dialect start ((runner.options binary jobId pmixSocketDir).toList ++ [char] ++
            (' ' :: (commandBody customArgs binary).toList).rdropWhile isWhitespace) = some words ∧
          [char] :: (binary :: args).map String.toList <:+ words := by
      have text : (String.ofList [char]).toList = [char] := String.toList_ofList
      have plain : dialect.Plain (String.ofList [char]).toList := by
        rw [text]
        exact shell.plain_of_signs (List.cons_ne_nil _ _) (by simp [isSign, letter])
      obtain ⟨words, found, ends⟩ := (runs_iff_read runner _ filled (.inl ⟨[], char, text, solid⟩)).mp (runs _ plain)
      rw [split_eq_some_iff, String.toList_ofList, text] at found
      refine ⟨_, found, ?_⟩
      have mapped := suffix_map_toList ends
      rwa [List.map_cons, text] at mapped
    obtain ⟨front, blank⟩ : ∃ front, (runner.options binary jobId pmixSocketDir).toList = front ++ [' '] := by
      obtain ⟨front, ends⟩ := places_blank runner binary pmixSocketDir
      rw [options_eq, ends, ← List.append_assoc, ← List.append_assoc]
      exact ⟨_, rfl⟩
    have first := letter 'i' (by decide) (by decide)
    have second := letter 'j' (by decide) (by decide)
    rw [blank] at first second ⊢
    obtain ⟨phrase, rest⟩ := between_words shell (by decide) (by decide) (by decide) first second
    refine ⟨phrase, ?_⟩
    rw [rdropWhile_blank] at rest
    split at rest
    · cases rest
    · rw [read_cons_of (step_plain_blank (shell.free ' ' (by decide)).1)] at rest
      obtain ⟨words, found, whole⟩ := Option.map_eq_some_iff.mp rest
      rwa [← (List.cons.inj whole).2]
  · rintro ⟨⟨words, phrase⟩, found⟩ imagePath plain
    have kept : (commandBody customArgs binary).toList.rdropWhile isWhitespace ≠ [] := by
      intro none
      rw [none] at found
      cases found
    rw [runs_iff_read runner imagePath filled (.inr kept)]
    refine ⟨(words.map String.ofList) ++ imagePath :: binary :: args, ?_, List.suffix_append ..⟩
    rw [split_eq_some_iff, String.toList_ofList, rdropWhile_blank, if_neg kept, List.append_assoc, read_append_of phrase,
      read_plain_then plain (shell.free ' ' (by decide)).1, found]
    simp [Function.comp_def]

end Runs

/-- What `shell_words::join` promises of no arguments and of one that needs no quotes. -/
structure Joins (join : List String → String) : Prop where
  empty : join [] = ""
  word : ∀ word, word ≠ "" → (∀ char ∈ word.toList, char.isAlphanum = true) → join [word] = word

section Argv

variable {dialect : Dialect} {binary : String} {words : List String}

/-- A text that is read as words takes all of them: one that has a word as long as itself has
no other. -/
theorem split_size {line : String} (found : split dialect line = some words) : size words ≤ line.toList.length + 1 := by
  rw [split_eq_some_iff] at found
  have bound := read_size found
  simpa [size, State.held, start, Function.comp_def] using bound

theorem trimEnd_length (text : String) : (trimEnd text).toList.length ≤ text.toList.length := by
  rw [trimEnd_toList]
  exact rdropWhile_length _

/-- What is left of a binary at the end of the line can only be read as the binary if nothing
has been taken from it. -/
theorem trimEnd_eq_self {args : List String} (found : split dialect (trimEnd binary) = some (binary :: args)) :
    trimEnd binary = binary ∧ args = [] := by
  have bound := split_size found
  have short := trimEnd_length binary
  rw [size_cons] at bound
  have none : args = [] := by
    cases args with
    | nil => rfl
    | cons arg args =>
      rw [size_cons] at bound
      omega
  refine ⟨?_, none⟩
  apply String.toList_inj.mp
  have begins : (trimEnd binary).toList <+: binary.toList := by
    rw [trimEnd_toList]
    exact List.rdropWhile_prefix ..
  exact begins.eq_of_length (by rw [none, size_nil] at bound; omega)

theorem commandBody_empty (binary : String) : commandBody "" binary = binary := by
  rw [commandBody, if_pos rfl, String.append_empty]

theorem commandBody_filled {customArgs : String} (filled : customArgs ≠ "")
    (solid : binary.toList.getLast? ≠ some ' ') : commandBody customArgs binary = binary ++ " " ++ customArgs := by
  rw [commandBody, if_neg filled, if_neg solid, String.append_assoc]

theorem getLast_of_plain (plain : dialect.Plain binary.toList) : binary.toList.getLast? ≠ some ' ' := by
  intro last
  have member := List.mem_of_getLast? last
  exact absurd (isPlain_iff.mp (plain.chars ' ' member)).2.2.2.2 (by decide)

/-- What follows the image is the binary and the arguments if and only if the trim of the line
leaves the arguments, or the binary if there are none. -/
theorem split_commandBody_iff (shell : dialect.Shell) {join : List String → String} (joins : Joins join)
    (plain : dialect.Plain binary.toList) {args : List String} (inverts : split dialect (join args) = some args) :
    split dialect (trimEnd (commandBody (join args) binary)) = some (binary :: args) ↔
      split dialect (trimEnd (join args)) = some args ∧ (args = [] → trimEnd binary = binary) := by
  have itself : split dialect binary = some [binary] := by
    rw [split_eq_some_iff, read_plain_word plain]
    rfl
  cases args with
  | nil =>
    have nothing : trimEnd "" = "" := rfl
    rw [joins.empty] at inverts ⊢
    rw [commandBody_empty, nothing, inverts]
    constructor
    · intro found
      exact ⟨rfl, fun _ => (trimEnd_eq_self found).1⟩
    · rintro ⟨-, kept⟩
      rw [kept rfl, itself]
  | cons arg args =>
    have filled : join (arg :: args) ≠ "" := by
      intro empty
      rw [empty] at inverts
      cases inverts
    have cut : (trimEnd (binary ++ " " ++ join (arg :: args))).toList =
        if (trimEnd (join (arg :: args))).toList = [] then (trimEnd binary).toList
        else binary.toList ++ ' ' :: (trimEnd (join (arg :: args))).toList := by
      have text : (binary ++ " " ++ join (arg :: args)).toList =
          binary.toList ++ ' ' :: (join (arg :: args)).toList := by simp
      simp only [trimEnd_toList, text]
      rw [rdropWhile_append, rdropWhile_blank]
      by_cases none : (join (arg :: args)).toList.rdropWhile isWhitespace = []
      · rw [if_pos none, if_pos rfl, if_pos none]
      · rw [if_neg none, if_neg (List.cons_ne_nil _ _), if_neg none]
    rw [commandBody_filled filled (getLast_of_plain plain)]
    by_cases none : (trimEnd (join (arg :: args))).toList = []
    · -- white space alone: nothing is left of the arguments
      rw [if_pos none, String.toList_inj] at cut
      rw [cut, String.toList_eq_nil_iff.mp none]
      constructor
      · intro found
        cases (trimEnd_eq_self found).2
      · rintro ⟨found, -⟩
        cases found
    · rw [if_neg none] at cut
      rw [split_eq_some_iff, cut, read_plain_then plain (shell.free ' ' (by decide)).1, Option.map_eq_some_iff]
      constructor
      · rintro ⟨words, found, whole⟩
        obtain rfl := (List.cons.inj whole).2
        exact ⟨split_eq_some_iff.mpr found, fun same => absurd same (List.cons_ne_nil _ _)⟩
      · rintro ⟨found, -⟩
        exact ⟨_, split_eq_some_iff.mp found, rfl⟩

/-- A binary that ends in a backslash takes the next argument into its word. -/
theorem split_backslash {front : List Char} (shell : dialect.Shell) (text : binary.toList = front ++ ['\\'])
    (plain : front = [] ∨ dialect.Plain front) : split dialect (binary ++ " " ++ "x") ≠ some [binary, "x"] := by
  have letter : ∀ char ∈ ['x'], dialect.isPlain char = true :=
    (shell.plain_of_signs (List.cons_ne_nil 'x' []) (by decide)).chars
  have escaped : (binary ++ " " ++ "x").toList = front ++ '\\' :: ' ' :: ['x'] := by simp [text]
  have ended {word : List Char} : read dialect ⟨.plain, word⟩ ['x'] = some [word ++ ['x']] := by
    have done : read dialect ⟨.plain, word⟩ (['x'] ++ []) = _ := read_append_of (scan_plain letter)
    rwa [List.append_nil] at done
  rw [Ne, split_eq_some_iff, escaped]
  have one : ∃ word, read dialect start (front ++ '\\' :: ' ' :: ['x']) = some [word] := by
    rcases plain with rfl | plain
    · have step : dialect.step start '\\' = some (none, ⟨.gapEscape, []⟩) := by simp [Dialect.step, start]
      have step' : dialect.step ⟨.gapEscape, []⟩ ' ' = some (none, ⟨.plain, [' ']⟩) := by simp [Dialect.step]
      exact ⟨_, by rw [List.nil_append, read_cons_of step, read_cons_of step', ended]; rfl⟩
    · have step : dialect.step ⟨.plain, front⟩ '\\' = some (none, ⟨.escape, front⟩) := by simp [Dialect.step]
      have step' : dialect.step ⟨.escape, front⟩ ' ' = some (none, ⟨.plain, front ++ [' ']⟩) := by simp [Dialect.step]
      exact ⟨_, by rw [read_append_of (scan_start_plain plain), read_cons_of step, read_cons_of step', ended]; rfl⟩
  obtain ⟨word, one⟩ := one
  rw [one]
  simp

end Argv

/-- The texts that a command is built from besides the scratch directory, the binary and the
arguments: plain words. -/
structure PlainTexts (dialect : Dialect) (manifest : SolverManifest) (pmixSocketDir : Option String) : Prop where
  wrapper : dialect.PlainWords (trimWhitespace (manifest.launchWrapper.getD "")).toList
  workingDir : dialect.Plain manifest.workingDir.toList
  socketDir : ∀ dir ∈ pmixSocketDir, dialect.Plain dir.toList

/-- A scratch directory and a binary run with every image and all arguments that the trim of the
line leaves if and only if the one leaves the shell in an unquoted word and the other is a plain
word that ends in no white space; and then the arguments arrive if and only if the trim leaves
them, or the binary if there are none. -/
theorem container_argv_iff {dialect : Dialect} (shell : dialect.Shell) {join : List String → String} (joins : Joins join)
    {asset : ContainerAsset} {pmixSocketDir : Option String} (texts : PlainTexts dialect asset.manifest pmixSocketDir)
    (jobId : Nat) (scratch : String) {binary : String} (filled : binary ≠ "") :
    ((∀ args, split dialect (join args) = some args → split dialect (trimEnd (join args)) = some args →
        ∀ imagePath, dialect.Plain imagePath.toList →
          Runs dialect (containerCommand join asset scratch imagePath binary args jobId pmixSocketDir) imagePath binary args) ↔
      dialect.isClosed scratch.toList = true ∧ dialect.Plain binary.toList ∧ trimEnd binary = binary) ∧
    (dialect.isClosed scratch.toList = true → dialect.Plain binary.toList →
      ∀ args, split dialect (join args) = some args →
        ((∀ imagePath, dialect.Plain imagePath.toList →
          Runs dialect (containerCommand join asset scratch imagePath binary args jobId pmixSocketDir) imagePath binary args) ↔
          split dialect (trimEnd (join args)) = some args ∧ (args = [] → trimEnd binary = binary))) := by
  have places {front last : List Char} (plain : dialect.Plain front) (text : binary.toList = front ++ last)
      (short : last.length ≤ 1) :
      dialect.PlainPhrase ((ApptainerRunner.new asset scratch "").places binary pmixSocketDir).toList :=
    plainPhrase_places shell texts.workingDir texts.socketDir
      fun _ found named unrooted => plain_of_parent plain text short found named unrooted
  have options {front last : List Char} (plain : dialect.Plain front) (text : binary.toList = front ++ last)
      (short : last.length ≤ 1) : dialect.Phrase ((ApptainerRunner.new asset scratch "").options binary jobId pmixSocketDir).toList ↔
        dialect.isClosed scratch.toList = true :=
    phrase_options_iff shell jobId texts.wrapper texts.workingDir (places plain text short)
  have runs (args : List String) : (∀ imagePath, dialect.Plain imagePath.toList →
      Runs dialect (containerCommand join asset scratch imagePath binary args jobId pmixSocketDir) imagePath binary args) ↔
      dialect.Phrase ((ApptainerRunner.new asset scratch "").options binary jobId pmixSocketDir).toList ∧
        split dialect (trimEnd (commandBody (join args) binary)) = some (binary :: args) :=
    runs_iff shell (ApptainerRunner.new asset scratch "") (join args) filled
  have second (closed : dialect.isClosed scratch.toList = true) (plain : dialect.Plain binary.toList)
      (args : List String) (inverts : split dialect (join args) = some args) :=
    (runs args).trans ((and_iff_right ((options plain (List.append_nil _).symm (Nat.zero_le _)).mpr closed)).trans
      (split_commandBody_iff shell joins plain inverts))
  refine ⟨⟨fun every => ?_, fun ⟨closed, plain, kept⟩ args inverts left => ?_⟩, second⟩
  · obtain ⟨phrase, found⟩ := (runs []).mp (every [] (by rw [joins.empty]; rfl) (by rw [joins.empty]; rfl))
    rw [joins.empty, commandBody_empty] at found
    have kept := (trimEnd_eq_self found).1
    rw [kept, split_eq_some_iff] at found
    have plain : dialect.Plain binary.toList := by
      rcases plain_of_read_self found with plain | ⟨front, text, plain⟩
      · exact plain
      · have word : join ["x"] = "x" := joins.word "x" (by decide) (List.all_eq_true.mp (by decide))
        have read : split dialect "x" = some ["x"] := by
          rw [split_eq_some_iff, read_plain_word (shell.plain_of_signs (by decide) (by decide))]
          rfl
        have other := ((runs ["x"]).mp (every ["x"] (by rw [word, read]) (by rw [word]; exact read))).2
        have solid : binary.toList.getLast? ≠ some ' ' := by
          rw [text, List.getLast?_concat]
          decide
        have trimmed : trimEnd (binary ++ " " ++ "x") = binary ++ " " ++ "x" := by
          apply String.toList_inj.mp
          rw [trimEnd_toList, String.toList_append, rdropWhile_append]
          rfl
        rw [word, commandBody_filled (by decide) solid, trimmed] at other
        exact absurd other (split_backslash shell text plain)
    exact ⟨(options plain (List.append_nil _).symm (Nat.zero_le _)).mp phrase, plain, kept⟩
  · exact (second closed plain args inverts).mpr ⟨left, fun _ => kept⟩

def quoteWord (word : String) : String :=
  if word ≠ "" && word.toList.all fun char => char.isAlphanum || char ∈ ['-', '.', '/', ':', '_'] then word
  else "'" ++ replaceAll word "'" "'\\''" ++ "'"

def joinWords (words : List String) : String := String.intercalate " " (words.map quoteWord)

theorem joins_joinWords : Joins joinWords where
  empty := rfl
  word word filled letters := by
    have quoted : quoteWord word = word := by
      refine if_pos ?_
      rw [Bool.and_eq_true, List.all_eq_true]
      exact ⟨decide_eq_true filled, fun char member => by rw [letters char member, Bool.true_or]⟩
    rw [joinWords, List.map_singleton, quoted, String.intercalate_singleton]

/-- A solver with a launch wrapper. -/
def fluent : ContainerAsset where
  id := "test"
  name := "test"
  imageUri := "s3://test"
  manifest :=
    { entrypoint := "/opt/fluent", launchWrapper := some "apptainer exec --nv", commandTemplate := "",
      environmentVars := [], workingDir := "/scratch", outputCollection := [], vncEnabled := false }

example : (ApptainerRunner.new fluent "/local/job123" "/images/fluent.sif").buildCommand "-g" "case.cas" 123 none =
    ("sh", ["-c", "apptainer exec --nv --pid --ipc --uts --hostname veloce-job-123 " ++
      "--bind /local/job123:/scratch --pwd /scratch /images/fluent.sif case.cas -g"]) := by
  rw [buildCommand_eq _ _ (by decide)]
  simp only [trimWhitespace, String.toList_append, options_eq, ApptainerRunner.launch, ApptainerRunner.places, commandBody]
  decide +kernel

theorem plainTexts_fluent : PlainTexts Dialect.posix fluent.manifest none where
  wrapper := by decide +kernel
  workingDir := by decide
  socketDir _ none := nomatch none

theorem container_argv_iff_fluent :
    Runs Dialect.posix (containerCommand joinWords fluent "/local/job123" "/images/fluent.sif" "case.cas" ["a b"] 123 none)
      "/images/fluent.sif" "case.cas" ["a b"] :=
  ((container_argv_iff shell_posix joins_joinWords plainTexts_fluent 123 "/local/job123" (by decide)).2 (by decide)
    (by decide) ["a b"] (by decide +kernel)).mpr ⟨by decide +kernel, nofun⟩ "/images/fluent.sif" (by decide)

/-- A blank in the binary makes two words of it, and an operator in the scratch directory ends
the command. -/
theorem container_argv_broken :
    ¬ Runs Dialect.posix (containerCommand joinWords fluent "/local/job123" "/images/fluent.sif" "my solver" ["-g"] 123 none)
      "/images/fluent.sif" "my solver" ["-g"] ∧
    ¬ Runs Dialect.posix (containerCommand joinWords fluent "/local/a;b" "/images/fluent.sif" "case.cas" ["-g"] 123 none)
      "/images/fluent.sif" "case.cas" ["-g"] := by
  have solid : ∃ front char, "/images/fluent.sif".toList = front ++ [char] ∧ isWhitespace char = false :=
    ⟨"/images/fluent.si".toList, 'f', by decide +kernel, by decide⟩
  constructor
  · refine (runs_iff_read (ApptainerRunner.new fluent "/local/job123" "") "/images/fluent.sif" (by decide)
      (.inl solid)).not.mpr ?_
    simp only [split, String.toList_ofList, options_eq, ApptainerRunner.launch, ApptainerRunner.places,
      String.toList_append, ← Option.mem_def]
    decide +kernel
  · refine (runs_iff_read (ApptainerRunner.new fluent "/local/a;b" "") "/images/fluent.sif" (by decide)
      (.inl solid)).not.mpr ?_
    simp only [split, String.toList_ofList, options_eq, ApptainerRunner.launch, ApptainerRunner.places,
      String.toList_append, ← Option.mem_def]
    decide +kernel

end Veloce
