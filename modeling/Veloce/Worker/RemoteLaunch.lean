import Mathlib.Data.Bool.AllAny
import Veloce.Collections.Pieces
import Veloce.Handlers.Launch
import Veloce.Worker.CanonicalCommand
import Veloce.Worker.JobEnv
import Veloce.Worker.PmiReads

/-! A command on its way from `mpirun` to the process that a worker spawns for it: `veloce-exec`
trims it, the controller trims it again, and the worker takes assignments and `export` statements
off its front. -/

namespace Veloce

open Collections

/-- The arguments from the host on: options are skipped, `-p` and `-l` with the one after them. -/
def skipOptions : List String → List String
  | [] => []
  | arg :: rest =>
    if beginsWith arg "-" then
      if arg = "-p" || arg = "-l" then
        match rest with
        | [] => []
        | _ :: rest => skipOptions rest
      else skipOptions rest
    else arg :: rest

/-- The request of `veloce-exec` for its arguments, in a job with this number and secret. -/
def veloceExec (jobId : JobId) (secret workingDirectory : String) (args : List String) : Option LaunchRequest :=
  if args.length < 3 then none
  else
    match skipOptions args.tail with
    | hostname :: binary :: cmdArgs =>
      some { jobId, secret, hostname, binary := trimWhitespace binary, args := cmdArgs.map trimWhitespace, workingDirectory }
    | _ => none

structure Process where
  argv : List String
  env : HashMap String String

def spawnedRank (site : LaunchSite) (order : RunStep) (rank : Nat) : Process where
  argv := (parseShellPrefixCommand site.hostEnv order.binary order.args).1 ::
    (parseShellPrefixCommand site.hostEnv order.binary order.args).2.1
  env := Launch.env site (.rank order rank)

section Asked

/-- Options, with a value after `-p` and `-l`. -/
inductive IsOptions : List String → Prop
  | nil : IsOptions []
  | flag {option : String} {rest : List String} (dash : beginsWith option "-" = true) (port : option ≠ "-p")
      (login : option ≠ "-l") (more : IsOptions rest) : IsOptions (option :: rest)
  | valued {option : String} (value : String) {rest : List String} (kind : option = "-p" ∨ option = "-l")
      (more : IsOptions rest) : IsOptions (option :: value :: rest)

/-- An assignment, or an `export` of names with the blank before them. -/
inductive Statement where
  | assign (name value : String)
  | exports (blank : Char) (names : String)

namespace Statement

def text : Statement → String
  | assign name value => name ++ "=" ++ value
  | exports blank names => "export" ++ String.ofList [blank] ++ names

/-- A shell variable with a value without blanks, or an `export` of at least one name. -/
def Valid : Statement → Prop
  | assign name value =>
    name ≠ "" ∧ (∀ char ∈ name.toList, char.isAlphanum = true ∨ char = '_') ∧
      ∀ char ∈ value.toList, isWhitespace char = false
  | exports blank names =>
    isWhitespace blank = true ∧ '=' ∉ names.toList ∧ ∃ char ∈ names.toList, isWhitespace char = false

def assigned (hostEnv : List (String × String)) : Statement → List (String × String)
  | assign name value =>
    [(name, if name ∈ ["PATH", "LD_LIBRARY_PATH", "DYLD_LIBRARY_PATH"] then
      let inherited := (envVar hostEnv name).getD ""
      replaceAll (replaceAll value ("$" ++ name) inherited) ("$\x7b" ++ name ++ ":-\x7d") inherited
    else value)]
  | exports _ _ => []

end Statement

/-- Statements and one command. -/
structure Script where
  statements : List Statement
  valid : ∀ statement ∈ statements, statement.Valid
  some_statement : statements ≠ []
  command : String
  program : String
  words : List String
  command_words : splitWhitespace command = program :: words
  plain : ∀ word ∈ program :: words, ';' ∉ word.toList ∧ '\'' ∉ word.toList ∧ '"' ∉ word.toList
  no_export : program ≠ "export"

/-- The text has the statements and the command between semicolons, with blanks around them. -/
def Script.Written (script : Script) (text : String) : Prop :=
  (splitChar ';' text).map trimWhitespace = script.statements.map Statement.text ++ [script.command]

def Script.assigned (script : Script) (hostEnv : List (String × String)) : List (String × String) :=
  script.statements.flatMap (Statement.assigned hostEnv)

end Asked

section Trim

variable {text : String}

theorem exists_trimWhitespace (text : String) : ∃ lead trail, text.toList = lead ++ (trimWhitespace text).toList ++ trail ∧
    (∀ char ∈ lead, isWhitespace char = true) ∧ ∀ char ∈ trail, isWhitespace char = true := by
  refine ⟨text.toList.takeWhile isWhitespace, (text.toList.dropWhile isWhitespace).rtakeWhile isWhitespace, ?_,
    fun _ => List.mem_takeWhile_imp, fun _ => List.mem_rtakeWhile_imp⟩
  conv_lhs => rw [← List.takeWhile_append_dropWhile (p := isWhitespace) (l := text.toList)]
  have trimmed : (trimWhitespace text).toList = (text.toList.dropWhile isWhitespace).rdropWhile isWhitespace := by
    rw [trimWhitespace, String.toList_ofList]
    rfl
  rw [trimmed, List.append_assoc, List.rdropWhile_append_rtakeWhile]

theorem trimWhitespace_trimWhitespace (text : String) : trimWhitespace (trimWhitespace text) = trimWhitespace text := by
  obtain ⟨lead, trail, whole, left, right⟩ := exists_trimWhitespace text
  have middle : trimWhitespace text = trimWhitespace (String.ofList (lead ++ ((trimWhitespace text).toList ++ trail))) := by
    rw [← List.append_assoc, ← whole, String.ofList_toList]
  conv_rhs => rw [middle]
  rw [trimWhitespace_append_left left, trimWhitespace_append_right right, String.ofList_toList]

theorem splitChar_trimWhitespace {sep : Char} (dark : isWhitespace sep = false) (text : String) :
    (splitChar sep (trimWhitespace text)).map trimWhitespace = (splitChar sep text).map trimWhitespace := by
  obtain ⟨lead, trail, whole, left, right⟩ := exists_trimWhitespace text
  have apart {blanks : List Char} (blank : ∀ char ∈ blanks, isWhitespace char = true) : sep ∉ blanks := by
    intro inside
    rw [blank sep inside] at dark
    cases dark
  obtain ⟨front, last, before, after⟩ := splitOn_append_right (apart right) (trimWhitespace text).toList
  rw [splitChar, splitChar, whole, List.append_assoc, splitOn_append_left (apart left), after, before]
  cases front with
  | nil =>
    simp only [List.nil_append, List.modifyHead_cons, List.map_cons, List.map_nil]
    rw [trimWhitespace_append_left left, trimWhitespace_append_right right]
  | cons first front =>
    simp only [List.cons_append, List.modifyHead_cons, List.map_cons, List.map_append, List.map_nil]
    rw [trimWhitespace_append_left left, trimWhitespace_append_right right]

theorem trimWhitespace_eq_self (solid : ∀ char ∈ text.toList, isWhitespace char = false) : trimWhitespace text = text := by
  obtain ⟨lead, trail, whole, left, right⟩ := exists_trimWhitespace text
  have none {blanks : List Char} (blank : ∀ char ∈ blanks, isWhitespace char = true)
      (inside : ∀ char ∈ blanks, char ∈ text.toList) : blanks = [] := by
    cases blanks with
    | nil => rfl
    | cons char rest =>
      have solid := solid char (inside char List.mem_cons_self)
      rw [blank char List.mem_cons_self] at solid
      cases solid
  have no_lead := none left fun char member => by rw [whole]; simp [member]
  have no_trail := none right fun char member => by rw [whole]; simp [member]
  rw [no_lead, no_trail, List.nil_append, List.append_nil] at whole
  exact (String.toList_inj.mp whole).symm

end Trim

theorem isWhitespace_letter {char : Char} (letter : char.isAlphanum = true) : isWhitespace char = false := by
  change (decide (char.val ≥ 65 ∧ char.val ≤ 90) || (decide (char.val ≥ 97) && decide (char.val ≤ 122)) ||
    (decide (char.val ≥ 48) && decide (char.val ≤ 57))) = true at letter
  simp only [Bool.or_eq_true, Bool.and_eq_true, decide_eq_true_eq, ge_iff_le, UInt32.le_iff_toNat_le] at letter
  refine eq_false_of_ne_true fun blank => ?_
  simp only [isWhitespace, Bool.or_eq_true, Bool.and_eq_true, decide_eq_true_eq, List.mem_cons, List.not_mem_nil,
    or_false] at blank
  simp at letter blank
  omega

section Parts

variable {hostEnv : List (String × String)} {binary part : String} {args : List String} {env : HashMap String String}

def prefixPart (hostEnv : List (String × String)) :
    String × List String × HashMap String String → String → String × List String × HashMap String String :=
  fun (realBinary, realArgs, extraEnv) part =>
    if part = "" || beginsWith part "export " then (realBinary, realArgs, extraEnv)
    else if '=' ∈ part.toList then
      let key := trimWhitespace (String.ofList (part.toList.takeWhile (· ≠ '=')))
      let val := trimWhitespace (String.ofList ((part.toList.dropWhile (· ≠ '=')).drop 1))
      let val := if key ∈ ["PATH", "LD_LIBRARY_PATH", "DYLD_LIBRARY_PATH"] then
          let inherited := (envVar hostEnv key).getD ""
          replaceAll (replaceAll val ("$" ++ key) inherited) ("$\x7b" ++ key ++ ":-\x7d") inherited
        else val
      (realBinary, realArgs, extraEnv.insert key val)
    else
      match (part.toList.splitOnP isWhitespace).filter (· ≠ []) with
      | [] => (realBinary, realArgs, extraEnv)
      | program :: more => (String.ofList program, more.map String.ofList ++ realArgs, extraEnv)

theorem parseShellPrefixCommand_eq (hostEnv : List (String × String)) (binary : String) (args : List String) :
    parseShellPrefixCommand hostEnv binary args =
      if ';' ∈ binary.toList then
        ((splitChar ';' binary).map trimWhitespace).foldl (prefixPart hostEnv) (binary, args, ∅)
      else (binary, args, ∅) := rfl

/-- An assignment of a variable is none of a search path or one with its references resolved. -/
theorem prefixPart_assign {name value : String} (valid : (Statement.assign name value).Valid) :
    prefixPart hostEnv (binary, args, env) (Statement.assign name value).text =
      (binary, args, env.extend ((Statement.assign name value).assigned hostEnv)) := by
  obtain ⟨filled, letters, solid⟩ := valid
  have text : (Statement.assign name value).text.toList = name.toList ++ '=' :: value.toList := by
    simp [Statement.text]
  have unequal : ∀ char ∈ name.toList, char ≠ '=' := fun char member same => by
    rw [same] at member
    exact absurd (letters _ member) (by decide)
  have dark : ∀ char ∈ name.toList, isWhitespace char = false := fun char member => by
    rcases letters char member with letter | rfl
    · exact isWhitespace_letter letter
    · decide
  have some_part : (Statement.assign name value).text ≠ "" := by
    intro empty
    rw [empty] at text
    simp at text
  have no_export : beginsWith (Statement.assign name value).text "export " = false := by
    refine eq_false_of_ne_true fun begins => ?_
    have blank : ' ' ∈ (Statement.assign name value).text.toList := (beginsWith_iff.mp begins).subset (by decide)
    rw [text, List.mem_append, List.mem_cons] at blank
    rcases blank with inside | same | inside
    · exact absurd (dark _ inside) (by decide)
    · exact absurd same (by decide)
    · exact absurd (solid _ inside) (by decide)
  have key : (Statement.assign name value).text.toList.takeWhile (· ≠ '=') = name.toList := by
    rw [text, List.takeWhile_append_of_pos fun char member => decide_eq_true (unequal char member)]
    simp
  have rest : ((Statement.assign name value).text.toList.dropWhile (· ≠ '=')).drop 1 = value.toList := by
    rw [text, List.dropWhile_append_of_pos fun char member => decide_eq_true (unequal char member)]
    simp
  have sign : '=' ∈ (Statement.assign name value).text.toList := by
    rw [text]
    exact List.mem_append_right _ List.mem_cons_self
  simp only [prefixPart, some_part, no_export, decide_false, Bool.or_false, Bool.false_eq_true, if_false, sign, if_true,
    key, rest, String.ofList_toList, trimWhitespace_eq_self dark, trimWhitespace_eq_self solid]
  rfl

theorem prefixPart_export {names : String} :
    prefixPart hostEnv (binary, args, env) (Statement.exports ' ' names).text = (binary, args, env) := by
  have begins : beginsWith (Statement.exports ' ' names).text "export " = true := by
    rw [beginsWith_iff, Statement.text, String.toList_append]
    exact List.prefix_append ..
  simp only [prefixPart, begins, Bool.or_true, if_true]

/-- A part that is no assignment and no `export` is a command, whose arguments come before those there are. -/
theorem prefixPart_command {program : String} {words : List String} (none : beginsWith part "export " = false)
    (unequal : '=' ∉ part.toList) (split : splitWhitespace part = program :: words) :
    prefixPart hostEnv (binary, args, env) part = (program, words ++ args, env) := by
  have some_part : part ≠ "" := by
    rintro rfl
    cases split
  rw [splitWhitespace] at split
  cases pieces : (part.toList.splitOnP isWhitespace).filter (· ≠ []) with
  | nil =>
    rw [pieces] at split
    cases split
  | cons first more =>
    rw [pieces, List.map_cons, List.cons.injEq] at split
    obtain ⟨rfl, rfl⟩ := split
    simp only [prefixPart, some_part, none, decide_false, Bool.or_false, Bool.false_eq_true, if_false, unequal, pieces]

theorem prefixPart_fst (none : beginsWith part "export " = false) (sign : '=' ∈ part.toList) :
    (prefixPart hostEnv (binary, args, env) part).1 = binary := by
  have some_part : part ≠ "" := by
    rintro rfl
    cases sign
  simp only [prefixPart, some_part, none, decide_false, Bool.or_false, Bool.false_eq_true, if_false, sign, if_true]

theorem splitWhitespace_first {first rest : String} {blank : Char} (filled : first ≠ "")
    (solid : ∀ char ∈ first.toList, isWhitespace char = false) (dark : isWhitespace blank = true) :
    splitWhitespace (first ++ String.ofList [blank] ++ rest) = first :: splitWhitespace rest := by
  have text : (first ++ String.ofList [blank] ++ rest).toList = first.toList ++ blank :: rest.toList := by simp
  have kept : first.toList ≠ [] := mt String.toList_eq_nil_iff.mp filled
  rw [splitWhitespace, text, List.splitOnP_append_cons_of_forall_mem solid blank dark,
    List.filter_cons_of_pos (by simpa using kept), List.map_cons, String.ofList_toList, splitWhitespace]

theorem exists_mem_splitOnP {chars : List Char} {char : Char} (member : char ∈ chars) (solid : isWhitespace char = false) :
    ∃ piece ∈ chars.splitOnP isWhitespace, char ∈ piece := by
  induction chars with
  | nil => cases member
  | cons head chars ih =>
    rw [List.splitOnP_cons_eq_if_modifyHead]
    split
    · rename_i blank
      have later : char ∈ chars := (List.mem_cons.mp member).resolve_left fun same => by
        rw [same, blank] at solid
        cases solid
      obtain ⟨piece, inside, found⟩ := ih later
      exact ⟨piece, List.mem_cons_of_mem _ inside, found⟩
    · cases pieces : chars.splitOnP isWhitespace with
      | nil => exact absurd pieces (List.splitOnP_ne_nil _ _)
      | cons first rest =>
        rw [pieces] at ih
        rcases List.mem_cons.mp member with rfl | later
        · exact ⟨char :: first, List.mem_cons_self, List.mem_cons_self⟩
        · obtain ⟨piece, inside, found⟩ := ih later
          rcases List.mem_cons.mp inside with rfl | inside
          · exact ⟨head :: piece, List.mem_cons_self, List.mem_cons_of_mem _ found⟩
          · exact ⟨piece, List.mem_cons_of_mem _ inside, found⟩

theorem splitWhitespace_ne_nil {text : String} {char : Char} (member : char ∈ text.toList)
    (solid : isWhitespace char = false) : splitWhitespace text ≠ [] := by
  obtain ⟨piece, inside, found⟩ := exists_mem_splitOnP member solid
  rw [splitWhitespace, Ne, List.map_eq_nil_iff, List.filter_eq_nil_iff]
  intro none
  have filled := List.ne_nil_of_mem found
  exact none piece inside (by simpa using filled)

/-- Behind another blank than a space, the names of an `export` are taken for arguments. -/
theorem prefixPart_stray {blank : Char} {names : String} (valid : (Statement.exports blank names).Valid)
    (other : blank ≠ ' ') : prefixPart hostEnv (binary, args, env) (Statement.exports blank names).text =
      ("export", splitWhitespace names ++ args, env) := by
  obtain ⟨dark, unequal, -⟩ := valid
  have text : (Statement.exports blank names).text.toList = "export".toList ++ blank :: names.toList := by
    simp [Statement.text]
  refine prefixPart_command ?_ ?_ (splitWhitespace_first (by decide) (List.all_iff_forall_prop.mp (by decide)) dark)
  · refine eq_false_of_ne_true fun begins => ?_
    rw [beginsWith_iff, text] at begins
    have blanks : [' '] <+: blank :: names.toList := (List.prefix_append_right_inj "export".toList).mp begins
    exact other (List.cons_prefix_cons.mp blanks).1.symm
  · rw [text, List.mem_append, List.mem_cons]
    rintro (inside | same | inside)
    · exact absurd inside (by decide)
    · rw [← same] at dark
      exact absurd dark (by decide)
    · exact unequal inside

/-- The names of an `export` follow a space. -/
def Statement.Spaced : Statement → Prop
  | assign _ _ => True
  | exports blank _ => blank = ' '

theorem foldl_statements (hostEnv : List (String × String)) (binary : String) (args : List String)
    (env : HashMap String String) {statements : List Statement} (valid : ∀ statement ∈ statements, statement.Valid) :
    ∃ first stray, (statements.map Statement.text).foldl (prefixPart hostEnv) (binary, args, env) =
        (first, stray ++ args, env.extend (statements.flatMap (Statement.assigned hostEnv))) ∧
      (first = binary ∨ first = "export") ∧ (stray = [] ↔ ∀ statement ∈ statements, statement.Spaced) := by
  induction statements generalizing binary args env with
  | nil => exact ⟨binary, [], rfl, .inl rfl, ⟨fun _ _ member => absurd member List.not_mem_nil, fun _ => rfl⟩⟩
  | cons statement statements ih =>
    have later := fun other member => valid other (List.mem_cons_of_mem _ member)
    rw [List.map_cons, List.foldl_cons]
    cases statement with
    | assign name value =>
      rw [prefixPart_assign (valid _ List.mem_cons_self)]
      obtain ⟨first, stray, done, kept, spaced⟩ := ih _ _ _ later
      refine ⟨first, stray, ?_, kept, spaced.trans ?_⟩
      · rw [done, List.flatMap_cons, HashMap.extend, HashMap.extend, HashMap.extend, List.foldl_append]
      · exact ⟨fun rest => List.forall_mem_cons.mpr ⟨trivial, rest⟩, fun all => (List.forall_mem_cons.mp all).2⟩
    | exports blank names =>
      by_cases space : blank = ' '
      · subst space
        rw [prefixPart_export]
        obtain ⟨first, stray, done, kept, spaced⟩ := ih _ _ _ later
        refine ⟨first, stray, done, kept, spaced.trans ?_⟩
        exact ⟨fun rest => List.forall_mem_cons.mpr ⟨rfl, rest⟩, fun all => (List.forall_mem_cons.mp all).2⟩
      · have here := valid _ List.mem_cons_self
        rw [prefixPart_stray here space]
        obtain ⟨first, stray, done, kept, -⟩ := ih _ _ _ later
        refine ⟨first, stray ++ splitWhitespace names, ?_, ?_, ?_⟩
        · rw [done, List.append_assoc]
          rfl
        · exact .inr (kept.elim id id)
        · obtain ⟨-, -, char, member, solid⟩ := here
          constructor
          · intro empty
            exact absurd (List.append_eq_nil_iff.mp empty).2 (splitWhitespace_ne_nil member solid)
          · intro all
            exact absurd (all _ List.mem_cons_self) space

theorem Script.no_export_command (script : Script) : beginsWith script.command "export " = false := by
  refine eq_false_of_ne_true fun begins => ?_
  obtain ⟨rest, whole⟩ := beginsWith_iff.mp begins
  have text : script.command = "export" ++ String.ofList [' '] ++ String.ofList rest := by
    apply String.toList_inj.mp
    rw [← whole]
    simp
  have split := script.command_words
  rw [text, splitWhitespace_first (by decide) (List.all_iff_forall_prop.mp (by decide)) (by decide)] at split
  exact script.no_export (List.cons.inj split).1.symm

theorem Script.Written.semicolon {script : Script} {text : String} (written : script.Written text) :
    ';' ∈ (trimWhitespace text).toList := by
  by_contra none
  have pieces : (splitChar ';' (trimWhitespace text)).map trimWhitespace =
      script.statements.map Statement.text ++ [script.command] :=
    (splitChar_trimWhitespace (by decide) text).trans written
  rw [splitChar, List.splitOn_eq_singleton none] at pieces
  have lengths := congrArg List.length pieces
  simp only [List.map_cons, List.map_nil, List.length_cons, List.length_nil, List.length_append, List.length_map] at lengths
  exact script.some_statement (List.length_eq_zero_iff.mp (by omega))

/-- Of a script the worker takes the command and as many arguments as were given if and only if
there is no equals sign in the command, the names of every `export` follow a space, and the
arguments are the given ones; and then the variables are the assigned ones. -/
theorem parse_script (hostEnv : List (String × String)) (script : Script) {text : String} (written : script.Written text)
    {given args : List String} (count : given.length = args.length) :
    ((parseShellPrefixCommand hostEnv (trimWhitespace text) given).1 ::
          (parseShellPrefixCommand hostEnv (trimWhitespace text) given).2.1 = script.program :: (script.words ++ args) ↔
        '=' ∉ script.command.toList ∧ (∀ statement ∈ script.statements, statement.Spaced) ∧ given = args) ∧
      ('=' ∉ script.command.toList → (parseShellPrefixCommand hostEnv (trimWhitespace text) given).2.2 =
        (∅ : HashMap String String).extend (script.assigned hostEnv)) := by
  obtain ⟨first, stray, done, kept, spaced⟩ := foldl_statements hostEnv (trimWhitespace text) given ∅ script.valid
  have parsed : parseShellPrefixCommand hostEnv (trimWhitespace text) given = prefixPart hostEnv
      (first, stray ++ given, (∅ : HashMap String String).extend (script.assigned hostEnv)) script.command := by
    rw [parseShellPrefixCommand_eq, if_pos written.semicolon, splitChar_trimWhitespace (by decide), written,
      List.foldl_append, done]
    rfl
  rw [parsed]
  by_cases sign : '=' ∈ script.command.toList
  · refine ⟨⟨fun same => ?_, fun kept => absurd sign kept.1⟩, fun none => absurd sign none⟩
    -- the command has been taken for an assignment, and the program is what there was before
    have program : first = script.program :=
      (prefixPart_fst script.no_export_command sign).symm.trans (List.cons.inj same).1
    rcases kept with whole | exported
    · have semicolon := written.semicolon
      rw [← whole, program] at semicolon
      exact absurd semicolon (script.plain _ List.mem_cons_self).1
    · exact absurd (program.symm.trans exported) script.no_export
  · rw [prefixPart_command script.no_export_command sign script.command_words]
    refine ⟨?_, fun _ => rfl⟩
    rw [List.cons.injEq, and_iff_right rfl, List.append_cancel_left_eq]
    constructor
    · intro same
      have lengths := congrArg List.length same
      rw [List.length_append, count] at lengths
      have none : stray = [] := List.length_eq_zero_iff.mp (by omega)
      rw [none, List.nil_append] at same
      exact ⟨sign, spaced.mp none, same⟩
    · rintro ⟨-, clean, same⟩
      rw [spaced.mpr clean, List.nil_append, same]

end Parts

section Options

variable {options rest : List String} {host : String}

theorem skipOptions_append (skipped : IsOptions options) (named : beginsWith host "-" = false) :
    skipOptions (options ++ host :: rest) = host :: rest := by
  induction skipped with
  | nil =>
    rw [List.nil_append, skipOptions.eq_def]
    simp [named]
  | flag dash port login more ih =>
    rw [List.cons_append, skipOptions.eq_def]
    simp [dash, port, login, ih]
  | valued value kind more ih =>
    have dash : beginsWith "-p" "-" = true ∧ beginsWith "-l" "-" = true := by decide
    rw [List.cons_append, List.cons_append, skipOptions.eq_def]
    rcases kind with rfl | rfl
    · simp [dash, ih]
    · simp [dash, ih]

end Options

section Environment

variable (site : LaunchSite) (order : RunStep) (rank : Nat)

def bareEnv : HashMap String String := Launch.env site (.rank { order with binary := "" } rank)

/-- What the worker sets after the assignments. -/
def lastSet (name : String) : Option String :=
  ((∅ : HashMap String String).extend (runStepLastSettings site order)).get? name

/-- No assignment is to a variable that the worker itself sets afterwards, but for one to that value. -/
def Undisturbed (assigned : List (String × String)) : Prop :=
  ∀ name value, ((∅ : HashMap String String).extend assigned).get? name = some value →
    ∀ set, lastSet site order name = some set → set = value

theorem get?_rankEnv (name : String) : ∃ rest : Option String,
    (Launch.env site (.rank order rank)).get? name = (lastSet site order name).or
      (((parseShellPrefixCommand site.hostEnv order.binary order.args).2.2.get? name).or rest) ∧
    (bareEnv site order rank).get? name = (lastSet site order name).or rest := by
  have layers (extra : HashMap String String) (command : Command) :
      (((command.envs extra.toList).envs (runStepLastSettings site order)).childEnv site.hostEnv).get? name =
        (lastSet site order name).or ((extra.get? name).or ((command.vars.get? name).or
          (((∅ : HashMap String String).extend site.hostEnv).get? name))) := by
    rw [Command.get?_childEnv, Command.envs, HashMap.get?_extend, Command.envs, HashMap.get?_extend_toList]
    rw [Option.or_assoc, Option.or_assoc]
    rfl
  refine ⟨_, layers _ _, (layers ∅ _).trans ?_⟩
  rw [HashMap.get?_empty, Option.none_or]
  rfl

/-- The assignments are what is added to the environment if and only if they are not disturbed. -/
theorem env_iff {assigned : List (String × String)}
    (parsed : (parseShellPrefixCommand site.hostEnv order.binary order.args).2.2 =
      (∅ : HashMap String String).extend assigned) :
    (spawnedRank site order rank).env.Same ((bareEnv site order rank).extend assigned) ↔
      Undisturbed site order assigned := by
  dsimp only [spawnedRank]
  have layered (name : String) : (Launch.env site (.rank order rank)).get? name =
      ((bareEnv site order rank).extend assigned).get? name ↔
        ∀ value, ((∅ : HashMap String String).extend assigned).get? name = some value →
          ∀ set, lastSet site order name = some set → set = value := by
    obtain ⟨rest, here, bare⟩ := get?_rankEnv site order rank name
    rw [here, HashMap.get?_extend (bareEnv site order rank), bare, parsed]
    cases ((∅ : HashMap String String).extend assigned).get? name with
    | none => simp
    | some value =>
      cases lastSet site order name with
      | none => simp
      | some set => simp
  exact forall_congr' layered

end Environment

/-- The first rank of the step has this argument vector, and what is added to its environment
are the assignments. -/
structure AsAsked (site : LaunchSite) (order : RunStep) (argv : List String) (assigned : List (String × String)) : Prop where
  argv : (spawnedRank site order 0).argv = argv
  env : (spawnedRank site order 0).env.Same ((bareEnv site order 0).extend assigned)

section Launched

variable {jobId : JobId} {secret workingDirectory host : String} {options : List String}

theorem map_trim_iff {args : List String} : args.map trimWhitespace = args ↔ ∀ arg ∈ args, trimWhitespace arg = arg := by
  conv_lhs => rw [← List.map_id args, List.map_map]
  exact List.map_inj_left

theorem veloceExec_eq (exec : String) (skipped : IsOptions options) (named : beginsWith host "-" = false)
    (command : String) (args : List String) :
    veloceExec jobId secret workingDirectory (exec :: (options ++ host :: command :: args)) =
      some ⟨jobId, secret, host, trimWhitespace command, args.map trimWhitespace, workingDirectory⟩ := by
  have long : ¬ (exec :: (options ++ host :: command :: args)).length < 3 := by
    simp only [List.length_cons, List.length_append]
    omega
  rw [veloceExec, if_neg long, List.tail_cons, skipOptions_append skipped named]

/-- The controller trims once more, which changes nothing. -/
theorem order_trimmed (jobId : JobId) (secret host workingDirectory : String) (job : JobInfo) (stepId : StepId) (apiPort : Option Nat) (command : String) (args : List String) :
    (LaunchRequest.order ⟨jobId, secret, host, trimWhitespace command, args.map trimWhitespace, workingDirectory⟩
        job stepId apiPort).binary = trimWhitespace command ∧
      (LaunchRequest.order ⟨jobId, secret, host, trimWhitespace command, args.map trimWhitespace, workingDirectory⟩
        job stepId apiPort).args = args.map trimWhitespace := by
  refine ⟨trimWhitespace_trimWhitespace command, ?_⟩
  have twice : trimWhitespace ∘ trimWhitespace = trimWhitespace := funext trimWhitespace_trimWhitespace
  rw [LaunchRequest.order, List.map_map, twice]

variable {site : LaunchSite} {order : RunStep} {command : String} {args : List String}

theorem plain_asked_iff (plain : ';' ∉ command.toList) (binary : order.binary = trimWhitespace command)
    (given : order.args = args.map trimWhitespace) : AsAsked site order (command :: args) [] ↔
      trimWhitespace command = command ∧ ∀ arg ∈ args, trimWhitespace arg = arg := by
  have unsplit : ';' ∉ (trimWhitespace command).toList := fun inside => by
    obtain ⟨lead, trail, whole, -, -⟩ := exists_trimWhitespace command
    exact plain (by rw [whole]; simp [inside])
  have parsed : parseShellPrefixCommand site.hostEnv order.binary order.args =
      (trimWhitespace command, args.map trimWhitespace, ∅) := by
    rw [parseShellPrefixCommand_eq, binary, given, if_neg unsplit]
  have unassigned : (parseShellPrefixCommand site.hostEnv order.binary order.args).2.2 =
      (∅ : HashMap String String).extend [] := by
    rw [parsed]
    rfl
  have undisturbed : Undisturbed site order [] := fun name value found => by
    cases (HashMap.get?_empty name).symm.trans found
  have env := (env_iff site order 0 unassigned).mpr undisturbed
  have argv : (spawnedRank site order 0).argv = trimWhitespace command :: args.map trimWhitespace := by
    rw [spawnedRank, parsed]
  constructor
  · intro asked
    obtain ⟨same, rest⟩ := List.cons.inj (argv.symm.trans asked.argv)
    exact ⟨same, map_trim_iff.mp rest⟩
  · rintro ⟨same, rest⟩
    exact ⟨by rw [argv, same, map_trim_iff.mpr rest], env⟩

theorem script_asked_iff {script : Script} (written : script.Written command)
    (binary : order.binary = trimWhitespace command) (given : order.args = args.map trimWhitespace) :
    AsAsked site order (script.program :: (script.words ++ args)) (script.assigned site.hostEnv) ↔
      '=' ∉ script.command.toList ∧ (∀ statement ∈ script.statements, statement.Spaced) ∧
        (∀ arg ∈ args, trimWhitespace arg = arg) ∧ Undisturbed site order (script.assigned site.hostEnv) := by
  obtain ⟨argv, env⟩ := parse_script site.hostEnv script written (List.length_map trimWhitespace : (args.map _).length = _)
  rw [← binary, ← given] at argv env
  have spawned : (spawnedRank site order 0).argv = (parseShellPrefixCommand site.hostEnv order.binary order.args).1 ::
      (parseShellPrefixCommand site.hostEnv order.binary order.args).2.1 := rfl
  constructor
  · intro asked
    obtain ⟨sign, spaced, same⟩ := argv.mp (spawned.symm.trans asked.argv)
    rw [given] at same
    exact ⟨sign, spaced, map_trim_iff.mp same, (env_iff site order 0 (env sign)).mp asked.env⟩
  · rintro ⟨sign, spaced, same, undisturbed⟩
    have kept : order.args = args := given.trans (map_trim_iff.mpr same)
    exact ⟨spawned.trans (argv.mpr ⟨sign, spaced, kept⟩), (env_iff site order 0 (env sign)).mpr undisturbed⟩

end Launched

/-- What was asked for is spawned if and only if no blanks are around the arguments, or around a
command without semicolons; and, of a script, the command has no equals sign, the names of every
`export` follow a space, and no assignment is to a variable that the worker sets afterwards. -/
theorem launch_as_asked_iff (site : LaunchSite) (job : JobInfo) (stepId : StepId) (apiPort : Option Nat) (jobId : JobId)
    (secret workingDirectory exec : String) {options : List String} (skipped : IsOptions options) {host : String}
    (named : beginsWith host "-" = false) :
    (∀ command args, ';' ∉ command.toList →
      ∃ request, veloceExec jobId secret workingDirectory (exec :: (options ++ host :: command :: args)) = some request ∧
        (AsAsked site (request.order job stepId apiPort) (command :: args) [] ↔
          trimWhitespace command = command ∧ ∀ arg ∈ args, trimWhitespace arg = arg)) ∧
    (∀ script : Script, ∀ command args, script.Written command →
      ∃ request, veloceExec jobId secret workingDirectory (exec :: (options ++ host :: command :: args)) = some request ∧
        (AsAsked site (request.order job stepId apiPort) (script.program :: (script.words ++ args))
            (script.assigned site.hostEnv) ↔
          '=' ∉ script.command.toList ∧ (∀ statement ∈ script.statements, statement.Spaced) ∧
            (∀ arg ∈ args, trimWhitespace arg = arg) ∧
            Undisturbed site (request.order job stepId apiPort) (script.assigned site.hostEnv))) := by
  refine ⟨fun command args plain => ?_, fun script command args written => ?_⟩
  · refine ⟨_, veloceExec_eq exec skipped named command args, ?_⟩
    obtain ⟨binary, given⟩ := order_trimmed jobId secret host workingDirectory job stepId apiPort command args
    exact plain_asked_iff plain binary given
  · refine ⟨_, veloceExec_eq exec skipped named command args, ?_⟩
    obtain ⟨binary, given⟩ := order_trimmed jobId secret host workingDirectory job stepId apiPort command args
    exact script_asked_iff written binary given

def searchPathScript (command program : String) (words : List String)
    (command_words : splitWhitespace command = program :: words)
    (plain : ∀ word ∈ program :: words, ';' ∉ word.toList ∧ '\'' ∉ word.toList ∧ '"' ∉ word.toList)
    (no_export : program ≠ "export") : Script where
  statements := [.assign "PATH" "/opt/bin:$PATH", .exports ' ' "PATH"]
  valid := by
    have name : ∀ char ∈ "PATH".toList, char.isAlphanum = true ∨ char = '_' := List.all_iff_forall_prop.mp (by decide)
    have value : ∀ char ∈ "/opt/bin:$PATH".toList, isWhitespace char = false := List.all_iff_forall_prop.mp (by decide)
    refine List.forall_mem_cons.mpr ⟨⟨by decide, name, value⟩, List.forall_mem_singleton.mpr ⟨by decide, by decide, ?_⟩⟩
    exact ⟨'P', by decide, by decide⟩
  some_statement := List.cons_ne_nil _ _
  command := command
  program := program
  words := words
  command_words := command_words
  plain := plain
  no_export := no_export

def orted : Script := searchPathScript "orted -mca ess" "orted" ["-mca", "ess"] (by decide +kernel) (by decide) (by decide)

def ortedWithOption : Script := searchPathScript "orted --np=4" "orted" ["--np=4"] (by decide +kernel) (by decide) (by decide)

def mpiJob : JobInfo where
  id := 7
  binary := "mpirun"
  reqNodes := 1
  reqCores := 1
  reqMemory := 1
  userId := "user"

theorem undisturbed_orted (order : RunStep) : Undisturbed (sampleSite []) order (orted.assigned (sampleSite []).hostEnv) := by
  intro name value found set last
  rcases HashMap.get?_extend_cases found with member | ⟨-, none⟩
  · obtain rfl : name = "PATH" := (Prod.mk.inj (List.mem_singleton.mp member)).1
    rcases HashMap.get?_extend_cases last with member | ⟨-, none⟩
    · simp [runStepLastSettings] at member
    · cases none
  · cases none

/-- `veloce-exec -p 22 node1 'PATH=/opt/bin:$PATH; export PATH; orted -mca ess' -x`. -/
theorem launch_as_asked_iff_orted : ∃ request, veloceExec 7 "secret" "/work"
      ["veloce-exec", "-p", "22", "node1", "PATH=/opt/bin:$PATH ; export PATH ; orted -mca ess", "-x"] = some request ∧
    AsAsked (sampleSite []) (request.order mpiJob 1 none) ["orted", "-mca", "ess", "-x"]
      (orted.assigned (sampleSite []).hostEnv) := by
  obtain ⟨request, found, asked⟩ := (launch_as_asked_iff (sampleSite []) mpiJob 1 none 7 "secret" "/work" "veloce-exec"
    (.valued "22" (.inl rfl) .nil) (by decide : beginsWith "node1" "-" = false)).2 orted
      "PATH=/opt/bin:$PATH ; export PATH ; orted -mca ess" ["-x"] (by unfold Script.Written; decide +kernel)
  refine ⟨request, found, asked.mpr ⟨by decide +kernel, ?_, by decide +kernel, undisturbed_orted _⟩⟩
  exact List.forall_mem_cons.mpr ⟨trivial, List.forall_mem_singleton.mpr rfl⟩

/-- Blanks around an argument are lost, and a command with an equals sign is taken for an assignment. -/
theorem launch_broken :
    (∃ request, veloceExec 7 "secret" "/work" ["veloce-exec", "node1", "orted", " -x"] = some request ∧
      ¬ AsAsked (sampleSite []) (request.order mpiJob 1 none) ["orted", " -x"] []) ∧
    ∃ request, veloceExec 7 "secret" "/work"
        ["veloce-exec", "node1", "PATH=/opt/bin:$PATH ; export PATH ; orted --np=4", "-x"] = some request ∧
      ¬ AsAsked (sampleSite []) (request.order mpiJob 1 none) ["orted", "--np=4", "-x"]
        (ortedWithOption.assigned (sampleSite []).hostEnv) := by
  constructor
  · refine ⟨_, veloceExec_eq "veloce-exec" .nil (by decide) "orted" [" -x"], ?_⟩
    obtain ⟨binary, given⟩ := order_trimmed 7 "secret" "node1" "/work" mpiJob 1 none "orted" [" -x"]
    rw [plain_asked_iff (by decide) binary given]
    decide +kernel
  · refine ⟨_, veloceExec_eq "veloce-exec" .nil (by decide) "PATH=/opt/bin:$PATH ; export PATH ; orted --np=4" ["-x"], ?_⟩
    obtain ⟨binary, given⟩ := order_trimmed 7 "secret" "node1" "/work" mpiJob 1 none "PATH=/opt/bin:$PATH ; export PATH ; orted --np=4" ["-x"]
    have written : ortedWithOption.Written "PATH=/opt/bin:$PATH ; export PATH ; orted --np=4" := by
      unfold Script.Written
      decide +kernel
    intro asked
    exact ((script_asked_iff written binary given).mp asked).1 (by decide +kernel)

end Veloce
