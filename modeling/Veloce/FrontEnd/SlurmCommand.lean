import Veloce.Collections.Getopt
import Veloce.FrontEnd.SlurmArgs

/-! Which command a job submitted through `sbatch` or `srun` runs. -/

namespace Veloce

open Collections

def wrapText (a : String) (next : Option String) : Option String :=
  match withoutStart "--wrap=" a with
  | some text => some text
  | none => if a = "--wrap" then next else none

def lastWrap (options : List (String × Option String)) : Option String :=
  (options.filterMap fun option => wrapText option.1 option.2).getLast?

/-- Whether the loop takes the token after an option for its value. -/
def optionTakesNext (a : String) (next : Option String) : Bool :=
  match takeHonored a next Honored.all with
  | .ok (some (_, _, taken)) => taken
  | _ =>
    if a = "--licenses" || beginsWith a "--licenses=" || a = "-L" then (withoutStart ("--licenses" ++ "=") a).isNone
    else
      match knownSkipFlag a with
      | some (name, _) => skipFlagArity a next name
      | none => skipUnknownFlag a next

def loopTable : OptionTable String where
  isOption a := beginsWith a "-"
  takesNext := optionTakesNext

inductive SubmitTool where
  | sbatch (scriptBody : Option String)
  | srun

namespace SubmitTool

def parse (parseMemMb : String → Except String Nat) (argv : List String) : SubmitTool → Except String ParsedBatch
  | sbatch scriptBody => parseSbatch parseMemMb argv scriptBody
  | srun => parseSrun parseMemMb argv

def directives : SubmitTool → List String
  | sbatch (some body) => sbatchLinesToArgs body
  | _ => []

def wrap (tool : SubmitTool) (options : List String → List (String × Option String)) (argv : List String) : Option String :=
  (lastWrap (options argv)).or (lastWrap (options tool.directives))

def givenWrap (tool : SubmitTool) (slurm : OptionTable String) (argv : List String) : Option String :=
  tool.wrap (slurm.options "--" false) argv

/-- The command that the user wrote runs: the wrapped text, and then there is no operand; or
else the first operand with all tokens after it. -/
def RunsCommand (tool : SubmitTool) (slurm : OptionTable String) (argv : List String) (parsed : ParsedBatch) : Prop :=
  match tool.givenWrap slurm argv with
  | some text => slurm.operands "--" false argv = [] ∧ parsed.commandTokens = ["/bin/sh", "-lc", text]
  | none => parsed.commandTokens = slurm.operands "--" false argv

/-- The two tables find the same `--wrap`. With one there is no operand; without one the loop
counts off the tokens before the command as options, and no token of it is one. -/
def ReadsAlike (tool : SubmitTool) (slurm : OptionTable String) (argv : List String) : Prop :=
  tool.wrap (loopTable.permutedOptions "--" false) argv = tool.givenWrap slurm argv ∧
    if (tool.givenWrap slurm argv).isSome then slurm.operands "--" false argv = []
    else loopTable.UpTo "--" (slurm.operands "--" false argv) argv

/-- The command is nothing that could be put together from other tokens by chance: its first
token is not there before it, and the shell of `--wrap` is not among the tokens. -/
def Unmistakable (slurm : OptionTable String) (argv : List String) : Prop :=
  ¬ ["/bin/sh", "-lc"].Sublist argv ∧ Unheralded (slurm.operands "--" false argv) argv

end SubmitTool

section Options

variable {parseMemMb : String → Except String Nat} {a name start value : String} {next : Option String} {names : List String}
  {option : Honored} {options : List Honored} {taken allowPositionals : Bool} {out out' : ParsedBatch}

theorem withoutStart_isSome : (withoutStart start a).isSome = true ↔ start.toList <+: a.toList := by
  rw [withoutStart, ← beginsWith_iff]
  split
  · rename_i begins
    simp [begins]
  · rename_i other
    simp [other]

theorem takeNamed_begins {found : Except String (String × Bool)} (took : takeNamed a next name = some found) :
    name.toList <+: a.toList := by
  unfold takeNamed at took
  split at took
  · rename_i value' attached
    have start := withoutStart_isSome.mp (Option.isSome_of_mem attached)
    rw [String.toList_append] at start
    exact (List.prefix_append ..).trans start
  · split at took
    · rename_i same
      rw [same]
    · split at took
      · cases took
      · rename_i rest bundled
        exact withoutStart_isSome.mp (Option.isSome_of_mem bundled)

theorem takeOpt_some (took : takeOpt a next names = .ok (some (value, taken))) :
    ∃ name ∈ names, takeNamed a next name = some (.ok (value, taken)) := by
  induction names with
  | nil => cases took
  | cons name names ih =>
    rw [takeOpt] at took
    split at took
    · rename_i found named
      cases took
      exact ⟨name, List.mem_cons_self .., named⟩
    · cases took
    · obtain ⟨name', member, named⟩ := ih took
      exact ⟨name', .tail name member, named⟩

theorem takeOpt_none (took : takeOpt a next names = .ok none) : ∀ name ∈ names, takeNamed a next name = none := by
  induction names with
  | nil => simp
  | cons head names ih =>
    rw [takeOpt] at took
    split at took
    · cases took
    · cases took
    · rename_i first
      exact List.forall_mem_cons.mpr ⟨first, ih took⟩

theorem takeHonored_some (took : takeHonored a next options = .ok (some (option, value, taken))) :
    option ∈ options ∧ takeOpt a next option.names = .ok (some (value, taken)) := by
  induction options with
  | nil => cases took
  | cons head options ih =>
    rw [takeHonored] at took
    split at took
    · cases took
    · rename_i value' taken' first
      cases took
      exact ⟨List.mem_cons_self .., first⟩
    · exact (ih took).imp_left (.tail head)

theorem takeHonored_none (took : takeHonored a next options = .ok none) :
    ∀ option ∈ options, takeOpt a next option.names = .ok none := by
  induction options with
  | nil => simp
  | cons head options ih =>
    rw [takeHonored] at took
    split at took
    · cases took
    · cases took
    · rename_i first
      exact List.forall_mem_cons.mpr ⟨first, ih took⟩

/-- Names of options begin with a hyphen, and no name of another one begins `--wrap` or the
other way round. -/
theorem Honored.names_apart : ∀ name ∈ option.names, "-".toList <+: name.toList ∧
    (option ≠ .wrap → ¬ name.toList <+: "--wrap".toList ∧ ¬ "--wrap".toList <+: name.toList) := by
  cases option <;> decide

theorem wrap_begins (isWrap : (wrapText a next).isSome = true) : "--wrap".toList <+: a.toList := by
  rw [wrapText] at isWrap
  split at isWrap
  · rename_i text attached
    have start := withoutStart_isSome.mp (Option.isSome_of_mem attached)
    exact .trans (by decide) start
  · split at isWrap
    · rename_i same
      rw [same]
    · cases isWrap

theorem wrapText_eq (a : String) (next : Option String) : wrapText a next =
    match withoutStart ("--wrap" ++ "=") a with
    | some text => some text
    | none => if a = "--wrap" then next else none := rfl

/-- As an option of the loop, `--wrap` has this text. -/
theorem takeNamed_wrap (a : String) (next : Option String) : (takeNamed a next "--wrap" = none → wrapText a next = none) ∧
    ∀ value taken, takeNamed a next "--wrap" = some (.ok (value, taken)) → wrapText a next = some value := by
  have long : "--wrap".length ≠ 2 := by decide
  unfold takeNamed
  rw [wrapText_eq]
  cases attached : withoutStart ("--wrap" ++ "=") a with
  | some text =>
    refine ⟨nofun, fun value taken found => ?_⟩
    cases found
    rfl
  | none =>
    by_cases same : a = "--wrap"
    · simp only [if_pos same]
      split
      · exact ⟨nofun, nofun⟩
      · split
        · exact ⟨nofun, nofun⟩
        · refine ⟨nofun, fun value taken found => ?_⟩
          cases found
          rfl
    · simp only [if_neg same]
      split
      · exact ⟨fun _ => trivial, nofun⟩
      · rw [if_neg (by simp [long])]
        exact ⟨fun _ => trivial, nofun⟩

theorem takeHonored_wrap (took : takeHonored a next Honored.all = .ok (some (option, value, taken))) :
    wrapText a next = if option = .wrap then some value else none := by
  obtain ⟨name, member, named⟩ := takeOpt_some (takeHonored_some took).2
  split
  · rename_i isWrap
    rw [isWrap, Honored.names, List.mem_singleton] at member
    exact (takeNamed_wrap a next).2 value taken (member ▸ named)
  · rename_i other
    rw [← Option.not_isSome_iff_eq_none]
    intro isWrap
    obtain ⟨apart, apart'⟩ := (Honored.names_apart name member).2 other
    exact (List.prefix_or_prefix_of_prefix (takeNamed_begins named) (wrap_begins isWrap)).elim apart apart'

theorem wrapText_of_unhonored (took : takeHonored a next Honored.all = .ok none) : wrapText a next = none := by
  have unnamed := takeOpt_none (takeHonored_none took .wrap (by decide)) "--wrap" (by decide)
  exact (takeNamed_wrap a next).1 unnamed

theorem hyphen_of_honored (took : takeHonored a next Honored.all = .ok (some (option, value, taken))) :
    beginsWith a "-" = true := by
  obtain ⟨name, member, named⟩ := takeOpt_some (takeHonored_some took).2
  exact beginsWith_iff.mpr ((Honored.names_apart name member).1.trans (takeNamed_begins named))

theorem hyphen_of_licenses (licenses : (a = "--licenses" || beginsWith a "--licenses=" || a = "-L") = true) :
    beginsWith a "-" = true := by
  simp only [Bool.or_eq_true, decide_eq_true_eq] at licenses
  rcases licenses with (rfl | attached) | rfl
  · decide
  · exact beginsWith_iff.mpr (.trans (by decide) (beginsWith_iff.mp attached))
  · decide

theorem Honored.apply_ok (done : option.apply parseMemMb value out = .ok out') :
    out'.wrap = (if option = .wrap then some value else out.wrap) ∧ out'.script = out.script ∧
      out'.scriptArgs = out.scriptArgs := by
  cases option with
  | jobName | comment | wrap | exports => cases done; simp
  | nodes | cpusPerTask | mem | time | gres | array | dependency =>
    obtain ⟨_, _, done⟩ := except_bind_ok done
    cases done
    simp
  | qos | partition =>
    rw [apply] at done
    split at done <;> (cases done; simp [ParsedBatch.skip])

theorem readOption_none (read : readOption parseMemMb a next out = .ok none) : beginsWith a "-" = false := by
  obtain ⟨honored, took, read⟩ := except_bind_ok read
  split at read
  · obtain ⟨_, _, read⟩ := except_bind_ok read
    cases read
  · split at read
    · obtain ⟨_, _, read⟩ := except_bind_ok read
      cases read
    · split at read
      · split at read <;> cases read
      · rename_i other
        exact Bool.eq_false_iff.mpr other

theorem takeRawValue_taken (took : takeRawValue a next name = .ok (value, taken)) : taken = (withoutStart (name ++ "=") a).isNone := by
  unfold takeRawValue at took
  split at took
  · rename_i attached
    cases took
    rw [attached, Option.isNone_some]
  · rename_i unattached
    split at took
    · cases took
      rw [unattached, Option.isNone_none]
    · cases took

/-- A round on an option takes as many tokens as the table says, and keeps the text of `--wrap`. -/
theorem readOption_some (read : readOption parseMemMb a next out = .ok (some (out', taken))) :
    beginsWith a "-" = true ∧ taken = optionTakesNext a next ∧ out'.wrap = (wrapText a next).or out.wrap ∧
      out'.script = out.script ∧ out'.scriptArgs = out.scriptArgs := by
  obtain ⟨honored, took, read⟩ := except_bind_ok read
  rw [optionTakesNext, took]
  split at read
  · rename_i option value taken'
    obtain ⟨applied, done, read⟩ := except_bind_ok read
    cases read
    obtain ⟨wrap, script, scriptArgs⟩ := Honored.apply_ok done
    refine ⟨hyphen_of_honored took, rfl, ?_, script, scriptArgs⟩
    rw [wrap, takeHonored_wrap took]
    split <;> rfl
  · rw [wrapText_of_unhonored took, Option.none_or]
    split at read
    · rename_i licenses
      obtain ⟨⟨value, taken'⟩, raw, read⟩ := except_bind_ok read
      cases read
      refine ⟨hyphen_of_licenses licenses, ?_, rfl, rfl, rfl⟩
      rw [takeRawValue_taken raw]
      exact (if_pos licenses).symm
    · rename_i other
      split at read
      · rename_i hyphen
        refine ⟨hyphen, ?_⟩
        simp only [if_neg other]
        cases known : knownSkipFlag a with
        | some entry =>
          obtain ⟨name, reason⟩ := entry
          rw [known] at read
          cases read
          exact ⟨rfl, rfl, rfl, rfl⟩
        | none =>
          rw [known] at read
          cases read
          exact ⟨rfl, rfl, rfl, rfl⟩
      · cases read

variable {args positionals acc : List String}

theorem lastWrap_cons (options : List (String × Option String)) :
    lastWrap ((a, next) :: options) = (lastWrap options).or (wrapText a next) := by
  rw [lastWrap, List.filterMap_cons]
  split
  · rename_i unwrapped
    rw [unwrapped, Option.or_none, lastWrap]
  · rename_i text wrapped
    rw [wrapped, List.getLast?_cons, lastWrap]
    cases (options.filterMap fun option => wrapText option.1 option.2).getLast? with
    | none => rfl
    | some last => rfl

/-- The loop reads what the permuting reading by its table does. -/
theorem parseLoop_ok (read : parseLoop parseMemMb allowPositionals taken args out acc = .ok (out', positionals)) :
    out'.wrap = (lastWrap (loopTable.permutedOptions "--" taken args)).or out.wrap ∧ out'.script = out.script ∧
      out'.scriptArgs = out.scriptArgs ∧ positionals = acc ++ loopTable.permutedOperands "--" taken args := by
  induction args generalizing taken out acc with
  | nil =>
    cases read
    cases taken <;> simp [OptionTable.permutedOptions, OptionTable.permutedOperands, lastWrap]
  | cons a args ih =>
    cases taken with
    | true => exact ih read
    | false =>
      rw [parseLoop] at read
      rw [OptionTable.permutedOptions, OptionTable.permutedOperands]
      split at read
      · rename_i separator
        cases read
        rw [if_pos separator, if_pos separator]
        exact ⟨rfl, rfl, rfl, rfl⟩
      · rename_i apart
        rw [if_neg apart, if_neg apart]
        obtain ⟨result, round, read⟩ := except_bind_ok read
        split at read
        · rename_i out₁ taken₁
          obtain ⟨hyphen, takes, wrap, script, scriptArgs⟩ := readOption_some round
          obtain ⟨wrap', script', scriptArgs', operands⟩ := ih read
          have isOption : loopTable.isOption a = true := hyphen
          rw [if_pos isOption, if_pos isOption, lastWrap_cons, Option.or_assoc]
          rw [takes] at wrap' operands
          exact ⟨wrap'.trans (by rw [wrap]; rfl), script'.trans script, scriptArgs'.trans scriptArgs, operands⟩
        · have operand : ¬ loopTable.isOption a = true := Bool.eq_false_iff.mp (readOption_none round)
          rw [if_neg operand, if_neg operand]
          split at read
          · obtain ⟨wrap, script, scriptArgs, operands⟩ := ih read
            exact ⟨wrap, script, scriptArgs, by rw [operands, List.append_assoc, List.singleton_append]⟩
          · cases read

def ParsedBatch.operands (parsed : ParsedBatch) : List String := parsed.script.toList ++ parsed.scriptArgs

theorem parseSubmitFlags_ok (read : parseSubmitFlags parseMemMb args allowPositionals = .ok out) :
    out.wrap = lastWrap (loopTable.permutedOptions "--" false args) ∧
      out.operands = if allowPositionals then loopTable.permutedOperands "--" false args else [] := by
  obtain ⟨⟨out₁, positionals⟩, looped, read⟩ := except_bind_ok read
  cases read
  obtain ⟨wrap, script, scriptArgs, operands⟩ := parseLoop_ok looped
  rw [Option.or_none] at wrap
  rw [List.nil_append] at operands
  rw [← operands, ← wrap]
  cases positionals with
  | nil => simp [ParsedBatch.withPositionals, ParsedBatch.operands, script, scriptArgs]
  | cons first rest =>
    cases allowPositionals with
    | false => simp [ParsedBatch.withPositionals, ParsedBatch.operands, script, scriptArgs]
    | true =>
      rw [ParsedBatch.withPositionals]
      cases out₁.wrap with
      | none => simp [ParsedBatch.operands]
      | some text => simp [ParsedBatch.operands, script]

theorem ParsedBatch.commandTokens_eq (parsed : ParsedBatch) :
    parsed.commandTokens = parsed.wrap.elim parsed.operands fun text => ["/bin/sh", "-lc", text] := by
  rw [commandTokens, operands]
  cases parsed.wrap with
  | some text => rfl
  | none => cases parsed.script <;> rfl

end Options

namespace SubmitTool

variable {parseMemMb : String → Except String Nat} {tool : SubmitTool} {slurm : OptionTable String} {argv : List String}
  {parsed script cli : ParsedBatch}

theorem operands_mergeBatch (bare : script.operands = []) : (mergeBatch script cli).operands = cli.operands := by
  rw [ParsedBatch.operands, List.append_eq_nil_iff, Option.toList_eq_nil_iff] at bare
  have arguments : (if cli.scriptArgs.isEmpty then script.scriptArgs else cli.scriptArgs) = cli.scriptArgs := by
    rw [bare.2]
    split
    · rename_i empty
      exact (List.isEmpty_iff.mp empty).symm
    · rfl
  rw [ParsedBatch.operands, ParsedBatch.operands, mergeBatch, arguments, bare.1, Option.or_none]

theorem parse_ok (accepted : tool.parse parseMemMb argv = .ok parsed) :
    parsed.wrap = tool.wrap (loopTable.permutedOptions "--" false) argv ∧
      parsed.operands = loopTable.permutedOperands "--" false argv := by
  cases tool with
  | srun =>
    obtain ⟨out, flags, accepted⟩ := except_bind_ok accepted
    split at accepted
    · cases accepted
    · cases accepted
      obtain ⟨wrap, operands⟩ := parseSubmitFlags_ok flags
      exact ⟨wrap.trans (Option.or_none ..).symm, operands⟩
  | sbatch scriptBody =>
    obtain ⟨cli, flags, accepted⟩ := except_bind_ok accepted
    obtain ⟨merged, merges, accepted⟩ := except_bind_ok accepted
    obtain ⟨wrap, operands⟩ := parseSubmitFlags_ok flags
    have same : merged = parsed := by
      split at accepted
      · cases accepted
      · split at accepted
        · cases accepted
        · exact Except.ok.inj accepted
    subst same
    cases scriptBody with
    | none =>
      cases merges
      exact ⟨wrap.trans (Option.or_none ..).symm, operands⟩
    | some body =>
      obtain ⟨script, directives, merges⟩ := except_bind_ok merges
      cases merges
      obtain ⟨wrap', bare⟩ := parseSubmitFlags_ok directives
      refine ⟨?_, (operands_mergeBatch bare).trans operands⟩
      rw [mergeBatch, wrap, wrap']
      rfl

/-- What an accepted command line runs. -/
theorem commandTokens_eq (accepted : tool.parse parseMemMb argv = .ok parsed) :
    parsed.commandTokens = (tool.wrap (loopTable.permutedOptions "--" false) argv).elim
      (loopTable.permutedOperands "--" false argv) fun text => ["/bin/sh", "-lc", text] := by
  obtain ⟨wrap, operands⟩ := parse_ok accepted
  rw [ParsedBatch.commandTokens_eq, wrap, operands]

theorem runsCommand_of_readsAlike (accepted : tool.parse parseMemMb argv = .ok parsed) (alike : tool.ReadsAlike slurm argv) :
    tool.RunsCommand slurm argv parsed := by
  obtain ⟨wrap, operands⟩ := alike
  rw [RunsCommand, commandTokens_eq accepted, wrap]
  cases given : tool.givenWrap slurm argv with
  | some text => exact ⟨by simpa [given] using operands, rfl⟩
  | none =>
    rw [given] at operands
    exact OptionTable.UpTo.permutedOperands_eq operands

/-- The shell of `--wrap` runs for `--wrap` only, and then for the same text. -/
theorem wrap_of_runsCommand (accepted : tool.parse parseMemMb argv = .ok parsed) (shell : ¬ ["/bin/sh", "-lc"].Sublist argv)
    (runs : tool.RunsCommand slurm argv parsed) :
    tool.wrap (loopTable.permutedOptions "--" false) argv = tool.givenWrap slurm argv := by
  have apart {text : String} (among : ["/bin/sh", "-lc", text].Sublist argv) : False :=
    shell (.trans (List.sublist_append_left ["/bin/sh", "-lc"] [text]) among)
  rw [RunsCommand, commandTokens_eq accepted] at runs
  cases wrapped : tool.wrap (loopTable.permutedOptions "--" false) argv with
  | some text =>
    rw [wrapped] at runs
    cases given : tool.givenWrap slurm argv with
    | some text' =>
      rw [given] at runs
      have same : text = text' := by simpa using runs.2
      rw [same]
    | none =>
      rw [given] at runs
      have command : ["/bin/sh", "-lc", text] = slurm.operands "--" false argv := runs
      exact (apart (command ▸ (OptionTable.operands_suffix argv).sublist)).elim
  | none =>
    rw [wrapped] at runs
    cases given : tool.givenWrap slurm argv with
    | none => rfl
    | some text =>
      rw [given] at runs
      have command : loopTable.permutedOperands "--" false argv = ["/bin/sh", "-lc", text] := runs.2
      exact (apart (command ▸ OptionTable.permutedOperands_sublist argv)).elim

theorem readsAlike_of_runsCommand (accepted : tool.parse parseMemMb argv = .ok parsed) (unmistakable : Unmistakable slurm argv)
    (runs : tool.RunsCommand slurm argv parsed) : tool.ReadsAlike slurm argv := by
  have wrap := wrap_of_runsCommand accepted unmistakable.1 runs
  refine ⟨wrap, ?_⟩
  rw [RunsCommand, commandTokens_eq accepted, wrap] at runs
  cases given : tool.givenWrap slurm argv with
  | some text =>
    rw [given] at runs
    exact runs.1
  | none =>
    rw [given] at runs
    exact (OptionTable.permutedOperands_eq_iff (OptionTable.operands_suffix argv) unmistakable.2).mp runs

/-- An accepted command line runs the command that the user wrote if, and but for chance only
if, the loop and Slurm read it alike. -/
theorem runsCommand_iff (accepted : tool.parse parseMemMb argv = .ok parsed) :
    (tool.ReadsAlike slurm argv → tool.RunsCommand slurm argv parsed) ∧
      (Unmistakable slurm argv → tool.RunsCommand slurm argv parsed → tool.ReadsAlike slurm argv) :=
  ⟨runsCommand_of_readsAlike accepted, readsAlike_of_runsCommand accepted⟩

def commonOptions : OptionTable String where
  isOption a := beginsWith a "-" && a ≠ "-"
  takesNext a _ := a ∈ ["-n", "--ntasks", "-J", "--job-name", "-o", "--output", "--wrap"]

def noSize (raw : String) : Except String Nat := .error s!"invalid --mem value '{raw}'"

def hostnameSpec : ParsedBatch where
  skips := [⟨"-n=4", "ntasks is not mapped; use -N/-c"⟩]
  script := some "hostname"
  scriptArgs := ["-f"]

def trainingSpec : ParsedBatch where
  skips := [⟨"--epochs=10", "unknown Slurm option (not mapped to veloce submit)"⟩]
  script := some "python"
  scriptArgs := ["train.py"]

theorem hostname_runs : srun.RunsCommand commonOptions ["-n", "4", "--", "hostname", "-f"] hostnameSpec :=
  (runsCommand_iff (show srun.parse noSize ["-n", "4", "--", "hostname", "-f"] = .ok hostnameSpec from rfl)).1
    ⟨rfl, .option (by decide) rfl .separator⟩

/-- The option behind the command is lost with its value. -/
theorem training_loses_epochs : srun.parse noSize ["python", "train.py", "--epochs", "10"] = .ok trainingSpec ∧
    ¬ srun.RunsCommand commonOptions ["python", "train.py", "--epochs", "10"] trainingSpec := by
  refine ⟨rfl, fun runs => ?_⟩
  have short : ["python", "train.py"] = ["python", "train.py", "--epochs", "10"] := runs
  exact absurd short (by decide)

end SubmitTool

end Veloce
