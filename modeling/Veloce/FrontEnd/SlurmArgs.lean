import Veloce.FrontEnd.ArrayRange
import Veloce.FrontEnd.Dependency
import Veloce.Worker.JobEnv

/-! The arguments of `sbatch` and `srun`: options that Veloce honors, options that it skips with a
warning, and the command. -/

namespace Veloce

structure SubmitSpec where
  jobName : Option String := none
  comment : Option String := none
  nodes : Option Nat := none
  cores : Option Nat := none
  memMb : Option Nat := none
  walltimeSecs : Option Nat := none
  gres : List (String × Nat) := []
  array : Option String := none
  dependency : Option String := none
  qos : Option String := none
  extraEnv : List (String × String) := []

structure Skip where
  option : String
  reason : String

structure ParsedBatch where
  spec : SubmitSpec := {}
  skips : List Skip := []
  wrap : Option String := none
  script : Option String := none
  scriptArgs : List String := []

def ParsedBatch.skip (out : ParsedBatch) (option reason : String) : ParsedBatch :=
  { out with skips := out.skips ++ [⟨option, reason⟩] }

def withoutStart (start text : String) : Option String :=
  if beginsWith text start then some (String.ofList (text.toList.drop start.length)) else none

section Values

def parseGresCount (count : List Char) (piece : String) : Except String Nat :=
  match parseU64 count with
  | some value => .ok value
  | none => .error s!"invalid --gres count in '{piece}'"

/-- The pairs that are honored, and what is skipped. -/
def parseGresPiece (piece : String) : Except String (List (String × Nat) × List Skip) :=
  match piece.toList.splitOn ':' with
  | [name, count] => do
    return ([(String.ofList name, ← parseGresCount count piece)], [])
  | [name, kind, count] => do
    let _ ← parseGresCount count piece
    let name := String.ofList name
    let kind := String.ofList kind
    return ([], [⟨s!"--gres={piece}",
      s!"typed GRES '{name}:{kind}' is not a Veloce GRES key; use --gres {name}:N"⟩])
  | [count] =>
    if count.all Char.isDigit then do return ([("gpu", ← parseGresCount count piece)], [])
    else .error s!"invalid --gres value '{piece}'"
  | _ => .error s!"invalid --gres value '{piece}'"

def parseGres (raw : String) : Except String (List (String × Nat) × List Skip) := do
  let pieces ← (dependencyPieces raw).mapM parseGresPiece
  return (pieces.flatMap Prod.fst, pieces.flatMap Prod.snd)

def exportPiece (piece : String) : List (String × String) × List Skip :=
  let upper := piece.map Char.toUpper
  if upper = "NONE" then ([], [])
  else if upper = "ALL" then
    ([], [⟨s!"--export={piece}", "Veloce does not inherit the submitter host environment"⟩])
  else
    match splitOnce '=' piece with
    | some (key, value) => ([(key, value)], [])
    | none => ([], [⟨s!"--export={piece}", "bare --export NAME is not mapped; use NAME=value"⟩])

def applyExport (value : String) : List (String × String) × List Skip :=
  let upper := value.map Char.toUpper
  if upper = "NONE" || upper = "NONE," || value = "" then ([], [])
  else if upper = "ALL" || beginsWith upper "ALL," then
    ([], [⟨s!"--export={value}", "Veloce does not inherit the submitter host environment (--export=ALL)"⟩])
  else
    let pieces := (dependencyPieces value).map exportPiece
    (pieces.flatMap Prod.fst, pieces.flatMap Prod.snd)

def veloceQos (value : String) : Option String :=
  let lower := value.map Char.toLower
  if lower ∈ ["interactive", "production", "preemptible", "background"] then some lower else none

def parseOptionUsize (value name : String) : Except String Nat :=
  match parseU64 value.toList with
  | some number => .ok number
  | none => .error s!"invalid {name} value '{value}'"

def parseOptionU32 (value name : String) : Except String Nat :=
  match parseU32 value with
  | some number => .ok number
  | none => .error s!"invalid {name} value '{value}'"

end Values

/-- The options with a meaning for Veloce, in the order in which the loop tries them. -/
inductive Honored where
  | jobName
  | nodes
  | cpusPerTask
  | mem
  | time
  | gres
  | array
  | dependency
  | comment
  | wrap
  | qos
  | partition
  | exports
deriving DecidableEq

namespace Honored

def all : List Honored :=
  [jobName, nodes, cpusPerTask, mem, time, gres, array, dependency, comment, wrap, qos, partition, exports]

def names : Honored → List String
  | jobName => ["-J", "--job-name"]
  | nodes => ["-N", "--nodes"]
  | cpusPerTask => ["-c", "--cpus-per-task"]
  | mem => ["--mem"]
  | time => ["-t", "--time"]
  | gres => ["--gres"]
  | array => ["-a", "--array"]
  | dependency => ["-d", "--dependency"]
  | comment => ["--comment"]
  | wrap => ["--wrap"]
  | qos => ["--qos"]
  | partition => ["-p", "--partition"]
  | exports => ["--export"]

/-- What the option does with its value. The size of `--mem` is computed with floating point
numbers, by the parameter. -/
def apply (parseMemMb : String → Except String Nat) (value : String) (out : ParsedBatch) : Honored → Except String ParsedBatch
  | jobName => .ok { out with spec := { out.spec with jobName := some value } }
  | nodes => do
    let number ← parseOptionUsize value "--nodes"
    return { out with spec := { out.spec with nodes := some number } }
  | cpusPerTask => do
    let number ← parseOptionU32 value "--cpus-per-task"
    return { out with spec := { out.spec with cores := some number } }
  | mem => do
    let size ← parseMemMb value
    return { out with spec := { out.spec with memMb := some size } }
  | time => do
    let seconds ← parseSlurmTime value
    return { out with spec := { out.spec with walltimeSecs := some seconds } }
  | gres => do
    let (honored, skips) ← parseGres value
    return { out with spec := { out.spec with gres := out.spec.gres ++ honored }, skips := out.skips ++ skips }
  | array => do
    validateArray value
    return { out with spec := { out.spec with array := some value } }
  | dependency => do
    validateDependency value
    return { out with spec := { out.spec with dependency := some value } }
  | comment => .ok { out with spec := { out.spec with comment := some value } }
  | wrap => .ok { out with wrap := some value }
  | qos =>
    match veloceQos value with
    | some name => .ok { out with spec := { out.spec with qos := some name } }
    | none => .ok (out.skip s!"--qos={value}"
        "not a Veloce QoS (interactive, production, preemptible, background)")
  | partition =>
    match veloceQos value with
    | some name => .ok { out with spec := { out.spec with qos := out.spec.qos.or (some name) } }
    | none => .ok (out.skip s!"--partition={value}" "Veloce has no Slurm partitions; use --qos")
  | exports =>
    let (env, skips) := applyExport value
    .ok { out with spec := { out.spec with extraEnv := out.spec.extraEnv ++ env }, skips := out.skips ++ skips }

end Honored

section Tokens

/-- The value of the option with this name, if the token is it, and whether the value is the
next token. -/
def takeNamed (a : String) (next : Option String) (name : String) : Option (Except String (String × Bool)) :=
  match withoutStart (name ++ "=") a with
  | some value => some (.ok (value, false))
  | none =>
    if a = name then
      match next with
      | none => some (.error s!"missing value for {name}")
      | some value =>
        if beginsWith value "-" && name ≠ "--comment" then some (.error s!"missing value for {name}")
        else some (.ok (value, true))
    else
      -- Bundled short options: `-N2`.
      match withoutStart name a with
      | none => none
      | some rest =>
        if name.length = 2 && beginsWith name "-" && !beginsWith name "--" && rest ≠ "" && !beginsWith rest "-" then
          some (.ok (rest, false))
        else none

def takeOpt (a : String) (next : Option String) : (names : List String) → Except String (Option (String × Bool))
  | [] => .ok none
  | name :: names =>
    match takeNamed a next name with
    | some (.ok found) => .ok (some found)
    | some (.error error) => .error error
    | none => takeOpt a next names

/-- The first of the options that the token is, with its value. -/
def takeHonored (a : String) (next : Option String) : List Honored → Except String (Option (Honored × String × Bool))
  | [] => .ok none
  | option :: options =>
    match takeOpt a next option.names with
    | .error error => .error error
    | .ok (some (value, taken)) => .ok (some (option, value, taken))
    | .ok none => takeHonored a next options

def takeRawValue (a : String) (next : Option String) (name : String) : Except String (String × Bool) :=
  match withoutStart (name ++ "=") a with
  | some value => .ok (value, false)
  | none =>
    match next with
    | some value => .ok (value, true)
    | none => .error s!"missing value for {name}"

def skipTable : List (List String × String) :=
  [(["--account", "-A"], "Slurm accounts are not a Veloce object"),
    (["--constraint", "-C"], "node features/constraints are not mapped"),
    (["--nodelist", "-w"], "explicit nodelist is not mapped"),
    (["--exclude", "-x"], "node exclude lists are not mapped"),
    (["--exclusive"], "exclusive node allocation is not a Veloce submit flag"),
    (["--oversubscribe"], "oversubscribe is not a Veloce submit flag"),
    (["--contiguous"], "contiguous allocation is not a Veloce submit flag"),
    (["--switches"], "topology/switches are intentionally out of scope"),
    (["--cpu-bind", "--cpu_bind"], "CPU bind is not mapped"),
    (["--mem-bind", "--mem_bind"], "memory bind is not mapped"),
    (["--hint"], "CPU hint is not mapped"),
    (["--ntasks-per-socket"], "socket topology is not mapped"),
    (["--ntasks-per-node"], "ntasks-per-node is not mapped"),
    (["-n", "--ntasks"], "ntasks is not mapped; use -N/-c"),
    (["--mem-per-cpu"], "mem-per-cpu is not mapped; use --mem"),
    (["--mail-user"], "mail is not mapped"),
    (["--mail-type"], "mail is not mapped"),
    (["--begin"], "deferred start (--begin) is not mapped"),
    (["--requeue"], "requeue is not mapped"),
    (["--signal"], "job signals are not mapped"),
    (["--open-mode"], "log open-mode is not mapped"),
    (["-o", "--output"], "stdout path is not mapped"),
    (["-e", "--error"], "stderr path is not mapped"),
    (["-i", "--input"], "stdin path is not mapped"),
    (["--get-user-env"], "host env import is not mapped"),
    (["--network"], "network hints are not mapped"),
    (["--mpi"], "MPI plugin selection is not mapped"),
    (["--spank"], "SPANK plugins are not supported"),
    (["-D", "--chdir"], "chdir is not mapped"),
    (["--gpus", "--gpus-per-node"], "use --gres gpu:N"),
    (["--tmp"], "tmp disk GRES is not mapped"),
    (["--profile"], "Slurm acct_gather profile is not mapped")]

/-- The canonical name of the flag, and the reason to skip it. -/
def knownSkipFlag (a : String) : Option (String × String) :=
  let key := (splitOnce '=' a).elim a Prod.fst
  (skipTable.find? fun entry => key ∈ entry.1).map fun entry => (entry.1.headD "", entry.2)

def followedByValue (next : Option String) : Bool := next.any fun value => !beginsWith value "-"

/-- Whether a flag with this canonical name is two tokens long. -/
def skipFlagArity (a : String) (next : Option String) (canonical : String) : Bool :=
  if '=' ∈ a.toList then false
  else if canonical ∈ ["--exclusive", "--oversubscribe", "--contiguous", "--requeue", "--get-user-env", "--spank"] then
    false
  else followedByValue next

/-- Whether a flag that is in no table is two tokens long. -/
def skipUnknownFlag (a : String) (next : Option String) : Bool :=
  if '=' ∈ a.toList then false else if beginsWith a "--" then followedByValue next else false

def joinTokens (a : String) (next : Option String) (taken : Bool) : String :=
  if taken then a ++ "=" ++ next.getD "" else a

def displaySkipped (a : String) (next : Option String) (taken : Bool) : String :=
  replaceAll (joinTokens a next taken) "==" "="

end Tokens

section Loop

variable (parseMemMb : String → Except String Nat)

/-- One round of the loop on an option, and whether it has taken the next token, too; `none` on
a token that is no option. -/
def readOption (a : String) (next : Option String) (out : ParsedBatch) : Except String (Option (ParsedBatch × Bool)) := do
  match ← takeHonored a next Honored.all with
  | some (option, value, taken) => return some (← option.apply parseMemMb value out, taken)
  | none =>
    if a = "--licenses" || beginsWith a "--licenses=" || a = "-L" then do
      let (value, taken) ← takeRawValue a next "--licenses"
      return some (out.skip s!"--licenses={value}"
        "Slurm license tokens are not FlexLM; use Veloce license wait when you want a real checkout", taken)
    else if beginsWith a "-" then
      match knownSkipFlag a with
      | some (name, reason) =>
        let taken := skipFlagArity a next name
        return some (out.skip (displaySkipped a next taken) reason, taken)
      | none =>
        let taken := skipUnknownFlag a next
        return some (out.skip (joinTokens a next taken) "unknown Slurm option (not mapped to veloce submit)", taken)
    else return none

/-- The loop; `taken` says that the first token is the value of the option before it. -/
def parseLoop (allowPositionals : Bool) :
    (taken : Bool) → (args : List String) → ParsedBatch → (positionals : List String) → Except String (ParsedBatch × List String)
  | _, [], out, positionals => .ok (out, positionals)
  | true, _ :: args, out, positionals => parseLoop allowPositionals false args out positionals
  | false, a :: args, out, positionals =>
    if a = "--" then .ok (out, positionals ++ args)
    else do
      match ← readOption parseMemMb a args.head? out with
      | some (out, taken) => parseLoop allowPositionals taken args out positionals
      | none =>
        if allowPositionals then parseLoop allowPositionals false args out (positionals ++ [a])
        else .error s!"unexpected token '{a}' in #SBATCH"

/-- The positional tokens are the script and its arguments, or arguments only behind `--wrap`. -/
def ParsedBatch.withPositionals (out : ParsedBatch) (allowPositionals : Bool) (positionals : List String) : ParsedBatch :=
  match positionals with
  | [] => out
  | script :: rest =>
    if !allowPositionals then out
    else if out.wrap.isSome then { out with scriptArgs := positionals }
    else { out with script := some script, scriptArgs := rest }

def parseSubmitFlags (args : List String) (allowPositionals : Bool) : Except String ParsedBatch := do
  let (out, positionals) ← parseLoop parseMemMb allowPositionals false args {} []
  return out.withPositionals allowPositionals positionals

end Loop

section Script

/-- Tokens between blanks; quotes are taken off. -/
def shellishSplit : (quote : Option Char) → (cur : List Char) → List Char → List String
  | _, cur, [] => if cur.isEmpty then [] else [String.ofList cur]
  | some q, cur, c :: chars =>
    if c = q then shellishSplit none cur chars else shellishSplit (some q) (cur ++ [c]) chars
  | none, cur, c :: chars =>
    if c = '\'' || c = '"' then shellishSplit (some c) cur chars
    else if isWhitespace c then
      if cur.isEmpty then shellishSplit none [] chars else String.ofList cur :: shellishSplit none [] chars
    else shellishSplit none (cur ++ [c]) chars

def directiveArgs : (lines : List String) → List String
  | [] => []
  | trimmed :: lines =>
    if trimmed = "" || beginsWith trimmed "#!" then directiveArgs lines
    else
      match withoutStart "#SBATCH" trimmed with
      | some rest => shellishSplit none [] (trimWhitespace rest).toList ++ directiveArgs lines
      | none => if beginsWith trimmed "#" then directiveArgs lines else []

/-- Lines are trimmed, so it does not matter that `str::lines` takes off carriage returns. -/
def sbatchLinesToArgs (body : String) : List String := directiveArgs ((splitChar '\n' body).map trimWhitespace)

/-- The command line goes before the script. -/
def mergeBatch (script cli : ParsedBatch) : ParsedBatch where
  spec :=
    { jobName := cli.spec.jobName.or script.spec.jobName
      comment := cli.spec.comment.or script.spec.comment
      nodes := cli.spec.nodes.or script.spec.nodes
      cores := cli.spec.cores.or script.spec.cores
      memMb := cli.spec.memMb.or script.spec.memMb
      walltimeSecs := cli.spec.walltimeSecs.or script.spec.walltimeSecs
      gres := if cli.spec.gres.isEmpty then script.spec.gres else cli.spec.gres
      array := cli.spec.array.or script.spec.array
      dependency := cli.spec.dependency.or script.spec.dependency
      qos := cli.spec.qos.or script.spec.qos
      extraEnv := script.spec.extraEnv ++ cli.spec.extraEnv }
  skips := script.skips ++ cli.skips
  wrap := cli.wrap.or script.wrap
  script := cli.script.or script.script
  scriptArgs := if cli.scriptArgs.isEmpty then script.scriptArgs else cli.scriptArgs

def ParsedBatch.commandTokens (parsed : ParsedBatch) : List String :=
  match parsed.wrap with
  | some wrap => ["/bin/sh", "-lc", wrap]
  | none =>
    match parsed.script with
    | some script => script :: parsed.scriptArgs
    | none => parsed.scriptArgs

variable (parseMemMb : String → Except String Nat)

/-- With the directives of the script, when there is one. -/
def mergeScript (cli : ParsedBatch) : (scriptBody : Option String) → Except String ParsedBatch
  | none => .ok cli
  | some body => do
    let fromScript ← parseSubmitFlags parseMemMb (sbatchLinesToArgs body) false
    return mergeBatch fromScript cli

def parseSbatch (args : List String) (scriptBody : Option String) : Except String ParsedBatch := do
  let cli ← parseSubmitFlags parseMemMb args true
  let parsed ← mergeScript parseMemMb cli scriptBody
  if parsed.wrap.isSome && parsed.script.isSome then .error "sbatch: cannot combine --wrap with a batch script"
  else if parsed.wrap.isNone && parsed.script.isNone then .error "sbatch: missing batch script or --wrap"
  else .ok parsed

def parseSrun (args : List String) : Except String ParsedBatch := do
  let parsed ← parseSubmitFlags parseMemMb args true
  if parsed.commandTokens.isEmpty && parsed.wrap.isNone then .error "srun: missing command" else .ok parsed

end Script

end Veloce
