import Veloce.Common.Types

/-! The admission policy: allowed binaries and blocked environment variables. -/

namespace Veloce

abbrev Refusal := Nat × String

def beginsWith (text start : String) : Bool := start.toList.isPrefixOf text.toList

theorem beginsWith_iff {text start : String} : beginsWith text start = true ↔ start.toList <+: text.toList :=
  List.isPrefixOf_iff_prefix

def splitChar (char : Char) (text : String) : List String := (text.toList.splitOn char).map String.ofList

/-- `str::trim_start_matches`: the pattern is taken off as often as it is there. -/
def trimStart (start : List Char) : (fuel : Nat) → List Char → List Char
  | 0, text => text
  | fuel + 1, text =>
    if !start.isEmpty && start.isPrefixOf text then trimStart start fuel (text.drop start.length) else text

def trimStartMatches (text start : String) : String :=
  String.ofList (trimStart start.toList text.length text.toList)

theorem trimStart_append (start rest : List Char) (fuel : Nat) (nonempty : start ≠ []) :
    trimStart start (fuel + 1) (start ++ rest) = trimStart start fuel rest := by
  have empty : start.isEmpty = false := by simpa using nonempty
  simp [trimStart, empty]

theorem trimStart_of_not_prefix {start text : List Char} (apart : start.isPrefixOf text = false) (fuel : Nat) :
    trimStart start fuel text = text := by
  cases fuel with
  | zero => rfl
  | succ fuel => simp [trimStart, apart]

theorem trimStartMatches_append {start rest : String} (nonempty : start ≠ "") (apart : beginsWith rest start = false) :
    trimStartMatches (start ++ rest) start = rest := by
  have long : (start ++ rest).length = (start ++ rest).length - 1 + 1 := by
    have positive : 0 < start.length := by
      rw [← String.length_toList, List.length_pos_iff]
      exact fun empty => nonempty (String.toList_inj.mp empty)
    rw [String.length_append]
    omega
  have chars : start.toList ≠ [] := fun empty => nonempty (String.toList_inj.mp empty)
  rw [trimStartMatches, long, String.toList_append, trimStart_append _ _ _ chars,
    trimStart_of_not_prefix apart, String.ofList_toList]

structure JobExecutionOptions where
  inheritHostEnv : Bool
  envAllowlist : Option (List String)
  jobProfile : Option String

def isBlockedEnvKey (key : String) : Bool :=
  key ∈ ["LD_PRELOAD", "LD_LIBRARY_PATH", "BASH_ENV", "ENV", "PERL5OPT", "PYTHONPATH"] || beginsWith key "DYLD_"

/-- The first blocked variable that the job does not allow itself is the error. -/
def validateSubmittedEnvVars (envVars : List (String × String)) (job : JobExecutionOptions)
    (clusterAllowlistEnabled : Bool) : Except String Unit :=
  if clusterAllowlistEnabled then
    match envVars.find? fun entry => isBlockedEnvKey entry.1 && entry.1 ∉ job.envAllowlist.getD [] with
    | some entry => .error s!"Environment variable '{entry.1}' is blocked by cluster policy"
    | none => .ok ()
  else .ok ()

def validateBinaryPrefix (binary : String) (allowed : List String) : Except String Unit :=
  if allowed.isEmpty || allowed.any (fun start => !start.isEmpty && beginsWith binary start) then .ok ()
  else .error s!"Binary '{binary}' is not allowed by cluster policy (allowed_binaries_prefixes)"

structure AdmissionConfig where
  allowedBinariesPrefixes : List String := []
  /-- `VELOCE_JOB_ENV_ALLOWLIST` is set. -/
  envAllowlistEnabled : Bool := false

def validateJobSubmission (config : AdmissionConfig) (binary : String) (envVars : List (String × String))
    (exec : JobExecutionOptions) : Except String Unit := do
  validateBinaryPrefix binary config.allowedBinariesPrefixes
  validateSubmittedEnvVars envVars exec config.envAllowlistEnabled

end Veloce
