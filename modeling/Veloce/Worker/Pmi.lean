import Veloce.Collections.Pieces
import Veloce.Handlers.Launch
import Veloce.Worker.JobEnv

/-! The requests of the PMI server of a step, in its two dialects. -/

namespace Veloce

open Collections

def splitOnce (char : Char) (text : String) : Option (String × String) :=
  match text.toList.span (· ≠ char) with
  | (_, []) => none
  | (before, _ :: after) => some (String.ofList before, String.ofList after)

section SplitOnce

variable {sep : Char} {text before after : List Char}

theorem splitOnce_of_not_mem (apart : sep ∉ text) : splitOnce sep (String.ofList text) = none := by
  rw [splitOnce, String.toList_ofList, span_of_not_mem apart]

theorem splitOnce_append (apart : sep ∉ before) : splitOnce sep (String.ofList (before ++ sep :: after)) =
    some (String.ofList before, String.ofList after) := by
  rw [splitOnce, String.toList_ofList, span_append apart]

theorem splitOnce_cases (sep : Char) (text : String) : (sep ∉ text.toList ∧ splitOnce sep text = none) ∨
    ∃ before after, text.toList = before ++ sep :: after ∧ sep ∉ before ∧
      splitOnce sep text = some (String.ofList before, String.ofList after) := by
  by_cases member : sep ∈ text.toList
  · right
    obtain ⟨before, after, same, apart⟩ := List.eq_append_cons_of_mem member
    refine ⟨before, after, same, apart, ?_⟩
    rw [← splitOnce_append apart, ← same, String.ofList_toList]
  · left
    refine ⟨member, ?_⟩
    rw [← String.ofList_toList (s := text)]
    exact splitOnce_of_not_mem member

end SplitOnce

def containsText (text pattern : String) : Bool := decide (pattern.toList <:+: text.toList)

def parseU32 (text : String) : Option Nat := (parseU64 text.toList).filter (· < 2 ^ 32)

/-- One semicolon makes a request one of PMI-2. -/
def pmiDelimiter (req : String) : Char := if ';' ∈ req.toList then ';' else ' '

def addPmiField (parts : HashMap String String) (token : String) : HashMap String String :=
  match splitOnce '=' token with
  | some (key, value) => parts.insert (trimWhitespace key) (trimWhitespace value)
  | none => parts

def pmiFields (req : String) : HashMap String String := (splitChar (pmiDelimiter req) req).foldl addPmiField ∅

/-- What the server does on a request: answer at once, tell the controller that a rank entered
the barrier and wait, hand a value on, or ask for one and wait. -/
inductive PmiAction where
  | answer (response : String)
  | barrier (rank : Nat) (response : String)
  | put (rank : Nat) (key value response : String)
  | get (rank : Nat) (key cmd : String)
deriving DecidableEq

def pmiGetResponse (cmd value : String) : String :=
  if containsText cmd "get" then "cmd=kvs-get-response;rc=0;value=" ++ value ++ ";\n"
  else "cmd=get_response rc=0 value=" ++ value ++ "\n"

def pmiRank (parts : HashMap String String) : Nat := ((parts.get? "rank").bind parseU32).getD 0

/-- `process_pmi_request` up to the messages it sends and waits for. -/
def processPmiRequest (req : String) : PmiAction :=
  let parts := pmiFields req
  let rank := pmiRank parts
  let key := parts.getD "key" "unknown"
  match parts.get? "cmd" with
  | none => .answer "cmd=error rc=1 msg=no_cmd\n"
  | some cmd =>
    match cmd with
    | "init" => .answer "cmd=response_to_init pmi_version=1 pmi_subversion=1 rc=0\n"
    | "init-v1-req" => .answer "cmd=init-v1-req-response;rc=0;pmi_version=2;pmi_subversion=0;\n"
    | "get_maxes" | "get-maxes" =>
      .answer "cmd=get_maxes_response kvsname_max=255 keylen_max=255 vallen_max=1024 rc=0\n"
    | "get_my_kvsname" | "kvs-get-my-name" => .answer "cmd=get_my_kvsname_response kvsname=veloce_step rc=0\n"
    | "get_appnum" | "appnum-get" => .answer "cmd=get_appnum_response appnum=0 rc=0\n"
    | "get_universe_size" | "universe-size-get" => .answer "cmd=get_universe_size_response size=1 rc=0\n"
    | "commit" | "kvs-commit" => .answer "cmd=commit_response rc=0\n"
    | "barrier_in" | "kvs-fence" =>
      .barrier rank (if containsText cmd "fence" then "cmd=kvs-fence-response;rc=0;\n" else "cmd=barrier_out\n")
    | "put" | "kvs-put" =>
      .put rank key (parts.getD "value" "")
        (if containsText cmd "put" then "cmd=kvs-put-response;rc=0;\n" else "cmd=put_response rc=0\n")
    | "get" | "kvs-get" => .get rank key cmd
    | "finalize" | "job-disconnect" =>
      .answer (if containsText cmd "disconnect" then "cmd=job-disconnect-response;rc=0;\n" else "cmd=finalize_response rc=0\n")
    | "info" => .answer "cmd=info-response;rc=0;\n"
    | _ => .answer "cmd=error rc=1 msg=unknown_cmd\n"

def barrierRank (req : String) : Option Nat :=
  match processPmiRequest req with
  | .barrier rank _ => some rank
  | _ => none

end Veloce
