import Veloce.Handlers.Desk
import Veloce.Handlers.Launch
import Veloce.Worker.Pmi

/-! The option `--dependency` of `veloce submit` and `sbatch`, down to the scheduler. -/

namespace Veloce

open Collections

def dependencyPieces (text : String) : List String :=
  ((text.toList.splitOn ',').map fun piece => trimWhitespace (String.ofList piece)).filter (· ≠ "")

def validatePiece (piece : String) : Except String Unit :=
  match splitOnce ':' piece with
  | none => .error s!"malformed --dependency '{piece}'"
  | some (kind, rest) =>
    if kind = "afterok" ∨ kind = "afterany" ∨ kind = "afternotok" then
      if rest = "" ∨ ¬ rest.toList.all (fun char => char.isDigit || char = ':') then
        .error s!"malformed --dependency '{piece}'"
      else .ok ()
    else .error s!"unsupported --dependency kind '{kind}' (honor afterok, afterany, afternotok only)"

def validateDependency (text : String) : Except String Unit := (dependencyPieces text).forM validatePiece

/-- What `veloce submit` sends: raw ids and specifications. -/
def submitDependency (text : String) : Option (List JobId) × Option (List String) :=
  let specs := dependencyPieces text
  let ids := specs.filterMap fun piece =>
    match DependencySpec.parse piece with
    | .ok spec => some spec.parentId
    | .error _ => none
  (if ids.isEmpty then none else some ids, if specs.isEmpty then none else some specs)

inductive DependencyFrontEnd where
  | submit
  | sbatch

def SubmitMessage.withDependency (msg : SubmitMessage) (text : String) : SubmitMessage :=
  { msg with dependencies := (submitDependency text).1, dependencySpecs := (submitDependency text).2 }

/-- The message that a front end sends for the text; `sbatch` calls `veloce submit` with
the text that it has checked. -/
def DependencyFrontEnd.send (msg : SubmitMessage) (text : String) : DependencyFrontEnd → Except String SubmitMessage
  | .submit => .ok (msg.withDependency text)
  | .sbatch => do
    validateDependency text
    .ok (msg.withDependency text)

section Meaning

def DependencySpec.MetBy (spec : DependencySpec) (jobs : HashMap JobId JobInfo) (dbCache : HashMap JobId JobStatus) :
    Prop :=
  spec.parentId < 2 ^ 64 ∧ ∃ status ∈ parentStatus jobs dbCache spec.parentId, spec.condition.Met status

def DependencyCondition.named (name : List Char) : Option DependencyCondition :=
  match String.ofList (name.map lowerAscii) with
  | "afterok" => some .afterOk
  | "afternotok" => some .afterNotOk
  | "afterany" => some .afterAny
  | _ => none

def listedId (text : List Char) : Option Nat :=
  let digits := match text with
    | '+' :: rest => rest
    | _ => text
  if digits.isEmpty || !digits.all Char.isDigit then none
  else some (digits.foldl (fun value digit => value * 10 + (digit.toNat - '0'.toNat)) 0)

/-- The parents of a piece: a condition, and any number of ids. -/
def listedIn (piece : String) : List DependencySpec :=
  match piece.toList.splitOn ':' with
  | [] => []
  | name :: ids =>
    match DependencyCondition.named name with
    | none => []
    | some condition => (ids.filterMap listedId).map fun parentId => ⟨parentId, condition⟩

/-- The parents that a text lists, each with its own condition. -/
def listedParents (text : String) : List DependencySpec := (dependencyPieces text).flatMap listedIn

/-- No state meets all of them: an id is too large, or a parent has to succeed and to fail. -/
def Contradictory (parents : List DependencySpec) : Prop :=
  (∃ parent ∈ parents, 2 ^ 64 ≤ parent.parentId) ∨
    ∃ parent ∈ parents, ⟨parent.parentId, .afterOk⟩ ∈ parents ∧ ⟨parent.parentId, .afterNotOk⟩ ∈ parents

/-- Whoever is listed at all has to succeed. -/
def AllAfterOk (parents : List DependencySpec) : Prop :=
  ∀ parent ∈ parents, ⟨parent.parentId, .afterOk⟩ ∈ parents

end Meaning

section Pieces

variable {text : String} {piece : String} {spec : DependencySpec}

theorem parse_eq : DependencySpec.parse piece =
    match piece.toList.splitOn ':' with
    | [name, parent] =>
      match DependencyCondition.named name with
      | none => .error s!"Unknown dependency condition '{String.ofList name}'"
      | some condition =>
        match parseU64 parent with
        | none => .error s!"Invalid parent job ID '{String.ofList parent}'"
        | some parentId => .ok ⟨parentId, condition⟩
    | _ => .error s!"Invalid dependency spec format '{piece}'. Expected condition:parent_id" := rfl

theorem parse_ok_iff : DependencySpec.parse piece = .ok spec ↔ ∃ name parent, piece.toList.splitOn ':' = [name, parent] ∧
    DependencyCondition.named name = some spec.condition ∧ parseU64 parent = some spec.parentId := by
  rw [parse_eq]
  split
  · rename_i name parent pieces
    have single : (∃ name' parent', [name, parent] = [name', parent'] ∧
        DependencyCondition.named name' = some spec.condition ∧ parseU64 parent' = some spec.parentId) ↔
        DependencyCondition.named name = some spec.condition ∧ parseU64 parent = some spec.parentId := by
      constructor
      · rintro ⟨_, _, same, facts⟩
        cases same
        exact facts
      · exact fun facts => ⟨name, parent, rfl, facts⟩
    rw [pieces, single]
    obtain ⟨parentId, condition⟩ := spec
    cases DependencyCondition.named name with
    | none => simp
    | some condition =>
      cases parseU64 parent with
      | none => simp
      | some parentId => simp [and_comm]
  · rename_i other
    refine ⟨fun done => (by cases done), ?_⟩
    rintro ⟨name, parent, same, _⟩
    exact absurd same (other name parent)

theorem parseU64_eq (digits : List Char) : parseU64 digits = (listedId digits).filter (· < 2 ^ 64) := by
  have bounded (blank : Bool) (value : Nat) : (if blank then none else if value < 2 ^ 64 then some value else none) =
      (if blank then none else some value : Option Nat).filter (· < 2 ^ 64) := by
    cases blank with
    | true => rfl
    | false => simp [Option.filter_some]
  exact bounded _ _

theorem listedIn_of_parse (parsed : DependencySpec.parse piece = .ok spec) :
    listedIn piece = [spec] ∧ spec.parentId < 2 ^ 64 := by
  obtain ⟨name, parent, pieces, condition, number⟩ := parse_ok_iff.mp parsed
  rw [parseU64_eq, Option.filter_eq_some_iff, decide_eq_true_eq] at number
  refine ⟨?_, number.2⟩
  simp only [listedIn, pieces, condition, List.filterMap_cons, number.1, List.filterMap_nil, List.map_cons, List.map_nil]

theorem mem_listedParents (parses : ∀ piece ∈ dependencyPieces text, ∃ spec, DependencySpec.parse piece = .ok spec) :
    spec ∈ listedParents text ↔ ∃ piece ∈ dependencyPieces text, DependencySpec.parse piece = .ok spec := by
  rw [listedParents, List.mem_flatMap]
  refine exists_congr fun piece => and_congr_right fun member => ?_
  obtain ⟨parsed, same⟩ := parses piece member
  rw [(listedIn_of_parse same).1, same, List.mem_singleton]
  exact ⟨fun equal => congrArg _ equal.symm, fun equal => (Except.ok.inj equal).symm⟩

theorem submitDependency_specs (text : String) : (submitDependency text).2.getD [] = dependencyPieces text := by
  simp only [submitDependency]
  split
  · rename_i empty
    rw [List.isEmpty_iff.mp empty]
    rfl
  · rfl

theorem mem_submitDependency_ids {parentId : JobId} : parentId ∈ (submitDependency text).1.getD [] ↔
    ∃ piece ∈ dependencyPieces text, ∃ spec, DependencySpec.parse piece = .ok spec ∧ spec.parentId = parentId := by
  have ids : (submitDependency text).1.getD [] = (dependencyPieces text).filterMap fun piece =>
      match DependencySpec.parse piece with
      | .ok spec => some spec.parentId
      | .error _ => none := by
    simp only [submitDependency]
    split
    · rename_i empty
      exact (List.isEmpty_iff.mp empty).symm
    · rfl
  rw [ids, List.mem_filterMap]
  refine exists_congr fun piece => and_congr_right fun _ => ?_
  cases DependencySpec.parse piece with
  | error _ => simp
  | ok spec => simp

end Pieces

section Lists

variable {parents : List DependencySpec} {jobs : HashMap JobId JobInfo} {dbCache : HashMap JobId JobStatus}

theorem Contradictory.unmet (contradictory : Contradictory parents) :
    ¬ ∀ parent ∈ parents, parent.MetBy jobs dbCache := by
  intro met
  rcases contradictory with ⟨parent, listed, large⟩ | ⟨parent, _, succeeds, fails⟩
  · exact absurd (met parent listed).1 (Nat.not_lt.mpr large)
  · obtain ⟨_, status, known, ok⟩ := met _ succeeds
    obtain ⟨_, status', known', failed⟩ := met _ fails
    cases (Option.mem_def.mp known).symm.trans (Option.mem_def.mp known')
    exact failed.2 ok

/-- A list without a contradiction is met in a state where every parent that does not
have to succeed has failed. -/
theorem exists_met (consistent : ¬ Contradictory parents) : ∃ dbCache : HashMap JobId JobStatus,
    (∀ parent ∈ parents, parent.MetBy ∅ dbCache) ∧
      ∀ parentId, ⟨parentId, .afterOk⟩ ∉ parents → ¬ DependencySpec.MetBy ⟨parentId, .afterOk⟩ ∅ dbCache := by
  let outcome (parentId : JobId) : JobStatus :=
    if ⟨parentId, .afterOk⟩ ∈ parents then .completed 0 else .failed ""
  let dbCache : HashMap JobId JobStatus :=
    HashMap.ofList ((parents.map DependencySpec.parentId).map fun parentId => (parentId, outcome parentId))
  have status (parentId : JobId) : parentStatus ∅ dbCache parentId =
      if parentId ∈ parents.map DependencySpec.parentId then some (outcome parentId) else none :=
    HashMap.get?_ofList_map _ outcome parentId
  refine ⟨dbCache, fun parent listed => ?_, fun parentId unlisted => ?_⟩
  · have there : parent.parentId ∈ parents.map DependencySpec.parentId := List.mem_map_of_mem listed
    refine ⟨Nat.lt_of_not_le fun large => consistent (.inl ⟨parent, listed, large⟩), outcome parent.parentId, ?_, ?_⟩
    · rw [status, if_pos there]
      rfl
    · by_cases succeeds : ⟨parent.parentId, .afterOk⟩ ∈ parents
      · simp only [outcome, if_pos succeeds]
        cases kind : parent.condition with
        | afterOk => rfl
        | afterAny => rfl
        | afterNotOk =>
          have fails : ⟨parent.parentId, .afterNotOk⟩ ∈ parents := kind ▸ listed
          exact absurd (.inr ⟨parent, listed, succeeds, fails⟩) consistent
      · simp only [outcome, if_neg succeeds]
        cases kind : parent.condition with
        | afterOk => exact absurd (kind ▸ listed) succeeds
        | afterAny => rfl
        | afterNotOk => exact ⟨rfl, nofun⟩
  · rintro ⟨_, known, stored, ok⟩
    rw [status, Option.mem_def] at stored
    split at stored
    · simp only [outcome, if_neg unlisted] at stored
      cases stored
      cases ok
    · cases stored

end Lists

section Submit

variable {site : SubmissionSite} {principal : AuthenticatedPrincipal} {admission : Admission} {msg : SubmitMessage}
  {sent : SubmitMessage} {text : String} {baseId : JobId} {submission : Submission} {frontEnd : DependencyFrontEnd}

theorem DependencyFrontEnd.send_ok (sends : frontEnd.send msg text = .ok sent) : sent = msg.withDependency text := by
  cases frontEnd with
  | submit => exact (Except.ok.inj sends).symm
  | sbatch =>
    obtain ⟨_, _, same⟩ := except_bind_ok sends
    exact (Except.ok.inj same).symm

theorem submitted_dependencies (sends : frontEnd.send msg text = .ok sent)
    (admitted : handleSubmit site principal sent = .ok admission)
    (member : submission ∈ (admission.build baseId).jobs) :
    submission.job.dependencies = (submitDependency text).1 ∧
      submission.job.dependencySpecs = (submitDependency text).2 := by
  rw [DependencyFrontEnd.send_ok sends] at admitted
  obtain ⟨_, _, _, _, _, done⟩ := handleSubmit_ok admitted
  obtain ⟨jobId, place, same⟩ := SubmitMessage.mem_admission done member
  rw [same]
  exact ⟨rfl, rfl⟩

/-- What the scheduler asks: that every piece parses, and that every listed parent has
succeeded and meets its own condition as well. -/
theorem startable_iff (sends : frontEnd.send msg text = .ok sent)
    (admitted : handleSubmit site principal sent = .ok admission)
    (member : submission ∈ (admission.build baseId).jobs) (jobs : HashMap JobId JobInfo)
    (dbCache : HashMap JobId JobStatus) : areDependenciesSatisfied submission.job jobs dbCache = .ok true ↔
      (∀ piece ∈ dependencyPieces text, ∃ spec, DependencySpec.parse piece = .ok spec) ∧
      ∀ parent ∈ listedParents text, DependencySpec.MetBy ⟨parent.parentId, .afterOk⟩ jobs dbCache ∧
        parent.MetBy jobs dbCache := by
  obtain ⟨raw, specs⟩ := submitted_dependencies sends admitted member
  rw [areDependenciesSatisfied_ok_iff, raw, specs, submitDependency_specs]
  constructor
  · rintro ⟨ids, pieces⟩
    have parses : ∀ piece ∈ dependencyPieces text, ∃ spec, DependencySpec.parse piece = .ok spec := by
      intro piece listed
      obtain ⟨spec, parsed, _⟩ := pieces piece listed
      exact ⟨spec, parsed⟩
    refine ⟨parses, fun parent listed => ?_⟩
    obtain ⟨piece, there, parsed⟩ := (mem_listedParents parses).mp listed
    obtain ⟨spec, same, holds⟩ := pieces piece there
    cases parsed.symm.trans same
    have range := (listedIn_of_parse parsed).2
    have succeeds := ids parent.parentId (mem_submitDependency_ids.mpr ⟨piece, there, parent, parsed, rfl⟩)
    exact ⟨⟨range, evaluateParent_ok_iff.mp succeeds⟩, range, evaluateParent_ok_iff.mp holds⟩
  · rintro ⟨parses, met⟩
    refine ⟨fun parentId listed => ?_, fun piece listed => ?_⟩
    · obtain ⟨piece, there, spec, parsed, same⟩ := mem_submitDependency_ids.mp listed
      have succeeds := (met spec ((mem_listedParents parses).mpr ⟨piece, there, parsed⟩)).1
      rw [← same]
      exact evaluateParent_ok_iff.mpr succeeds.2
    · obtain ⟨spec, parsed⟩ := parses piece listed
      have holds := (met spec ((mem_listedParents parses).mpr ⟨piece, listed, parsed⟩)).2
      exact ⟨spec, parsed, evaluateParent_ok_iff.mpr holds.2⟩

/-- The scheduler starts a job exactly when the listed parents meet their conditions, in
every state, if and only if every piece has one parent and all parents have to succeed,
or no state can meet the list. -/
theorem dependency_kept_iff (sends : frontEnd.send msg text = .ok sent)
    (admitted : handleSubmit site principal sent = .ok admission)
    (member : submission ∈ (admission.build baseId).jobs) :
    (∀ jobs dbCache, areDependenciesSatisfied submission.job jobs dbCache = .ok true ↔
      ∀ parent ∈ listedParents text, parent.MetBy jobs dbCache) ↔
    ((∀ piece ∈ dependencyPieces text, ∃ spec, DependencySpec.parse piece = .ok spec) ∧
      AllAfterOk (listedParents text)) ∨ Contradictory (listedParents text) := by
  constructor
  · intro kept
    rw [or_iff_not_imp_right]
    intro consistent
    obtain ⟨dbCache, met, failed⟩ := exists_met consistent
    obtain ⟨parses, succeeds⟩ := (startable_iff sends admitted member _ _).mp ((kept ∅ dbCache).mpr met)
    refine ⟨parses, fun parent listed => ?_⟩
    by_contra unlisted
    exact failed parent.parentId unlisted (succeeds parent listed).1
  · rintro (⟨parses, all⟩ | contradictory) jobs dbCache
    · rw [startable_iff sends admitted member]
      refine ⟨fun both parent listed => (both.2 parent listed).2, fun met => ⟨parses, fun parent listed => ?_⟩⟩
      exact ⟨met _ (all parent listed), met parent listed⟩
    · rw [startable_iff sends admitted member]
      refine ⟨fun both parent listed => (both.2 parent listed).2, fun met => absurd met contradictory.unmet⟩

end Submit

section Sample

theorem ok_of_toOption {α : Type} {result : Except String α} {value : α} (done : result.toOption = some value) :
    result = .ok value := by
  cases result with
  | error reason => cases done
  | ok other => exact congrArg _ (Option.some.inj done)

/-- A job that waits for two others to succeed. -/
theorem dependency_kept_iff_afterok : ∃ sent admission submission,
    DependencyFrontEnd.sbatch.send { binary := "sh" } " afterok:1,,afterok:2" = .ok sent ∧
    handleSubmit {} ⟨"user", []⟩ sent = .ok admission ∧ submission ∈ (admission.build 6).jobs ∧
    ∀ jobs dbCache, areDependenciesSatisfied submission.job jobs dbCache = .ok true ↔
      ∀ parent ∈ listedParents " afterok:1,,afterok:2", parent.MetBy jobs dbCache := by
  obtain ⟨submission, facts⟩ : ∃ submission,
      ((DependencyFrontEnd.sbatch.send { binary := "sh" } " afterok:1,,afterok:2").toOption.bind fun sent =>
        (handleSubmit {} ⟨"user", []⟩ sent).toOption.bind fun admission => (admission.build 6).jobs.head?) =
      some submission := Option.isSome_iff_exists.mp (by decide +kernel)
  obtain ⟨sent, sends, facts⟩ := Option.bind_eq_some_iff.mp facts
  obtain ⟨admission, admitted, first⟩ := Option.bind_eq_some_iff.mp facts
  have member := List.mem_of_mem_head? first
  have parses : ∀ piece ∈ dependencyPieces " afterok:1,,afterok:2",
      (DependencySpec.parse piece).toOption.isSome = true := by decide +kernel
  have succeed : ∀ parent ∈ listedParents " afterok:1,,afterok:2",
      ⟨parent.parentId, .afterOk⟩ ∈ listedParents " afterok:1,,afterok:2" := by decide +kernel
  refine ⟨sent, admission, submission, ok_of_toOption sends, ok_of_toOption admitted, member,
    (dependency_kept_iff (ok_of_toOption sends) (ok_of_toOption admitted) member).mpr (.inl ⟨?_, succeed⟩)⟩
  intro piece listed
  obtain ⟨spec, parsed⟩ := Option.isSome_iff_exists.mp (parses piece listed)
  exact ⟨spec, ok_of_toOption parsed⟩

def sampleOutcomes : HashMap JobId JobStatus :=
  HashMap.ofList [(1, .completed 0), (2, .completed 0), (5, .failed "out of memory")]

instance (spec : DependencySpec) (jobs : HashMap JobId JobInfo) (dbCache : HashMap JobId JobStatus) :
    Decidable (spec.MetBy jobs dbCache) := by
  unfold DependencySpec.MetBy
  infer_instance

/-- The front end accepts the text and all listed parents meet their conditions, but the
job cannot start. -/
def Misread (frontEnd : DependencyFrontEnd) (text : String) : Prop :=
  (∀ parent ∈ listedParents text, parent.MetBy ∅ sampleOutcomes) ∧
  ∃ sent admission, frontEnd.send { binary := "sh" } text = .ok sent ∧
    handleSubmit {} ⟨"user", []⟩ sent = .ok admission ∧
    ∃ submission ∈ (admission.build 6).jobs, areDependenciesSatisfied submission.job ∅ sampleOutcomes ≠ .ok true

theorem misread {frontEnd : DependencyFrontEnd} {text : String}
    (met : ∀ parent ∈ listedParents text, parent.MetBy ∅ sampleOutcomes)
    (facts : ((frontEnd.send { binary := "sh" } text).toOption.bind fun sent =>
      (handleSubmit {} ⟨"user", []⟩ sent).toOption.bind fun admission => (admission.build 6).jobs.head?.map fun submission =>
        decide (areDependenciesSatisfied submission.job ∅ sampleOutcomes = .ok true)) = some false) :
    Misread frontEnd text := by
  obtain ⟨sent, sends, facts⟩ := Option.bind_eq_some_iff.mp facts
  obtain ⟨admission, admitted, facts⟩ := Option.bind_eq_some_iff.mp facts
  obtain ⟨submission, first, stuck⟩ := Option.map_eq_some_iff.mp facts
  exact ⟨met, sent, admission, ok_of_toOption sends, ok_of_toOption admitted, submission,
    List.mem_of_mem_head? first, of_decide_eq_false stuck⟩

/-- The raw ids make every dependency an afterok, and a piece with several ids does not
parse. -/
theorem dependency_misread : Misread .submit "afternotok:5" ∧ Misread .submit "afterany:5" ∧
    Misread .sbatch "afternotok:5" ∧ Misread .sbatch "afterok:1:2" :=
  ⟨misread (by decide +kernel) (by decide +kernel), misread (by decide +kernel) (by decide +kernel),
    misread (by decide +kernel) (by decide +kernel), misread (by decide +kernel) (by decide +kernel)⟩

end Sample

end Veloce
