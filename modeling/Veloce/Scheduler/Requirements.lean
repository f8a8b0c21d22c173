import Veloce.Scheduler.Dependencies

/-! What the dependencies of a job mean: a list of requirements, of which every one has to hold of
its parent's status. -/

namespace Veloce

open Collections

section Meaning

/-- A requirement of a job: a condition on a parent, or the error of a text that states none. -/
abbrev Requirement := Except String DependencySpec

def readSpec (text : String) : Requirement :=
  match DependencySpec.parse text with
  | .ok spec => .ok spec
  | .error error => .error s!"Invalid dependency spec '{text}': {error}"

/-- What a job requires, in order: of its raw dependencies that they succeed, then its
specifications. -/
def JobInfo.requirements (job : JobInfo) : List Requirement :=
  (job.dependencies.getD []).map (fun parentId => .ok ⟨parentId, .afterOk⟩) ++
    (job.dependencySpecs.getD []).map readSpec

def JobInfo.requiredParents (job : JobInfo) : List JobId :=
  job.requirements.filterMap fun requirement => requirement.toOption.map DependencySpec.parentId

/-- The parent has a status that satisfies the condition. -/
def Requirement.Holds (jobs : HashMap JobId JobInfo) (dbCache : HashMap JobId JobStatus) : Requirement → Prop
  | .ok spec => ∃ status ∈ parentStatus jobs dbCache spec.parentId, spec.condition.Met status
  | .error _ => False

/-- It can never hold: it does not parse, or the parent has ended in a status that
contradicts the condition. -/
def Requirement.Refuted (jobs : HashMap JobId JobInfo) (dbCache : HashMap JobId JobStatus) : Requirement → Prop
  | .ok spec => ∃ status ∈ parentStatus jobs dbCache spec.parentId, status.terminal = true ∧ ¬ spec.condition.Met status
  | .error _ => True

instance (jobs : HashMap JobId JobInfo) (dbCache : HashMap JobId JobStatus) :
    (requirement : Requirement) → Decidable (requirement.Holds jobs dbCache)
  | .ok spec => inferInstanceAs (Decidable (∃ status ∈ parentStatus jobs dbCache spec.parentId, spec.condition.Met status))
  | .error _ => inferInstanceAs (Decidable False)

/-- The first requirement that does not hold. -/
def JobInfo.firstUnmet (job : JobInfo) (jobs : HashMap JobId JobInfo) (dbCache : HashMap JobId JobStatus) :
    Option Requirement :=
  job.requirements.find? fun requirement => ¬ requirement.Holds jobs dbCache

def Requirement.evaluate (jobs : HashMap JobId JobInfo) (dbCache : HashMap JobId JobStatus) :
    Requirement → Except String Bool
  | .ok spec => evaluateParent jobs dbCache spec.condition spec.parentId
  | .error error => .error error

end Meaning

section Verdict

variable {job : JobInfo} {jobs jobs' : HashMap JobId JobInfo} {dbCache dbCache' : HashMap JobId JobStatus}
  {requirement : Requirement}

theorem Requirement.evaluate_ok_iff :
    requirement.evaluate jobs dbCache = .ok true ↔ requirement.Holds jobs dbCache := by
  cases requirement with
  | error error => simp [Requirement.evaluate, Requirement.Holds]
  | ok spec => exact evaluateParent_ok_iff

theorem evaluate_error_iff {condition : DependencyCondition} {parentId : JobId} {status : JobStatus} :
    (∃ error, condition.evaluate parentId status = .error error) ↔
      status.terminal = true ∧ ¬ condition.Met status := by
  cases condition <;> cases status <;>
    simp [DependencyCondition.evaluate, DependencyCondition.Met, JobStatus.terminal, ite_eq_iff]

theorem Requirement.evaluate_error_iff :
    (∃ error, requirement.evaluate jobs dbCache = .error error) ↔ requirement.Refuted jobs dbCache := by
  cases requirement with
  | error error => simp [Requirement.evaluate, Requirement.Refuted]
  | ok spec =>
    simp only [Requirement.evaluate, Requirement.Refuted, evaluateParent]
    cases parentStatus jobs dbCache spec.parentId with
    | none => simp
    | some status => simp [Veloce.evaluate_error_iff]

theorem requireAll_append {α : Type} {check : α → Except String Bool} (items later : List α) :
    requireAll check (items ++ later) =
      match requireAll check items with
      | .ok true => requireAll check later
      | other => other := by
  induction items with
  | nil => rfl
  | cons first rest ih =>
    rw [List.cons_append, requireAll, requireAll, ih]
    cases check first with
    | error error => rfl
    | ok ready => cases ready <;> rfl

theorem requireAll_map {α β : Type} {check : β → Except String Bool} (read : α → β) (items : List α) :
    requireAll check (items.map read) = requireAll (fun item => check (read item)) items := by
  induction items with
  | nil => rfl
  | cons first rest ih => rw [List.map_cons, requireAll, requireAll, ih]

theorem areDependenciesSatisfied_eq (job : JobInfo) (jobs : HashMap JobId JobInfo) (dbCache : HashMap JobId JobStatus) :
    areDependenciesSatisfied job jobs dbCache = requireAll (Requirement.evaluate jobs dbCache) job.requirements := by
  have spec (text : String) : (readSpec text).evaluate jobs dbCache =
      match DependencySpec.parse text with
      | .ok parsed => evaluateParent jobs dbCache parsed.condition parsed.parentId
      | .error error => .error s!"Invalid dependency spec '{text}': {error}" := by
    unfold readSpec
    cases DependencySpec.parse text <;> rfl
  rw [JobInfo.requirements, requireAll_append, requireAll_map, requireAll_map]
  simp only [spec]
  rfl

theorem requireAll_congr {α : Type} {check check' : α → Except String Bool} {items : List α}
    (same : ∀ item ∈ items, check' item = check item) : requireAll check' items = requireAll check items := by
  induction items with
  | nil => rfl
  | cons first rest ih =>
    rw [requireAll, requireAll, same first List.mem_cons_self,
      ih fun item member => same item (List.mem_cons_of_mem _ member)]

/-- The first item that does not pass decides. -/
theorem requireAll_eq_find {α : Type} {check : α → Except String Bool} {passes : α → Bool}
    (decides : ∀ item, check item = .ok true ↔ passes item = true) (items : List α) :
    requireAll check items =
      match items.find? fun item => !passes item with
      | some item => check item
      | none => .ok true := by
  induction items with
  | nil => rfl
  | cons first rest ih =>
    rw [requireAll, List.find?_cons]
    by_cases passed : passes first = true
    · rw [(decides first).mpr passed, passed]
      exact ih
    · have failed : check first ≠ .ok true := fun ok => passed ((decides first).mp ok)
      rw [Bool.eq_false_of_not_eq_true passed]
      cases outcome : check first with
      | error error => exact outcome.symm
      | ok ready =>
        cases ready with
        | false => exact outcome.symm
        | true => exact absurd outcome failed

theorem Requirement.decides (requirement : Requirement) :
    requirement.evaluate jobs dbCache = .ok true ↔ decide (requirement.Holds jobs dbCache) = true := by
  rw [Requirement.evaluate_ok_iff, decide_eq_true_iff]

theorem areDependenciesSatisfied_eq_first (job : JobInfo) (jobs : HashMap JobId JobInfo)
    (dbCache : HashMap JobId JobStatus) :
    areDependenciesSatisfied job jobs dbCache =
      match job.firstUnmet jobs dbCache with
      | some requirement => requirement.evaluate jobs dbCache
      | none => .ok true := by
  have same : (job.requirements.find? fun requirement => !decide (requirement.Holds jobs dbCache)) =
      job.firstUnmet jobs dbCache := by simp only [JobInfo.firstUnmet, decide_not]
  rw [areDependenciesSatisfied_eq, requireAll_eq_find Requirement.decides, same]
  cases job.firstUnmet jobs dbCache with
  | none => rfl
  | some requirement => rfl

theorem unmet_of_first (first : job.firstUnmet jobs dbCache = some requirement) :
    ¬ requirement.Holds jobs dbCache := by
  simpa using List.find?_some first

/-- The evaluation reads the parents' statuses and nothing else. -/
theorem areDependenciesSatisfied_congr
    (same : ∀ parentId ∈ job.requiredParents, parentStatus jobs' dbCache' parentId = parentStatus jobs dbCache parentId) :
    areDependenciesSatisfied job jobs' dbCache' = areDependenciesSatisfied job jobs dbCache := by
  have each : ∀ requirement ∈ job.requirements,
      requirement.evaluate jobs' dbCache' = requirement.evaluate jobs dbCache := by
    intro requirement member
    cases requirement with
    | error error => rfl
    | ok spec =>
      have parent : spec.parentId ∈ job.requiredParents := List.mem_filterMap.mpr ⟨_, member, rfl⟩
      simp only [Requirement.evaluate, evaluateParent, same _ parent]
  rw [areDependenciesSatisfied_eq, areDependenciesSatisfied_eq]
  exact requireAll_congr each

/-- A job's status stays the same when it moves from the table to the cache. -/
theorem parentStatus_moved {parentId : JobId} {parent : JobInfo} (known : jobs.get? parentId = some parent)
    (other : JobId) :
    parentStatus (jobs.remove parentId) (dbCache.insert parentId parent.status) other =
      parentStatus jobs dbCache other := by
  unfold parentStatus
  rw [HashMap.get?_remove, HashMap.get?_insert]
  by_cases same : other = parentId
  · rw [if_pos same, if_pos same, same, known]
  · rw [if_neg same, if_neg same]

/-- The dependencies of a job mean that every requirement holds of its parent's status, and
the first one that does not decides between failing and waiting. Where a parent's status is
kept makes no difference, and neither do other jobs. -/
theorem dependencies_mean (job : JobInfo) (jobs : HashMap JobId JobInfo) (dbCache : HashMap JobId JobStatus) :
    (areDependenciesSatisfied job jobs dbCache = .ok true ↔
      ∀ requirement ∈ job.requirements, requirement.Holds jobs dbCache) ∧
    ((∃ error, areDependenciesSatisfied job jobs dbCache = .error error) ↔
      ∃ requirement ∈ job.firstUnmet jobs dbCache, requirement.Refuted jobs dbCache) ∧
    (areDependenciesSatisfied job jobs dbCache = .ok false ↔
      ∃ requirement ∈ job.firstUnmet jobs dbCache, ¬ requirement.Refuted jobs dbCache) ∧
    (∀ parentId parent, jobs.get? parentId = some parent → parent.status.terminal = true →
      areDependenciesSatisfied job (jobs.remove parentId) (dbCache.insert parentId parent.status) =
        areDependenciesSatisfied job jobs dbCache) ∧
    (∀ jobs' dbCache', (∀ parentId ∈ job.requiredParents,
        jobs'.get? parentId = jobs.get? parentId ∧ dbCache'.get? parentId = dbCache.get? parentId) →
      areDependenciesSatisfied job jobs' dbCache' = areDependenciesSatisfied job jobs dbCache) := by
  have first := areDependenciesSatisfied_eq_first job jobs dbCache
  refine ⟨?_, ?_, ?_, fun parentId parent known _ => ?_, fun jobs' dbCache' same => ?_⟩
  · rw [areDependenciesSatisfied_eq, requireAll_ok_iff]
    exact forall₂_congr fun requirement _ => Requirement.evaluate_ok_iff
  · rw [first]
    cases unmet : job.firstUnmet jobs dbCache with
    | none => simp
    | some requirement => simp [Requirement.evaluate_error_iff]
  · rw [first]
    cases unmet : job.firstUnmet jobs dbCache with
    | none => simp
    | some requirement =>
      have fails : requirement.evaluate jobs dbCache ≠ .ok true :=
        fun ok => unmet_of_first unmet (Requirement.evaluate_ok_iff.mp ok)
      simp only [Option.mem_some_iff, exists_eq_left', ← Requirement.evaluate_error_iff]
      cases outcome : requirement.evaluate jobs dbCache with
      | error error => simp
      | ok ready =>
        cases ready with
        | false => simp
        | true => exact absurd outcome fails
  · exact areDependenciesSatisfied_congr fun other _ => parentStatus_moved known other
  · refine areDependenciesSatisfied_congr fun parentId member => ?_
    simp only [parentStatus, (same parentId member).1, (same parentId member).2]

end Verdict

section Loops

/-- The match on a parent's status in the loop over the raw dependencies: it goes on, or
returns early. -/
def rawStatusStep (parentId : JobId) : JobStatus → Option (Except String Bool)
  | .completed code =>
    if code ≠ 0 then
      some (.error s!"DependencyNeverSatisfied: parent job {parentId} failed with exit code {code}")
    else none
  | .failed error => some (.error s!"DependencyNeverSatisfied: parent job {parentId} failed with error: {error}")
  | .killed => some (.error s!"DependencyNeverSatisfied: parent job {parentId} was cancelled")
  | _ => some (.ok false)

def rawDependencyStep (jobs : HashMap JobId JobInfo) (dbCache : HashMap JobId JobStatus) (parentId : JobId) :
    Option (Except String Bool) :=
  match jobs.get? parentId with
  | some parent => rawStatusStep parentId parent.status
  | none =>
    match dbCache.get? parentId with
    | some status => rawStatusStep parentId status
    | none => some (.ok false)

/-- The body of the loop over the specifications. -/
def dependencySpecStep (jobs : HashMap JobId JobInfo) (dbCache : HashMap JobId JobStatus) (text : String) :
    Option (Except String Bool) :=
  match DependencySpec.parse text with
  | .error error => some (.error s!"Invalid dependency spec '{text}': {error}")
  | .ok spec =>
    match parentStatus jobs dbCache spec.parentId with
    | none => some (.ok false)
    | some status =>
      match spec.condition with
      | .afterOk =>
        match status with
        | .completed code =>
          if code ≠ 0 then
            some (.error s!"DependencyNeverSatisfied: parent job {spec.parentId} failed with exit code {code}")
          else none
        | .failed error =>
          some (.error s!"DependencyNeverSatisfied: parent job {spec.parentId} failed with error: {error}")
        | .killed => some (.error s!"DependencyNeverSatisfied: parent job {spec.parentId} was cancelled")
        | _ => some (.ok false)
      | .afterNotOk =>
        match status with
        | .completed code =>
          if code = 0 then
            some (.error s!"DependencyNeverSatisfied: parent job {spec.parentId} completed successfully but expected failure")
          else none
        | .failed _ | .killed => none
        | _ => some (.ok false)
      | .afterAny =>
        match status with
        | .completed _ | .failed _ | .killed => none
        | _ => some (.ok false)

/-- A loop whose body may return from the function. -/
def returningLoop {α ρ : Type} (step : α → Option ρ) : List α → Option ρ
  | [] => none
  | item :: rest =>
    match step item with
    | some result => some result
    | none => returningLoop step rest

def dependencyLoops (job : JobInfo) (jobs : HashMap JobId JobInfo) (dbCache : HashMap JobId JobStatus) :
    Except String Bool :=
  match returningLoop (rawDependencyStep jobs dbCache) (job.dependencies.getD []) with
  | some result => result
  | none =>
    match returningLoop (dependencySpecStep jobs dbCache) (job.dependencySpecs.getD []) with
    | some result => result
    | none => .ok true

variable {jobs : HashMap JobId JobInfo} {dbCache : HashMap JobId JobStatus}

/-- The outcome of a loop body on a requirement with this verdict. -/
def earlyReturn : Except String Bool → Option (Except String Bool)
  | .ok true => none
  | verdict => some verdict

theorem returningLoop_eq {α : Type} {check : α → Except String Bool} {step : α → Option (Except String Bool)}
    (same : ∀ item, step item = earlyReturn (check item)) (items : List α) :
    returningLoop step items = earlyReturn (requireAll check items) := by
  induction items with
  | nil => rfl
  | cons first rest ih =>
    rw [returningLoop, requireAll, same first]
    cases check first with
    | error error => rfl
    | ok ready =>
      cases ready with
      | false => rfl
      | true => exact ih

theorem rawStatusStep_eq (parentId : JobId) (status : JobStatus) :
    rawStatusStep parentId status = earlyReturn (DependencyCondition.afterOk.evaluate parentId status) := by
  cases status with
  | completed code => by_cases zero : code = 0 <;> simp [DependencyCondition.evaluate, rawStatusStep, earlyReturn, zero]
  | pending | running | failed _ | killed => rfl

theorem rawDependencyStep_eq (parentId : JobId) :
    rawDependencyStep jobs dbCache parentId = earlyReturn (evaluateParent jobs dbCache .afterOk parentId) := by
  unfold evaluateParent parentStatus rawDependencyStep
  cases jobs.get? parentId with
  | some parent => exact rawStatusStep_eq parentId parent.status
  | none =>
    cases dbCache.get? parentId with
    | some status => exact rawStatusStep_eq parentId status
    | none => rfl

theorem dependencySpecStep_eq (text : String) :
    dependencySpecStep jobs dbCache text = earlyReturn ((readSpec text).evaluate jobs dbCache) := by
  unfold readSpec dependencySpecStep
  cases DependencySpec.parse text with
  | error error => rfl
  | ok spec =>
    dsimp only [Requirement.evaluate, evaluateParent]
    cases parentStatus jobs dbCache spec.parentId with
    | none => rfl
    | some status =>
      obtain ⟨parentId, condition⟩ := spec
      cases condition with
      | afterOk => exact rawStatusStep_eq parentId status
      | afterNotOk =>
        cases status with
        | completed code => by_cases zero : code = 0 <;> simp [DependencyCondition.evaluate, earlyReturn, zero]
        | pending | running | failed _ | killed => rfl
      | afterAny => cases status <;> rfl

/-- The two loops with their own tables of cases are the one evaluation. -/
theorem dependencyLoops_eq (job : JobInfo) (jobs : HashMap JobId JobInfo) (dbCache : HashMap JobId JobStatus) :
    dependencyLoops job jobs dbCache = areDependenciesSatisfied job jobs dbCache := by
  rw [areDependenciesSatisfied_eq, JobInfo.requirements, requireAll_append, requireAll_map, requireAll_map,
    dependencyLoops, returningLoop_eq rawDependencyStep_eq, returningLoop_eq dependencySpecStep_eq]
  generalize requireAll (fun text => (readSpec text).evaluate jobs dbCache) (job.dependencySpecs.getD []) = specs
  simp only [Requirement.evaluate]
  cases requireAll (evaluateParent jobs dbCache .afterOk) (job.dependencies.getD []) with
  | error error => rfl
  | ok ready =>
    cases ready with
    | false => rfl
    | true =>
      cases specs with
      | error error => rfl
      | ok ready => cases ready <;> rfl

end Loops

end Veloce
