import Veloce.Common.Types

/-! Dependency specifications and the evaluation of a job's dependencies. -/

namespace Veloce

open Collections

inductive DependencyCondition where
  | afterOk
  | afterNotOk
  | afterAny
deriving DecidableEq, Repr

structure DependencySpec where
  parentId : JobId
  condition : DependencyCondition
deriving DecidableEq, Repr

def parseU64 (text : List Char) : Option Nat :=
  let digits := match text with
    | '+' :: rest => rest
    | _ => text
  if digits.isEmpty || !digits.all Char.isDigit then none
  else
    let value := digits.foldl (fun value digit => value * 10 + (digit.toNat - '0'.toNat)) 0
    if value < 2 ^ 64 then some value else none

/-- `char::to_lowercase` as far as it can yield an ASCII letter; the Kelvin sign
is the one other character that does. -/
def lowerAscii (char : Char) : Char :=
  if char = '\u212A' then 'k' else char.toLower

def DependencySpec.parse (text : String) : Except String DependencySpec :=
  match text.toList.splitOn ':' with
  | [name, parent] =>
    let condition := match String.ofList (name.map lowerAscii) with
      | "afterok" => some DependencyCondition.afterOk
      | "afternotok" => some .afterNotOk
      | "afterany" => some .afterAny
      | _ => none
    match condition with
    | none => .error s!"Unknown dependency condition '{String.ofList name}'"
    | some condition =>
      match parseU64 parent with
      | none => .error s!"Invalid parent job ID '{String.ofList parent}'"
      | some parentId => .ok ⟨parentId, condition⟩
  | _ => .error s!"Invalid dependency spec format '{text}'. Expected condition:parent_id"

/-- The condition on one parent: satisfied, not yet decided, or never satisfiable. -/
def DependencyCondition.evaluate (condition : DependencyCondition) (parentId : JobId)
    (status : JobStatus) : Except String Bool :=
  match condition, status with
  | .afterOk, .completed code =>
    if code = 0 then .ok true
    else .error s!"DependencyNeverSatisfied: parent job {parentId} failed with exit code {code}"
  | .afterOk, .failed error =>
    .error s!"DependencyNeverSatisfied: parent job {parentId} failed with error: {error}"
  | .afterOk, .killed => .error s!"DependencyNeverSatisfied: parent job {parentId} was cancelled"
  | .afterNotOk, .completed code =>
    if code = 0 then
      .error s!"DependencyNeverSatisfied: parent job {parentId} completed successfully but expected failure"
    else .ok true
  | .afterNotOk, .failed _ => .ok true
  | .afterNotOk, .killed => .ok true
  | .afterAny, .completed _ => .ok true
  | .afterAny, .failed _ => .ok true
  | .afterAny, .killed => .ok true
  | _, .pending => .ok false
  | _, .running => .ok false

/-- A job in the table answers for itself, otherwise the accounting cache does. -/
def parentStatus (jobs : HashMap JobId JobInfo) (dbCache : HashMap JobId JobStatus)
    (parentId : JobId) : Option JobStatus :=
  match jobs.get? parentId with
  | some parent => some parent.status
  | none => dbCache.get? parentId

/-- Evaluate the checks in order and stop at the first that is not satisfied. -/
def requireAll {α : Type} (check : α → Except String Bool) : List α → Except String Bool
  | [] => .ok true
  | item :: rest =>
    match check item with
    | .ok true => requireAll check rest
    | .ok false => .ok false
    | .error error => .error error

def evaluateParent (jobs : HashMap JobId JobInfo) (dbCache : HashMap JobId JobStatus)
    (condition : DependencyCondition) (parentId : JobId) : Except String Bool :=
  match parentStatus jobs dbCache parentId with
  | some status => condition.evaluate parentId status
  | none => .ok false

def areDependenciesSatisfied (job : JobInfo) (jobs : HashMap JobId JobInfo)
    (dbCache : HashMap JobId JobStatus) : Except String Bool :=
  match requireAll (evaluateParent jobs dbCache .afterOk) (job.dependencies.getD []) with
  | .ok true =>
    requireAll (fun spec =>
      match DependencySpec.parse spec with
      | .ok parsed => evaluateParent jobs dbCache parsed.condition parsed.parentId
      | .error error => .error s!"Invalid dependency spec '{spec}': {error}")
      (job.dependencySpecs.getD [])
  | other => other

/-- What a job requires of a parent: a raw dependency is an afterok. -/
def JobInfo.Requires (job : JobInfo) (condition : DependencyCondition) (parentId : JobId) : Prop :=
  (condition = .afterOk ∧ parentId ∈ job.dependencies.getD []) ∨
    ∃ spec ∈ job.dependencySpecs.getD [], DependencySpec.parse spec = .ok ⟨parentId, condition⟩

def DependencyCondition.Met : DependencyCondition → JobStatus → Prop
  | .afterOk, status => status = .completed 0
  | .afterNotOk, status => status.terminal = true ∧ status ≠ .completed 0
  | .afterAny, status => status.terminal = true

instance : (condition : DependencyCondition) → (status : JobStatus) → Decidable (condition.Met status)
  | .afterOk, status => inferInstanceAs (Decidable (status = .completed 0))
  | .afterNotOk, status => inferInstanceAs (Decidable (status.terminal = true ∧ status ≠ .completed 0))
  | .afterAny, status => inferInstanceAs (Decidable (status.terminal = true))

theorem requireAll_ok {α : Type} {check : α → Except String Bool} : ∀ {items : List α},
    requireAll check items = .ok true → ∀ item ∈ items, check item = .ok true := by
  intro items
  induction items with
  | nil => intro _ item member; cases member
  | cons first rest ih =>
    intro passed item member
    unfold requireAll at passed
    split at passed
    · rename_i holds
      rcases List.mem_cons.mp member with same | later
      · exact same ▸ holds
      · exact ih passed item later
    · cases passed
    · cases passed

variable {parentId : JobId}

/-- Every requirement of a job that is ready was evaluated and holds. -/
theorem areDependenciesSatisfied_ok {job : JobInfo} {jobs : HashMap JobId JobInfo} {dbCache : HashMap JobId JobStatus}
    (ready : areDependenciesSatisfied job jobs dbCache = .ok true) {condition : DependencyCondition}
    (requires : job.Requires condition parentId) :
    evaluateParent jobs dbCache condition parentId = .ok true := by
  unfold areDependenciesSatisfied at ready
  split at ready
  · rename_i raw
    rcases requires with ⟨same, listed⟩ | ⟨spec, listed, parsed⟩
    · exact same ▸ requireAll_ok raw parentId listed
    · have holds := requireAll_ok ready spec listed
      rw [parsed] at holds
      exact holds
  · rename_i failed
    exact absurd ready failed

theorem evaluate_afterOk {status : JobStatus}
    (holds : DependencyCondition.afterOk.evaluate parentId status = .ok true) : status = .completed 0 := by
  cases status with
  | pending | running | failed _ | killed => cases holds
  | completed code =>
    simp only [DependencyCondition.evaluate] at holds
    split at holds
    · rename_i zero
      rw [zero]
    · cases holds

theorem evaluate_afterNotOk {status : JobStatus}
    (holds : DependencyCondition.afterNotOk.evaluate parentId status = .ok true) :
    status.terminal = true ∧ status ≠ .completed 0 := by
  cases status with
  | pending | running => cases holds
  | failed _ | killed => exact ⟨rfl, fun same => by cases same⟩
  | completed code =>
    simp only [DependencyCondition.evaluate] at holds
    split at holds
    · cases holds
    · rename_i nonzero
      exact ⟨rfl, fun same => nonzero (JobStatus.completed.inj same)⟩

/-- A job of the table that has not ended satisfies no requirement, so the cache decides. -/
theorem evaluateParent_cached {jobs : HashMap JobId JobInfo} {dbCache : HashMap JobId JobStatus}
    {condition : DependencyCondition}
    (unfinished : ∀ job, jobs.get? parentId = some job → job.status.terminal = false)
    (holds : evaluateParent jobs dbCache condition parentId = .ok true) :
    ∃ status, dbCache.get? parentId = some status ∧ condition.evaluate parentId status = .ok true := by
  unfold evaluateParent parentStatus at holds
  cases found : jobs.get? parentId with
  | some parent =>
    rw [found] at holds
    have waits := unfinished parent found
    cases status : parent.status with
    | pending | running =>
      dsimp only at holds
      rw [status] at holds
      cases condition <;> cases holds
    | completed _ | failed _ | killed =>
      rw [status] at waits
      cases waits
  | none =>
    rw [found] at holds
    cases cached : dbCache.get? parentId with
    | none =>
      simp only [cached] at holds
      cases holds
    | some status =>
      simp only [cached] at holds
      exact ⟨status, rfl, holds⟩

section Evaluation

variable {job : JobInfo} {jobs : HashMap JobId JobInfo} {dbCache : HashMap JobId JobStatus}

theorem evaluate_ok_iff {condition : DependencyCondition} {parentId : JobId} {status : JobStatus} :
    condition.evaluate parentId status = .ok true ↔ condition.Met status := by
  cases condition <;> cases status <;>
    simp [DependencyCondition.evaluate, DependencyCondition.Met, JobStatus.terminal]

theorem evaluateParent_ok_iff {condition : DependencyCondition} {parentId : JobId} :
    evaluateParent jobs dbCache condition parentId = .ok true ↔
      ∃ status ∈ parentStatus jobs dbCache parentId, condition.Met status := by
  unfold evaluateParent
  cases parentStatus jobs dbCache parentId with
  | none => simp
  | some status => simp [evaluate_ok_iff]

theorem requireAll_ok_iff {α : Type} {check : α → Except String Bool} {items : List α} :
    requireAll check items = .ok true ↔ ∀ item ∈ items, check item = .ok true := by
  refine ⟨requireAll_ok, ?_⟩
  induction items with
  | nil => intro _; rfl
  | cons first rest ih =>
    intro all
    rw [requireAll, all first List.mem_cons_self]
    exact ih fun item member => all item (List.mem_cons_of_mem _ member)

/-- A job can start when its raw parents have succeeded and all its specifications parse
and are met. -/
theorem areDependenciesSatisfied_ok_iff : areDependenciesSatisfied job jobs dbCache = .ok true ↔
    (∀ parentId ∈ job.dependencies.getD [], evaluateParent jobs dbCache .afterOk parentId = .ok true) ∧
      ∀ spec ∈ job.dependencySpecs.getD [], ∃ parsed, DependencySpec.parse spec = .ok parsed ∧
        evaluateParent jobs dbCache parsed.condition parsed.parentId = .ok true := by
  rw [← requireAll_ok_iff, areDependenciesSatisfied]
  split
  · rename_i raw
    rw [requireAll_ok_iff]
    simp only [raw, true_and]
    refine forall₂_congr fun spec _ => ?_
    cases DependencySpec.parse spec with
    | error _ => simp
    | ok parsed => simp
  · rename_i failed
    exact ⟨fun ready => absurd ready failed, fun both => absurd both.1 failed⟩

end Evaluation

end Veloce
