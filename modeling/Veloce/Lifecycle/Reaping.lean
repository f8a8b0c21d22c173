import Veloce.Handlers.Worker

/-! What the loop over the job table in `reconcile_missing_worker_jobs` does, in whatever
order it visits the jobs: since when each job is missing, and which are reaped. -/

namespace Veloce

open Collections

namespace ControllerContext

/-- Since when a job is missing, given since when it was before. -/
def stillMissing (job : JobInfo) (workerId : WorkerId) (active : List JobId) (jobId : JobId) (now : Nat)
    (noted : Option Nat) : Option Nat :=
  if missingFrom job workerId active jobId now then some (noted.getD now)
  else if job.runsOn workerId && jobId ∈ active then none
  else noted

/-- The job has been missing for more than ten seconds. -/
def overdue (ctx : ControllerContext) (workerId : WorkerId) (active : List JobId) (now : Nat) (jobId : JobId) : Bool :=
  match ctx.state.jobs.get? jobId with
  | some job => missingFrom job workerId active jobId now && decide (now - ctx.missingJobs.getD jobId now > 10)
  | none => false

section Loop

variable (workerId : WorkerId) (active : List JobId) (now : Nat)

private theorem noteMissing_other (noted : HashMap JobId Nat × List JobId) {entry : JobId × JobInfo} {other : JobId}
    (different : other ≠ entry.1) :
    (noteMissing workerId active now noted entry).1.get? other = noted.1.get? other ∧
      (other ∈ (noteMissing workerId active now noted entry).2 ↔ other ∈ noted.2) := by
  unfold noteMissing
  split
  · refine ⟨by simp only [HashMap.get?_insert, different, ↓reduceIte], ?_⟩
    dsimp only
    split
    · simp [different]
    · exact Iff.rfl
  · split
    · exact ⟨by simp only [HashMap.get?_remove, different, ↓reduceIte], Iff.rfl⟩
    · exact ⟨rfl, Iff.rfl⟩

private theorem noteMissing_own (noted : HashMap JobId Nat × List JobId) (jobId : JobId) (job : JobInfo) :
    (noteMissing workerId active now noted (jobId, job)).1.get? jobId =
        stillMissing job workerId active jobId now (noted.1.get? jobId) ∧
      (jobId ∈ (noteMissing workerId active now noted (jobId, job)).2 ↔ jobId ∈ noted.2 ∨
        missingFrom job workerId active jobId now = true ∧ now - noted.1.getD jobId now > 10) := by
  unfold noteMissing stillMissing
  split
  · rename_i missing
    refine ⟨by simp [HashMap.getD], ?_⟩
    dsimp only
    split
    · rename_i late
      simp [missing, late]
    · rename_i recent
      simp [recent]
  · rename_i present
    split
    · exact ⟨by simp, by simp [present]⟩
    · exact ⟨rfl, by simp [present]⟩

/-- What the loop notes about a job that it does not visit. -/
private theorem noteMissing_unvisited {jobId : JobId} : ∀ (entries : List (JobId × JobInfo))
    (noted : HashMap JobId Nat × List JobId),
    jobId ∉ entries.map Prod.fst →
    (entries.foldl (noteMissing workerId active now) noted).1.get? jobId = noted.1.get? jobId ∧
      (jobId ∈ (entries.foldl (noteMissing workerId active now) noted).2 ↔ jobId ∈ noted.2) := by
  intro entries
  induction entries with
  | nil =>
    intro noted _
    exact ⟨rfl, Iff.rfl⟩
  | cons entry rest ih =>
    intro noted unvisited
    rw [List.map_cons, List.mem_cons, not_or] at unvisited
    obtain ⟨here, listed⟩ := noteMissing_other workerId active now noted unvisited.1
    obtain ⟨later, listed'⟩ := ih (noteMissing workerId active now noted entry) unvisited.2
    exact ⟨later.trans here, listed'.trans listed⟩

private theorem noteMissing_visited {jobId : JobId} {job : JobInfo} : ∀ (entries : List (JobId × JobInfo))
    (noted : HashMap JobId Nat × List JobId), (entries.map Prod.fst).Nodup → (jobId, job) ∈ entries →
    (entries.foldl (noteMissing workerId active now) noted).1.get? jobId =
        stillMissing job workerId active jobId now (noted.1.get? jobId) ∧
      (jobId ∈ (entries.foldl (noteMissing workerId active now) noted).2 ↔ jobId ∈ noted.2 ∨
        missingFrom job workerId active jobId now = true ∧ now - noted.1.getD jobId now > 10) := by
  intro entries
  induction entries with
  | nil =>
    intro noted _ member
    cases member
  | cons entry rest ih =>
    intro noted distinct member
    rw [List.map_cons, List.nodup_cons] at distinct
    rw [List.foldl_cons]
    rcases List.mem_cons.mp member with same | later
    · subst same
      obtain ⟨kept, listed⟩ :=
        noteMissing_unvisited workerId active now rest (noteMissing workerId active now noted (jobId, job)) distinct.1
      obtain ⟨own, listed'⟩ := noteMissing_own workerId active now noted jobId job
      exact ⟨kept.trans own, listed.trans listed'⟩
    · have different : jobId ≠ entry.1 := fun same => distinct.1 (same ▸ List.mem_map_of_mem later)
      obtain ⟨kept, listed⟩ := noteMissing_other workerId active now noted different
      obtain ⟨own, listed'⟩ := ih (noteMissing workerId active now noted entry) distinct.2 later
      rw [kept] at own
      rw [HashMap.getD, kept, listed] at listed'
      exact ⟨own, listed'⟩

end Loop

theorem reapJob_state (ctx : ControllerContext) (now : Nat) (jobId : JobId) :
    (ctx.reapJob now jobId).state = { ctx.state with
      workers := (ctx.state.releaseJobResourcesInternal jobId).workers
      jobs := ctx.state.jobs.modify jobId (·.finalized (.failed "Process exited or failed to start") now)
      usageTracker := (ctx.state.accrueUsage jobId now).usageTracker } := GlobalState.finalizeJob_eq _ _ _ _

/-- Reaping finishes the listed records and keeps the others. -/
private theorem get?_reapJobs (now : Nat) (jobId : JobId) : ∀ (jobs : List JobId) (ctx : ControllerContext),
    (jobs.foldl (reapJob now) ctx).state.jobs.get? jobId =
      if jobId ∈ jobs then
        (ctx.state.jobs.get? jobId).map (·.finalized (.failed "Process exited or failed to start") now)
      else ctx.state.jobs.get? jobId := by
  intro jobs
  induction jobs with
  | nil => intro ctx; simp
  | cons head rest ih =>
    intro ctx
    have one : (ctx.reapJob now head).state.jobs.get? jobId =
        if jobId = head then
          (ctx.state.jobs.get? jobId).map (·.finalized (.failed "Process exited or failed to start") now)
        else ctx.state.jobs.get? jobId := by
      rw [reapJob_state, HashMap.get?_modify]
      split
      · rename_i same
        rw [same]
      · rfl
    rw [List.foldl_cons, ih, one]
    by_cases same : jobId = head
    · subst same
      by_cases later : jobId ∈ rest
      · simp [later, Function.comp_def, JobInfo.finalized]
      · simp [later]
    · simp [same]

private theorem missing_reapJobs (now : Nat) (jobId : JobId) : ∀ (jobs : List JobId) (ctx : ControllerContext),
    (jobs.foldl (reapJob now) ctx).missingJobs.get? jobId =
      if jobId ∈ jobs then none else ctx.missingJobs.get? jobId := by
  intro jobs
  induction jobs with
  | nil =>
    intro ctx
    simp
  | cons head rest ih =>
    intro ctx
    have one : (ctx.reapJob now head).missingJobs.get? jobId =
        if jobId = head then none else ctx.missingJobs.get? jobId := HashMap.get?_remove _ _ _
    rw [List.foldl_cons, ih, one]
    by_cases same : jobId = head
    · simp [same]
    · simp [same]

section Heartbeat

variable (ctx : ControllerContext) (order : IterOrder Unit) (workerId : WorkerId) (active : List JobId) (now : Nat)

/-- What the loop over the whole table notes about a job, and which jobs it lists. -/
private theorem noted_spec (jobId : JobId) :
    ((order.shuffle () ctx.state.jobs.toList).foldl (noteMissing workerId active now)
        (ctx.missingJobs, [])).1.get? jobId =
        (match ctx.state.jobs.get? jobId with
          | some job => stillMissing job workerId active jobId now (ctx.missingJobs.get? jobId)
          | none => ctx.missingJobs.get? jobId) ∧
      (jobId ∈ ((order.shuffle () ctx.state.jobs.toList).foldl (noteMissing workerId active now)
        (ctx.missingJobs, [])).2 ↔ ctx.overdue workerId active now jobId = true) := by
  have distinct : ((order.shuffle () ctx.state.jobs.toList).map Prod.fst).Nodup :=
    IterOrder.shuffle_map_nodup ctx.state.jobs.toList_keys_nodup
  have listed (job : JobInfo) : (jobId, job) ∈ order.shuffle () ctx.state.jobs.toList ↔
      ctx.state.jobs.get? jobId = some job := IterOrder.mem_shuffle.trans HashMap.mem_toList
  cases found : ctx.state.jobs.get? jobId with
  | none =>
    have unvisited : jobId ∉ (order.shuffle () ctx.state.jobs.toList).map Prod.fst := by
      intro member
      obtain ⟨entry, inside, same⟩ := List.mem_map.mp member
      subst same
      rw [(listed entry.2).mp inside] at found
      cases found
    obtain ⟨since, reaped⟩ := noteMissing_unvisited workerId active now _ (ctx.missingJobs, []) unvisited
    refine ⟨since, reaped.trans ?_⟩
    rw [overdue, found]
    simp
  | some job =>
    obtain ⟨since, reaped⟩ :=
      noteMissing_visited workerId active now _ (ctx.missingJobs, []) distinct ((listed job).mpr found)
    refine ⟨since, reaped.trans ?_⟩
    rw [overdue, found]
    simp

theorem reconcile_eq : ∃ (missingJobs : HashMap JobId Nat) (jobsToReap : List JobId),
    ctx.reconcileMissingWorkerJobs order workerId active now =
      jobsToReap.foldl (reapJob now) { ctx with missingJobs := missingJobs } ∧
    ∀ jobId, jobId ∈ jobsToReap ↔ ctx.overdue workerId active now jobId = true :=
  ⟨_, _, rfl, fun jobId => (ctx.noted_spec order workerId active now jobId).2⟩

/-- What a heartbeat does to the table: the overdue jobs are finished, the others stay. The
time since when a job is missing is noted while the worker leaves it out, and forgotten when
it lists the job again. -/
theorem reconcile_spec (jobId : JobId) :
    (ctx.reconcileMissingWorkerJobs order workerId active now).state.jobs.get? jobId =
        (if ctx.overdue workerId active now jobId then
          (ctx.state.jobs.get? jobId).map (·.finalized (.failed "Process exited or failed to start") now)
        else ctx.state.jobs.get? jobId) ∧
      (ctx.reconcileMissingWorkerJobs order workerId active now).missingJobs.get? jobId =
        (if ctx.overdue workerId active now jobId then none
        else match ctx.state.jobs.get? jobId with
          | some job => stillMissing job workerId active jobId now (ctx.missingJobs.get? jobId)
          | none => ctx.missingJobs.get? jobId) := by
  obtain ⟨since, late⟩ := ctx.noted_spec order workerId active now jobId
  unfold reconcileMissingWorkerJobs
  dsimp only
  rw [get?_reapJobs, missing_reapJobs, since]
  constructor
  · simp only [late]
  · simp only [late]

theorem overdue_running {jobId : JobId} (late : ctx.overdue workerId active now jobId = true) :
    ∃ job, ctx.state.jobs.get? jobId = some job ∧ job.runsOn workerId = true := by
  unfold overdue at late
  split at late
  · rename_i job found
    simp only [missingFrom, Bool.and_eq_true] at late
    exact ⟨job, found, late.1.1.1⟩
  · cases late

variable {ctx now}

/-- What a new note about the missing jobs and every reaping keep, a heartbeat keeps. -/
theorem reconcile_invariant (Inv : ControllerContext → Prop)
    (base : ∀ missingJobs, Inv { ctx with missingJobs := missingJobs })
    (reaped : ∀ middle jobId, Inv middle → Inv (middle.reapJob now jobId)) :
    Inv (ctx.reconcileMissingWorkerJobs order workerId active now) := by
  obtain ⟨missingJobs, jobsToReap, same, _⟩ := ctx.reconcile_eq order workerId active now
  rw [same]
  exact List.foldlRecOn jobsToReap (reapJob now) (base missingJobs) fun middle valid jobId _ =>
    reaped middle jobId valid

theorem reconcile_frame (ctx : ControllerContext) (now : Nat) :
    (ctx.reconcileMissingWorkerJobs order workerId active now).state = { ctx.state with
      workers := (ctx.reconcileMissingWorkerJobs order workerId active now).state.workers
      jobs := (ctx.reconcileMissingWorkerJobs order workerId active now).state.jobs
      usageTracker := (ctx.reconcileMissingWorkerJobs order workerId active now).state.usageTracker } := by
  refine reconcile_invariant order workerId active (fun after => after.state = { ctx.state with
    workers := after.state.workers, jobs := after.state.jobs, usageTracker := after.state.usageTracker })
    (fun _ => rfl) fun middle jobId before => ?_
  rw [reapJob_state, before]

end Heartbeat

end ControllerContext

end Veloce
