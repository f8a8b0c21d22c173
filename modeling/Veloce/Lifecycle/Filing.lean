import Veloce.Handlers.Usage
import Veloce.Lifecycle.Accounting

/-! The records of finished jobs. -/

namespace Veloce

open Collections

/-- The status with which the job's record was filed. -/
def ControllerContext.finalStatus (ctx : ControllerContext) (jobId : JobId) : Option JobStatus :=
  (ctx.recorded.find? (·.jobId = jobId)).map JobUsage.status

/-- The records and the table: a job is filed once, when it leaves the table for good, and
the table has unfinished jobs only. -/
structure Filed (used : List JobId) (ctx : ControllerContext) : Prop where
  keyed : Keyed ctx.state.jobs
  known : ∀ jobId job, ctx.state.jobs.get? jobId = some job → jobId ∈ used
  unfinished : ∀ jobId job, ctx.state.jobs.get? jobId = some job → job.status.terminal = false
  once : (ctx.recorded.map JobUsage.jobId).Nodup
  gone : ∀ usage ∈ ctx.recorded, ctx.state.jobs.get? usage.jobId = none ∧ usage.jobId ∈ used
  final : ∀ usage ∈ ctx.recorded, ∃ job, usage = jobToUsage job ∧ job.status.terminal = true

section Files

open ControllerContext

variable {used : List JobId} {ctx ctx' : ControllerContext} {jobId : JobId} {status : JobStatus}

theorem Filed.quiet (filed : Filed used ctx) (books : SameBooks ctx ctx')
    (descends : Descends ctx.state.jobs ctx'.state.jobs)
    (lives : ∀ jobId, ctx.state.alive jobId → ctx'.state.alive jobId) : Filed used ctx' where
  keyed := descends.keyed filed.keyed
  known jobId job' found' := by
    obtain ⟨job, found, _⟩ := descends jobId job' found'
    exact filed.known jobId job found
  unfinished jobId job' found' := by
    obtain ⟨job, found, _⟩ := descends jobId job' found'
    obtain ⟨job'', found'', unfinished⟩ := lives jobId ⟨job, found, filed.unfinished jobId job found⟩
    cases found'.symm.trans found''
    exact unfinished
  once := by
    rw [books.recorded]
    exact filed.once
  gone usage member := by
    rw [books.recorded] at member
    obtain ⟨absent, old⟩ := filed.gone usage member
    exact ⟨descends.absent _ absent, old⟩
  final usage member := filed.final usage (books.recorded ▸ member)

theorem Filed.ends (filed : Filed used ctx) (ends : Ends ctx ctx' jobId) : Filed used ctx' := by
  obtain ⟨finalOf, recorded, terminal⟩ := ends.filed
  -- The new record, if there is one, is about a job that was still in the table.
  have new (usage : JobUsage) (member : usage ∈ ((ctx.state.jobs.get? jobId).map fun job =>
      jobToUsage (finalOf job)).toList) : ∃ job, ctx.state.jobs.get? jobId = some job ∧
        usage = jobToUsage (finalOf job) ∧ usage.jobId = jobId := by
    obtain ⟨job, found, same⟩ := Option.map_eq_some_iff.mp (Option.mem_toList.mp member)
    exact ⟨job, found, same.symm, same ▸ (terminal job).1.trans (filed.keyed jobId job found)⟩
  refine ⟨ends.retires.descends.keyed filed.keyed, ?_, ?_, ?_, ?_, ?_⟩
  · intro other job' found'
    obtain ⟨job, found, _⟩ := ends.retires.descends other job' found'
    exact filed.known other job found
  · intro other job' found'
    rw [ends.retires.get? other] at found'
    split at found'
    · cases found'
    · exact filed.unfinished other job' found'
  · rw [recorded, List.map_append]
    refine List.nodup_append'.mpr ⟨filed.once, ?_, ?_⟩
    · cases ctx.state.jobs.get? jobId with
      | none => exact List.nodup_nil
      | some job => exact List.nodup_singleton _
    · intro other old added
      obtain ⟨usage, member, same⟩ := List.mem_map.mp old
      obtain ⟨usage', member', same'⟩ := List.mem_map.mp added
      obtain ⟨job, found, _, about⟩ := new usage' member'
      have absent := (filed.gone usage member).1
      rw [same, ← same', about, found] at absent
      cases absent
  · intro usage member
    rw [recorded] at member
    rcases List.mem_append.mp member with old | added
    · obtain ⟨absent, before⟩ := filed.gone usage old
      exact ⟨ends.retires.descends.absent _ absent, before⟩
    · obtain ⟨job, found, _, about⟩ := new usage added
      rw [about]
      exact ⟨ends.retires.gone, filed.known jobId job found⟩
  · intro usage member
    rw [recorded] at member
    rcases List.mem_append.mp member with old | added
    · exact filed.final usage old
    · obtain ⟨job, _, same, _⟩ := new usage added
      exact ⟨finalOf job, same, (terminal job).2⟩

theorem Closing.filed {strict : Prop} (closing : Closing strict ctx ctx') : Filed used ctx → Filed used ctx' := by
  induction closing with
  | quiet books _ descends lives => intro filed; exact filed.quiet books descends lives
  | ends ends _ => intro filed; exact filed.ends ends
  | trans _ _ first second => intro filed; exact second (first filed)

theorem Filed.submit (filed : Filed used ctx) (submission : Submission) (nextJobId : Nat)
    (fresh : submission.job.id ∉ used) :
    Filed (submission.job.id :: used) { ctx with state := ctx.state.acceptSubmission submission nextJobId } := by
  unfold GlobalState.acceptSubmission
  split
  · refine ⟨?_, ?_, ?_, filed.once, ?_, filed.final⟩
    · intro jobId job found
      simp only [HashMap.get?_insert] at found
      split at found
      · rename_i same
        cases found
        exact same.symm
      · exact filed.keyed jobId job found
    · intro jobId job found
      simp only [HashMap.get?_insert] at found
      split at found
      · rename_i same
        exact same ▸ List.mem_cons_self
      · exact List.mem_cons_of_mem _ (filed.known jobId job found)
    · intro jobId job found
      simp only [HashMap.get?_insert] at found
      split at found
      · cases found
        exact congrArg JobStatus.terminal submission.pending
      · exact filed.unfinished jobId job found
    · intro usage member
      obtain ⟨absent, old⟩ := filed.gone usage member
      have different : usage.jobId ≠ submission.job.id := fun same => fresh (same ▸ old)
      refine ⟨?_, List.mem_cons_of_mem _ old⟩
      simp only [HashMap.get?_insert, different, ↓reduceIte]
      exact absent
  · exact ⟨filed.keyed, fun jobId job found => List.mem_cons_of_mem _ (filed.known jobId job found),
      filed.unfinished, filed.once, fun usage member => ⟨(filed.gone usage member).1,
        List.mem_cons_of_mem _ (filed.gone usage member).2⟩, filed.final⟩

theorem Closing.grows {strict : Prop} (closing : Closing strict ctx ctx') :
    ∃ more, ctx'.recorded = ctx.recorded ++ more := by
  induction closing with
  | quiet books _ _ _ => exact ⟨[], by rw [books.recorded, List.append_nil]⟩
  | ends ends _ =>
    obtain ⟨_, recorded, _⟩ := ends.filed
    exact ⟨_, recorded⟩
  | trans _ _ first second =>
    obtain ⟨more, first⟩ := first
    obtain ⟨more', second⟩ := second
    exact ⟨more ++ more', by rw [second, first, List.append_assoc]⟩

theorem finalStatus_grows {more : List JobUsage} (grows : ctx'.recorded = ctx.recorded ++ more)
    (filed : ctx.finalStatus jobId = some status) : ctx'.finalStatus jobId = some status := by
  obtain ⟨usage, found, same⟩ := Option.map_eq_some_iff.mp filed
  rw [finalStatus, grows, List.find?_append, found]
  exact congrArg some same

theorem Filed.finalStatus_eq (filed : Filed used ctx) {usage : JobUsage} (member : usage ∈ ctx.recorded) :
    ctx.finalStatus usage.jobId = some usage.status := by
  cases found : ctx.recorded.find? (·.jobId = usage.jobId) with
  | none =>
    have unlike := List.find?_eq_none.mp found usage member
    simp at unlike
  | some other =>
    have same : other.jobId = usage.jobId := by simpa using List.find?_some found
    have equal := List.inj_on_of_nodup_map filed.once (List.mem_of_find?_eq_some found) member same
    rw [finalStatus, found, equal]
    rfl

theorem closing_reportJobUsage (ctx : ControllerContext) (workerId : WorkerId) (usage : JobUsage) :
    Closing False ctx (ctx.reportJobUsage workerId usage).1 := by
  unfold reportJobUsage
  cases found : ctx.state.jobs.get? usage.jobId with
  | none => exact closing_sameTable ⟨rfl, rfl, rfl⟩ rfl rfl
  | some job =>
    refine .quiet ⟨rfl, rfl, rfl⟩ rfl (descends_modify _ _ fun _ => rfl) ?_
    rintro jobId ⟨job', found', unfinished⟩
    simp only [GlobalState.alive, HashMap.get?_modify]
    split
    · rename_i same
      rw [← same, found', Option.map_some]
      exact ⟨_, rfl, unfinished⟩
    · exact ⟨job', found', unfinished⟩

end Files

end Veloce
