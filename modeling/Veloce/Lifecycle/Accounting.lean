import Veloce.Lifecycle.Preempted

/-! The counters of completed and failed jobs and the records of the accounting store. -/

namespace Veloce

open Collections

namespace ControllerContext

/-- How often the job was counted as completed or failed. -/
def counts (ctx : ControllerContext) (jobId : JobId) : Nat :=
  ctx.completed.count jobId + ctx.failed.count jobId

/-- A record of the finished job was handed to `record_job`. -/
def Recorded (ctx : ControllerContext) (jobId : JobId) : Prop :=
  ∃ usage ∈ ctx.recorded, usage.jobId = jobId ∧ usage.status.terminal = true

/-- Neither the counters nor the accounting records differ. -/
structure SameBooks (ctx ctx' : ControllerContext) : Prop where
  completed : ctx'.completed = ctx.completed
  failed : ctx'.failed = ctx.failed
  recorded : ctx'.recorded = ctx.recorded

variable {ctx ctx' : ControllerContext}

theorem SameBooks.counts_eq (same : SameBooks ctx ctx') (jobId : JobId) :
    ctx'.counts jobId = ctx.counts jobId := by rw [counts, counts, same.completed, same.failed]

theorem SameBooks.record (same : SameBooks ctx ctx') {jobId : JobId} (recorded : ctx.Recorded jobId) :
    ctx'.Recorded jobId := by
  rw [Recorded, same.recorded]
  exact recorded

/-- A section that ends a job: the job leaves the table and is counted once, and
its record, if there is one, goes to the accounting store. -/
structure Ends (ctx ctx' : ControllerContext) (jobId : JobId) : Prop where
  retires : Retires ctx.state ctx'.state jobId
  role : ctx'.state.role = ctx.state.role
  counted : ctx'.completed = ctx.completed ++ [jobId] ∧ ctx'.failed = ctx.failed ∨
    ctx'.completed = ctx.completed ∧ ctx'.failed = ctx.failed ++ [jobId]
  filed : ∃ final : JobInfo → JobInfo,
    ctx'.recorded = ctx.recorded ++ ((ctx.state.jobs.get? jobId).map fun job => jobToUsage (final job)).toList ∧
      ∀ job, (final job).id = job.id ∧ (final job).status.terminal = true

theorem Ends.counts_eq {jobId : JobId} (ends : Ends ctx ctx' jobId) (other : JobId) :
    ctx'.counts other = ctx.counts other + if other = jobId then 1 else 0 := by
  have once : [jobId].count other = if other = jobId then 1 else 0 := by
    by_cases same : other = jobId
    · simp [same]
    · simp [same, Ne.symm same]
  rcases ends.counted with ⟨completed, failed⟩ | ⟨completed, failed⟩
  · rw [counts, counts, completed, failed, List.count_append, once]
    omega
  · rw [counts, counts, completed, failed, List.count_append, once]
    omega

theorem Ends.keeps {jobId other : JobId} (ends : Ends ctx ctx' jobId) (recorded : ctx.Recorded other) :
    ctx'.Recorded other := by
  obtain ⟨final, same, _⟩ := ends.filed
  obtain ⟨usage, member, about⟩ := recorded
  refine ⟨usage, ?_, about⟩
  rw [same]
  exact List.mem_append_left _ member

theorem Ends.record {jobId : JobId} {job : JobInfo} (ends : Ends ctx ctx' jobId)
    (found : ctx.state.jobs.get? jobId = some job) (keyed : job.id = jobId) : ctx'.Recorded jobId := by
  obtain ⟨final, same, terminal⟩ := ends.filed
  refine ⟨jobToUsage (final job), ?_, (terminal job).1.trans keyed, (terminal job).2⟩
  rw [same, found]
  exact List.mem_append_right _ List.mem_cons_self

section Sections

variable (ctx : ControllerContext) (jobId : JobId) (now : Nat)

/-- What the sections that end a job hand to the accounting store. -/
theorem retire_filed {touched : ControllerContext} {newStatus : JobStatus} (update : JobInfo → JobInfo)
    (books : touched.recorded = ctx.recorded)
    (record : touched.state.jobs.get? jobId = (ctx.state.jobs.get? jobId).map update)
    (keeps : ∀ job, (update job).id = job.id) (ends : newStatus.terminal = true) :
    ∃ final : JobInfo → JobInfo,
      (touched.retire jobId newStatus now).1.recorded =
        ctx.recorded ++ ((ctx.state.jobs.get? jobId).map fun job => jobToUsage (final job)).toList ∧
      ∀ job, (final job).id = job.id ∧ (final job).status.terminal = true := by
  refine ⟨fun job => (update job).finalized newStatus now, ?_, fun job => ⟨keeps job, ends⟩⟩
  rw [retire_recorded, books, record, Option.map_map]
  rfl

theorem notified_ends (newStatus : JobStatus) (ends : newStatus.terminal = true) :
    Ends ctx (((({ ctx with state := ctx.state.notifyHead jobId (.terminateJob jobId) }).forgetMissing jobId).retire
      jobId newStatus now).1.countFailed jobId) jobId where
  retires := Touches.retire (touches_notifyHead _ _ _) _ now
  role := by
    refine (retire_role _ jobId _ now).trans ?_
    simp only [forgetMissing]
    rw [GlobalState.notifyHead_eq]
  counted := .inr ⟨rfl, rfl⟩
  filed := by
    refine retire_filed ctx jobId now id rfl ?_ (fun _ => rfl) ends
    simp only [forgetMissing, Option.map_id_fun, id_eq]
    rw [GlobalState.notifyHead_eq]

theorem timeoutJob_ends : Ends ctx (ctx.timeoutJob jobId now) jobId := notified_ends ctx jobId now _ rfl

theorem cancelJob_ends {ctx' : ControllerContext} {caller : Caller}
    (canceled : ctx.cancelJob caller jobId now = .ok ctx') : Ends ctx ctx' jobId := by
  obtain ⟨_, _, same⟩ := cancelJob_cases canceled
  subst same
  exact notified_ends ctx jobId now _ rfl

theorem failOrphan_ends : Ends ctx (ctx.failOrphan jobId now) jobId where
  retires := failOrphan_retires ctx jobId now
  role := retire_role _ jobId _ now
  counted := .inr ⟨rfl, rfl⟩
  filed := by
    refine retire_filed ctx jobId now (fun job => { job with currentMemoryUsage := 0 }) rfl ?_ (fun _ => rfl) rfl
    simp only [forgetMissing, HashMap.get?_modify, ↓reduceIte]

theorem jobKilled_ends : Ends ctx (ctx.jobKilled jobId now) jobId where
  retires := jobKilled_retires ctx jobId now
  role := retire_role _ jobId _ now
  counted := .inr ⟨rfl, rfl⟩
  filed := retire_filed ctx jobId now id rfl (by simp [forgetMissing]) (fun _ => rfl) rfl

theorem jobDoneFinish_ends (exitCode : Int) (logFiles : HashMap WorkerId WorkerLogFiles)
    (stdoutId stderrId : Option String) :
    Ends ctx (ctx.jobDoneFinish jobId exitCode logFiles stdoutId stderrId now) jobId where
  retires := jobDoneFinish_retires ctx jobId now exitCode logFiles stdoutId stderrId
  role := retire_role _ jobId (.completed exitCode) now
  counted := .inl ⟨rfl, rfl⟩
  filed := by
    refine retire_filed ctx jobId now (ctx.loggedJob jobId logFiles stdoutId stderrId) rfl ?_ (fun _ => rfl) rfl
    simp only [HashMap.get?_modify, ↓reduceIte]

theorem jobError_ends (error : String) : Ends ctx (ctx.jobError jobId error now) jobId := by
  obtain ⟨logged, table, same⟩ := jobError_eq ctx jobId now error
  let touched : ControllerContext := { ctx.forgetMissing jobId with state := { ctx.state with jobs := logged } }
  have filed := @retire_filed ctx jobId now touched (.failed error) (ctx.trackedLogs jobId) rfl
    ((table jobId).trans (if_pos rfl)) (fun job => (trackedLogs_keeps ctx jobId job).1) rfl
  have role := retire_role touched jobId (.failed error) now
  refine ⟨jobError_retires ctx jobId now error, ?_, ?_, ?_⟩
  · rw [same _ rfl]
    exact role
  · rw [same _ rfl]
    exact .inr ⟨rfl, rfl⟩
  · rw [same _ rfl]
    exact filed

end Sections

def NoneOverdue (ctx : ControllerContext) (workerId : WorkerId) (active : List JobId) (now : Nat) : Prop :=
  ∀ entry ∈ ctx.state.jobs.toList, missingFrom entry.2 workerId active entry.1 now = true →
    now - ctx.missingJobs.getD entry.1 now ≤ 10

instance (ctx : ControllerContext) (workerId : WorkerId) (active : List JobId) (now : Nat) :
    Decidable (ctx.NoneOverdue workerId active now) := inferInstanceAs (Decidable (∀ entry ∈ _, _ → _))

theorem reconcile_idle (order : IterOrder Unit) {workerId : WorkerId} {active : List JobId} {now : Nat}
    (timely : ctx.NoneOverdue workerId active now) :
    ∃ missingJobs, ctx.reconcileMissingWorkerJobs order workerId active now =
      { ctx with missingJobs := missingJobs } := by
  obtain ⟨missingJobs, jobsToReap, same, late⟩ := ctx.reconcile_eq order workerId active now
  have none : jobsToReap = [] := by
    refine List.eq_nil_iff_forall_not_mem.mpr fun jobId listed => ?_
    have listed := (late jobId).mp listed
    unfold overdue at listed
    split at listed
    · rename_i job found
      simp only [Bool.and_eq_true, decide_eq_true_eq] at listed
      exact absurd (timely (jobId, job) (HashMap.mem_toList.mpr found) listed.1) (Nat.not_le.mpr listed.2)
    · cases listed
  rw [none] at same
  exact ⟨missingJobs, same⟩

end ControllerContext

def Event.FindsJob (leader : Leader) (event : Event) : Prop :=
  ∀ report, event.final leader = some report → (leader.ctx.state.jobs.get? report.jobId).isSome = true

def Event.ReapsNone (leader : Leader) : Event → Prop
  | .reconcile _ workerId active now => leader.ctx.NoneOverdue workerId active now
  | _ => True

instance Event.decidableFindsJob (leader : Leader) (event : Event) : Decidable (event.FindsJob leader) :=
  match found : event.final leader with
  | none => isTrue fun report same => by rw [found] at same; cases same
  | some report => decidable_of_iff ((leader.ctx.state.jobs.get? report.jobId).isSome = true)
      ⟨fun present report' same => by rw [found] at same; cases same; exact present,
        fun finds => finds report found⟩

instance Event.decidableReapsNone (leader : Leader) : (event : Event) → Decidable (event.ReapsNone leader)
  | .reconcile _ workerId active now => inferInstanceAs (Decidable (leader.ctx.NoneOverdue workerId active now))
  | .submit .. | .register .. | .endWriter .. | .disconnect .. | .schedule _ | .preempt _ | .jobStarted _ | .jobDone ..
  | .mergeDone _ | .finishDone .. | .jobError .. | .jobKilled .. | .cancel .. | .checkTimeouts .. | .prune .. =>
    isTrue trivial

def LandedStep (leader : Leader) (event : Event) (next : Leader) : Prop :=
  (event.Genuine leader ∧ event.FindsJob leader ∧ event.ReapsNone leader) ∧ leader.apply event = some next

theorem LandedStep.genuine (leader : Leader) (event : Event) (next : Leader)
    (taken : LandedStep leader event next) : event.Genuine leader ∧ leader.apply event = some next :=
  ⟨taken.1.1, taken.2⟩

/-- A step over the books: sections that end no job, and sections that end one, one
after the other. In a strict step the table has the jobs that are ended. -/
inductive Closing (strict : Prop) : ControllerContext → ControllerContext → Prop where
  | quiet {ctx ctx' : ControllerContext} (books : ctx.SameBooks ctx') (role : ctx'.state.role = ctx.state.role)
      (descends : Descends ctx.state.jobs ctx'.state.jobs)
      (lives : ∀ jobId, ctx.state.alive jobId → ctx'.state.alive jobId) : Closing strict ctx ctx'
  | ends {ctx ctx' : ControllerContext} {jobId : JobId} (ends : ctx.Ends ctx' jobId)
      (finds : strict → ∃ job, ctx.state.jobs.get? jobId = some job ∧ job.id = jobId) : Closing strict ctx ctx'
  | trans {ctx middle ctx' : ControllerContext} (first : Closing strict ctx middle)
      (second : Closing strict middle ctx') : Closing strict ctx ctx'

/-- The books agree with the table: a job of the table is unfinished and not
counted, and a submitted job that left it is counted once and recorded. -/
structure Booked (used : List JobId) (ctx : ControllerContext) : Prop where
  role : ctx.state.role = .leader
  known : ∀ jobId job, ctx.state.jobs.get? jobId = some job → jobId ∈ used
  table : ∀ jobId job, ctx.state.jobs.get? jobId = some job → job.status.terminal = false ∧ ctx.counts jobId = 0
  ended : ∀ jobId ∈ used, ctx.state.jobs.get? jobId = none → ctx.counts jobId = 1 ∧ ctx.Recorded jobId
  unused : ∀ jobId, jobId ∉ used → ctx.counts jobId = 0

section Books

open ControllerContext

variable {used : List JobId} {ctx ctx' : ControllerContext} {jobId : JobId} {strict : Prop}

theorem Booked.ends {job : JobInfo} (booked : Booked used ctx) (ends : Ends ctx ctx' jobId)
    (found : ctx.state.jobs.get? jobId = some job) (keyed : job.id = jobId) : Booked used ctx' where
  role := ends.role.trans booked.role
  known other job' found' := by
    rw [ends.retires.get? other] at found'
    split at found'
    · cases found'
    · exact booked.known other job' found'
  table other job' found' := by
    rw [ends.retires.get? other] at found'
    split at found'
    · cases found'
    · rename_i different
      obtain ⟨unfinished, none⟩ := booked.table other job' found'
      exact ⟨unfinished, by rw [ends.counts_eq, none, if_neg different]⟩
  ended other member gone := by
    by_cases same : other = jobId
    · subst same
      refine ⟨?_, ends.record found keyed⟩
      rw [ends.counts_eq, (booked.table other job found).2, if_pos rfl]
    · rw [ends.retires.others other same] at gone
      obtain ⟨once, recorded⟩ := booked.ended other member gone
      exact ⟨by rw [ends.counts_eq, once, if_neg same], ends.keeps recorded⟩
  unused other fresh := by
    have different : other ≠ jobId := fun same => fresh (same ▸ booked.known jobId job found)
    rw [ends.counts_eq, booked.unused other fresh, if_neg different]

theorem Booked.quiet (booked : Booked used ctx) (books : SameBooks ctx ctx') (role : ctx'.state.role = ctx.state.role)
    (descends : Descends ctx.state.jobs ctx'.state.jobs)
    (lives : ∀ jobId, ctx.state.alive jobId → ctx'.state.alive jobId) : Booked used ctx' := by
  refine ⟨role.trans booked.role, ?_, ?_, ?_, ?_⟩
  · intro jobId job' found'
    obtain ⟨job, found, _⟩ := descends jobId job' found'
    exact booked.known jobId job found
  · intro jobId job' found'
    obtain ⟨job, found, _⟩ := descends jobId job' found'
    obtain ⟨unfinished, none⟩ := booked.table jobId job found
    obtain ⟨job'', found'', unfinished'⟩ := lives jobId ⟨job, found, unfinished⟩
    cases found'.symm.trans found''
    exact ⟨unfinished', (books.counts_eq jobId).trans none⟩
  · intro jobId member gone
    have missing : ctx.state.jobs.get? jobId = none := by
      cases found : ctx.state.jobs.get? jobId with
      | none => rfl
      | some job =>
        obtain ⟨job', found', _⟩ := lives jobId ⟨job, found, (booked.table jobId job found).1⟩
        rw [gone] at found'
        cases found'
    obtain ⟨once, recorded⟩ := booked.ended jobId member missing
    exact ⟨(books.counts_eq jobId).trans once, books.record recorded⟩
  · intro jobId fresh
    exact (books.counts_eq jobId).trans (booked.unused jobId fresh)

theorem Closing.booked (closing : Closing True ctx ctx') : Booked used ctx → Booked used ctx' := by
  induction closing with
  | quiet books role descends lives => intro booked; exact booked.quiet books role descends lives
  | ends ends finds =>
    intro booked
    obtain ⟨job, found, keyed⟩ := finds trivial
    exact booked.ends ends found keyed
  | trans _ _ first second => intro booked; exact second (first booked)

theorem Closing.absent (closing : Closing strict ctx ctx') (jobId : JobId) :
    ctx.state.jobs.get? jobId = none → ctx'.state.jobs.get? jobId = none := by
  induction closing with
  | quiet _ _ descends _ => exact descends.absent jobId
  | ends ends _ =>
    intro gone
    rw [ends.retires.get? jobId]
    split
    · rfl
    · exact gone
  | trans _ _ first second => intro gone; exact second (first gone)

theorem Closing.counted (closing : Closing True ctx ctx') (jobId : JobId) :
    ctx.state.jobs.get? jobId = none →
      ctx'.completed.count jobId = ctx.completed.count jobId ∧ ctx'.failed.count jobId = ctx.failed.count jobId := by
  induction closing with
  | quiet books _ _ _ => intro _; rw [books.completed, books.failed]; exact ⟨rfl, rfl⟩
  | @ends ctx ctx' target ends finds =>
    intro gone
    have different : target ≠ jobId := by
      intro same
      obtain ⟨job, found, _⟩ := finds trivial
      rw [same, gone] at found
      cases found
    have other : [target].count jobId = 0 := List.count_eq_zero.mpr (by simpa using different.symm)
    rcases ends.counted with ⟨completed, failed⟩ | ⟨completed, failed⟩
    · rw [completed, failed, List.count_append, other]
      exact ⟨rfl, rfl⟩
    · rw [completed, failed, List.count_append, other]
      exact ⟨rfl, rfl⟩
  | trans first _ before after =>
    intro gone
    obtain ⟨completed, failed⟩ := after (first.absent jobId gone)
    obtain ⟨completed', failed'⟩ := before gone
    exact ⟨completed.trans completed', failed.trans failed'⟩

theorem closing_sameTable (books : SameBooks ctx ctx') (role : ctx'.state.role = ctx.state.role)
    (jobs : ctx'.state.jobs = ctx.state.jobs) : Closing strict ctx ctx' := by
  refine .quiet books role (jobs ▸ .refl _) fun jobId lives => ?_
  rw [GlobalState.alive, jobs]
  exact lives

theorem closing_preempt (ctx : ControllerContext) (target : JobId) :
    Closing strict ctx { ctx with state := ctx.state.preemptJob target } := by
  refine .quiet ⟨rfl, rfl, rfl⟩ ?_ (evictJobs_descends ctx.state [target]) fun jobId ⟨job, found, unfinished⟩ => ?_
  · simp only
    rw [GlobalState.preemptJob_frame]
  · simp only [GlobalState.alive, GlobalState.get?_preemptJob]
    split
    · rename_i same
      rw [← same, found, Option.map_some]
      refine ⟨_, rfl, ?_⟩
      unfold JobInfo.evicted
      split
      · rfl
      · exact unfinished
    · exact ⟨job, found, unfinished⟩

theorem closing_jobStarted (ctx : ControllerContext) (target : JobId) :
    Closing strict ctx { ctx with state := ctx.state.jobStarted target } := by
  refine .quiet ⟨rfl, rfl, rfl⟩ rfl ?_ fun jobId ⟨job, found, unfinished⟩ => ?_
  · exact descends_modify ctx.state.jobs target fun _ => rfl
  · simp only [GlobalState.alive, GlobalState.jobStarted, HashMap.get?_modify]
    split
    · rename_i same
      rw [← same, found, Option.map_some]
      exact ⟨_, rfl, rfl⟩
    · exact ⟨job, found, unfinished⟩

theorem closing_prune (ctx : ControllerContext) (retentionSeconds now : Nat) :
    Closing strict ctx (ctx.pruneJobs retentionSeconds now) := by
  unfold pruneJobs
  split
  · refine .quiet ⟨rfl, rfl, rfl⟩ rfl (fun jobId job' found' => ?_) fun jobId ⟨job, found, unfinished⟩ => ?_
    · simp only [HashMap.get?_retain] at found'
      exact ⟨job', (Option.filter_eq_some_iff.mp found').1, rfl⟩
    · refine ⟨job, ?_, unfinished⟩
      simp only [HashMap.get?_retain, found, Option.filter_some, prunable, unfinished, Bool.false_and,
        Bool.not_false, ↓reduceIte]
  · exact closing_sameTable ⟨rfl, rfl, rfl⟩ rfl rfl

theorem schedule_role {input : PassInput} {state final : GlobalState} (ran : scheduleJobs input state = some final) :
    final.role = state.role := by
  obtain ⟨pass, turns, same⟩ := Option.map_eq_some_iff.mp ran
  subst same
  refine passTurns_invariant (fun _ pass => pass.state.role = state.role) ?_ _ rfl turns
  intro turnOf rest pass next before taken
  cases passTurn_outcome taken with
  | skip _ _ => exact before
  | wait _ _ _ reworded _ => rw [reworded.rest]; exact before
  | @start job placement cleared started _ _ _ reworded _ starts =>
    obtain ⟨workers, _, same⟩ := startJob_eq starts
    have evicted : (cleared.evictJobs placement.evictions).role = cleared.role := by
      rw [GlobalState.evictJobs_frame]
    have worded : cleared.role = pass.state.role := by rw [reworded.rest]
    exact (congrArg GlobalState.role same).trans (evicted.trans (worded.trans before))

theorem closing_schedule {input : PassInput} {final : GlobalState}
    (ran : scheduleJobs input ctx.state = some final) : Closing strict ctx { ctx with state := final } :=
  .quiet ⟨rfl, rfl, rfl⟩ (schedule_role ran) (schedule_descends ran) fun _ lives => schedule_alive ran lives

/-- The timeouts fail only jobs of a sound table, each of them once. -/
theorem closing_checkTimeouts (sound : strict → Sound ctx.state) (order : IterOrder TimeoutSite) (now : Nat) :
    Closing strict ctx (ControllerContext.checkTimeouts order ctx now) := by
  let Found (due : List JobId) (now' : ControllerContext) : Prop :=
    Sound now'.state ∧ due.Nodup ∧ ∀ jobId ∈ due, ∃ job, now'.state.jobs.get? jobId = some job
  let Inv (due : List JobId) (now' : ControllerContext) : Prop := (strict → Found due now') ∧ Closing strict ctx now'
  have removal (before after : ControllerContext) (failed : JobId) (rest : List JobId)
      (valid : Inv (failed :: rest) before) (ends : Ends before after failed) : Inv rest after := by
    obtain ⟨finds, closing⟩ := valid
    refine ⟨fun holds => ?_, closing.trans (.ends ends fun holds => ?_)⟩
    · obtain ⟨sound, distinct, present⟩ := finds holds
      rw [List.nodup_cons] at distinct
      refine ⟨sound.retires ends.retires, distinct.2, fun jobId member => ?_⟩
      have different : jobId ≠ failed := fun same => distinct.1 (same ▸ member)
      rw [ends.retires.others jobId different]
      exact present jobId (List.mem_cons_of_mem _ member)
    · obtain ⟨sound, _, present⟩ := finds holds
      obtain ⟨job, found⟩ := present failed List.mem_cons_self
      exact ⟨job, found, sound.keyed failed job found⟩
  have begins : Closing strict ctx ctx := closing_sameTable ⟨rfl, rfl, rfl⟩ rfl rfl
  have ends : Inv [] (ControllerContext.checkTimeouts order ctx now) := by
    refine checkTimeouts_invariant Inv ?_ ?_ ?_ ?_ ?_
    · exact fun _ => ⟨fun holds => ⟨sound holds, List.nodup_nil, fun _ member => absurd member List.not_mem_nil⟩, begins⟩
    · refine ⟨fun holds => ⟨sound holds, timedOutJobs_nodup order ctx.state now, fun jobId member => ?_⟩, begins⟩
      obtain ⟨job, found, _⟩ := mem_timedOutJobs.mp member
      exact ⟨job, found⟩
    · intro before failed rest valid
      exact removal before _ failed rest valid (timeoutJob_ends before failed now)
    · rintro before workerId ⟨finds, closing⟩
      refine ⟨fun holds => ?_, closing.trans (closing_sameTable ⟨rfl, rfl, rfl⟩ rfl rfl)⟩
      obtain ⟨sound, _, _⟩ := finds holds
      refine ⟨sound.removeWorker workerId, orphans_nodup order before workerId, fun jobId member => ?_⟩
      obtain ⟨worker, present, listed⟩ := mem_orphans.mp member
      obtain ⟨job, found, _⟩ := sound.listed workerId worker present jobId listed
      exact ⟨job, found⟩
    · intro before failed rest valid
      exact removal before _ failed rest valid (failOrphan_ends before failed now)
  exact ends.2

theorem Booked.submit (booked : Booked used ctx) (submission : Submission) (nextJobId : Nat)
    (fresh : submission.job.id ∉ used) :
    Booked (submission.job.id :: used) { ctx with state := ctx.state.acceptSubmission submission nextJobId } := by
  rw [GlobalState.acceptSubmission, if_pos booked.role]
  refine ⟨booked.role, ?_, ?_, ?_, ?_⟩
  · intro jobId job found
    simp only [HashMap.get?_insert] at found
    split at found
    · rename_i same
      exact same ▸ List.mem_cons_self
    · exact List.mem_cons_of_mem _ (booked.known jobId job found)
  · intro jobId job found
    simp only [HashMap.get?_insert] at found
    split at found
    · rename_i same
      cases found
      exact ⟨congrArg JobStatus.terminal submission.pending, booked.unused jobId (same ▸ fresh)⟩
    · exact booked.table jobId job found
  · intro jobId member gone
    simp only [HashMap.get?_insert] at gone
    split at gone
    · cases gone
    · rename_i different
      exact booked.ended jobId ((List.mem_cons.mp member).resolve_left different) gone
  · intro jobId unused
    exact booked.unused jobId fun old => unused (List.mem_cons_of_mem _ old)

end Books

/-- Every section other than a submission closes the jobs that it ends. -/
theorem apply_closing {leader next : Leader} {event : Event} {strict : Prop}
    (sound : strict → Sound leader.ctx.state ∧ event.FindsJob leader) (none : event.ReapsNone leader)
    (taken : leader.apply event = some next)
    (other : ∀ submission nextJobId, event ≠ .submit submission nextJobId) : Closing strict leader.ctx next.ctx := by
  have ends {ctx : ControllerContext} {jobId : JobId} (ends : leader.ctx.Ends ctx jobId)
      (present : strict → (leader.ctx.state.jobs.get? jobId).isSome = true) : Closing strict leader.ctx ctx := by
    refine .ends ends fun holds => ?_
    obtain ⟨job, found⟩ := Option.isSome_iff_exists.mp (present holds)
    exact ⟨job, found, (sound holds).1.keyed jobId job found⟩
  cases event with
  | submit submission nextJobId => exact absurd rfl (other submission nextJobId)
  | register registration now => cases taken; exact closing_sameTable ⟨rfl, rfl, rfl⟩ rfl rfl
  | endWriter _ _ | disconnect _ _ _ => cases taken; exact closing_sameTable ⟨rfl, rfl, rfl⟩ rfl rfl
  | schedule input =>
    obtain ⟨state, ran, same⟩ := Option.map_eq_some_iff.mp taken
    subst same
    exact closing_schedule ran
  | preempt target => cases taken; exact closing_preempt leader.ctx target
  | reconcile order workerId active now =>
    obtain ⟨missingJobs, same⟩ := ControllerContext.reconcile_idle order none
    rw [Leader.apply, same, Option.some.injEq] at taken
    subst taken
    exact closing_sameTable ⟨rfl, rfl, rfl⟩ rfl rfl
  | jobStarted report => cases taken; exact closing_jobStarted leader.ctx report.jobId
  | jobDone report exitCode =>
    rw [leader.apply_jobDone report exitCode, Option.some.injEq] at taken
    subst taken
    exact closing_sameTable ⟨rfl, rfl, rfl⟩ rfl rfl
  | mergeDone index =>
    obtain ⟨tasks, same⟩ := Leader.mergeDone_tasks taken
    subst same
    exact closing_sameTable ⟨rfl, rfl, rfl⟩ rfl rfl
  | finishDone index stdoutId stderrId now =>
    obtain ⟨report, exitCode, logFiles, task, same⟩ := Leader.finishDone_cases taken
    subst same
    refine ends (ControllerContext.jobDoneFinish_ends _ _ _ _ _ _ _) fun holds => (sound holds).2 report ?_
    simp only [Event.final, task, Option.map_some, DoneTask.report]
  | jobError report error now =>
    cases taken
    exact ends (ControllerContext.jobError_ends leader.ctx report.jobId now error) fun holds => (sound holds).2 report rfl
  | jobKilled report now =>
    cases taken
    exact ends (ControllerContext.jobKilled_ends leader.ctx report.jobId now) fun holds => (sound holds).2 report rfl
  | cancel caller target now =>
    rcases Leader.cancel_cases taken with ⟨ctx, canceled, same⟩ | same
    · subst same
      refine ends (ControllerContext.cancelJob_ends leader.ctx target now canceled) fun _ => ?_
      obtain ⟨job, found, _⟩ := ControllerContext.cancelJob_cases canceled
      rw [found]
      rfl
    · subst same
      exact closing_sameTable ⟨rfl, rfl, rfl⟩ rfl rfl
  | checkTimeouts order now => cases taken; exact closing_checkTimeouts (fun holds => (sound holds).1) order now
  | prune retentionSeconds now => cases taken; exact closing_prune leader.ctx retentionSeconds now

theorem booked_of_reach {leader : Leader} (reached : Reach Leader.Fresh LandedStep leader) :
    Booked leader.history.used leader.ctx := by
  induction reached with
  | @start leader fresh =>
    obtain ⟨completed, failed, recorded⟩ := fresh.counters
    have none (jobId : JobId) : leader.ctx.counts jobId = 0 := by
      rw [ControllerContext.counts, completed, failed]
      rfl
    refine ⟨fresh.role, ?_, ?_, ?_, fun jobId _ => none jobId⟩
    · intro jobId job found
      rw [fresh.jobs] at found
      cases found
    · intro jobId job found
      rw [fresh.jobs] at found
      cases found
    · intro jobId member
      rw [fresh.history] at member
      cases member
  | @step leader next event earlier taken booked =>
    have valid := accountable_of_reach LandedStep.genuine earlier
    obtain ⟨⟨genuine, finds, none⟩, applied⟩ := taken
    by_cases submits : ∃ submission nextJobId, event = .submit submission nextJobId
    · obtain ⟨submission, nextJobId, same⟩ := submits
      subst same
      cases applied
      exact booked.submit submission nextJobId genuine
    · have other : ∀ submission nextJobId, event ≠ .submit submission nextJobId :=
        fun submission nextJobId same => submits ⟨submission, nextJobId, same⟩
      have used : next.history.used = leader.history.used := by
        rw [apply_used applied]
        cases event with
        | submit submission nextJobId => exact absurd rfl (other submission nextJobId)
        | _ => rfl
      rw [used]
      exact (apply_closing (fun _ => ⟨valid.sound, finds⟩) none applied other).booked booked

/-- In a run whose reports all find their jobs and whose heartbeats reap none, a
submitted job that is no longer Pending or Running was counted exactly once and
recorded, and every count is of a job that is in the table. -/
theorem ended_job_is_counted_once {leader : Leader} (reached : Reach Leader.Fresh LandedStep leader) :
    (∀ jobId ∈ leader.history.used, ¬ leader.ctx.state.alive jobId →
      leader.ctx.completed.count jobId + leader.ctx.failed.count jobId = 1 ∧
        ∃ usage ∈ leader.ctx.recorded, usage.jobId = jobId ∧ usage.status.terminal = true) ∧
    ∀ event next, LandedStep leader event next → ∀ jobId,
      next.ctx.completed.count jobId ≠ leader.ctx.completed.count jobId ∨
        next.ctx.failed.count jobId ≠ leader.ctx.failed.count jobId →
      ∃ job, leader.ctx.state.jobs.get? jobId = some job := by
  have valid := accountable_of_reach LandedStep.genuine reached
  have booked := booked_of_reach reached
  constructor
  · intro jobId submitted ended
    refine booked.ended jobId submitted ?_
    cases found : leader.ctx.state.jobs.get? jobId with
    | none => rfl
    | some job => exact absurd ⟨job, found, (booked.table jobId job found).1⟩ ended
  · rintro event next ⟨⟨genuine, finds, none⟩, applied⟩ jobId counted
    cases found : leader.ctx.state.jobs.get? jobId with
    | some job => exact ⟨job, rfl⟩
    | none =>
      have same : next.ctx.completed.count jobId = leader.ctx.completed.count jobId ∧
          next.ctx.failed.count jobId = leader.ctx.failed.count jobId := by
        by_cases submits : ∃ submission nextJobId, event = .submit submission nextJobId
        · obtain ⟨submission, nextJobId, same⟩ := submits
          subst same
          cases applied
          exact ⟨rfl, rfl⟩
        · refine (apply_closing (fun _ => ⟨valid.sound, finds⟩) none applied ?_).counted jobId found
          exact fun submission nextJobId same => submits ⟨submission, nextJobId, same⟩
      rcases counted with more | more
      · exact absurd same.1 more
      · exact absurd same.2 more

/-- One worker runs a job. -/
def oneNode : List Event :=
  [.register (sampleRegistration "w1") 100, .submit (sampleSubmission 1 .production 1 "sh") 2,
    .schedule { now := 100 }]

/-- A job that its worker reports as done is counted as completed. -/
theorem ended_job_is_counted_once_done : ∃ leader, Reach Leader.Fresh LandedStep leader ∧
    1 ∈ leader.history.used ∧ ¬ leader.ctx.state.alive 1 ∧
    leader.ctx.completed.count 1 + leader.ctx.failed.count 1 = 1 ∧
      ∃ usage ∈ leader.ctx.recorded, usage.jobId = 1 ∧ usage.status.terminal = true := by
  let events : List Event := oneNode ++ [.reconcile .stored "w1" [] 200, .jobDone ⟨"w1", 1, 1⟩ 0, .mergeDone 0,
    .finishDone 0 none none 200]
  have allowed : AllowedRun (fun leader event => event.Genuine leader ∧ event.FindsJob leader ∧ event.ReapsNone leader)
      Leader.apply events { ctx := sampleLeader } := by decide +kernel
  have facts : (runLabels Leader.apply events { ctx := sampleLeader }).map (fun leader =>
      (decide (1 ∈ leader.history.used), (leader.ctx.state.jobs.get? 1).isNone)) = some (true, true) := by
    decide +kernel
  obtain ⟨leader, reached, _, facts⟩ := exists_reach Leader.sampleLeader_fresh allowed facts
  rw [Prod.mk.injEq, decide_eq_true_eq] at facts
  obtain ⟨submitted, missing⟩ := facts
  have ended : ¬ leader.ctx.state.alive 1 := by
    intro ⟨job, found, _⟩
    rw [found] at missing
    cases missing
  exact ⟨leader, reached, submitted, ended, (ended_job_is_counted_once reached).1 1 submitted ended⟩

/-- The worker's reply to TerminateJob counts the cancelled job a second time, when
it is no longer in the table; a reaped job is counted nowhere and not recorded. -/
theorem cancelled_job_is_counted_twice :
    (∃ leader next, Reach Leader.Fresh GenuineStep leader ∧ leader.ctx.state.jobs.get? 1 = none ∧
      leader.ctx.failed = [1] ∧ GenuineStep leader (.jobKilled ⟨"w1", 1, 1⟩ 300) next ∧
      next.ctx.failed = [1, 1]) ∧
    ∃ leader, Reach Leader.Fresh GenuineStep leader ∧ 1 ∈ leader.history.used ∧ ¬ leader.ctx.state.alive 1 ∧
      leader.ctx.completed = [] ∧ leader.ctx.failed = [] ∧ leader.ctx.recorded = [] := by
  constructor
  · let events : List Event := oneNode ++ [.cancel ⟨"user", []⟩ 1 200]
    have genuine : AllowedRun (fun leader event => event.Genuine leader) Leader.apply events
        { ctx := sampleLeader } := by decide +kernel
    have facts : (runLabels Leader.apply events { ctx := sampleLeader }).map (fun leader =>
        (leader.ctx.failed, (leader.ctx.state.jobs.get? 1).isNone, decide (Report.Sent leader ⟨"w1", 1, 1⟩))) =
          some ([1], true, true) := by
      decide +kernel
    obtain ⟨leader, reached, _, facts⟩ := exists_reach Leader.sampleLeader_fresh genuine facts
    rw [Prod.mk.injEq, Prod.mk.injEq, decide_eq_true_eq, Option.isNone_iff_eq_none] at facts
    obtain ⟨failed, missing, sent⟩ := facts
    exact ⟨leader, _, reached, missing, failed, ⟨sent, rfl⟩, congrArg (· ++ [1]) failed⟩
  · let events : List Event := oneNode ++ [.reconcile .stored "w1" [] 200, .reconcile .stored "w1" [] 300]
    have genuine : AllowedRun (fun leader event => event.Genuine leader) Leader.apply events
        { ctx := sampleLeader } := by decide +kernel
    have facts : (runLabels Leader.apply events { ctx := sampleLeader }).map (fun leader =>
        ((leader.ctx.state.jobs.get? 1).map JobInfo.status, leader.ctx.completed ++ leader.ctx.failed,
          decide (1 ∈ leader.history.used ∧ leader.ctx.recorded.length = 0))) =
          some (some (.failed "Process exited or failed to start"), [], true) := by
      decide +kernel
    obtain ⟨leader, reached, _, facts⟩ := exists_reach Leader.sampleLeader_fresh genuine facts
    rw [Prod.mk.injEq, Prod.mk.injEq, decide_eq_true_eq, List.append_eq_nil_iff, List.length_eq_zero_iff] at facts
    obtain ⟨status, ⟨completed, failed⟩, submitted, recorded⟩ := facts
    refine ⟨leader, reached, submitted, ?_, completed, failed, recorded⟩
    intro ⟨job, found, unfinished⟩
    rw [found, Option.map_some, Option.some.injEq] at status
    rw [status] at unfinished
    cases unfinished

end Veloce
