import Veloce.Collections.Run
import Veloce.Ledger.Pass
import Veloce.Ledger.Retire

/-! A leader whose workers always report the same resources: what holds of its handles
over submissions, passes, finalizations, preemptions, registrations, disconnections and
timeouts, for any notion of agreement between a handle and the table. -/

namespace Veloce

open Collections

/-- A notion of agreement that survives everything that can happen to a handle. -/
structure HandleRule (Valid : HashMap JobId JobInfo → WorkerId → WorkerHandle → Prop) : Prop where
  ledgers : LedgerRule Valid fun worker job => worker.allocatedMemory + job.reqMemory ≤ worker.resources.totalMb
  full : ∀ {jobs workerId worker}, Valid jobs workerId worker → HandleFull jobs workerId worker
  ledger : ∀ {jobs workerId worker worker'}, Valid jobs workerId worker → SameLedger worker worker' →
    Valid jobs workerId worker'
  rebuild : ∀ {jobs workerId old worker}, Keyed jobs → Valid jobs workerId old → worker.resources = old.resources →
    Rebuilt (rebuildWorkerAllocations workerId worker.resources jobs) worker → Valid jobs workerId worker
  idle : ∀ {jobs workerId worker}, Rebuilt (.idle worker.resources) worker →
    (∀ jobId job, jobs.get? jobId = some job → job.runsOn workerId = false) → Valid jobs workerId worker

/-- The invariant of a run in which worker `w` always reports `reports w`. The jobs in
`owed` may still run on a worker that has just been removed. -/
structure Balanced (Valid : HashMap JobId JobInfo → WorkerId → WorkerHandle → Prop) (reports : WorkerId → Resources)
    (owed : List JobId) (state : GlobalState) : Prop where
  keyed : Keyed state.jobs
  present : ∀ jobId job, state.jobs.get? jobId = some job → job.status = .running →
    ∀ workerId ∈ job.assignedWorkers, jobId ∈ owed ∨ ∃ worker, state.workers.get? workerId = some worker
  reported : ∀ workerId worker, state.workers.get? workerId = some worker →
    worker.resources = reports workerId
  agrees : Agrees Valid state

variable {Valid : HashMap JobId JobInfo → WorkerId → WorkerHandle → Prop} {reports : WorkerId → Resources}
  {owed : List JobId} {state state' : GlobalState} {jobId : JobId}

theorem SameLinks.reported {workers workers' : HashMap WorkerId WorkerHandle} (links : SameLinks workers workers')
    (reported : ∀ workerId worker, workers.get? workerId = some worker → worker.resources = reports workerId)
    (workerId : WorkerId) (worker' : WorkerHandle) (found : workers'.get? workerId = some worker') :
    worker'.resources = reports workerId := by
  obtain ⟨worker, present, link⟩ := links.symm.found found
  exact (congrArg Link.resources link).symm.trans (reported workerId worker present)

theorem SameLinks.present {workers workers' : HashMap WorkerId WorkerHandle} (links : SameLinks workers workers')
    {workerId : WorkerId} (present : ∃ worker, workers.get? workerId = some worker) :
    ∃ worker, workers'.get? workerId = some worker := by
  obtain ⟨worker, found⟩ := present
  obtain ⟨worker', found', _⟩ := links.found found
  exact ⟨worker', found'⟩

theorem Balanced.reworded (rule : HandleRule Valid) (valid : Balanced Valid reports owed state)
    (reworded : Reworded state state') :
    Balanced Valid reports owed state' where
  keyed := reworded.descends.keyed valid.keyed
  present jobId job found running workerId node := by
    obtain ⟨before, stored, same⟩ := reworded.found_back found
    have footprint := unworded_footprint same
    simp only [JobInfo.footprint, Prod.mk.injEq] at footprint
    rw [reworded.workers]
    exact valid.present jobId before stored (footprint.1 ▸ running) workerId (footprint.2.1 ▸ node)
  reported := by
    rw [reworded.workers]
    exact valid.reported
  agrees := valid.agrees.reworded rule.ledgers reworded

/-- Releasing a job while its record is closed or removed. -/
theorem Balanced.close (rule : HandleRule Valid) (valid : Balanced Valid reports owed state)
    (workers : state'.workers = (state.releaseJobResourcesInternal jobId).workers)
    (closes : Closes state.jobs state'.jobs jobId) (descends : Descends state.jobs state'.jobs) :
    Balanced Valid reports owed state' where
  keyed := descends.keyed valid.keyed
  present other job found running workerId node := by
    have different : other ≠ jobId := by
      intro same
      subst same
      exact closes.closed job found running
    rw [closes.others other different] at found
    rw [workers]
    exact (valid.present other job found running workerId node).imp_right (release_links state jobId).present
  reported := by
    rw [workers]
    exact (release_links state jobId).reported valid.reported
  agrees := valid.agrees.release rule.ledgers workers closes

theorem Balanced.paid (valid : Balanced Valid reports (jobId :: owed) state)
    (gone : state.jobs.get? jobId = none) : Balanced Valid reports owed state :=
  { valid with
    present := by
      intro other job found running workerId node
      rcases valid.present other job found running workerId node with due | there
      · rcases List.mem_cons.mp due with same | later
        · rw [same, gone] at found
          cases found
        · exact .inl later
      · exact .inr there }

theorem Balanced.finalize (rule : HandleRule Valid) (valid : Balanced Valid reports owed state) {newStatus : JobStatus}
    (ends : newStatus ≠ .running) (now : Nat) : Balanced Valid reports owed (state.finalizeJob jobId newStatus now).1 := by
  rw [GlobalState.finalizeJob_eq]
  exact valid.close rule rfl (closes_modify fun _ _ => ends) (descends_modify _ _ fun _ => rfl)

theorem Balanced.remove (rule : HandleRule Valid) (valid : Balanced Valid reports owed state)
    (idle : ∀ job, state.jobs.get? jobId = some job → job.status ≠ .running) :
    Balanced Valid reports owed { state with jobs := state.jobs.remove jobId } where
  keyed := (descends_remove _ _).keyed valid.keyed
  present other job found := by
    rw [HashMap.get?_remove] at found
    split at found
    · cases found
    · exact valid.present other job found
  reported := valid.reported
  agrees workerId worker found := by
    refine rule.ledgers.closeElsewhere (valid.agrees workerId worker found)
      (Closes.remove ⟨idle, fun _ _ => rfl⟩) fun job stored => ?_
    exact runsOn_of_not_running (idle job stored) workerId

theorem Balanced.preempt (rule : HandleRule Valid) (valid : Balanced Valid reports owed state) (jobId : JobId) :
    Balanced Valid reports owed (state.preemptJob jobId) := by
  rcases state.preemptJob_cases jobId with ⟨_, _, _, same⟩ | same
  · rw [same]
    exact valid.close rule rfl (closes_modify fun _ _ => by simp [JobInfo.requeued]) (descends_modify _ _ fun _ => rfl)
  · rw [same]
    exact valid

theorem Balanced.start (rule : HandleRule Valid) (valid : Balanced Valid reports owed state) {input : PassInput}
    {turn : Nat}
    {job stored : JobInfo} {placement : Placement}
    (placed : placeJob input turn state job = some (some placement))
    (starts : startJob input state job placement = some state') (found : state.jobs.get? job.id = some stored)
    (pending : stored.status = .pending) (memory : stored.reqMemory = job.reqMemory) :
    Balanced Valid reports owed state' := by
  have ok := placeJob_ok placed
  have links := start_links ok.distinct starts
  have descends := startJob_descends starts
  obtain ⟨workers, allocated, same, opens⟩ := start_opens starts found pending
  refine ⟨descends.keyed valid.keyed, ?_, links.reported valid.reported, ?_⟩
  · intro other job' found' running workerId node
    by_cases equal : other = job.id
    · subst equal
      cases opens.opened.symm.trans found'
      refine .inr (links.present ?_)
      rcases ok.fits with ⟨_, fits⟩ | fits
      · obtain ⟨worker, present, _⟩ := fits workerId node
        exact ⟨worker, present⟩
      · obtain ⟨worker, present, _⟩ := fits workerId node
        exact ⟨worker, present⟩
    · rw [opens.others other equal, GlobalState.get?_evictJobs] at found'
      split at found'
      · obtain ⟨before, _, updated⟩ := Option.map_eq_some_iff.mp found'
        exact absurd running (updated ▸ evicted_not_running before)
      · exact (valid.present other job' found' running workerId node).imp_right links.present
  · refine valid.agrees.start rule.ledgers ok.distinct starts found pending memory ?_
    intro workerId node worker present
    exact (placement_room (fun workerId worker found => rule.full (valid.agrees workerId worker found)) ok node present).2

theorem Balanced.turn (rule : HandleRule Valid) {input : PassInput} {turn : Nat} {pass next : PassState}
    (valid : Balanced Valid reports owed pass.state) (outcome : TurnOutcome input turn pass jobId next) :
    Balanced Valid reports owed next.state := by
  cases outcome with
  | skip _ _ => exact valid
  | wait _ _ _ reworded _ => exact valid.reworded rule reworded
  | start found pending _ reworded placed starts =>
    obtain ⟨stored, found', status, memory⟩ := reworded.pending found pending
    exact (valid.reworded rule reworded).start rule placed starts found' status memory

theorem Balanced.register (rule : HandleRule Valid) (valid : Balanced Valid reports [] state)
    (registration : Registration) (now : Nat)
    (constant : registration.resources = reports registration.workerId) :
    Balanced Valid reports [] (state.registerWorker registration now) := by
  have inserted (workerId : WorkerId) : (state.registerWorker registration now).workers.get? workerId =
      if workerId = registration.workerId then some (registration.handle (.direct .live) now
        (rebuildWorkerAllocations registration.workerId registration.resources state.jobs))
      else state.workers.get? workerId := HashMap.get?_insert _ _ _ _
  refine ⟨valid.keyed, ?_, ?_, ?_⟩
  · intro jobId job found running workerId node
    refine .inr ?_
    rw [inserted]
    split
    · exact ⟨_, rfl⟩
    · exact (valid.present jobId job found running workerId node).resolve_left List.not_mem_nil
  · intro workerId worker found
    rw [inserted] at found
    split at found
    · rename_i same
      cases found
      rw [same]
      exact constant
    · exact valid.reported workerId worker found
  · intro workerId worker found
    rw [inserted] at found
    split at found
    · rename_i same
      subst same
      cases found
      cases known : state.workers.get? registration.workerId with
      | some old =>
        refine rule.rebuild valid.keyed (valid.agrees _ old known) ?_ (handle_rebuilt _ _ _ _)
        rw [valid.reported _ old known]
        exact constant
      | none =>
        -- No Running job can refer to a worker that is not there.
        have unused (jobId : JobId) (job : JobInfo) (stored : state.jobs.get? jobId = some job) :
            job.runsOn registration.workerId = false := by
          cases runs : job.runsOn registration.workerId with
          | false => rfl
          | true =>
            obtain ⟨running, node⟩ := runsOn_iff.mp runs
            obtain ⟨worker, there⟩ :=
              (valid.present jobId job stored running _ node).resolve_left List.not_mem_nil
            rw [known] at there
            cases there
        let fresh := registration.handle (.direct .live) now (.idle registration.resources)
        have idle : Valid state.jobs registration.workerId fresh := rule.idle (handle_rebuilt _ _ _ _) unused
        exact rule.rebuild valid.keyed idle rfl (handle_rebuilt _ _ _ _)
    · exact valid.agrees workerId worker found

theorem Balanced.relink (rule : HandleRule Valid) (valid : Balanced Valid reports owed state) (workerId : WorkerId)
    {update : WorkerHandle → WorkerHandle} (keeps : ∀ worker, SameLedger worker (update worker)) :
    Balanced Valid reports owed { state with workers := state.workers.modify workerId update } := by
  have kept (other : WorkerId) (worker' : WorkerHandle)
      (found : (state.workers.modify workerId update).get? other = some worker') :
      ∃ worker, state.workers.get? other = some worker ∧ SameLedger worker worker' := by
    rw [HashMap.get?_modify] at found
    split at found
    · rename_i same
      obtain ⟨worker, stored, updated⟩ := Option.map_eq_some_iff.mp found
      exact ⟨worker, same ▸ stored, updated ▸ keeps worker⟩
    · exact ⟨worker', found, rfl, rfl, rfl, rfl, rfl, rfl, rfl⟩
  refine ⟨valid.keyed, ?_, ?_, ?_⟩
  · intro jobId job found running other node
    refine (valid.present jobId job found running other node).imp_right ?_
    rintro ⟨worker, there⟩
    simp only [HashMap.get?_modify]
    split
    · rename_i same
      subst same
      exact ⟨_, by rw [there]; rfl⟩
    · exact ⟨worker, there⟩
  · intro other worker' found
    obtain ⟨worker, stored, same⟩ := kept other worker' found
    exact same.resources.trans (valid.reported other worker stored)
  · intro other worker' found
    obtain ⟨worker, stored, same⟩ := kept other worker' found
    exact rule.ledger (valid.agrees other worker stored) same

theorem Balanced.touch (rule : HandleRule Valid) (valid : Balanced Valid reports owed state)
    {update : JobInfo → JobInfo}
    (footprint : ∀ job, (update job).footprint = job.footprint)
    (identity : ∀ job, (update job).identity = job.identity) :
    Balanced Valid reports owed { state with jobs := state.jobs.modify jobId update } where
  keyed := (descends_modify _ _ identity).keyed valid.keyed
  present other job found running workerId node := by
    rw [HashMap.get?_modify] at found
    split at found
    · rename_i same
      obtain ⟨before, stored, updated⟩ := Option.map_eq_some_iff.mp found
      have same' := footprint before
      rw [updated] at same'
      simp only [JobInfo.footprint, Prod.mk.injEq] at same'
      exact valid.present other before (same ▸ stored) (same'.1 ▸ running) workerId (same'.2.1 ▸ node)
    · exact valid.present other job found running workerId node
  reported := valid.reported
  agrees workerId worker found :=
    rule.ledgers.congr (valid.agrees workerId worker found) (sameFootprint_modify state.jobs jobId footprint)

theorem Balanced.notify (valid : Balanced Valid reports owed state) (jobId : JobId) (msg : Message) :
    Balanced Valid reports owed (state.notifyHead jobId msg) := by
  rw [GlobalState.notifyHead_eq]
  exact ⟨valid.keyed, valid.present, valid.reported, valid.agrees⟩

section Timeouts

variable {ctx : ControllerContext}

theorem Balanced.retire (rule : HandleRule Valid) (valid : Balanced Valid reports (jobId :: owed) ctx.state)
    {newStatus : JobStatus}
    (ends : newStatus ≠ .running) (now : Nat) :
    Balanced Valid reports owed (ctx.retire jobId newStatus now).1.state := by
  rw [retire_state]
  have finalized : Balanced Valid reports (jobId :: owed) (ctx.state.finalizeJob jobId newStatus now).1 :=
    valid.finalize rule ends now
  refine (finalized.remove rule ?_).paid (HashMap.get?_remove_self _ _)
  intro job found
  rw [GlobalState.finalizeJob_eq] at found
  simp only [HashMap.get?_modify, ↓reduceIte] at found
  obtain ⟨before, _, same⟩ := Option.map_eq_some_iff.mp found
  exact same ▸ ends

theorem Balanced.owing (valid : Balanced Valid reports [] state) (owed : List JobId) :
    Balanced Valid reports owed state :=
  { valid with
    present := fun other job found running workerId node =>
      .inr ((valid.present other job found running workerId node).resolve_left List.not_mem_nil) }

theorem Balanced.timeoutJob (rule : HandleRule Valid) (valid : Balanced Valid reports (jobId :: owed) ctx.state)
    (now : Nat) :
    Balanced Valid reports owed (ctx.timeoutJob jobId now).state := by
  have notified := valid.notify jobId (.terminateJob jobId)
  unfold ControllerContext.timeoutJob
  exact notified.retire rule (by simp) now

theorem Balanced.failOrphan (rule : HandleRule Valid) (valid : Balanced Valid reports (jobId :: owed) ctx.state)
    (now : Nat) :
    Balanced Valid reports owed (ctx.failOrphan jobId now).state := by
  have touched : Balanced Valid reports (jobId :: owed) { ctx.state with
      jobs := ctx.state.jobs.modify jobId fun job => { job with currentMemoryUsage := 0 } } :=
    valid.touch rule (fun _ => rfl) fun _ => rfl
  unfold ControllerContext.failOrphan
  exact touched.retire rule (by simp) now

/-- Removing a worker leaves exactly its own jobs to be failed. -/
theorem Balanced.removeWorker (rule : HandleRule Valid) (valid : Balanced Valid reports [] state) {workerId : WorkerId}
    {orphans : List JobId} (listed : ∀ worker, state.workers.get? workerId = some worker →
      ∀ jobId ∈ worker.assignedJobs, jobId ∈ orphans) :
    Balanced Valid reports orphans { state with workers := state.workers.remove workerId } where
  keyed := valid.keyed
  present jobId job stored running other node := by
    obtain ⟨worker, found⟩ := (valid.present jobId job stored running other node).resolve_left List.not_mem_nil
    by_cases same : other = workerId
    · subst same
      have runs : job.runsOn other = true := runsOn_iff.mpr ⟨running, node⟩
      have member := ((rule.full (valid.agrees other worker found)).assigned jobId).mpr ⟨job, stored, runs⟩
      exact .inl (listed worker found jobId member)
    · rw [HashMap.get?_remove, if_neg same]
      exact .inr ⟨worker, found⟩
  reported other worker found := by
    rw [HashMap.get?_remove] at found
    split at found
    · cases found
    · exact valid.reported other worker found
  agrees other worker found := by
    rw [HashMap.get?_remove] at found
    split at found
    · cases found
    · exact valid.agrees other worker found

theorem Balanced.checkTimeouts (rule : HandleRule Valid) (valid : Balanced Valid reports [] ctx.state)
    (order : IterOrder ControllerContext.TimeoutSite) (now : Nat) :
    Balanced Valid reports [] (ControllerContext.checkTimeouts order ctx now).state := by
  refine ControllerContext.checkTimeouts_invariant (fun owed ctx => Balanced Valid reports owed ctx.state)
    (fun _ => valid) ?_ ?_ ?_ ?_
  · exact valid.owing _
  · intro ctx jobId rest valid
    exact valid.timeoutJob rule now
  · intro ctx workerId valid
    apply valid.removeWorker rule
    intro worker found jobId member
    exact ControllerContext.mem_orphans.mpr ⟨worker, found, member⟩
  · intro ctx jobId rest valid
    exact valid.failOrphan rule now

end Timeouts

theorem Balanced.submit (rule : HandleRule Valid) (valid : Balanced Valid reports owed state)
    (submission : Submission) (nextJobId : Nat)
    (fresh : state.jobs.get? submission.job.id = none) :
    Balanced Valid reports owed (state.acceptSubmission submission nextJobId) := by
  unfold GlobalState.acceptSubmission
  split
  · have closes : Closes state.jobs (state.jobs.insert submission.job.id submission.job) submission.job.id := by
      refine ⟨fun job found => ?_, fun other different => ?_⟩
      · rw [HashMap.get?_insert_self] at found
        cases found
        simp [submission.pending]
      · rw [HashMap.get?_insert, if_neg different]
    have absent (job : JobInfo) (workerId : WorkerId) (found : state.jobs.get? submission.job.id = some job) :
        job.runsOn workerId = false := by
      rw [fresh] at found
      cases found
    have stored (jobId : JobId) (job : JobInfo)
        (found : (state.jobs.insert submission.job.id submission.job).get? jobId = some job) :
        (jobId = submission.job.id ∧ job = submission.job) ∨ state.jobs.get? jobId = some job := by
      rw [HashMap.get?_insert] at found
      split at found
      · rename_i same
        exact .inl ⟨same, (Option.some.inj found).symm⟩
      · exact .inr found
    refine ⟨?_, ?_, valid.reported, ?_⟩
    · intro jobId job found
      rcases stored jobId job found with ⟨same, equal⟩ | old
      · rw [same, equal]
      · exact valid.keyed jobId job old
    · intro jobId job found running
      rcases stored jobId job found with ⟨_, equal⟩ | old
      · rw [equal, submission.pending] at running
        cases running
      · exact valid.present jobId job old running
    · intro workerId worker found
      exact rule.ledgers.closeElsewhere (valid.agrees workerId worker found) closes
        fun job found => absent job workerId found
  · exact valid


/-- The operations of a leader that touch the ledgers. -/
inductive LedgerOp where
  | submit (submission : Submission) (nextJobId : Nat)
  | schedule (input : PassInput)
  | finalize (jobId : JobId) (newStatus : JobStatus) (now : Nat) (removes : Bool)
  | preempt (jobId : JobId)
  | register (registration : Registration) (now : Nat)
  | endWriter (workerId : WorkerId) (connectionId : Nat)
  | disconnect (workerId : WorkerId) (connectionId now : Nat)
  | checkTimeouts (order : IterOrder ControllerContext.TimeoutSite) (now : Nat)

namespace LedgerOp

/-- `none` is a panic of the scheduling pass. -/
def apply (op : LedgerOp) (ctx : ControllerContext) : Option ControllerContext :=
  match op with
  | .submit submission nextJobId => some { ctx with state := ctx.state.acceptSubmission submission nextJobId }
  | .schedule input => (scheduleJobs input ctx.state).map fun state => { ctx with state := state }
  | .finalize jobId newStatus now removes =>
    let finalized := (ctx.state.finalizeJob jobId newStatus now).1
    some { ctx with state := if removes then { finalized with jobs := finalized.jobs.remove jobId } else finalized }
  | .preempt jobId => some { ctx with state := ctx.state.preemptJob jobId }
  | .register registration now => some { ctx with state := ctx.state.registerWorker registration now }
  | .endWriter workerId connectionId =>
    some { ctx with state := ctx.state.endWriter workerId connectionId }
  | .disconnect workerId connectionId now =>
    some { ctx with state := ctx.state.disconnectWorker workerId connectionId now }
  | .checkTimeouts order now => some (ControllerContext.checkTimeouts order ctx now)

/-- Submitted ids are fresh, jobs end in a terminal status, and a worker always
reports the same resources. -/
def Constant (reports : WorkerId → Resources) (ctx : ControllerContext) : LedgerOp → Prop
  | .submit submission _ => ctx.state.jobs.get? submission.job.id = none
  | .finalize _ newStatus _ _ => newStatus.terminal = true
  | .register registration _ => registration.resources = reports registration.workerId
  | .schedule _ | .preempt _ | .endWriter .. | .disconnect .. | .checkTimeouts .. => True

end LedgerOp

def EmptyLeader (ctx : ControllerContext) : Prop :=
  ctx.state.role = .leader ∧ ctx.state.workers = ∅ ∧ ctx.state.jobs = ∅

theorem Balanced.schedule (rule : HandleRule Valid) (valid : Balanced Valid reports owed state) {input : PassInput}
    (ran : scheduleJobs input state = some state') : Balanced Valid reports owed state' := by
  obtain ⟨pass, turns, same⟩ := Option.map_eq_some_iff.mp ran
  have ends : Balanced Valid reports owed pass.state := by
    refine passTurns_invariant (fun _ pass => Balanced Valid reports owed pass.state) ?_ _ ?_ turns
    · intro jobId rest pass next valid taken
      exact valid.turn rule (passTurn_outcome taken)
    · exact ⟨valid.keyed, valid.present, valid.reported, valid.agrees⟩
  subst same
  exact ⟨ends.keyed, ends.present, ends.reported, ends.agrees⟩

theorem Balanced.apply (rule : HandleRule Valid) {ctx next : ControllerContext}
    (valid : Balanced Valid reports [] ctx.state) {op : LedgerOp} (constant : op.Constant reports ctx)
    (taken : op.apply ctx = some next) : Balanced Valid reports [] next.state := by
  cases op with
  | submit submission nextJobId =>
    cases taken
    exact valid.submit rule submission nextJobId constant
  | schedule input =>
    obtain ⟨final, ran, same⟩ := Option.map_eq_some_iff.mp taken
    subst same
    exact valid.schedule rule ran
  | finalize jobId newStatus now removes =>
    have ends : newStatus ≠ .running := by
      rintro rfl
      cases constant
    cases taken
    cases removes with
    | false => exact valid.finalize rule ends now
    | true => exact (valid.owing [jobId]).retire rule ends now
  | preempt jobId =>
    cases taken
    exact valid.preempt rule jobId
  | register registration now =>
    cases taken
    exact valid.register rule registration now constant
  | endWriter workerId connectionId =>
    cases taken
    refine valid.relink rule workerId fun worker => ?_
    split <;> exact ⟨rfl, rfl, rfl, rfl, rfl, rfl, rfl⟩
  | disconnect workerId connectionId now =>
    cases taken
    refine valid.relink rule workerId fun worker => ?_
    split <;> exact ⟨rfl, rfl, rfl, rfl, rfl, rfl, rfl⟩
  | checkTimeouts order now =>
    cases taken
    exact valid.checkTimeouts rule order now

theorem balanced_empty {ctx : ControllerContext} (empty : EmptyLeader ctx) : Balanced Valid reports [] ctx.state := by
  obtain ⟨_, workers, jobs⟩ := empty
  refine ⟨?_, ?_, ?_, ?_⟩ <;> intro name entry found <;> simp [workers, jobs] at found

end Veloce
