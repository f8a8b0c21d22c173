import Veloce.Lifecycle.Moves

/-! The dispatch history of a run. -/

namespace Veloce

open Collections

/-- The counts of a job's dispatches account for its record. -/
structure AttachesAt (closed dispatches : Nat) (record : Option JobInfo) : Prop where
  ordered : closed ≤ dispatches
  attached : ∀ job, record = some job → job.Attached → closed < dispatches
  waiting : ∀ job, record = some job → job.status = .pending → closed = dispatches

def Attaches (history : History) (state : GlobalState) : Prop :=
  ∀ jobId, AttachesAt (history.closed jobId) (history.dispatches jobId) (state.jobs.get? jobId)

/-- What holds of the reachable leaders of every run with genuine events. -/
structure Accountable (leader : Leader) : Prop where
  attaches : Attaches leader.history leader.ctx.state
  sound : Sound leader.ctx.state
  known : ∀ jobId job, leader.ctx.state.jobs.get? jobId = some job → jobId ∈ leader.history.used
  unused : ∀ jobId, jobId ∉ leader.history.used → leader.history.dispatches jobId = 0
  tasks : ∀ task ∈ leader.tasks, 1 ≤ task.report.dispatch ∧
    task.report.dispatch ≤ leader.history.dispatches task.report.jobId

theorem isRunning_iff {state : GlobalState} {jobId : JobId} :
    state.isRunning jobId = true ↔ state.hasStatus jobId .running := by
  simp [GlobalState.isRunning, GlobalState.hasStatus]

theorem isRunning_core {state state' : GlobalState} {jobId : JobId}
    (same : (state'.jobs.get? jobId).map JobInfo.core = (state.jobs.get? jobId).map JobInfo.core) :
    state'.isRunning jobId = state.isRunning jobId := by
  have status := congrArg (Option.map fun core => core.2.1) same
  simp only [Option.map_map, Function.comp_def, JobInfo.core] at status
  simp only [GlobalState.isRunning]
  exact congrArg (fun view => decide (view = some .running)) status

theorem isRunning_of_found {state : GlobalState} {jobId : JobId} {job : JobInfo}
    (found : state.jobs.get? jobId = some job) : state.isRunning jobId = decide (job.status = .running) := by
  simp [GlobalState.isRunning, found]

theorem stopped_core {state state' : GlobalState} {jobId : JobId}
    (same : (state'.jobs.get? jobId).map JobInfo.core = (state.jobs.get? jobId).map JobInfo.core) :
    stopped state state' jobId = false := by
  rw [stopped, isRunning_core same]
  cases state.isRunning jobId <;> rfl

namespace AttachesAt

variable {closed dispatches : Nat} {before after : Option JobInfo} {job job' : JobInfo}

theorem core (valid : AttachesAt closed dispatches before)
    (same : after.map JobInfo.core = before.map JobInfo.core) : AttachesAt closed dispatches after := by
  have back (job' : JobInfo) (stands : after = some job') :
      ∃ job, before = some job ∧ job'.core = job.core := by
    rw [stands, Option.map_some] at same
    obtain ⟨job, found, equal⟩ := Option.map_eq_some_iff.mp same.symm
    exact ⟨job, found, equal.symm⟩
  refine ⟨valid.ordered, fun job' stands attached => ?_, fun job' stands pending => ?_⟩
  · obtain ⟨job, found, equal⟩ := back job' stands
    simp only [JobInfo.core, Prod.mk.injEq] at equal
    refine valid.attached job found ?_
    simpa only [JobInfo.Attached, equal.2.1, equal.2.2.1, equal.2.2.2] using attached
  · obtain ⟨job, found, equal⟩ := back job' stands
    exact valid.waiting job found ((congrArg (·.2.1) equal).symm.trans pending)

theorem absent (ordered : closed ≤ dispatches) : AttachesAt closed dispatches none := by
  refine ⟨ordered, ?_, ?_⟩
  · intro job stands
    cases stands
  · intro job stands
    cases stands

theorem requeued (same : job'.core = job.requeued.core) : AttachesAt dispatches dispatches (some job') := by
  simp only [JobInfo.core, JobInfo.requeued, Prod.mk.injEq] at same
  refine ⟨Nat.le_refl _, fun _ stands attached => ?_, fun _ _ _ => rfl⟩
  cases stands
  simp [JobInfo.Attached, same, JobStatus.terminal] at attached

end AttachesAt

namespace History

theorem observeTurn_closed (history : History) (turnOf jobId : JobId) (before after : GlobalState) :
    (history.observeTurn turnOf before after).closed jobId =
      if stopped before after jobId then history.dispatches jobId else history.closed jobId := by
  unfold observeTurn
  split <;> rfl

theorem observeTurn_dispatches (history : History) (turnOf jobId : JobId) (before after : GlobalState) :
    (history.observeTurn turnOf before after).dispatches jobId =
      if jobId = turnOf ∧ after.isRunning jobId = true ∧ before.isRunning jobId = false then
        history.dispatches jobId + 1
      else history.dispatches jobId := by
  unfold observeTurn
  by_cases same : jobId = turnOf
  · subst same
    cases after.isRunning jobId <;> cases before.isRunning jobId <;> simp [dispatch, close]
  · split <;> simp [dispatch, close, same]

theorem observeTurn_used (history : History) (turnOf : JobId) (before after : GlobalState) :
    (history.observeTurn turnOf before after).used = history.used := by
  unfold observeTurn
  split <;> rfl

end History

theorem AttachesAt.turn {history : History} {victims : List JobId} {turnOf jobId : JobId} {before after : GlobalState}
    (valid : AttachesAt (history.closed jobId) (history.dispatches jobId) (before.jobs.get? jobId))
    (move : TurnMove victims turnOf jobId (before.jobs.get? jobId) (after.jobs.get? jobId)) :
    AttachesAt ((history.observeTurn turnOf before after).closed jobId)
      ((history.observeTurn turnOf before after).dispatches jobId) (after.jobs.get? jobId) := by
  rw [History.observeTurn_closed, History.observeTurn_dispatches]
  generalize was : before.jobs.get? jobId = old at move
  generalize is : after.jobs.get? jobId = new at move
  cases move with
  | kept same =>
    rw [← was, ← is] at same
    rw [isRunning_core same, stopped_core same, if_neg (by simp), if_neg (by simp), ← is]
    exact valid.core same
  | @evicted job job' _ running same =>
    have waits : job'.status = .pending := congrArg (·.2.1) same
    have ran : before.isRunning jobId = true := by rw [isRunning_of_found was, running]; rfl
    have idle : after.isRunning jobId = false := by
      rw [isRunning_of_found is, waits]
      rfl
    rw [stopped, ran, idle, if_pos (by rfl), if_neg (by simp)]
    exact .requeued same
  | started turn pending running _ =>
    have idle : before.isRunning jobId = false := by rw [isRunning_of_found was, pending]; rfl
    have runs : after.isRunning jobId = true := by rw [isRunning_of_found is, running]; rfl
    rw [stopped, idle, if_neg (by simp), if_pos ⟨turn, runs, rfl⟩]
    have before := valid.ordered
    refine ⟨by omega, fun _ _ _ => by omega, fun _ stands waits => ?_⟩
    cases stands
    rw [running] at waits
    cases waits

/-- What every turn keeps of the history, a pass keeps. -/
theorem passHistory_invariant {input : PassInput} (Inv : List JobId → PassState → History → Prop)
    (step : ∀ jobId rest pass next history, Inv (jobId :: rest) pass history →
      passTurn input rest.length pass jobId = some next →
      Inv rest next (history.observeTurn jobId pass.state next.state)) :
    ∀ (order : List JobId) {pass final : PassState} {history : History}, Inv order pass history →
      passTurns input order pass = some final → Inv [] final (passHistory input order pass history) := by
  intro order
  induction order with
  | nil =>
    intro pass final history valid ran
    cases ran
    exact valid
  | cons jobId rest ih =>
    intro pass final history valid ran
    unfold passTurns at ran
    split at ran
    · cases ran
    · rename_i next taken
      have noted : passHistory input (jobId :: rest) pass history =
          passHistory input rest next (history.observeTurn jobId pass.state next.state) := by
        simp only [passHistory, taken]
      rw [noted]
      exact ih (step jobId rest pass next history valid taken) ran

/-- What a pass makes of the history: a job that it dispatches was in the table. -/
structure Dispatched (start history : History) (state : GlobalState) : Prop where
  grows : ∀ jobId, start.dispatches jobId ≤ history.dispatches jobId
  closes : ∀ jobId, start.closed jobId ≤ history.closed jobId
  absent : ∀ jobId, state.jobs.get? jobId = none → history.dispatches jobId = start.dispatches jobId

theorem Dispatched.turn {start history : History} {victims : List JobId} {turnOf : JobId} {before after : GlobalState}
    (valid : Dispatched start history before) (attaches : Attaches history before)
    (moves : ∀ jobId, TurnMove victims turnOf jobId (before.jobs.get? jobId) (after.jobs.get? jobId)) :
    Dispatched start (history.observeTurn turnOf before after) after where
  grows jobId := by
    rw [History.observeTurn_dispatches]
    have old := valid.grows jobId
    split <;> omega
  closes jobId := by
    rw [History.observeTurn_closed]
    have old := valid.closes jobId
    have ordered := (attaches jobId).ordered
    split <;> omega
  absent jobId missing := by
    have move := moves jobId
    rw [missing] at move
    generalize was : before.jobs.get? jobId = old at move
    cases move with
    | kept same =>
      rw [Option.map_none, eq_comm, Option.map_eq_none_iff] at same
      rw [History.observeTurn_dispatches, if_neg, valid.absent jobId (was.trans same)]
      simp [GlobalState.isRunning, missing]

theorem schedule_dispatched {input : PassInput} {state final : GlobalState} {history : History}
    (attaches : Attaches history state) (ran : scheduleJobs input state = some final) :
    Attaches (passHistory input (pendingOrder input state) { state := passStart input state } history) final ∧
    Dispatched history (passHistory input (pendingOrder input state) { state := passStart input state } history)
      final := by
  obtain ⟨pass, turns, same⟩ := Option.map_eq_some_iff.mp ran
  subst same
  have ends := passHistory_invariant
    (fun _ pass after => Attaches after pass.state ∧ Dispatched history after pass.state)
    ?_ _ ⟨attaches, fun _ => Nat.le_refl _, fun _ => Nat.le_refl _, fun _ _ => rfl⟩ turns
  · exact ⟨ends.1, ends.2.grows, ends.2.closes, ends.2.absent⟩
  intro jobId rest pass next after valid taken
  have moves := turn_move (passTurn_outcome taken)
  exact ⟨fun other => (valid.1 other).turn (moves other), valid.2.turn valid.1 moves⟩

def Event.preempts : Event → Bool
  | .preempt _ => true
  | _ => false

def Event.submits : Event → List JobId
  | .submit submission _ => [submission.job.id]
  | _ => []

theorem passHistory_used (input : PassInput) : ∀ (order : List JobId) (pass : PassState) (history : History),
    (passHistory input order pass history).used = history.used := by
  intro order
  induction order with
  | nil => intro pass history; rfl
  | cons jobId rest ih =>
    intro pass history
    unfold passHistory
    split
    · rfl
    · rw [ih, History.observeTurn_used]

section Apply

variable {leader next : Leader} {event : Event}

/-- Only a pass dispatches, and only a preemption closes dispatches. -/
theorem apply_counts (taken : leader.apply event = some next) (other : ∀ input, event ≠ .schedule input) :
    next.history.dispatches = leader.history.dispatches ∧
      ∀ jobId, next.history.closed jobId =
        if event.preempts && stopped leader.ctx.state next.ctx.state jobId then leader.history.dispatches jobId
        else leader.history.closed jobId := by
  cases event with
  | schedule input => exact absurd rfl (other input)
  | submit _ _ | preempt _ =>
    cases taken
    exact ⟨rfl, fun _ => rfl⟩
  | jobDone report exitCode =>
    rw [Leader.apply_jobDone] at taken
    cases taken
    exact ⟨rfl, fun _ => rfl⟩
  | _ =>
    rw [Leader.history_eq taken rfl]
    exact ⟨rfl, fun _ => rfl⟩

theorem apply_used (taken : leader.apply event = some next) :
    next.history.used = event.submits ++ leader.history.used := by
  cases event with
  | schedule input =>
    obtain ⟨state, _, same⟩ := Option.map_eq_some_iff.mp taken
    subst same
    exact passHistory_used input _ _ leader.history
  | submit _ _ | preempt _ =>
    cases taken
    rfl
  | jobDone report exitCode =>
    rw [Leader.apply_jobDone] at taken
    cases taken
    rfl
  | _ =>
    rw [Leader.history_eq taken rfl]
    rfl

/-- A handler is under way because it was, or because JobDone has just arrived. -/
theorem apply_tasks (taken : leader.apply event = some next) {task : DoneTask} (member : task ∈ next.tasks) :
    (∃ old ∈ leader.tasks, old.report = task.report) ∨
      ∃ report exitCode, event = .jobDone report exitCode ∧ task.report = report ∧
        (leader.ctx.jobDoneMark report.workerId report.jobId).2 = true := by
  cases event with
  | schedule input =>
    obtain ⟨state, _, same⟩ := Option.map_eq_some_iff.mp taken
    subst same
    exact .inl ⟨task, member, rfl⟩
  | jobDone report exitCode =>
    rw [Leader.apply_jobDone] at taken
    cases taken
    dsimp only at member
    split at member
    · rename_i finalizes
      rcases List.mem_append.mp member with old | new
      · exact .inl ⟨task, old, rfl⟩
      · rw [List.mem_singleton] at new
        subst new
        exact .inr ⟨report, exitCode, rfl, rfl, finalizes⟩
    · exact .inl ⟨task, member, rfl⟩
  | mergeDone index =>
    obtain ⟨report, exitCode, there, ⟨logFiles, same⟩ | ⟨_, same⟩⟩ := Leader.mergeDone_cases taken
    · subst same
      rcases List.mem_or_eq_of_mem_set member with old | new
      · exact .inl ⟨task, old, rfl⟩
      · subst new
        exact .inl ⟨_, List.mem_of_getElem? there, rfl⟩
    · subst same
      exact .inl ⟨task, List.mem_of_mem_eraseIdx member, rfl⟩
  | finishDone index stdoutId stderrId now =>
    obtain ⟨report, exitCode, logFiles, _, same⟩ := Leader.finishDone_cases taken
    subst same
    exact .inl ⟨task, List.mem_of_mem_eraseIdx member, rfl⟩
  | cancel caller target now =>
    rcases Leader.cancel_cases taken with ⟨ctx, _, same⟩ | same
    · subst same
      exact .inl ⟨task, member, rfl⟩
    · subst same
      exact .inl ⟨task, member, rfl⟩
  | _ => cases taken; exact .inl ⟨task, member, rfl⟩

theorem Sound.apply (valid : Sound leader.ctx.state)
    (fresh : ∀ submission nextJobId, event = .submit submission nextJobId →
      leader.ctx.state.jobs.get? submission.job.id = none)
    (taken : leader.apply event = some next) : Sound next.ctx.state := by
  cases event with
  | submit submission nextJobId => cases taken; exact valid.submit submission nextJobId (fresh _ _ rfl)
  | register registration now => cases taken; exact valid.register registration now
  | endWriter workerId connectionId =>
    cases taken
    refine valid.relink workerId fun worker => ?_
    split <;> rfl
  | disconnect workerId connectionId now =>
    cases taken
    refine valid.relink workerId fun worker => ?_
    split <;> rfl
  | schedule input =>
    obtain ⟨state, ran, same⟩ := Option.map_eq_some_iff.mp taken
    subst same
    exact valid.schedule ran
  | preempt target => cases taken; exact valid.preempt target
  | reconcile order workerId active now => cases taken; exact valid.reconcile order workerId active now
  | jobStarted report => cases taken; exact valid.jobStarted report.jobId
  | jobDone _ _ | mergeDone _ | finishDone _ _ _ _ | jobError _ _ _ | jobKilled _ _ | cancel _ _ _ =>
    rcases apply_concludes taken rfl with ⟨jobs, workers⟩ | ⟨target, retires⟩
    · exact valid.same (fun jobId => by rw [jobs]) workers
    · exact valid.retires retires
  | checkTimeouts order now => cases taken; exact valid.checkTimeouts order now
  | prune retentionSeconds now => cases taken; exact valid.prune retentionSeconds now

theorem Accountable.absent (valid : Accountable leader) {jobId : JobId} (fresh : jobId ∉ leader.history.used) :
    leader.ctx.state.jobs.get? jobId = none := by
  cases found : leader.ctx.state.jobs.get? jobId with
  | none => rfl
  | some job => exact absurd (valid.known jobId job found) fresh

theorem Attaches.apply (valid : Accountable leader) (genuine : event.Genuine leader)
    (taken : leader.apply event = some next) : Attaches next.history next.ctx.state := by
  obtain ⟨input, state, rfl, ran, rfl⟩ | other := Leader.schedule_or_other taken
  · exact (schedule_dispatched valid.attaches ran).1
  · obtain ⟨dispatches, closed⟩ := apply_counts taken other
    intro jobId
    have before := valid.attaches jobId
    have move := apply_move valid.sound taken other jobId
    rw [dispatches]
    generalize was : leader.ctx.state.jobs.get? jobId = old at move
    generalize is : next.ctx.state.jobs.get? jobId = new at move
    cases move with
    | kept same =>
      have count : next.history.closed jobId = leader.history.closed jobId := by
        rw [closed jobId, stopped_core (by rw [is, was, same]), Bool.and_false]
        rfl
      rw [count]
      exact before.core (by rw [was, same])
    | submitted submission nextJobId id =>
      rw [closed jobId, if_neg (by simp [Event.preempts])]
      have unused := valid.unused jobId (id ▸ genuine)
      have bound := before.ordered
      refine ⟨bound, fun job stands attached => ?_, fun _ _ _ => by omega⟩
      cases stands
      simp [JobInfo.Attached, submission.pending, submission.unassigned, submission.unstarted,
        JobStatus.terminal] at attached
    | @evicted job running =>
      have stops : stopped leader.ctx.state next.ctx.state jobId = true := by
        rw [stopped, isRunning_of_found was, isRunning_of_found is, running]
        rfl
      rw [closed jobId, stops, if_pos (by rfl)]
      exact .requeued rfl
    | @claimed job after report about same =>
      rw [closed jobId, if_neg (by simp [Event.preempts])]
      simp only [JobInfo.core, Prod.mk.injEq] at same
      refine ⟨before.ordered, fun _ stands attached => ?_, fun _ stands pending => ?_⟩
      · cases stands
        refine before.attached job was ?_
        rw [JobInfo.Attached, same.2.1, same.2.2.1, same.2.2.2] at attached
        exact attached.imp_right fun later => .inl (later.resolve_right (by simp [JobStatus.terminal]))
      · cases stands
        rw [same.2.1] at pending
        cases pending
    | reaped order active now running =>
      rw [closed jobId, if_neg (by simp [Event.preempts])]
      refine ⟨before.ordered, fun _ _ _ => ?_, fun _ stands pending => by cases stands; cases pending⟩
      exact before.attached _ was (.inr (.inl (List.ne_nil_of_mem (runsOn_iff.mp running).2)))
    | removed removes =>
      have count : next.history.closed jobId = leader.history.closed jobId := by
        rw [closed jobId]
        cases removes <;> rfl
      rw [count]
      exact .absent before.ordered

theorem apply_descends (sound : Sound leader.ctx.state) (taken : leader.apply event = some next) {jobId : JobId}
    {job' : JobInfo} (found : next.ctx.state.jobs.get? jobId = some job') :
    (∃ job, leader.ctx.state.jobs.get? jobId = some job) ∨
      ∃ submission nextJobId, event = .submit submission nextJobId ∧ submission.job.id = jobId := by
  obtain ⟨input, state, rfl, ran, rfl⟩ | other := Leader.schedule_or_other taken
  · obtain ⟨job, stored, _⟩ := schedule_descends ran jobId job' found
    exact .inl ⟨job, stored⟩
  · have move := apply_move sound taken other jobId
    rw [found] at move
    generalize leader.ctx.state.jobs.get? jobId = old at move
    cases move with
    | kept same =>
      obtain ⟨job, stored, _⟩ := Option.map_eq_some_iff.mp same.symm
      exact .inl ⟨job, stored⟩
    | submitted submission nextJobId id => exact .inr ⟨submission, nextJobId, rfl, id⟩
    | evicted _ => exact .inl ⟨_, rfl⟩
    | claimed _ _ => exact .inl ⟨_, rfl⟩
    | reaped _ _ _ _ => exact .inl ⟨_, rfl⟩

theorem apply_grows (attaches : Attaches leader.history leader.ctx.state) (taken : leader.apply event = some next)
    (jobId : JobId) : leader.history.dispatches jobId ≤ next.history.dispatches jobId := by
  obtain ⟨input, state, rfl, ran, rfl⟩ | other := Leader.schedule_or_other taken
  · exact (schedule_dispatched attaches ran).2.grows jobId
  · rw [(apply_counts taken other).1]

theorem apply_closes (attaches : Attaches leader.history leader.ctx.state) (taken : leader.apply event = some next)
    (jobId : JobId) : leader.history.closed jobId ≤ next.history.closed jobId := by
  obtain ⟨input, state, rfl, ran, rfl⟩ | other := Leader.schedule_or_other taken
  · exact (schedule_dispatched attaches ran).2.closes jobId
  · rw [(apply_counts taken other).2 jobId]
    have ordered := (attaches jobId).ordered
    split <;> omega

theorem Accountable.apply (valid : Accountable leader) (genuine : event.Genuine leader)
    (taken : leader.apply event = some next) : Accountable next where
  attaches := Attaches.apply valid genuine taken
  sound := by
    refine valid.sound.apply (fun submission nextJobId same => ?_) taken
    subst same
    exact valid.absent genuine
  known jobId job' found := by
    rw [apply_used taken]
    rcases apply_descends valid.sound taken found with ⟨job, stored⟩ | ⟨submission, nextJobId, same, id⟩
    · exact List.mem_append_right _ (valid.known jobId job stored)
    · subst same
      exact id ▸ List.mem_cons_self
  unused jobId fresh := by
    replace fresh : jobId ∉ leader.history.used := fun old => fresh (by
      rw [apply_used taken]
      exact List.mem_append_right _ old)
    obtain ⟨input, state, rfl, ran, rfl⟩ | other := Leader.schedule_or_other taken
    · have dispatched := (schedule_dispatched valid.attaches ran).2
      refine (dispatched.absent jobId ?_).trans (valid.unused jobId fresh)
      cases found : state.jobs.get? jobId with
      | none => rfl
      | some job' =>
        obtain ⟨job, stored, _⟩ := schedule_descends ran jobId job' found
        exact absurd (valid.known jobId job stored) fresh
    · rw [(apply_counts taken other).1]
      exact valid.unused jobId fresh
  tasks task member := by
    have grows := apply_grows valid.attaches taken task.report.jobId
    rcases apply_tasks taken member with ⟨old, there, same⟩ | ⟨report, exitCode, same, equal, _⟩
    · obtain ⟨positive, bound⟩ := valid.tasks old there
      rw [same] at positive bound
      exact ⟨positive, Nat.le_trans bound grows⟩
    · subst same
      rw [equal] at grows ⊢
      exact ⟨genuine.1, Nat.le_trans genuine.2.1 grows⟩

theorem Leader.Fresh.accountable (fresh : leader.Fresh) : Accountable leader where
  attaches jobId := by
    rw [fresh.history, fresh.jobs]
    exact .absent (Nat.le_refl _)
  sound := by
    refine ⟨?_, ?_, ?_⟩
    · intro jobId job found
      rw [fresh.jobs] at found
      cases found
    · intro jobId job found
      rw [fresh.jobs] at found
      cases found
    · intro workerId worker found
      rw [fresh.workers] at found
      cases found
  known jobId job found := by
    rw [fresh.jobs] at found
    cases found
  unused jobId _ := by rw [fresh.history]
  tasks task member := by
    rw [fresh.tasks] at member
    cases member

end Apply

end Veloce
