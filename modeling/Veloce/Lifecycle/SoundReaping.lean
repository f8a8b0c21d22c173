import Veloce.Lifecycle.Stops

/-! What the leader may conclude from a heartbeat that leaves out a Running job. A worker
prepares a job (inputs, image, prolog) before it starts the process, and its heartbeats list
the registered processes only. A job is reaped more than fifteen seconds after its start; by
then the worker must have got over its preparation. -/

namespace Veloce

open Collections

/-- A leader and its workers: the jobs they prepare, those whose process is registered, and
the heartbeats on their way with the jobs they list. -/
structure Site where
  leader : Leader
  preparing : List (WorkerId × JobId) := []
  running : List (WorkerId × JobId) := []
  inFlight : List (WorkerId × List JobId) := []

inductive SiteEvent where
  /-- A section of the leader that handles no heartbeat. -/
  | act (event : Event)
  | prepare (workerId : WorkerId) (jobId : JobId)
  | registerPid (workerId : WorkerId) (jobId : JobId)
  /-- The preparation fails, or the process has ended. -/
  | leave (workerId : WorkerId) (jobId : JobId)
  | beat (workerId : WorkerId)
  | hear (index : Nat) (order : IterOrder Unit) (now : Nat)

def Event.reconciles : Event → Bool
  | .reconcile _ _ _ _ => true
  | _ => false

namespace Site

/-- RunJob reaches a worker some time after it was sent. -/
def apply (event : SiteEvent) (site : Site) : Option Site :=
  match event with
  | .act event =>
    if event.reconciles then none
    else (site.leader.apply event).map fun leader => { site with leader := leader }
  | .prepare workerId jobId => some { site with preparing := (workerId, jobId) :: site.preparing }
  | .registerPid workerId jobId =>
    if (workerId, jobId) ∈ site.preparing then
      some { site with
        preparing := site.preparing.filter (· ≠ (workerId, jobId))
        running := (workerId, jobId) :: site.running }
    else none
  | .leave workerId jobId =>
    some { site with
      preparing := site.preparing.filter (· ≠ (workerId, jobId))
      running := site.running.filter (· ≠ (workerId, jobId)) }
  | .beat workerId =>
    some { site with
      inFlight := site.inFlight ++ [(workerId, (site.running.filter (·.1 = workerId)).map Prod.snd)] }
  | .hear index order now =>
    match site.inFlight[index]? with
    | some (workerId, active) =>
      (site.leader.apply (.reconcile order workerId active now)).map fun leader =>
        { site with leader := leader, inFlight := site.inFlight.eraseIdx index }
    | none => none

def Busy (site : Site) (workerId : WorkerId) (jobId : JobId) : Prop :=
  (workerId, jobId) ∈ site.preparing ∨ (workerId, jobId) ∈ site.running

instance (site : Site) (workerId : WorkerId) (jobId : JobId) : Decidable (site.Busy workerId jobId) :=
  inferInstanceAs (Decidable (_ ∨ _))

def Genuine (site : Site) : SiteEvent → Prop
  | .act event => event.Genuine site.leader
  | _ => True

/-- A job is dispatched to all its workers, whose channels are open, with no time left from before
at which it was found missing; and a heartbeat that comes more than fifteen seconds after the start of a job finds it
prepared, and lists it if its process is registered. -/
def Timely (site : Site) : SiteEvent → Prop
  | .act (.schedule _) =>
      (∀ entry ∈ site.leader.ctx.state.workers.toList, entry.2.connected = true →
        site.leader.ctx.state.routable entry.1 = true) ∧
      ∀ jobId ∈ site.leader.ctx.state.queue, site.leader.ctx.missingJobs.get? jobId = none ∧
        ∀ job ∈ site.leader.ctx.state.jobs.get? jobId, isMpiLauncher job = true → job.reqNodes ≤ 1
  | .hear index _ now => ∀ beat ∈ site.inFlight[index]?, ∀ entry ∈ site.leader.ctx.state.jobs.toList,
      entry.2.runsOn beat.1 = true → ∀ start ∈ entry.2.startTime, start + 15 < now →
        (beat.1, entry.1) ∉ site.preparing ∧ ((beat.1, entry.1) ∈ site.running → entry.1 ∈ beat.2)
  | _ => True

end Site

/-- The record of a job fits what the run remembers: its workers were sent the job, and it was
found missing more than five seconds after its start only. -/
structure ClockedAt (sent : List WorkerId) (since : Option Nat) (record : Option JobInfo) : Prop where
  sent : ∀ job ∈ record, ∀ workerId ∈ job.assignedWorkers, workerId ∈ sent
  started : ∀ job ∈ record, job.assignedWorkers ≠ [] → job.startTime ≠ none
  noted : ∀ job ∈ record, ∀ start ∈ job.startTime, ∀ time ∈ since, start + 5 < time

namespace ClockedAt

variable {sent : List WorkerId} {since since' : Option Nat} {before after : Option JobInfo}

theorem absent : ClockedAt sent since none := by
  refine ⟨fun _ found => ?_, fun _ found => ?_, fun _ found => ?_⟩
  · cases found
  · cases found
  · cases found

theorem same (valid : ClockedAt sent since before) {job job' : JobInfo} (found : before = some job)
    (workers : job'.assignedWorkers = job.assignedWorkers) (start : job'.startTime = job.startTime) :
    ClockedAt sent since (some job') := by
  subst found
  refine ⟨fun _ found => ?_, fun _ found => ?_, fun _ found => ?_⟩
  · cases found
    rw [workers]
    exact valid.sent job rfl
  · cases found
    rw [workers, start]
    exact valid.started job rfl
  · cases found
    rw [start]
    exact valid.noted job rfl

theorem core (valid : ClockedAt sent since before) (same : after.map JobInfo.core = before.map JobInfo.core) :
    ClockedAt sent since after := by
  cases after with
  | none => exact .absent
  | some job' =>
    obtain ⟨job, found, equal⟩ := Option.map_eq_some_iff.mp same.symm
    exact valid.same found (congrArg (·.2.2.1) equal).symm (congrArg (·.2.2.2) equal).symm

theorem unstarted {job : JobInfo} (workers : job.assignedWorkers = []) (start : job.startTime = none) :
    ClockedAt sent since (some job) := by
  refine ⟨fun _ found => ?_, fun _ found => ?_, fun _ found => ?_⟩
  · cases found
    simp [workers]
  · cases found
    simp [workers]
  · cases found
    simp [start]

theorem forget (valid : ClockedAt sent since before) (less : since' = since ∨ since' = none) :
    ClockedAt sent since' before := by
  rcases less with rfl | rfl
  · exact valid
  · refine ⟨valid.sent, valid.started, fun _ _ _ _ _ known => ?_⟩
    cases known

end ClockedAt

def Clocked (leader : Leader) : Prop := ∀ jobId,
  ClockedAt (leader.history.sentTo jobId (leader.history.dispatches jobId)) (leader.ctx.missingJobs.get? jobId)
    (leader.ctx.state.jobs.get? jobId)

section Dispatch

variable {input : PassInput} {turn : Nat} {pass next : PassState} {turnOf : JobId}

/-- A started job is sent to all its nodes, unless it is an MPI launcher on several. -/
theorem turn_dispatch (outcome : TurnOutcome input turn pass turnOf next) (runs : next.state.isRunning turnOf = true)
    (idle : pass.state.isRunning turnOf = false) (reaches : Reaches pass.state)
    (narrow : ∀ job ∈ pass.state.jobs.get? turnOf, isMpiLauncher job = true → job.reqNodes ≤ 1) :
    ∃ after, next.state.jobs.get? turnOf = some after ∧ after.startTime = some input.now ∧
      ∀ workerId ∈ after.assignedWorkers, workerId ∈ sentBetween pass.state next.state turnOf := by
  obtain ⟨job, nodes, starts⟩ := turn_start outcome runs idle
  obtain ⟨after, found, assigned, start⟩ := starts.record
  refine ⟨after, found, start, fun workerId member => ?_⟩
  have targets : dispatchTargets job nodes = nodes := by
    unfold dispatchTargets
    split
    · rename_i launcher
      have bound := starts.bound
      rw [Nat.max_eq_right (narrow job starts.found launcher)] at bound
      exact List.take_of_length_le bound
    · rfl
  rw [assigned] at member
  rw [starts.reached reaches, targets]
  exact member

end Dispatch

section Times

variable {leader next : Leader} {event : Event}

theorem apply_missing (taken : leader.apply event = some next) (other : event.reconciles = false) (jobId : JobId) :
    next.ctx.missingJobs.get? jobId = leader.ctx.missingJobs.get? jobId ∨ next.ctx.missingJobs.get? jobId = none := by
  have removed (missingJobs : HashMap JobId Nat) (target : JobId) :
      (missingJobs.remove target).get? jobId = missingJobs.get? jobId ∨ (missingJobs.remove target).get? jobId = none := by
    rw [HashMap.get?_remove]
    split
    · exact .inr rfl
    · exact .inl rfl
  cases event with
  | reconcile order workerId active now => cases other
  | schedule input =>
    obtain ⟨state, _, same⟩ := Option.map_eq_some_iff.mp taken
    subst same
    exact .inl rfl
  | jobDone report exitCode =>
    rw [Leader.apply_jobDone] at taken
    cases taken
    exact removed _ report.jobId
  | mergeDone index =>
    obtain ⟨tasks, same⟩ := Leader.mergeDone_tasks taken
    subst same
    exact .inl rfl
  | finishDone index stdoutId stderrId now =>
    obtain ⟨report, exitCode, logFiles, _, same⟩ := Leader.finishDone_cases taken
    subst same
    exact .inl rfl
  | jobError report error now =>
    cases taken
    exact removed _ report.jobId
  | jobKilled report now =>
    cases taken
    exact removed _ report.jobId
  | cancel caller target now =>
    rcases Leader.cancel_cases taken with ⟨ctx, canceled, same⟩ | same
    · obtain ⟨_, _, notified⟩ := ControllerContext.cancelJob_cases canceled
      subst same notified
      exact removed _ target
    · subst same
      exact .inl rfl
  | checkTimeouts order now =>
    cases taken
    refine ControllerContext.checkTimeouts_invariant (fun _ ctx => ctx.missingJobs.get? jobId =
      leader.ctx.missingJobs.get? jobId ∨ ctx.missingJobs.get? jobId = none) (fun _ => .inl rfl) (.inl rfl) ?_ ?_ ?_
    · intro ctx target rest before
      rcases removed ctx.missingJobs target with same | gone
      · exact before.imp same.trans same.trans
      · exact .inr gone
    · intro ctx workerId before
      exact before
    · intro ctx target rest before
      rcases removed ctx.missingJobs target with same | gone
      · exact before.imp same.trans same.trans
      · exact .inr gone
  | prune retentionSeconds now =>
    cases taken
    simp only [Leader.withCtx, ControllerContext.pruneJobs]
    split <;> exact .inl rfl
  | _ => cases taken; exact .inl rfl

theorem apply_sent (taken : leader.apply event = some next) (other : ∀ input, event ≠ .schedule input) (jobId : JobId) :
    next.history.sentTo jobId (next.history.dispatches jobId) =
      leader.history.sentTo jobId (leader.history.dispatches jobId) := by
  by_cases done : ∃ report exitCode, event = .jobDone report exitCode
  · obtain ⟨report, exitCode, same⟩ := done
    subst same
    rw [Leader.apply_jobDone] at taken
    cases taken
    rfl
  · rw [apply_history taken other fun report exitCode same => done ⟨report, exitCode, same⟩]

/-- A turn of a pass that has no time on record for the job whose turn it is. -/
theorem ClockedAt.turn {input : PassInput} {turn : Nat} {pass next : PassState} {turnOf jobId : JobId}
    {history : History} {since : Option Nat}
    (valid : ClockedAt (history.sentTo jobId (history.dispatches jobId)) since (pass.state.jobs.get? jobId))
    (outcome : TurnOutcome input turn pass turnOf next) (reaches : Reaches pass.state)
    (narrow : ∀ job ∈ pass.state.jobs.get? turnOf, isMpiLauncher job = true → job.reqNodes ≤ 1)
    (unnoted : jobId = turnOf → since = none) :
    ClockedAt ((history.observeTurn turnOf pass.state next.state).sentTo jobId
      ((history.observeTurn turnOf pass.state next.state).dispatches jobId)) since (next.state.jobs.get? jobId) := by
  rw [History.observeTurn_sentTo, History.observeTurn_dispatches]
  by_cases started : jobId = turnOf ∧ next.state.isRunning jobId = true ∧ pass.state.isRunning jobId = false
  · rw [if_pos started, if_pos ⟨started, rfl⟩]
    obtain ⟨same, runs, idle⟩ := started
    subst same
    obtain ⟨after, found, start, sent⟩ := turn_dispatch outcome runs idle reaches narrow
    rw [found, unnoted rfl]
    refine ⟨fun _ found => ?_, fun _ found _ => ?_, fun _ _ _ _ _ known => ?_⟩
    · cases found
      exact sent
    · cases found
      rw [start]
      exact Option.some_ne_none _
    · cases known
  · rw [if_neg started, if_neg fun both => started both.1]
    have move := turn_move outcome jobId
    generalize was : pass.state.jobs.get? jobId = old at move valid
    generalize is : next.state.jobs.get? jobId = new at move
    cases move with
    | kept same => exact valid.core same
    | evicted _ _ same => exact .unstarted (congrArg (·.2.2.1) same) (congrArg (·.2.2.2) same)
    | started turn pending running _ =>
      refine absurd ⟨turn, ?_, ?_⟩ started
      · rw [isRunning_of_found is, running]
        rfl
      · rw [isRunning_of_found was, pending]
        rfl

/-- A pass over a queue of which no job has a time on record. -/
theorem Clocked.schedule {input : PassInput} (valid : Clocked leader) (reaches : Reaches leader.ctx.state)
    (fits : ∀ jobId ∈ leader.ctx.state.queue, leader.ctx.missingJobs.get? jobId = none ∧
      ∀ job ∈ leader.ctx.state.jobs.get? jobId, isMpiLauncher job = true → job.reqNodes ≤ 1)
    (taken : leader.apply (.schedule input) = some next) : Clocked next := by
  obtain ⟨final, ran, same⟩ := Option.map_eq_some_iff.mp taken
  obtain ⟨pass, turns, equal⟩ := Option.map_eq_some_iff.mp ran
  subst same equal
  have order : (pendingOrder input leader.ctx.state).Perm leader.ctx.state.queue := List.perm_insertionSort _ _
  let Inv (order : List JobId) (pass : PassState) (history : History) : Prop :=
    (∀ jobId, ClockedAt (history.sentTo jobId (history.dispatches jobId)) (leader.ctx.missingJobs.get? jobId)
      (pass.state.jobs.get? jobId)) ∧ Reaches pass.state ∧ Descends leader.ctx.state.jobs pass.state.jobs ∧
      ∀ jobId ∈ order, jobId ∈ leader.ctx.state.queue
  have begins : Inv (pendingOrder input leader.ctx.state) { state := passStart input leader.ctx.state } leader.history :=
    ⟨valid, reaches, .refl _, fun jobId member => order.mem_iff.mp member⟩
  have ends := passHistory_invariant Inv ?_ _ begins turns
  · exact ends.1
  · rintro turnOf rest pass next history ⟨clocked, reaches, descends, queued⟩ taken
    have outcome := passTurn_outcome taken
    obtain ⟨unnoted, narrow⟩ := fits turnOf (queued turnOf List.mem_cons_self)
    have narrow' : ∀ job' ∈ pass.state.jobs.get? turnOf, isMpiLauncher job' = true → job'.reqNodes ≤ 1 := by
      intro job' found' launcher
      obtain ⟨job, found, same⟩ := descends turnOf job' found'
      simp only [JobInfo.identity, Prod.mk.injEq] at same
      rw [same.2.1]
      refine narrow job found ?_
      rw [isMpiLauncher, ← same.2.2]
      exact launcher
    refine ⟨fun jobId => (clocked jobId).turn outcome reaches narrow' fun own => ?_, reaches.turn outcome,
      descends.trans (turn_descends outcome), fun jobId member => queued jobId (List.mem_cons_of_mem _ member)⟩
    rw [own]
    exact unnoted

theorem Clocked.apply (valid : Clocked leader) (sound : Sound leader.ctx.state) (taken : leader.apply event = some next)
    (noPass : ∀ input, event ≠ .schedule input) (noBeat : event.reconciles = false) : Clocked next := by
  intro jobId
  rw [apply_sent taken noPass]
  refine ClockedAt.forget ?_ (apply_missing taken noBeat jobId)
  have before := valid jobId
  have move := apply_move sound taken noPass jobId
  generalize leader.ctx.state.jobs.get? jobId = old at move before
  generalize next.ctx.state.jobs.get? jobId = new at move
  cases move with
  | kept same => exact before.core same
  | submitted submission nextJobId id => exact .unstarted submission.unassigned submission.unstarted
  | evicted running => exact .unstarted rfl rfl
  | claimed about same => exact before.same rfl (congrArg (·.2.2.1) same) (congrArg (·.2.2.2) same)
  | reaped order active now running => cases noBeat
  | removed removes => exact .absent

/-- A heartbeat notes no time within five seconds of the start. -/
theorem Clocked.reconcile {order : IterOrder Unit} {workerId : WorkerId} {active : List JobId} {now : Nat}
    (valid : Clocked leader) (taken : leader.apply (.reconcile order workerId active now) = some next) :
    Clocked next := by
  cases taken
  intro jobId
  have before := valid jobId
  obtain ⟨table, times⟩ := ControllerContext.reconcile_spec leader.ctx order workerId active now jobId
  simp only [Leader.withCtx, table, times]
  split
  · refine ClockedAt.forget (?_ : ClockedAt _ (leader.ctx.missingJobs.get? jobId) _) (.inr rfl)
    cases found : leader.ctx.state.jobs.get? jobId with
    | none => exact .absent
    | some job => exact before.same found rfl rfl
  · cases found : leader.ctx.state.jobs.get? jobId with
    | none => exact .absent
    | some job =>
      rw [found] at before
      dsimp only
      unfold ControllerContext.stillMissing
      split
      · rename_i missing
        refine ⟨before.sent, before.started, fun _ same start begun time noted => ?_⟩
        cases same
        cases known : leader.ctx.missingJobs.get? jobId with
        | some earlier =>
          rw [known] at noted
          cases noted
          exact before.noted job rfl start begun earlier known
        | none =>
          rw [known] at noted
          cases noted
          rw [Option.getD_none]
          simp only [ControllerContext.missingFrom, Option.mem_def.mp begun, Bool.and_eq_true, decide_eq_true_eq] at missing
          omega
      · split
        · exact before.forget (.inr rfl)
        · exact before

end Times

namespace Site

structure Fresh (site : Site) : Prop where
  leader : site.leader.Fresh
  idle : site.preparing = [] ∧ site.running = [] ∧ site.inFlight = []

def TimelyStep (site : Site) (event : SiteEvent) (next : Site) : Prop :=
  site.Genuine event ∧ site.Timely event ∧ site.apply event = some next

structure Kept (site : Site) : Prop where
  accountable : Accountable site.leader
  clocked : Clocked site.leader

theorem Fresh.kept {site : Site} (fresh : site.Fresh) : site.Kept where
  accountable := fresh.leader.accountable
  clocked jobId := by
    rw [fresh.leader.jobs]
    exact .absent

theorem Kept.step {site next : Site} {event : SiteEvent} (valid : site.Kept) (taken : TimelyStep site event next) :
    next.Kept := by
  obtain ⟨genuine, timely, taken⟩ := taken
  cases event with
  | act event =>
    simp only [apply] at taken
    split at taken
    · cases taken
    · rename_i noBeat
      obtain ⟨leader, acted, same⟩ := Option.map_eq_some_iff.mp taken
      subst same
      refine ⟨valid.accountable.apply genuine acted, ?_⟩
      by_cases pass : ∃ input, event = .schedule input
      · obtain ⟨input, same⟩ := pass
        subst same
        have reaches : Reaches site.leader.ctx.state := fun workerId worker found connected =>
          timely.1 (workerId, worker) (HashMap.mem_toList.mpr found) connected
        exact valid.clocked.schedule reaches timely.2 acted
      · exact valid.clocked.apply valid.accountable.sound acted (fun input same => pass ⟨input, same⟩)
          (Bool.not_eq_true _ ▸ noBeat)
  | hear index order now =>
    simp only [apply] at taken
    split at taken
    · rename_i workerId active _
      obtain ⟨leader, heard, same⟩ := Option.map_eq_some_iff.mp taken
      subst same
      have genuine : (Event.reconcile order workerId active now).Genuine site.leader := trivial
      exact ⟨valid.accountable.apply genuine heard, valid.clocked.reconcile heard⟩
    · cases taken
  | registerPid workerId jobId =>
    obtain ⟨_, same⟩ := Option.ite_none_right_eq_some.mp taken
    cases same
    exact ⟨valid.accountable, valid.clocked⟩
  | _ =>
    cases taken
    exact ⟨valid.accountable, valid.clocked⟩

end Site

/-- In every run whose passes dispatch each job to all its workers over open channels and find no old time on
record, and whose heartbeats are no later than fifteen seconds after the start of a job that is
still prepared, a heartbeat ends a Running job only if some worker that was sent the job in its
current dispatch neither prepares nor runs it. -/
theorem reaping_is_sound {site next : Site} {index : Nat} {order : IterOrder Unit} {now : Nat}
    (reached : Reach Site.Fresh Site.TimelyStep site) (heard : Site.TimelyStep site (.hear index order now) next)
    (jobId : JobId) (reaped : stopped site.leader.ctx.state next.leader.ctx.state jobId = true) :
    ∃ workerId ∈ site.leader.history.sentTo jobId (site.leader.history.dispatches jobId), ¬ site.Busy workerId jobId := by
  have valid := reached.invariant Site.Kept (fun _ => Site.Fresh.kept) fun _ _ _ => Site.Kept.step
  obtain ⟨_, timely, taken⟩ := heard
  simp only [Site.apply] at taken
  split at taken
  · rename_i workerId active beat
    obtain ⟨leader, reconciled, same⟩ := Option.map_eq_some_iff.mp taken
    subst same
    cases reconciled
    simp only [stopped, Bool.and_eq_true, Bool.not_eq_true'] at reaped
    obtain ⟨runs, ends⟩ := reaped
    obtain ⟨job, found, running⟩ := isRunning_iff.mp runs
    replace ends : (site.leader.ctx.reconcileMissingWorkerJobs order workerId active now).state.isRunning jobId = false :=
      ends
    have table := (ControllerContext.reconcile_spec site.leader.ctx order workerId active now jobId).1
    have late : site.leader.ctx.overdue workerId active now jobId = true := by
      by_contra early
      rw [if_neg early, found] at table
      rw [isRunning_of_found table, running] at ends
      cases ends
    simp only [ControllerContext.overdue, found, ControllerContext.missingFrom, Bool.and_eq_true,
      decide_eq_true_eq] at late
    obtain ⟨⟨⟨on, unlisted⟩, _⟩, long⟩ := late
    have clocked := valid.clocked jobId
    have member : workerId ∈ job.assignedWorkers := (runsOn_iff.mp on).2
    -- The time on record is more than five seconds after the start, and more than ten ago.
    obtain ⟨start, begun⟩ := Option.ne_none_iff_exists'.mp (clocked.started job found (List.ne_nil_of_mem member))
    have fifteen : start + 15 < now := by
      cases known : site.leader.ctx.missingJobs.get? jobId with
      | none =>
        rw [HashMap.getD, known, Option.getD_none] at long
        omega
      | some time =>
        rw [HashMap.getD, known, Option.getD_some] at long
        have five := clocked.noted job found start begun time known
        omega
    obtain ⟨prepared, listed⟩ :=
      timely (workerId, active) beat (jobId, job) (HashMap.mem_toList.mpr found) on start begun fifteen
    refine ⟨workerId, clocked.sent job found workerId member, fun busy => ?_⟩
    rcases busy with prepares | runs
    · exact prepared prepares
    · exact unlisted (listed runs)
  · cases taken

instance Site.decidableTimely (site : Site) : (event : SiteEvent) → Decidable (site.Timely event)
  | .act (.schedule _) => inferInstanceAs (Decidable ((∀ entry ∈ _, _ → _) ∧ ∀ jobId ∈ _, _ ∧ ∀ job ∈ _, _ → _))
  | .hear _ _ _ => inferInstanceAs (Decidable (∀ beat ∈ _, ∀ entry ∈ _, _ → ∀ start ∈ _, _ → _ ∧ (_ → _)))
  | .act (.submit _ _) | .act (.register _ _) | .act (.endWriter _ _) | .act (.disconnect _ _ _) | .act (.preempt _)
  | .act (.reconcile _ _ _ _) | .act (.jobStarted _) | .act (.jobDone _ _) | .act (.mergeDone _)
  | .act (.finishDone _ _ _ _) | .act (.jobError _ _ _) | .act (.jobKilled _ _) | .act (.cancel _ _ _)
  | .act (.checkTimeouts _ _) | .act (.prune _ _) | .prepare _ _ | .registerPid _ _ | .leave _ _ | .beat _ =>
    isTrue trivial

instance Site.decidableGenuine (site : Site) : (event : SiteEvent) → Decidable (site.Genuine event)
  | .act event => inferInstanceAs (Decidable (event.Genuine site.leader))
  | .prepare _ _ | .registerPid _ _ | .leave _ _ | .beat _ | .hear _ _ _ => isTrue trivial

def onOneNode : List SiteEvent :=
  [.act (.register (sampleRegistration "w1") 100), .act (.submit (sampleSubmission 1 .production 1 "sh") 2),
    .act (.schedule { now := 100 })]

theorem Site.fresh_sample : ({ leader := { ctx := sampleLeader } } : Site).Fresh :=
  ⟨⟨rfl, rfl, rfl, rfl, ⟨rfl, rfl, rfl⟩, rfl, rfl⟩, rfl, rfl, rfl⟩

/-- The process ends soon, and its end is never reported. -/
theorem reaping_is_sound_vanished : ∃ site next : Site, Reach Site.Fresh Site.TimelyStep site ∧
    Site.TimelyStep site (.hear 0 .stored 121) next ∧ stopped site.leader.ctx.state next.leader.ctx.state 1 = true ∧
    ∃ workerId ∈ site.leader.history.sentTo 1 (site.leader.history.dispatches 1), ¬ site.Busy workerId 1 := by
  let events : List SiteEvent := onOneNode ++
    [.prepare "w1" 1, .registerPid "w1" 1, .leave "w1" 1, .beat "w1", .hear 0 .stored 110, .beat "w1"]
  let start : Site := { leader := { ctx := sampleLeader } }
  have allowed : AllowedRun (fun site event => site.Genuine event ∧ site.Timely event) Site.apply events start := by
    decide +kernel
  have facts : (runLabels Site.apply events start).bind (fun site => (site.apply (.hear 0 .stored 121)).map fun next =>
      decide (site.Timely (.hear 0 .stored 121) ∧ stopped site.leader.ctx.state next.leader.ctx.state 1 = true)) =
      some true := by decide +kernel
  obtain ⟨site, reached, _, facts⟩ := exists_reach_of_bind Site.fresh_sample allowed facts
  obtain ⟨next, taken, facts⟩ := Option.map_eq_some_iff.mp facts
  obtain ⟨timely, ends⟩ := of_decide_eq_true facts
  have reached : Reach Site.Fresh Site.TimelyStep site :=
    reached.mono fun _ _ _ step => ⟨step.1.1, step.1.2, step.2⟩
  have step : Site.TimelyStep site (.hear 0 .stored 121) next := ⟨trivial, timely, taken⟩
  exact ⟨site, next, reached, step, ends, reaping_is_sound reached step 1 ends⟩

/-- After these events a heartbeat ends the job although the only worker that was sent it
prepares or runs it. -/
def ReapsBusy (events : List SiteEvent) (head : WorkerId) : Prop :=
  ∃ site next : Site, runLabels Site.apply events { leader := { ctx := sampleLeader } } = some site ∧
    Reach Site.Fresh (fun site event next => site.Genuine event ∧ site.apply event = some next) site ∧
    site.apply (.hear 0 .stored 117) = some next ∧ stopped site.leader.ctx.state next.leader.ctx.state 1 = true ∧
    site.leader.history.sentTo 1 (site.leader.history.dispatches 1) = [head] ∧ site.Busy head 1

theorem ReapsBusy.of_run {events : List SiteEvent} {head : WorkerId}
    (genuine : AllowedRun Site.Genuine Site.apply events { leader := { ctx := sampleLeader } })
    (facts : (runLabels Site.apply events { leader := { ctx := sampleLeader } }).bind (fun site =>
      (site.apply (.hear 0 .stored 117)).map fun next =>
        decide (stopped site.leader.ctx.state next.leader.ctx.state 1 = true ∧
          site.leader.history.sentTo 1 (site.leader.history.dispatches 1) = [head] ∧ site.Busy head 1)) = some true) :
    ReapsBusy events head := by
  obtain ⟨site, ran, heard⟩ := Option.bind_eq_some_iff.mp facts
  obtain ⟨next, taken, holds⟩ := Option.map_eq_some_iff.mp heard
  exact ⟨site, next, ran, runLabels_reach (.start Site.fresh_sample) genuine ran, taken, of_decide_eq_true holds⟩

/-- A worker still prepares the job seventeen seconds after its start, and the job is reaped. So
is an MPI job whose head runs it: the other node was never sent the job. -/
theorem busy_job_is_reaped :
    ReapsBusy (onOneNode ++ [.prepare "w1" 1, .beat "w1", .hear 0 .stored 106, .beat "w1"]) "w1" ∧
    ReapsBusy ((onTwoNodes "mpirun").map .act ++
      [.prepare "w2" 1, .registerPid "w2" 1, .beat "w1", .hear 0 .stored 106, .beat "w1"]) "w2" := by
  constructor
  · exact .of_run (by decide +kernel) (by decide +kernel)
  · exact .of_run (by decide +kernel) (by decide +kernel)

end Veloce
