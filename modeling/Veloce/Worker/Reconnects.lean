import Veloce.Worker.Recovery

/-! A job that outlives connections to the controller. -/

namespace Veloce

open Collections

/-- The task of a recovered job: its connection, and what it found. -/
structure JobMonitor where
  connection : Nat
  now : Nat
  around : Surroundings

/-- How far the task that runs the job has come. -/
inductive RunPhase where
  | idle
  | preparing
  | started
  | recorded
  | reaped
  | finished
deriving DecidableEq

/-- One dispatch of a job to a worker. Messages of earlier connections are lost; `sent` are all
messages on the end of the job, wherever they went. -/
structure Dispatch where
  connection : Nat := 0
  connected : Bool := false
  phase : RunPhase := .idle
  origin : Nat := 0
  exitCode : Option Int := none
  persisted : Bool := false
  monitors : List JobMonitor := []
  channel : List Completion := []
  delivered : List Completion := []
  sent : List Completion := []

inductive DispatchEvent where
  | connect (now : Nat) (around : Surroundings)
  | lose
  | runJob
  | start
  | persist
  | exit (code : Int)
  /-- The task has waited for the process, and removes the record. -/
  | reap
  | report
  /-- A monitor comes to its end. -/
  | monitor (index : Nat) (time : Nat)
  | deliver

/-- The codes of processes: their own, or minus one after a signal. -/
def IsExitCode (code : Int) : Prop := code = -1 ∨ 0 ≤ code ∧ code < 256

instance (code : Int) : Decidable (IsExitCode code) := inferInstanceAs (Decidable (_ ∨ _ ∧ _))

namespace Dispatch

def send (dispatch : Dispatch) (connection : Nat) (messages : List Completion) : Dispatch :=
  { dispatch with
    sent := dispatch.sent ++ messages
    channel := if connection = dispatch.connection ∧ dispatch.connected = true then dispatch.channel ++ messages
      else dispatch.channel }

def apply (job : PersistedJob) (event : DispatchEvent) (dispatch : Dispatch) : Option Dispatch :=
  match event with
  | .connect now around =>
    if dispatch.connected then none
    else
      let connection := dispatch.connection + 1
      some { dispatch with
        connection := connection
        connected := true
        monitors := if dispatch.persisted then dispatch.monitors ++ [{ connection, now, around }] else dispatch.monitors }
  | .lose => if dispatch.connected then some { dispatch with connected := false, channel := [] } else none
  | .runJob =>
    if dispatch.connected = true ∧ dispatch.phase = .idle then
      some { dispatch with phase := .preparing, origin := dispatch.connection }
    else none
  | .start => if dispatch.phase = .preparing then some { dispatch with phase := .started } else none
  | .persist => if dispatch.phase = .started then some { dispatch with phase := .recorded, persisted := true } else none
  | .exit code =>
    if (dispatch.phase = .started ∨ dispatch.phase = .recorded) ∧ dispatch.exitCode = none ∧ IsExitCode code then
      some { dispatch with exitCode := some code }
    else none
  | .reap =>
    if dispatch.phase = .recorded ∧ dispatch.exitCode.isSome = true then
      some { dispatch with phase := .reaped, persisted := false }
    else none
  | .report =>
    dispatch.exitCode.bind fun code =>
      if dispatch.phase = .reaped then
        some { dispatch.send dispatch.origin [.jobDone job.jobId code] with phase := .finished }
      else none
  | .monitor index time =>
    dispatch.monitors[index]?.bind fun monitor =>
      -- A monitor that tracks the process sees it until the task has waited for it.
      let recovered := job.recoverAndMonitorJob monitor.now monitor.around .terminated time
      if recovered.tracked.isSome = true ∧ dispatch.phase ≠ .reaped ∧ dispatch.phase ≠ .finished then none
      else some { dispatch.send monitor.connection recovered.messages with
        persisted := false, monitors := dispatch.monitors.eraseIdx index }
  | .deliver =>
    match dispatch.channel with
    | [] => none
    | msg :: rest => some { dispatch with channel := rest, delivered := dispatch.delivered ++ [msg] }

/-- The connection over which the job came is still there. -/
def Live (dispatch : Dispatch) : Prop := dispatch.origin = dispatch.connection ∧ dispatch.connected = true

/-- No connection is lost between RunJob and the message on the end of the job. -/
def Steady (dispatch : Dispatch) : DispatchEvent → Prop
  | .lose => dispatch.phase = .idle ∨ dispatch.delivered ≠ []
  | _ => True

/-- All tasks have come to their end, and no message is on its way. -/
structure Settled (dispatch : Dispatch) : Prop where
  phase : dispatch.phase = .finished
  monitors : dispatch.monitors = []
  channel : dispatch.channel = []

/-- The job is served over one connection. -/
inductive Served (job : PersistedJob) (dispatch : Dispatch) : Prop where
  | idle (phase : dispatch.phase = .idle) (messages : dispatch.channel = [] ∧ dispatch.delivered = [] ∧ dispatch.sent = [])
      (unwatched : dispatch.monitors = [] ∧ dispatch.persisted = false)
  | running (phase : dispatch.phase ≠ .idle ∧ dispatch.phase ≠ .finished) (live : dispatch.Live)
      (messages : dispatch.channel = [] ∧ dispatch.delivered = [] ∧ dispatch.sent = []) (unwatched : dispatch.monitors = [])
      (recorded : dispatch.persisted = true → dispatch.phase = .recorded)
  | reported (code : Int) (phase : dispatch.phase = .finished) (live : dispatch.Live) (exits : dispatch.exitCode = some code)
      (messages : dispatch.channel = [.jobDone job.jobId code] ∧ dispatch.delivered = [] ∧
        dispatch.sent = [.jobDone job.jobId code]) (unwatched : dispatch.monitors = [] ∧ dispatch.persisted = false)
  | past (code : Int) (phase : dispatch.phase = .finished) (exits : dispatch.exitCode = some code)
      (messages : dispatch.channel = [] ∧ dispatch.delivered = [.jobDone job.jobId code] ∧
        dispatch.sent = [.jobDone job.jobId code]) (unwatched : dispatch.monitors = [] ∧ dispatch.persisted = false)

/-- The job has lost its connection: what reaches a controller is not its exit code. -/
structure Lost (job : PersistedJob) (dispatch : Dispatch) : Prop where
  begun : dispatch.phase ≠ .idle
  dead : ¬ dispatch.Live
  earlier : dispatch.origin ≤ dispatch.connection
  foreign : ∀ msg ∈ dispatch.channel ++ dispatch.delivered, ∀ code, IsExitCode code → msg ≠ .jobDone job.jobId code

variable {job : PersistedJob} {dispatch next : Dispatch} {event : DispatchEvent}

theorem monitor_foreign {now time : Nat} {around : Surroundings} {msg : Completion}
    (sent : msg ∈ (job.recoverAndMonitorJob now around .terminated time).messages) {code : Int} (genuine : IsExitCode code) :
    msg ≠ .jobDone job.jobId code := by
  rintro rfl
  unfold PersistedJob.recoverAndMonitorJob at sent
  split at sent
  · cases sent
  · split at sent
    · simp at sent
    · simp only [List.mem_singleton, Completion.jobDone.injEq, true_and] at sent
      rcases genuine with signalled | ⟨positive, _⟩
      · omega
      · omega

theorem mem_send {connection : Nat} {messages : List Completion} {msg : Completion}
    (member : msg ∈ (dispatch.send connection messages).channel ++ dispatch.delivered) :
    msg ∈ messages ∨ msg ∈ dispatch.channel ++ dispatch.delivered := by
  simp only [send] at member
  split at member
  · simp only [List.mem_append] at member ⊢
    tauto
  · exact .inr member

theorem Lost.step (lost : dispatch.Lost job) (taken : dispatch.apply job event = some next) : next.Lost job := by
  obtain ⟨begun, dead, earlier, foreign⟩ := lost
  cases event with
  | connect now around =>
    obtain ⟨_, same⟩ := Option.ite_none_left_eq_some.mp taken
    cases same
    refine ⟨begun, fun live => ?_, Nat.le_succ_of_le earlier, foreign⟩
    have same : dispatch.origin = dispatch.connection + 1 := live.1
    omega
  | lose =>
    obtain ⟨_, same⟩ := Option.ite_none_right_eq_some.mp taken
    cases same
    refine ⟨begun, fun live => ?_, earlier, fun msg member => foreign msg (List.mem_append_right _ member)⟩
    cases live.2
  | runJob =>
    obtain ⟨⟨_, idle⟩, _⟩ := Option.ite_none_right_eq_some.mp taken
    exact absurd idle begun
  | start =>
    obtain ⟨_, same⟩ := Option.ite_none_right_eq_some.mp taken
    cases same
    exact ⟨by simp, dead, earlier, foreign⟩
  | persist =>
    obtain ⟨_, same⟩ := Option.ite_none_right_eq_some.mp taken
    cases same
    exact ⟨by simp, dead, earlier, foreign⟩
  | exit code =>
    obtain ⟨_, same⟩ := Option.ite_none_right_eq_some.mp taken
    cases same
    exact ⟨begun, dead, earlier, foreign⟩
  | reap =>
    obtain ⟨_, same⟩ := Option.ite_none_right_eq_some.mp taken
    cases same
    exact ⟨by simp, dead, earlier, foreign⟩
  | report =>
    obtain ⟨code, _, taken⟩ := Option.bind_eq_some_iff.mp taken
    obtain ⟨_, same⟩ := Option.ite_none_right_eq_some.mp taken
    cases same
    -- The message goes to a connection that is gone.
    refine ⟨by simp, dead, earlier, fun msg member => ?_⟩
    simp only [send, if_neg (show ¬ (dispatch.origin = dispatch.connection ∧ dispatch.connected = true) from dead)] at member
    exact foreign msg member
  | monitor index time =>
    obtain ⟨monitor, _, taken⟩ := Option.bind_eq_some_iff.mp taken
    obtain ⟨_, same⟩ := Option.ite_none_left_eq_some.mp taken
    cases same
    refine ⟨begun, dead, earlier, fun msg member code genuine => ?_⟩
    rcases mem_send member with sent | before
    · exact monitor_foreign sent genuine
    · exact foreign msg before code genuine
  | deliver =>
    simp only [apply] at taken
    split at taken
    · cases taken
    · rename_i msg rest queued
      cases taken
      refine ⟨begun, dead, earlier, fun other member => foreign other ?_⟩
      rw [queued]
      simp only [List.mem_append, List.mem_cons, List.not_mem_nil, or_false] at member ⊢
      tauto

theorem Served.lose (served : dispatch.Served job) (early : ¬ dispatch.Steady .lose)
    (taken : dispatch.apply job .lose = some next) : next.Lost job := by
  obtain ⟨begun, silent⟩ := not_or.mp early
  rw [Decidable.not_not] at silent
  obtain ⟨_, same⟩ := Option.ite_none_right_eq_some.mp taken
  cases same
  have earlier : dispatch.origin ≤ dispatch.connection := by
    cases served with
    | idle phase => exact absurd phase begun
    | running _ live => exact Nat.le_of_eq live.1
    | reported _ _ live => exact Nat.le_of_eq live.1
    | past code _ _ messages =>
      rw [messages.2.1] at silent
      cases silent
  refine ⟨begun, fun live => ?_, earlier, fun msg member => ?_⟩
  · cases live.2
  · rw [List.nil_append, silent] at member
    cases member

theorem Served.unwatched (served : dispatch.Served job) : dispatch.monitors = [] := by
  cases served with
  | idle _ _ unwatched => exact unwatched.1
  | running _ _ _ unwatched => exact unwatched
  | reported _ _ _ _ _ unwatched => exact unwatched.1
  | past _ _ _ _ unwatched => exact unwatched.1

theorem Served.of_phase (served : dispatch.Served job) (phase : dispatch.phase ≠ .idle ∧ dispatch.phase ≠ .finished) :
    dispatch.Live ∧ (dispatch.channel = [] ∧ dispatch.delivered = [] ∧ dispatch.sent = []) ∧ dispatch.monitors = [] ∧
      (dispatch.persisted = true → dispatch.phase = .recorded) := by
  cases served with
  | idle idle => exact absurd idle phase.1
  | running _ live messages unwatched recorded => exact ⟨live, messages, unwatched, recorded⟩
  | reported _ finished => exact absurd finished phase.2
  | past _ finished => exact absurd finished phase.2

theorem Served.step (served : dispatch.Served job) (steady : dispatch.Steady event)
    (taken : dispatch.apply job event = some next) : next.Served job := by
  cases event with
  | connect now around =>
    obtain ⟨down, same⟩ := Option.ite_none_left_eq_some.mp taken
    cases same
    cases served with
    | idle phase messages unwatched => exact .idle phase messages ⟨by simp [unwatched], unwatched.2⟩
    | running _ live => exact absurd live.2 down
    | reported _ _ live => exact absurd live.2 down
    | past code phase exits messages unwatched => exact .past code phase exits messages ⟨by simp [unwatched], unwatched.2⟩
  | lose =>
    obtain ⟨_, same⟩ := Option.ite_none_right_eq_some.mp taken
    cases same
    cases served with
    | idle phase messages unwatched => exact .idle phase ⟨rfl, messages.2⟩ unwatched
    | running phase _ messages => exact absurd messages.2.1 (steady.resolve_left phase.1)
    | reported _ phase _ _ messages => exact absurd messages.2.1 (steady.resolve_left (by simp [phase]))
    | past code phase exits messages unwatched => exact .past code phase exits ⟨rfl, messages.2⟩ unwatched
  | runJob =>
    obtain ⟨⟨connected, idle⟩, same⟩ := Option.ite_none_right_eq_some.mp taken
    cases same
    cases served with
    | idle _ messages unwatched =>
      exact .running (by simp) ⟨rfl, connected⟩ messages unwatched.1 (by simp [unwatched])
    | running phase => exact absurd idle phase.1
    | reported _ phase => rw [idle] at phase; cases phase
    | past _ phase => rw [idle] at phase; cases phase
  | start =>
    obtain ⟨phase, same⟩ := Option.ite_none_right_eq_some.mp taken
    cases same
    obtain ⟨live, messages, unwatched, recorded⟩ := served.of_phase (by simp [phase])
    refine .running (by simp) live messages unwatched fun persisted => ?_
    rw [phase] at recorded
    cases recorded persisted
  | persist =>
    obtain ⟨phase, same⟩ := Option.ite_none_right_eq_some.mp taken
    cases same
    obtain ⟨live, messages, unwatched, _⟩ := served.of_phase (by simp [phase])
    exact .running (by simp) live messages unwatched fun _ => rfl
  | exit code =>
    obtain ⟨⟨phase, _⟩, same⟩ := Option.ite_none_right_eq_some.mp taken
    cases same
    have between : dispatch.phase ≠ .idle ∧ dispatch.phase ≠ .finished := by
      rcases phase with phase | phase <;> simp [phase]
    obtain ⟨live, messages, unwatched, recorded⟩ := served.of_phase between
    exact .running between live messages unwatched recorded
  | reap =>
    obtain ⟨⟨phase, _⟩, same⟩ := Option.ite_none_right_eq_some.mp taken
    cases same
    obtain ⟨live, messages, unwatched, _⟩ := served.of_phase (by simp [phase])
    exact .running (by simp) live messages unwatched (by simp)
  | report =>
    obtain ⟨code, exits, taken⟩ := Option.bind_eq_some_iff.mp taken
    obtain ⟨phase, same⟩ := Option.ite_none_right_eq_some.mp taken
    cases same
    obtain ⟨live, messages, unwatched, recorded⟩ := served.of_phase (by simp [phase])
    have removed : dispatch.persisted = false := by
      rw [← Bool.not_eq_true]
      intro persisted
      rw [phase] at recorded
      cases recorded persisted
    refine .reported code rfl live exits ⟨?_, messages.2.1, ?_⟩ ⟨unwatched, removed⟩
    · simp only [send, if_pos (show dispatch.origin = dispatch.connection ∧ dispatch.connected = true from live), messages.1,
        List.nil_append]
    · simp [send, messages.2.2]
  | monitor index time =>
    obtain ⟨monitor, found, _⟩ := Option.bind_eq_some_iff.mp taken
    rw [served.unwatched] at found
    cases found
  | deliver =>
    simp only [apply] at taken
    cases served with
    | idle _ messages => rw [messages.1] at taken; cases taken
    | running _ _ messages => rw [messages.1] at taken; cases taken
    | past _ _ _ messages => rw [messages.1] at taken; cases taken
    | reported code phase live exits messages unwatched =>
      rw [messages.1] at taken
      cases taken
      exact .past code phase exits ⟨rfl, by rw [messages.2.1]; rfl, messages.2.2⟩ unwatched

theorem exitCode_step (genuine : ∀ code ∈ dispatch.exitCode, IsExitCode code)
    (taken : dispatch.apply job event = some next) : ∀ code ∈ next.exitCode, IsExitCode code := by
  cases event with
  | connect now around =>
    obtain ⟨_, same⟩ := Option.ite_none_left_eq_some.mp taken
    cases same
    exact genuine
  | exit code =>
    obtain ⟨⟨_, _, own⟩, same⟩ := Option.ite_none_right_eq_some.mp taken
    cases same
    intro other ended
    cases ended
    exact own
  | report =>
    obtain ⟨code, _, taken⟩ := Option.bind_eq_some_iff.mp taken
    obtain ⟨_, same⟩ := Option.ite_none_right_eq_some.mp taken
    cases same
    exact genuine
  | monitor index time =>
    obtain ⟨monitor, _, taken⟩ := Option.bind_eq_some_iff.mp taken
    obtain ⟨_, same⟩ := Option.ite_none_left_eq_some.mp taken
    cases same
    exact genuine
  | deliver =>
    simp only [apply] at taken
    split at taken
    · cases taken
    · cases taken
      exact genuine
  | lose | runJob | start | persist | reap =>
    obtain ⟨_, same⟩ := Option.ite_none_right_eq_some.mp taken
    cases same
    exact genuine

theorem Served.not_lost (served : dispatch.Served job) (genuine : ∀ code ∈ dispatch.exitCode, IsExitCode code) :
    ¬ dispatch.Lost job := by
  intro lost
  cases served with
  | idle phase => exact lost.begun phase
  | running _ live => exact lost.dead live
  | reported _ _ live => exact lost.dead live
  | past code _ exits messages =>
    refine lost.foreign (.jobDone job.jobId code) ?_ code (genuine code exits) rfl
    simp [messages]

/-- The dispatch is served or lost, and stays served exactly if the connection stays. -/
theorem served_step (valid : (∀ code ∈ dispatch.exitCode, IsExitCode code) ∧ (dispatch.Served job ∨ dispatch.Lost job))
    (taken : dispatch.apply job event = some next) :
    ((∀ code ∈ next.exitCode, IsExitCode code) ∧ (next.Served job ∨ next.Lost job)) ∧
      (next.Served job ↔ dispatch.Served job ∧ dispatch.Steady event) := by
  obtain ⟨genuine, served | lost⟩ := valid
  · have genuine' := exitCode_step genuine taken
    by_cases steady : dispatch.Steady event
    · have served' := served.step steady taken
      exact ⟨⟨genuine', .inl served'⟩, iff_of_true served' ⟨served, steady⟩⟩
    · cases event with
      | lose =>
        have lost := served.lose steady taken
        exact ⟨⟨genuine', .inr lost⟩, iff_of_false (fun served' => served'.not_lost genuine' lost) fun both => steady both.2⟩
      | _ => exact absurd trivial steady
  · have genuine' := exitCode_step genuine taken
    have lost' := lost.step taken
    exact ⟨⟨genuine', .inr lost'⟩, iff_of_false (fun served' => served'.not_lost genuine' lost')
      fun both => both.1.not_lost genuine lost⟩

end Dispatch

/-- When all tasks of a dispatch have come to their end: a controller has got the exit code of the
process, and nothing else was sent on its end, exactly if no connection was lost between RunJob
and that message. -/
theorem reconnect_keeps_outcome_iff {job : PersistedJob} {events : List DispatchEvent} {final : Dispatch} {code : Int}
    (ran : runLabels (Dispatch.apply job) events {} = some final) (settled : final.Settled)
    (exits : final.exitCode = some code) :
    final.delivered = [.jobDone job.jobId code] ∧ final.sent = [.jobDone job.jobId code] ↔
      AllowedRun Dispatch.Steady (Dispatch.apply job) events {} := by
  have start : ({} : Dispatch).Served job := .idle rfl ⟨rfl, rfl, rfl⟩ ⟨rfl, rfl⟩
  have valid : (∀ code ∈ ({} : Dispatch).exitCode, IsExitCode code) ∧
      (({} : Dispatch).Served job ∨ ({} : Dispatch).Lost job) :=
    ⟨fun _ none => (by cases none), .inl start⟩
  have served := runLabels_iff (fun valid taken => Dispatch.served_step valid taken) valid ran
  obtain ⟨genuine, outcome⟩ := runLabels_invariant (fun valid taken => (Dispatch.served_step valid taken).1) valid ran
  rw [← and_iff_right (b := AllowedRun _ _ _ _) start, ← served]
  constructor
  · rintro ⟨delivered, _⟩
    refine outcome.resolve_right fun lost => ?_
    exact lost.foreign (.jobDone job.jobId code) (by simp [delivered]) code (genuine code exits) rfl
  · intro served
    cases served with
    | idle phase => rw [settled.phase] at phase; cases phase
    | running phase => exact absurd settled.phase phase.2
    | reported _ _ _ _ messages => rw [settled.channel] at messages; cases messages.1
    | past own _ exits' messages =>
      cases Option.some.inj (exits.symm.trans exits')
      exact messages.2

namespace Dispatch

instance decidableSteady (dispatch : Dispatch) : (event : DispatchEvent) → Decidable (dispatch.Steady event)
  | .lose => inferInstanceAs (Decidable (_ ∨ _))
  | .connect _ _ | .runJob | .start | .persist | .exit _ | .reap | .report | .monitor _ _ | .deliver => isTrue trivial

instance (dispatch : Dispatch) : Decidable dispatch.Settled :=
  decidable_of_iff (dispatch.phase = .finished ∧ dispatch.monitors.isEmpty = true ∧ dispatch.channel = [])
    ⟨fun ⟨phase, monitors, channel⟩ => ⟨phase, List.isEmpty_iff.mp monitors, channel⟩,
      fun settled => ⟨settled.phase, List.isEmpty_iff.mpr settled.monitors, settled.channel⟩⟩

def Ends (final : Dispatch) (code : Int) (delivered sent : List Completion) : Prop :=
  final.Settled ∧ final.exitCode = some code ∧ final.delivered = delivered ∧ final.sent = sent

instance (final : Dispatch) (code : Int) (delivered sent : List Completion) : Decidable (final.Ends code delivered sent) :=
  inferInstanceAs (Decidable (_ ∧ _))

theorem ends_of_run {events : List DispatchEvent} {code : Int} {delivered sent : List Completion}
    (facts : (runLabels (apply (samplePersisted 1)) events {}).map (fun final => decide (final.Ends code delivered sent)) =
      some true) :
    ∃ final, runLabels (apply (samplePersisted 1)) events {} = some final ∧ final.Ends code delivered sent := by
  obtain ⟨final, ran, holds⟩ := Option.map_eq_some_iff.mp facts
  exact ⟨final, ran, of_decide_eq_true holds⟩

end Dispatch

/-- The connection is lost after the exit code has reached the controller. -/
theorem reconnect_keeps_outcome_iff_delivered : ∃ final : Dispatch,
    runLabels (Dispatch.apply (samplePersisted 1)) [.connect 100 (runsUntil none), .runJob, .start, .persist, .exit 3, .reap,
      .report, .deliver, .lose, .connect 200 (runsUntil none)] {} = some final ∧ final.Settled ∧
    final.delivered = [.jobDone 1 3] ∧ final.sent = [.jobDone 1 3] := by
  let events : List DispatchEvent := [.connect 100 (runsUntil none), .runJob, .start, .persist, .exit 3, .reap,
    .report, .deliver, .lose, .connect 200 (runsUntil none)]
  obtain ⟨final, ran, settled, exits, _⟩ : ∃ final,
      runLabels (Dispatch.apply (samplePersisted 1)) events {} = some final ∧ final.Ends 3 [.jobDone 1 3] [.jobDone 1 3] := Dispatch.ends_of_run (by decide +kernel)
  have steady : AllowedRun Dispatch.Steady (Dispatch.apply (samplePersisted 1)) events {} := by decide +kernel
  exact ⟨final, ran, settled, (reconnect_keeps_outcome_iff ran settled exits).mpr steady⟩

/-- The connection is lost while the process runs: the monitor of the next one reports minus one
hundred. If the process ends before the next connection, no message reaches a controller. -/
theorem reconnect_loses_outcome :
    (∃ final : Dispatch, runLabels (Dispatch.apply (samplePersisted 1)) [.connect 100 (runsUntil none), .runJob, .start,
      .persist, .lose, .connect 200 (runsUntil (some 300)), .exit 3, .reap, .report, .monitor 0 300, .deliver] {} = some final ∧
      final.Ends 3 [.jobDone 1 (-100)] [.jobDone 1 3, .jobDone 1 (-100)]) ∧
    ∃ final : Dispatch, runLabels (Dispatch.apply (samplePersisted 1)) [.connect 100 (runsUntil none), .runJob, .start,
      .persist, .lose, .exit 3, .reap, .report, .connect 200 (runsUntil none)] {} = some final ∧
      final.Ends 3 [] [.jobDone 1 3] := by
  constructor
  · exact Dispatch.ends_of_run (by decide +kernel)
  · exact Dispatch.ends_of_run (by decide +kernel)

end Veloce
