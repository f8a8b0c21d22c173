import Veloce.Collections.Run
import Veloce.Handlers.Launch

/-! The ranks of a step on its worker. -/

namespace Veloce

open Collections

inductive RankProcess where
  | running
  /-- There is no code after a signal. -/
  | exited (code : Option Int)
  /-- Gone, and its status with it. -/
  | lost
  | killed
deriving DecidableEq

/-- A process that was started for a rank. -/
structure RankChild where
  rank : Nat
  process : RankProcess := .running
deriving DecidableEq

/-- What starting a rank comes to: a command that does not start is only logged, log files
that do not open end `run_step`. -/
inductive RankSpawn where
  | spawned
  | unspawned
  | unlogged
deriving DecidableEq

inductive RankPhase where
  | spawning
  | waiting
  | broken
  | returned
deriving DecidableEq

/-- `run_step` once its directory, its host file and its PMI server are there. Of the assigned
ranks the `rest` is still to be started, and `unspawned` are those of the error log. -/
structure RankRun where
  rest : List Nat
  unspawned : List Nat := []
  children : List RankChild := []
  phase : RankPhase := .spawning
  awaited : Nat := 0
  stepSuccess : Bool := true
  lastCode : Int := 0
  killTriggered : Bool := false
  /-- The kill channel has a signal, or its sender is gone. -/
  signalled : Bool := false
  sent : List StepMessage

inductive RankEvent where
  | spawn (outcome : RankSpawn)
  /-- The process of a child ends. -/
  | exit (index : Nat) (code : Option Int)
  | signal
  | start
  | wait
  | waitFailed
  | kill
  | report
deriving DecidableEq

def RankChild.startKill (child : RankChild) : RankChild :=
  if child.process = .running then { child with process := .killed } else child

namespace RankRun

/-- The first StepStarted is sent before any rank is. -/
def start (key : StepKey) (assignedRanks : List Nat) : RankRun where
  rest := assignedRanks
  sent := [.stepStarted key]

/-- Take note of the code of the awaited child. -/
def note (code : Int) (run : RankRun) : RankRun :=
  { run with
    awaited := run.awaited + 1
    stepSuccess := run.stepSuccess && code = 0
    lastCode := if code = 0 then run.lastCode else code }

def exitCode (run : RankRun) : Int :=
  if run.killTriggered then -1 else if run.stepSuccess then 0 else run.lastCode

def apply (key : StepKey) (event : RankEvent) (run : RankRun) : Option RankRun :=
  match event with
  | .spawn outcome =>
    match run.phase, run.rest with
    | .spawning, rank :: rest =>
      match outcome with
      | .spawned => some { run with rest := rest, children := run.children ++ [{ rank }] }
      | .unspawned => some { run with rest := rest, unspawned := run.unspawned ++ [rank] }
      | .unlogged => some { run with rest := rest, children := run.children ++ [{ rank }], phase := .returned }
    | _, _ => none
  | .exit index code =>
    run.children[index]?.bind fun child =>
      if child.process = .running then
        some { run with children := run.children.set index { child with process := .exited code } }
      else none
  | .signal => some { run with signalled := true }
  | .start =>
    if run.phase = .spawning ∧ run.rest = [] then
      some { run with
        phase := .waiting
        sent := if run.children = [] then run.sent else run.sent ++ [.stepStarted key] }
    else none
  | .wait =>
    run.children[run.awaited]?.bind fun child =>
      match run.phase, child.process with
      | .waiting, .exited code => some (run.note (code.getD (-1)))
      | _, _ => none
  | .waitFailed =>
    run.children[run.awaited]?.bind fun child =>
      if run.phase = .waiting then
        some ({ run with children := run.children.set run.awaited { child with process := .lost } }.note (-1))
      else none
  | .kill =>
    run.children[run.awaited]?.bind fun child =>
      if run.phase = .waiting ∧ run.signalled then
        some { run with
          children := run.children.set run.awaited child.startKill
          phase := .broken
          stepSuccess := false
          lastCode := -1
          killTriggered := true }
      else none
  | .report =>
    if run.phase = .broken ∨ run.phase = .waiting ∧ run.children.length ≤ run.awaited then
      some { run with phase := .returned, sent := run.sent ++ [.stepDone key run.exitCode] }
    else none

def AllSucceeded (run : RankRun) (assignedRanks : List Nat) : Prop :=
  run.children.map (·.rank) = assignedRanks ∧ ∀ child ∈ run.children, child.process = .exited (some 0)

def NoneRuns (run : RankRun) : Prop := ∀ child ∈ run.children, child.process ≠ .running

/-- No rank but the awaited one runs. -/
def OthersEnded (run : RankRun) : Prop :=
  ∀ index, index ≠ run.awaited → ∀ child ∈ run.children[index]?, child.process ≠ .running

/-- What holds of a step at all times. -/
structure Valid (assignedRanks : List Nat) (run : RankRun) : Prop where
  ranks : run.unspawned = [] → run.children.map (·.rank) ++ run.rest = assignedRanks
  count : run.children.length + run.unspawned.length + run.rest.length = assignedRanks.length
  began : run.phase = .waiting ∨ run.phase = .broken → run.rest = []
  bounded : run.awaited ≤ run.children.length
  ended : ∀ child ∈ run.children.take run.awaited, child.process ≠ .running
  success : run.killTriggered = false →
    (run.stepSuccess = true ↔ ∀ child ∈ run.children.take run.awaited, child.process = .exited (some 0))
  failure : run.stepSuccess = false → run.lastCode ≠ 0
  broke : run.phase = .broken → run.killTriggered = true
  reported : ∀ key code, .stepDone key code ∈ run.sent →
    run.phase = .returned ∧ run.rest = [] ∧ code = run.exitCode ∧
      (run.killTriggered = false → run.children.length ≤ run.awaited)

section Invariant

variable {key : StepKey} {assignedRanks : List Nat} {run next : RankRun} {event : RankEvent} {child : RankChild}
  {index : Nat}

private theorem startKill_eq (child : RankChild) : ∃ process, child.startKill = { child with process } ∧ process ≠ .running := by
  unfold RankChild.startKill
  split
  · exact ⟨.killed, rfl, nofun⟩
  · exact ⟨child.process, rfl, ‹_›⟩

private theorem ranks_set {children : List RankChild} (found : children[index]? = some child) (process : RankProcess) :
    (children.set index { child with process }).map (·.rank) = children.map (·.rank) := by
  refine List.ext_getElem? fun other => ?_
  rw [List.getElem?_map, List.getElem?_map, List.getElem?_set]
  split
  · subst other
    obtain ⟨inside, rfl⟩ := List.getElem?_eq_some_iff.mp found
    simp [inside]
  · rfl

private theorem valid_start : (start key assignedRanks).Valid assignedRanks where
  ranks _ := rfl
  count := by simp [start]
  began phase := by simp [start] at phase
  bounded := Nat.zero_le _
  ended := nofun
  success _ := by simp [start]
  failure := nofun
  broke := nofun
  reported about code sent := by simp [start] at sent

theorem Valid.later (valid : run.Valid assignedRanks) (found : run.children[index]? = some child)
    (running : child.process = .running) : run.awaited ≤ index := by
  by_contra! waited
  have member : (run.children.take run.awaited)[index]? = some child := by
    rw [List.getElem?_take_of_lt waited]
    exact found
  exact valid.ended child (List.mem_of_getElem? member) running

theorem Valid.set (valid : run.Valid assignedRanks) (found : run.children[index]? = some child)
    (later : run.awaited ≤ index) (process : RankProcess) :
    { run with children := run.children.set index { child with process } }.Valid assignedRanks := by
  have before : (run.children.set index { child with process }).take run.awaited = run.children.take run.awaited :=
    List.take_set_of_le later
  exact {
    ranks := by simpa only [ranks_set found] using valid.ranks
    count := by simpa only [List.length_set] using valid.count
    began := valid.began
    bounded := by simpa only [List.length_set] using valid.bounded
    ended := by simpa only [before] using valid.ended
    success := by simpa only [before] using valid.success
    failure := valid.failure
    broke := valid.broke
    reported := by
      intro about code sent
      obtain ⟨returned, none, exit, waited⟩ := valid.reported about code sent
      exact ⟨returned, none, exit, by simpa only [List.length_set] using waited⟩ }

theorem Valid.note (valid : run.Valid assignedRanks) (waiting : run.phase = .waiting)
    (found : run.children[run.awaited]? = some child) (ended : child.process ≠ .running) {code : Int}
    (read : code = 0 ↔ child.process = .exited (some 0)) : (run.note code).Valid assignedRanks := by
  have taken : run.children.take (run.awaited + 1) = run.children.take run.awaited ++ [child] := by
    rw [List.take_add_one, found, Option.toList_some]
  refine ⟨valid.ranks, valid.count, valid.began, ?_, ?_, ?_, ?_, valid.broke, ?_⟩
  · exact (List.getElem?_eq_some_iff.mp found).1
  · intro other member
    rw [RankRun.note, taken, List.mem_append, List.mem_singleton] at member
    rcases member with member | rfl
    · exact valid.ended other member
    · exact ended
  · intro alive
    change (run.stepSuccess && decide (code = 0)) = true ↔ ∀ child ∈ run.children.take (run.awaited + 1), _
    rw [taken, List.forall_mem_append, Bool.and_eq_true, decide_eq_true_iff, valid.success alive, read]
    simp
  · intro failed
    change (if code = 0 then run.lastCode else code) ≠ 0
    change (run.stepSuccess && decide (code = 0)) = false at failed
    split
    · rename_i zero
      rw [decide_eq_true zero, Bool.and_true] at failed
      exact valid.failure failed
    · assumption
  · intro about code' sent
    have returned := (valid.reported about code' sent).1
    rw [waiting] at returned
    cases returned

theorem Valid.spawn {outcome : RankSpawn} (valid : run.Valid assignedRanks)
    (taken : run.apply key (.spawn outcome) = some next) : next.Valid assignedRanks := by
  simp only [apply] at taken
  split at taken
  · rename_i rank rest spawning left
    have counted := valid.count
    rw [left, List.length_cons] at counted
    have untold (about : StepKey) (code : Int) : .stepDone about code ∉ run.sent := by
      intro sent
      have returned := (valid.reported about code sent).1
      rw [spawning] at returned
      cases returned
    have kept : (run.children ++ [({ rank } : RankChild)]).take run.awaited = run.children.take run.awaited :=
      List.take_append_of_le_length valid.bounded
    have listed (none : run.unspawned = []) :
        (run.children ++ [({ rank } : RankChild)]).map (·.rank) ++ rest = assignedRanks := by
      rw [← valid.ranks none, left]
      simp
    have longer : run.awaited ≤ (run.children ++ [({ rank } : RankChild)]).length :=
      valid.bounded.trans (by simp)
    cases outcome with
    | spawned =>
      cases taken
      refine ⟨listed, ?_, ?_, longer, ?_, ?_, valid.failure, valid.broke, ?_⟩
      · simp only [List.length_append, List.length_singleton]
        omega
      · exact fun phase => by simp [spawning] at phase
      · simpa only [kept] using valid.ended
      · simpa only [kept] using valid.success
      · exact fun about code sent => absurd sent (untold about code)
    | unspawned =>
      cases taken
      refine ⟨?_, ?_, ?_, valid.bounded, valid.ended, valid.success, valid.failure, valid.broke, ?_⟩
      · exact fun none => by simp at none
      · simp only [List.length_append, List.length_singleton]
        omega
      · exact fun phase => by simp [spawning] at phase
      · exact fun about code sent => absurd sent (untold about code)
    | unlogged =>
      cases taken
      refine ⟨listed, ?_, ?_, longer, ?_, ?_, valid.failure, nofun, ?_⟩
      · simp only [List.length_append, List.length_singleton]
        omega
      · exact fun phase => by simp at phase
      · simpa only [kept] using valid.ended
      · simpa only [kept] using valid.success
      · exact fun about code sent => absurd sent (untold about code)
  · cases taken

private theorem Valid.exit {code : Option Int} (valid : run.Valid assignedRanks)
    (taken : run.apply key (.exit index code) = some next) : next.Valid assignedRanks := by
  obtain ⟨child, found, taken⟩ := Option.bind_eq_some_iff.mp taken
  split at taken
  · rename_i running
    cases taken
    exact valid.set found (valid.later found running) (.exited code)
  · cases taken

/-- Before the step has returned there is no StepDone. -/
private theorem Valid.unreported (valid : run.Valid assignedRanks) (going : run.phase ≠ .returned) {about : StepKey}
    {code : Int} : .stepDone about code ∉ run.sent :=
  fun sent => going (valid.reported about code sent).1

private theorem Valid.starts (valid : run.Valid assignedRanks) (taken : run.apply key .start = some next) :
    next.Valid assignedRanks := by
  obtain ⟨ready, same⟩ := Option.ite_none_right_eq_some.mp taken
  cases same
  refine ⟨valid.ranks, valid.count, fun _ => ready.2, valid.bounded, valid.ended, valid.success, valid.failure, nofun, ?_⟩
  intro about code sent
  have told : .stepDone about code ∈ run.sent := by
    split at sent
    · exact sent
    · simpa using sent
  exact absurd told (valid.unreported (by simp [ready.1]))

private theorem Valid.waits (valid : run.Valid assignedRanks) (taken : run.apply key .wait = some next) :
    next.Valid assignedRanks := by
  obtain ⟨child, found, taken⟩ := Option.bind_eq_some_iff.mp taken
  split at taken
  · rename_i code waiting exited
    cases taken
    refine valid.note waiting found (by simp [exited]) ?_
    rw [exited, RankProcess.exited.injEq]
    cases code with
    | none => decide
    | some code => simp
  · cases taken

private theorem Valid.waitFailed (valid : run.Valid assignedRanks) (taken : run.apply key .waitFailed = some next) :
    next.Valid assignedRanks := by
  obtain ⟨child, found, taken⟩ := Option.bind_eq_some_iff.mp taken
  split at taken
  · rename_i waiting
    cases taken
    have gone : (run.children.set run.awaited { child with process := .lost })[run.awaited]? =
        some { child with process := .lost } := by
      simp [(List.getElem?_eq_some_iff.mp found).1]
    exact (valid.set found le_rfl .lost).note waiting gone nofun (by simp)
  · cases taken

private theorem Valid.kill (valid : run.Valid assignedRanks) (taken : run.apply key .kill = some next) :
    next.Valid assignedRanks := by
  obtain ⟨child, found, taken⟩ := Option.bind_eq_some_iff.mp taken
  split at taken
  · rename_i waiting
    cases taken
    obtain ⟨process, ended, _⟩ := startKill_eq child
    rw [ended]
    have stopped := valid.set found le_rfl process
    refine ⟨stopped.ranks, stopped.count, fun _ => stopped.began (.inl waiting.1), stopped.bounded, stopped.ended,
      nofun, fun _ => (by decide : (-1 : Int) ≠ 0), fun _ => rfl, ?_⟩
    exact fun about code sent => absurd sent (valid.unreported (by simp [waiting.1]))
  · cases taken

private theorem Valid.report (valid : run.Valid assignedRanks) (taken : run.apply key .report = some next) :
    next.Valid assignedRanks := by
  obtain ⟨ready, same⟩ := Option.ite_none_right_eq_some.mp taken
  cases same
  have going : run.phase ≠ .returned := by
    rcases ready with broken | ⟨waiting, _⟩
    · simp [broken]
    · simp [waiting]
  refine ⟨valid.ranks, valid.count, nofun, valid.bounded, valid.ended, valid.success, valid.failure, nofun, ?_⟩
  intro about code sent
  rcases List.mem_append.mp sent with sent | sent
  · exact absurd sent (valid.unreported going)
  · cases List.mem_singleton.mp sent
    refine ⟨rfl, valid.began (ready.symm.imp_left And.left), rfl, fun alive => ?_⟩
    rcases ready with broken | ⟨_, all⟩
    · rw [valid.broke broken] at alive
      cases alive
    · exact all

theorem Valid.apply (valid : run.Valid assignedRanks) (taken : run.apply key event = some next) :
    next.Valid assignedRanks := by
  cases event with
  | spawn outcome => exact valid.spawn taken
  | exit index code => exact valid.exit taken
  | signal =>
    cases taken
    exact { valid with }
  | start => exact valid.starts taken
  | wait => exact valid.waits taken
  | waitFailed => exact valid.waitFailed taken
  | kill => exact valid.kill taken
  | report => exact valid.report taken

private theorem valid_run {events : List RankEvent} (ran : runLabels (apply key) events (start key assignedRanks) = some run) :
    run.Valid assignedRanks :=
  runLabels_invariant Valid.apply valid_start ran

/-- Only the kill branch of the loop sets the flag. -/
private theorem killTriggered_step (taken : run.apply key event = some next) :
    next.killTriggered = true ↔ run.killTriggered = true ∨ event = .kill := by
  cases event with
  | spawn outcome =>
    simp only [apply] at taken
    split at taken
    · cases outcome <;> cases taken <;> simp
    · cases taken
  | exit index code | waitFailed | kill =>
    obtain ⟨child, _, taken⟩ := Option.bind_eq_some_iff.mp taken
    split at taken
    · cases taken
      simp [RankRun.note]
    · cases taken
  | signal =>
    cases taken
    simp
  | start | report =>
    obtain ⟨_, same⟩ := Option.ite_none_right_eq_some.mp taken
    cases same
    simp
  | wait =>
    obtain ⟨child, _, taken⟩ := Option.bind_eq_some_iff.mp taken
    split at taken
    · cases taken
      simp [RankRun.note]
    · cases taken

private theorem killTriggered_run {events : List RankEvent} (ran : runLabels (apply key) events run = some next) :
    next.killTriggered = true ↔ run.killTriggered = true ∨ .kill ∈ events := by
  induction events generalizing run with
  | nil =>
    cases ran
    simp
  | cons event rest ih =>
    rw [runLabels_cons] at ran
    obtain ⟨middle, taken, ran⟩ := Option.bind_eq_some_iff.mp ran
    rw [ih ran, killTriggered_step taken, List.mem_cons, or_assoc, @eq_comm _ event]

end Invariant

section Report

variable {key : StepKey} {assignedRanks : List Nat} {run next : RankRun} {events : List RankEvent} {code : Int}

theorem Valid.listed_iff (valid : run.Valid assignedRanks) (none : run.rest = []) :
    run.children.map (·.rank) = assignedRanks ↔ run.unspawned = [] := by
  constructor
  · intro listed
    have counted := valid.count
    rw [none, ← listed, List.length_map, List.length_nil] at counted
    exact List.eq_nil_of_length_eq_zero (by omega)
  · intro started
    have listed := valid.ranks started
    rwa [none, List.append_nil] at listed

/-- StepDone says 0 if and only if no kill came and the started ranks all exited with code 0. -/
private theorem Valid.code_zero_iff (valid : run.Valid assignedRanks) (reported : .stepDone key code ∈ run.sent) :
    code = 0 ↔ run.killTriggered = false ∧ ∀ child ∈ run.children, child.process = .exited (some 0) := by
  obtain ⟨_, _, rfl, waited⟩ := valid.reported key code reported
  cases alive : run.killTriggered with
  | true => simp [exitCode, alive]
  | false =>
    have success := valid.success alive
    rw [List.take_of_length_le (waited alive)] at success
    rw [← success, and_iff_right rfl]
    cases succeeded : run.stepSuccess with
    | true => simp [exitCode, alive, succeeded]
    | false => simp [exitCode, alive, succeeded, valid.failure succeeded]

/-- Right after the kill signal was received no rank runs. -/
def KillsAll (key : StepKey) (assignedRanks : List Nat) (events : List RankEvent) : Prop :=
  ∀ before after stopped, events = before ++ .kill :: after →
    runLabels (apply key) (before ++ [.kill]) (start key assignedRanks) = some stopped → stopped.NoneRuns

/-- Where the kill signal is received no rank but the awaited one runs. -/
def LoneAtKill (key : StepKey) (assignedRanks : List Nat) (events : List RankEvent) : Prop :=
  ∀ before after halted, events = before ++ .kill :: after →
    runLabels (apply key) before (start key assignedRanks) = some halted → halted.OthersEnded

private theorem kill_noneRuns_iff (taken : run.apply key .kill = some next) : next.NoneRuns ↔ run.OthersEnded := by
  obtain ⟨child, found, taken⟩ := Option.bind_eq_some_iff.mp taken
  split at taken
  · cases taken
    obtain ⟨process, ended, gone⟩ := startKill_eq child
    rw [ended]
    have inside := (List.getElem?_eq_some_iff.mp found).1
    constructor
    · intro none index other sibling member
      refine none sibling (List.mem_of_getElem? (i := index) ?_)
      rw [List.getElem?_set_ne other.symm]
      exact member
    · intro others sibling member
      obtain ⟨index, found⟩ := List.mem_iff_getElem?.mp member
      by_cases same : run.awaited = index
      · rw [same, List.getElem?_set_self (same ▸ inside)] at found
        cases found
        exact gone
      · rw [List.getElem?_set_ne same] at found
        exact others index (Ne.symm same) sibling found
  · cases taken

private theorem killsAll_iff (ran : runLabels (apply key) events (start key assignedRanks) = some run) :
    KillsAll key assignedRanks events ↔ LoneAtKill key assignedRanks events := by
  constructor
  · intro all before after halted split reached
    rw [split, runLabels_append, reached, Option.bind_some, runLabels_cons] at ran
    obtain ⟨stopped, taken, _⟩ := Option.bind_eq_some_iff.mp ran
    refine (kill_noneRuns_iff taken).mp (all before after stopped split ?_)
    rw [runLabels_append, reached, Option.bind_some, runLabels_cons, taken]
    rfl
  · intro lone before after stopped split reached
    rw [runLabels_append] at reached
    obtain ⟨halted, reached, taken⟩ := Option.bind_eq_some_iff.mp reached
    rw [runLabels_cons] at taken
    obtain ⟨next, taken, same⟩ := Option.bind_eq_some_iff.mp taken
    cases same
    exact (kill_noneRuns_iff taken).mpr (lone before after halted split reached)

/-- StepDone tells the truth about success if and only if no rank failed to start, or the
signal or a started rank makes the step a failure; and the kill signal ends all ranks if and
only if one at most still runs. -/
theorem step_outcome_iff (ran : runLabels (apply key) events (start key assignedRanks) = some run) :
    (∀ code, .stepDone key code ∈ run.sent → ((code = 0 → run.AllSucceeded assignedRanks) ↔
      run.unspawned = [] ∨ .kill ∈ events ∨ ∃ child ∈ run.children, child.process ≠ .exited (some 0))) ∧
    (KillsAll key assignedRanks events ↔ LoneAtKill key assignedRanks events) := by
  refine ⟨fun code reported => ?_, killsAll_iff ran⟩
  have valid := valid_run ran
  have killed : run.killTriggered = true ↔ .kill ∈ events := by
    rw [killTriggered_run ran]
    simp [start]
  have failed : (∃ child ∈ run.children, child.process ≠ .exited (some 0)) ↔
      ¬ ∀ child ∈ run.children, child.process = .exited (some 0) := by simp
  rw [valid.code_zero_iff reported, AllSucceeded, valid.listed_iff (valid.reported key code reported).2.1, ← killed,
    failed]
  cases run.killTriggered with
  | true => simp
  | false =>
    rw [and_iff_right rfl, or_iff_right Bool.false_ne_true]
    tauto

end Report

section Sample

def cleanEvents : List RankEvent :=
  [.spawn .spawned, .spawn .spawned, .start, .exit 1 (some 0), .exit 0 (some 0), .wait, .wait, .report]

theorem step_outcome_iff_clean : ∃ run, runLabels (apply (7, 0)) cleanEvents (start (7, 0) [0, 1]) = some run ∧
    (∀ code, .stepDone (7, 0) code ∈ run.sent → ((code = 0 → run.AllSucceeded [0, 1]) ↔
      run.unspawned = [] ∨ .kill ∈ cleanEvents ∨ ∃ child ∈ run.children, child.process ≠ .exited (some 0))) ∧
    (KillsAll (7, 0) [0, 1] cleanEvents ↔ LoneAtKill (7, 0) [0, 1] cleanEvents) := by
  obtain ⟨run, ran⟩ : ∃ run, runLabels (apply (7, 0)) cleanEvents (start (7, 0) [0, 1]) = some run := ⟨_, rfl⟩
  exact ⟨run, ran, step_outcome_iff ran⟩

/-- A step is done with code 0 without its second rank, and of two ranks one outlives the kill. -/
theorem step_outcome_broken :
    (∃ run, runLabels (apply (7, 0)) [.spawn .spawned, .spawn .unspawned, .start, .exit 0 (some 0), .wait, .report]
        (start (7, 0) [0, 1]) = some run ∧
      .stepDone (7, 0) 0 ∈ run.sent ∧ ¬ run.AllSucceeded [0, 1]) ∧
    (∃ run, runLabels (apply (7, 0)) [.spawn .spawned, .spawn .spawned, .start, .signal, .kill]
        (start (7, 0) [0, 1]) = some run ∧ run.killTriggered = true ∧ ¬ run.NoneRuns) := by
  refine ⟨⟨_, rfl, ?_, fun all => ?_⟩, ⟨_, rfl, rfl, fun none => ?_⟩⟩
  · exact List.mem_of_getElem? (i := 2) rfl
  · exact absurd (congrArg List.length all.1) (by decide : ¬ 1 = 2)
  · exact none _ (List.mem_of_getElem? (i := 1) rfl) rfl

end Sample

end RankRun

end Veloce
