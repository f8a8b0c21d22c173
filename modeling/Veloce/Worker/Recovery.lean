import Mathlib.Data.List.Infix
import Veloce.Worker.JobFile

/-! The recovery of a persisted job. A new connection finds the records of the jobs whose process
was running, and monitors each process from outside until it is gone, is killed, or has used up
its walltime. Times are in seconds. -/

namespace Veloce

open Collections

inductive KillSignal where
  | cancel
  | preempt
deriving DecidableEq

inductive Completion where
  | jobDone (jobId : JobId) (exitCode : Int)
  | jobError (jobId : JobId) (error : String)
  | jobKilled (jobId : JobId)
deriving DecidableEq

/-- What a recovery finds and what happens after it: the command lines of the processes, the time
from which on the process group is gone unless it is killed, and the signal for the job. A
sender that was dropped counts as a cancellation. -/
structure Surroundings where
  commands : Nat → Option (List String)
  gone : Option Nat
  signal : Option (Nat × KillSignal)

structure GroupSignal where
  time : Nat
  group : Nat
  /-- SIGKILL, and not SIGTERM. -/
  hard : Bool
deriving DecidableEq

inductive RecoveryBranch where
  | killed
  | walltime
  | terminated
deriving DecidableEq

structure Recovered where
  messages : List Completion := []
  kill : Option GroupSignal := none
  /-- The process is in the table for the heartbeats until then. -/
  tracked : Option Nat := none
deriving DecidableEq

namespace PersistedJob

variable (job : PersistedJob)

/-- The check on the time since the submission. -/
def expired (now : Nat) : Bool :=
  0 < job.walltime && job.submissionTime ≤ now && job.walltime < now - job.submissionTime

def textContains (text part : String) : Bool := part.toList <:+: text.toList

def isOwn : Option (List String) → Bool
  | none | some [] => false
  | some (first :: rest) =>
    let cmdJoined := String.intercalate " " (first :: rest)
    let expectedCmd := job.binary ++ " " ++ String.intercalate " " job.args
    textContains first job.binary || textContains cmdJoined expectedCmd

def group : Nat := if job.pgid ≠ 0 then job.pgid else job.pid

/-- A job without a walltime gets a hundred years. -/
def walltimeDuration : Nat := if 0 < job.walltime then job.walltime else 365 * 24 * 3600 * 100

/-- When the monitor finds that the group is gone; it looks every five seconds. -/
def noticed (now gone : Nat) : Nat := now + 5 * ((gone - now + 4) / 5)

def ready (now : Nat) (around : Surroundings) : RecoveryBranch → Option Nat
  | .killed => around.signal.map Prod.fst
  | .walltime => some (now + job.walltimeDuration)
  | .terminated => around.gone.map (noticed now)

/-- The branch that is taken is one of those that are ready first. -/
def Taken (now : Nat) (around : Surroundings) (branch : RecoveryBranch) (time : Nat) : Prop :=
  job.ready now around branch = some time ∧ ∀ other, ∀ later ∈ job.ready now around other, time ≤ later

/-- What a recovery at some time does if it takes a branch of the `select!` at another time. -/
def recoverAndMonitorJob (now : Nat) (around : Surroundings) (branch : RecoveryBranch) (time : Nat) : Recovered :=
  if job.expired now then {}
  else if job.isOwn (around.commands job.pid) = false then
    { messages := [.jobError job.jobId "Job process not found or PID reused after restart."] }
  else
    match branch with
    | .killed =>
      let hard := (around.signal.map Prod.snd).getD .cancel = .cancel
      { messages := [.jobDone job.jobId (-9)], kill := some { time, group := job.group, hard }, tracked := some time }
    | .walltime =>
      { messages := [.jobError job.jobId "Walltime exceeded"], kill := some { time, group := job.group, hard := true }
        tracked := some time }
    | .terminated => { messages := [.jobDone job.jobId (-100)], tracked := some time }

end PersistedJob

namespace Recovered

/-- The process group is gone at some time, by itself or by a SIGKILL. -/
def OverBy (around : Surroundings) (recovered : Recovered) (time : Nat) : Prop :=
  (∃ gone ∈ around.gone, gone ≤ time) ∨ ∃ kill ∈ recovered.kill, kill.hard = true ∧ kill.time ≤ time

/-- The job is reported once, is killed for its walltime only when the process has had it, and
has ended by then. -/
structure KeepsWalltime (job : PersistedJob) (start : Nat) (around : Surroundings) (branch : RecoveryBranch)
    (recovered : Recovered) : Prop where
  reported : ∃ completion, recovered.messages = [completion]
  notEarly : ∀ kill ∈ recovered.kill, branch = .walltime → 0 < job.walltime ∧ start + job.walltime ≤ kill.time
  notLate : 0 < job.walltime → recovered.OverBy around (start + job.walltime)

end Recovered

def Surroundings.Signalled (around : Surroundings) (kind : KillSignal) (time : Nat) : Prop :=
  ∃ signal ∈ around.signal, signal.2 = kind ∧ signal.1 ≤ time

/-- The process group is gone by itself by the time. -/
def Surroundings.GoneBy (around : Surroundings) (time : Nat) : Prop := ∃ gone ∈ around.gone, gone ≤ time

/-- A job without a walltime is over or signalled within a hundred years. A job with one has
not been submitted longer ago than that, and its process is over by the end of its walltime by
itself, or is found again and cancelled by then, or is recovered when it starts and is not
preempted by then. -/
def PersistedJob.InTime (job : PersistedJob) (start now : Nat) (around : Surroundings) : Prop :=
  if job.walltime = 0 then
    job.isOwn (around.commands job.pid) = true →
      (∃ gone ∈ around.gone, PersistedJob.noticed now gone < now + job.walltimeDuration) ∨
        ∃ signal ∈ around.signal, signal.1 < now + job.walltimeDuration
  else job.expired now = false ∧ (around.GoneBy (start + job.walltime) ∨
    job.isOwn (around.commands job.pid) = true ∧ (around.Signalled .cancel (start + job.walltime) ∨
      now = start ∧ ¬ around.Signalled .preempt (start + job.walltime)))

section Walltime

variable {job : PersistedJob} {start now time : Nat} {around : Surroundings} {branch : RecoveryBranch}

theorem PersistedJob.gone_le_noticed (now gone : Nat) : gone ≤ PersistedJob.noticed now gone := by
  unfold PersistedJob.noticed
  omega

theorem PersistedJob.Taken.due (limited : 0 < job.walltime) (taken : job.Taken now around .walltime time) :
    now + job.walltime = time := by
  have due := taken.1
  rw [PersistedJob.ready, PersistedJob.walltimeDuration, if_pos limited] at due
  exact Option.some.inj due

/-- The timer runs, so there is a first branch. -/
theorem PersistedJob.exists_taken (job : PersistedJob) (now : Nat) (around : Surroundings) :
    ∃ branch time, job.Taken now around branch time := by
  have ready : ∃ time branch, job.ready now around branch = some time := ⟨_, .walltime, rfl⟩
  classical
  obtain ⟨branch, found⟩ := Nat.find_spec ready
  exact ⟨branch, _, found, fun other later listed => Nat.find_min' ready ⟨other, listed⟩⟩

/-- A job without a walltime is kept unless its hundred years are over. -/
theorem keepsWalltime_unlimited (unlimited : job.walltime = 0) (inTime : job.InTime start now around)
    (taken : job.Taken now around branch time) :
    (job.recoverAndMonitorJob now around branch time).KeepsWalltime job start around branch := by
  have current : job.expired now = false := by simp [PersistedJob.expired, unlimited]
  rw [PersistedJob.InTime, if_pos unlimited] at inTime
  unfold PersistedJob.recoverAndMonitorJob
  rw [if_neg (by simp [current])]
  split
  · exact ⟨⟨_, rfl⟩, fun _ sent => (by cases sent), fun limited => by omega⟩
  · rename_i own
    rw [Bool.not_eq_false] at own
    cases branch with
    | killed => exact ⟨⟨_, rfl⟩, fun _ _ other => (by cases other), fun limited => by omega⟩
    | terminated => exact ⟨⟨_, rfl⟩, fun _ _ other => (by cases other), fun limited => by omega⟩
    | walltime =>
      obtain ⟨due, first⟩ := taken
      cases due
      rcases inTime own with ⟨gone, listed, before⟩ | ⟨signal, listed, before⟩
      · have later := first .terminated _ (Option.map_eq_some_iff.mpr ⟨gone, listed, rfl⟩)
        omega
      · have later := first .killed _ (Option.map_eq_some_iff.mpr ⟨signal, listed, rfl⟩)
        omega

theorem overBy_of_inTime (limited : 0 < job.walltime) (current : job.expired now = false)
    (own : job.isOwn (around.commands job.pid) = true)
    (unfinished : ¬ around.GoneBy (start + job.walltime))
    (helped : around.Signalled .cancel (start + job.walltime) ∨
      now = start ∧ ¬ around.Signalled .preempt (start + job.walltime))
    (taken : job.Taken now around branch time) :
    (job.recoverAndMonitorJob now around branch time).OverBy around (start + job.walltime) := by
  obtain ⟨due, first⟩ := taken
  -- Whatever helps is ready by the end of the walltime, so the first branch is.
  have early : time ≤ start + job.walltime := by
    rcases helped with ⟨signal, listed, _, inTime⟩ | ⟨same, _⟩
    · exact (first .killed _ (Option.map_eq_some_iff.mpr ⟨signal, listed, rfl⟩)).trans inTime
    · have timer := first .walltime _ rfl
      rw [PersistedJob.walltimeDuration, if_pos limited] at timer
      omega
  unfold PersistedJob.recoverAndMonitorJob
  rw [if_neg (by simp [current]), if_neg (by simp [own])]
  cases branch with
  | killed =>
    obtain ⟨⟨_, kind⟩, listed, rfl⟩ := Option.map_eq_some_iff.mp due
    refine .inr ⟨_, rfl, ?_, early⟩
    rcases helped with ⟨signal, listed', cancelled, _⟩ | ⟨_, unharmed⟩
    · cases Option.some.inj (listed.symm.trans listed')
      simpa [listed] using cancelled
    · cases kind with
      | cancel => simp [listed]
      | preempt => exact absurd ⟨_, listed, rfl, early⟩ unharmed
  | walltime => exact .inr ⟨_, rfl, rfl, early⟩
  | terminated =>
    obtain ⟨gone, listed, rfl⟩ := Option.map_eq_some_iff.mp due
    exact absurd ⟨gone, listed, (PersistedJob.gone_le_noticed now gone).trans early⟩ unfinished

theorem keepsWalltime_limited (limited : 0 < job.walltime) (started : start ≤ now) (inTime : job.InTime start now around)
    (taken : job.Taken now around branch time) :
    (job.recoverAndMonitorJob now around branch time).KeepsWalltime job start around branch := by
  rw [PersistedJob.InTime, if_neg (Nat.pos_iff_ne_zero.mp limited)] at inTime
  obtain ⟨current, ends⟩ := inTime
  refine ⟨?_, fun kill sent timer => ⟨limited, ?_⟩, fun _ => ?_⟩
  · unfold PersistedJob.recoverAndMonitorJob
    rw [if_neg (by simp [current])]
    split
    · exact ⟨_, rfl⟩
    · cases branch <;> exact ⟨_, rfl⟩
  · subst timer
    have due := taken.due limited
    unfold PersistedJob.recoverAndMonitorJob at sent
    rw [if_neg (by simp [current])] at sent
    split at sent
    · cases sent
    · cases sent
      simp only
      omega
  · by_cases finished : around.GoneBy (start + job.walltime)
    · exact .inl finished
    · obtain ⟨own, helped⟩ := ends.resolve_left finished
      exact overBy_of_inTime limited current own finished helped taken

section Needed

variable (kept : ∀ branch time, job.Taken now around branch time →
  (job.recoverAndMonitorJob now around branch time).KeepsWalltime job start around branch)

include kept

theorem early_of_kept (unlimited : job.walltime = 0) (own : job.isOwn (around.commands job.pid) = true) :
    (∃ gone ∈ around.gone, PersistedJob.noticed now gone < now + job.walltimeDuration) ∨
      ∃ signal ∈ around.signal, signal.1 < now + job.walltimeDuration := by
  by_contra never
  obtain ⟨unnoticed, unsignalled⟩ := not_or.mp never
  have timer : job.Taken now around .walltime (now + job.walltimeDuration) := by
    refine ⟨rfl, fun other later listed => ?_⟩
    cases other with
    | walltime => exact Nat.le_of_eq (Option.some.inj listed)
    | killed =>
      obtain ⟨signal, present, rfl⟩ := Option.map_eq_some_iff.mp listed
      exact Nat.not_lt.mp fun before => unsignalled ⟨signal, present, before⟩
    | terminated =>
      obtain ⟨gone, present, rfl⟩ := Option.map_eq_some_iff.mp listed
      exact Nat.not_lt.mp fun before => unnoticed ⟨gone, present, before⟩
  have early := (kept _ _ timer).notEarly
  have current : job.expired now = false := by simp [PersistedJob.expired, unlimited]
  simp only [PersistedJob.recoverAndMonitorJob, current, own] at early
  have limited := (early _ rfl trivial).1
  omega

/-- A process that goes on and is not cancelled is stopped by the timer only. -/
theorem timer_of_kept (limited : 0 < job.walltime) (current : job.expired now = false)
    (own : job.isOwn (around.commands job.pid) = true) (unfinished : ¬ around.GoneBy (start + job.walltime))
    (uncancelled : ¬ around.Signalled .cancel (start + job.walltime)) (taken : job.Taken now around branch time) :
    branch = .walltime ∧ time ≤ start + job.walltime := by
  obtain ⟨kill, sent, hard, early⟩ := ((kept branch time taken).notLate limited).resolve_left unfinished
  unfold PersistedJob.recoverAndMonitorJob at sent
  rw [if_neg (by simp [current]), if_neg (by simp [own])] at sent
  cases branch with
  | walltime =>
    cases sent
    exact ⟨rfl, early⟩
  | terminated => cases sent
  | killed =>
    obtain ⟨⟨_, kind⟩, listed, rfl⟩ := Option.map_eq_some_iff.mp taken.1
    cases sent
    exact absurd ⟨_, listed, by simpa [listed] using hard, early⟩ uncancelled

/-- A job that is kept whatever is ready first is in time. -/
theorem inTime_of_keepsWalltime (started : start ≤ now) : job.InTime start now around := by
  obtain ⟨branch, time, taken⟩ := job.exists_taken now around
  unfold PersistedJob.InTime
  split
  · rename_i unlimited
    exact early_of_kept kept unlimited
  · rename_i limited
    have limited : 0 < job.walltime := Nat.pos_of_ne_zero limited
    obtain ⟨⟨completion, reported⟩, _, ends⟩ := kept branch time taken
    have current : job.expired now = false := by
      by_contra late
      rw [Bool.not_eq_false] at late
      simp [PersistedJob.recoverAndMonitorJob, late] at reported
    refine ⟨current, or_iff_not_imp_left.mpr fun unfinished => ?_⟩
    have own : job.isOwn (around.commands job.pid) = true := by
      by_contra other
      rw [Bool.not_eq_true] at other
      have killed := (ends limited).resolve_left unfinished
      simp [PersistedJob.recoverAndMonitorJob, current, other] at killed
    refine ⟨own, or_iff_not_imp_left.mpr fun uncancelled => ?_⟩
    obtain ⟨rfl, early⟩ := timer_of_kept kept limited current own unfinished uncancelled taken
    have due := taken.due limited
    refine ⟨by omega, fun ⟨signal, listed, _, inTime⟩ => ?_⟩
    -- The signal is ready by the end of the walltime, and the process is not gone by then.
    have preempted : job.Taken now around .killed signal.1 := by
      refine ⟨Option.map_eq_some_iff.mpr ⟨signal, listed, rfl⟩, fun other later ready => ?_⟩
      cases other with
      | killed =>
        obtain ⟨signal', listed', rfl⟩ := Option.map_eq_some_iff.mp ready
        cases Option.some.inj ((Option.mem_def.mp listed).symm.trans listed')
        exact Nat.le_refl _
      | walltime =>
        have later := taken.2 .walltime later ready
        omega
      | terminated =>
        obtain ⟨gone, present, rfl⟩ := Option.map_eq_some_iff.mp ready
        have noticed := PersistedJob.gone_le_noticed now gone
        have late : start + job.walltime < gone := Nat.not_le.mp fun before => unfinished ⟨gone, present, before⟩
        omega
    cases (timer_of_kept kept limited current own unfinished uncancelled preempted).1

end Needed

/-- Whenever a job is recovered after the start of its process: it is reported once, killed for
its walltime only when the process has had it, and over by then, exactly if it is in time. -/
theorem recovered_job_keeps_walltime_iff (started : start ≤ now) :
    (∀ branch time, job.Taken now around branch time →
      (job.recoverAndMonitorJob now around branch time).KeepsWalltime job start around branch) ↔
    job.InTime start now around := by
  refine ⟨fun kept => inTime_of_keepsWalltime kept started, fun inTime branch time taken => ?_⟩
  rcases Nat.eq_zero_or_pos job.walltime with unlimited | limited
  · exact keepsWalltime_unlimited unlimited inTime taken
  · exact keepsWalltime_limited limited started inTime taken

end Walltime

def hourJob : PersistedJob := { samplePersisted 1 with walltime := 3600 }

def runsUntil (gone : Option Nat) : Surroundings where
  commands pid := if pid = 100 then some ["sh"] else none
  gone := gone
  signal := none

/-- The process ends half an hour after the recovery. -/
theorem recovered_job_keeps_walltime_iff_short_job :
    hourJob.Taken 200 (runsUntil (some 2000)) .terminated 2000 ∧
    (hourJob.recoverAndMonitorJob 200 (runsUntil (some 2000)) .terminated 2000).KeepsWalltime hourJob 100
      (runsUntil (some 2000)) .terminated := by
  have first : hourJob.Taken 200 (runsUntil (some 2000)) .terminated 2000 := by
    refine ⟨rfl, fun other later ready => ?_⟩
    cases other with
    | killed => cases ready
    | walltime => cases ready; decide
    | terminated => cases ready; decide
  refine ⟨first, (recovered_job_keeps_walltime_iff (by decide)).mpr ?_ .terminated 2000 first⟩
  exact ⟨by decide, .inl ⟨2000, rfl, by decide⟩⟩

/-- A job that waited for more than an hour is forgotten ten seconds after the start of its
process, which goes on for ever. A job that is recovered after half an hour is killed half an
hour late. -/
theorem recovered_job_forgotten_or_late :
    (hourJob.Taken 4010 (runsUntil none) .walltime 7610 ∧
      hourJob.recoverAndMonitorJob 4010 (runsUntil none) .walltime 7610 = {} ∧
      ¬ (hourJob.recoverAndMonitorJob 4010 (runsUntil none) .walltime 7610).KeepsWalltime hourJob 4000 (runsUntil none)
        .walltime) ∧
    hourJob.Taken 1900 (runsUntil none) .walltime 5500 ∧
      (hourJob.recoverAndMonitorJob 1900 (runsUntil none) .walltime 5500).kill =
        some { time := 5500, group := 100, hard := true } ∧
      ¬ (hourJob.recoverAndMonitorJob 1900 (runsUntil none) .walltime 5500).KeepsWalltime hourJob 100 (runsUntil none)
        .walltime := by
  have timer (now : Nat) : hourJob.Taken now (runsUntil none) .walltime (now + 3600) := by
    refine ⟨rfl, fun other later ready => ?_⟩
    cases other with
    | killed => cases ready
    | walltime => cases ready; exact Nat.le_refl _
    | terminated => cases ready
  have forgotten : hourJob.recoverAndMonitorJob 4010 (runsUntil none) .walltime 7610 = {} := by decide +kernel
  have late : (hourJob.recoverAndMonitorJob 1900 (runsUntil none) .walltime 5500).kill =
      some { time := 5500, group := 100, hard := true } := by decide +kernel
  refine ⟨⟨timer 4010, forgotten, fun kept => ?_⟩, timer 1900, late, fun kept => ?_⟩
  · obtain ⟨completion, reported⟩ := kept.reported
    rw [forgotten] at reported
    cases reported
  · rcases kept.notLate (by decide) with ⟨gone, listed, _⟩ | ⟨kill, sent, _, early⟩
    · cases listed
    · rw [late] at sent
      cases sent
      exact absurd early (by decide)

end Veloce
