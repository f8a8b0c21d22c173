import Veloce.Handlers.JobLists

/-! `veloce submit --array ... --wait`: the jobs are listed once in a second, until the tasks of
the array have ended as far as the list tells. -/

namespace Veloce

open Collections

/-- What answers a request for the list. -/
inductive ListReply where
  | jobList (jobs : List JobInfo)
  | error (message : String)
  | other

structure ArrayPoll where
  allDone : Bool := true
  hasErrors : Bool := false
  foundAny : Bool := false

namespace ArrayPoll

def see (poll : ArrayPoll) (baseJobId : JobId) (job : JobInfo) : ArrayPoll :=
  if job.arrayId = some baseJobId then
    match job.status with
    | .pending | .running => { poll with foundAny := true, allDone := false }
    | .failed _ | .killed => { poll with foundAny := true, hasErrors := true }
    | .completed _ => { poll with foundAny := true }
  else poll

/-- The exit code, or `none` to look again. -/
def exitCode (poll : ArrayPoll) : Option Nat :=
  if !poll.foundAny then some (if poll.hasErrors then 1 else 0)
  else if poll.allDone then some (if poll.hasErrors then 1 else 0)
  else none

end ArrayPoll

/-- One turn of the loop. An error ends the loop, and with it the program without an error; a
closed connection is no error either. -/
def pollArray (baseJobId : JobId) : Option ListReply → Option Nat
  | some (.jobList jobs) => (jobs.foldl (·.see baseJobId) {} : ArrayPoll).exitCode
  | some (.error _) => some 0
  | some .other | none => ({} : ArrayPoll).exitCode

/-- An end that the loop takes for an error. -/
def JobStatus.faulty : JobStatus → Bool
  | .failed _ | .killed => true
  | _ => false

/-- An array, and what the controller and its accounting store have at each poll. -/
structure ArrayPolls where
  baseJobId : JobId
  taskCount : Nat
  caller : Caller
  jobs : Nat → HashMap JobId JobInfo
  history : Nat → List JobUsage

namespace ArrayPolls

variable (polls : ArrayPolls)

def list (poll : Nat) : List JobInfo := handleListJobs (polls.jobs poll) (polls.history poll) polls.caller none

def Shows (poll : Nat) (jobId : JobId) (status : JobStatus) : Prop :=
  ∃ job ∈ polls.list poll, job.arrayId = some polls.baseJobId ∧ job.id = jobId ∧ job.status = status

def IsTask (jobId : JobId) : Prop := polls.baseJobId ≤ jobId ∧ jobId < polls.baseJobId + polls.taskCount

def reply (poll : Nat) : Option Nat := pollArray polls.baseJobId (some (.jobList (polls.list poll)))

def ExitsAt (poll code : Nat) : Prop := polls.reply poll = some code ∧ ∀ earlier < poll, polls.reply earlier = none

/-- Code 0 comes only after all tasks have ended, and exactly if all of them end as Completed(0). -/
def ReportsOutcome : Prop :=
  (∀ poll, polls.ExitsAt poll 0 → ∀ jobId, polls.IsTask jobId → ∃ status, status.terminal = true ∧ polls.Shows poll jobId status) ∧
    ((∃ poll, polls.ExitsAt poll 0) ↔ ∀ jobId, polls.IsTask jobId → ∃ poll, polls.Shows poll jobId (.completed 0))

/-- A task is listed that has not ended. -/
def Busy (poll : Nat) : Prop := ∃ jobId status, polls.Shows poll jobId status ∧ status.terminal = false

/-- A task is listed that has failed or was killed. -/
def Faulty (poll : Nat) : Prop := ∃ jobId status, polls.Shows poll jobId status ∧ status.faulty = true

end ArrayPolls

/-- The tasks of the array appear, run and end: each is listed from some poll on, with one
status, and stays as it is when it has ended. -/
structure ArrayCourse extends ArrayPolls where
  tasks : ∀ {poll jobId status}, toArrayPolls.Shows poll jobId status → toArrayPolls.IsTask jobId
  once : ∀ {poll jobId status status'}, toArrayPolls.Shows poll jobId status → toArrayPolls.Shows poll jobId status' →
    status = status'
  stays : ∀ {poll later jobId status}, toArrayPolls.Shows poll jobId status → poll ≤ later →
    ∃ status', toArrayPolls.Shows later jobId status'
  ended : ∀ {poll later jobId status}, toArrayPolls.Shows poll jobId status → status.terminal = true → poll ≤ later →
    toArrayPolls.Shows later jobId status

section Polls

variable {baseJobId : JobId} {jobs : List JobInfo} {polls : ArrayPolls} {poll : Nat}

theorem foldl_see (jobs : List JobInfo) (poll : ArrayPoll) : jobs.foldl (·.see baseJobId) poll =
    { allDone := poll.allDone && (jobs.filter (·.arrayId = some baseJobId)).all (·.status.terminal)
      hasErrors := poll.hasErrors || (jobs.filter (·.arrayId = some baseJobId)).any (·.status.faulty)
      foundAny := poll.foundAny || (jobs.filter (·.arrayId = some baseJobId)).any fun _ => true } := by
  induction jobs generalizing poll with
  | nil => simp
  | cons job rest ih =>
    rw [List.foldl_cons, ih, ArrayPoll.see]
    by_cases task : job.arrayId = some baseJobId
    · rw [if_pos task, List.filter_cons_of_pos (by simpa using task)]
      cases status : job.status <;> simp [status, JobStatus.terminal, JobStatus.faulty]
    · rw [if_neg task, List.filter_cons_of_neg (by simpa using task)]

theorem pollArray_jobList (jobs : List JobInfo) : pollArray baseJobId (some (.jobList jobs)) =
    if (jobs.filter (·.arrayId = some baseJobId)).all (·.status.terminal) then
      some (if (jobs.filter (·.arrayId = some baseJobId)).any (·.status.faulty) then 1 else 0)
    else none := by
  rw [pollArray, foldl_see]
  cases jobs.filter (·.arrayId = some baseJobId) with
  | nil => rfl
  | cons task rest => simp [ArrayPoll.exitCode]

theorem any_faulty_iff : ((polls.list poll).filter (·.arrayId = some polls.baseJobId)).any (·.status.faulty) = true ↔
    polls.Faulty poll := by
  simp only [List.any_eq_true, List.mem_filter, decide_eq_true_eq, ArrayPolls.Faulty, ArrayPolls.Shows]
  constructor
  · rintro ⟨job, ⟨listed, task⟩, faulty⟩
    exact ⟨job.id, job.status, ⟨job, listed, task, rfl, rfl⟩, faulty⟩
  · rintro ⟨_, _, ⟨job, listed, task, rfl, rfl⟩, faulty⟩
    exact ⟨job, ⟨listed, task⟩, faulty⟩

theorem all_terminal_iff : ((polls.list poll).filter (·.arrayId = some polls.baseJobId)).all (·.status.terminal) = true ↔
    ¬ polls.Busy poll := by
  simp only [List.all_eq_true, List.mem_filter, decide_eq_true_eq, ArrayPolls.Busy, ArrayPolls.Shows]
  constructor
  · rintro all ⟨_, _, ⟨job, listed, task, rfl, rfl⟩, waits⟩
    rw [all job ⟨listed, task⟩] at waits
    cases waits
  · rintro none job ⟨listed, task⟩
    exact Bool.not_eq_false _ ▸ fun waits => none ⟨job.id, job.status, ⟨job, listed, task, rfl, rfl⟩, waits⟩

theorem reply_eq_none_iff : polls.reply poll = none ↔ polls.Busy poll := by
  rw [ArrayPolls.reply, pollArray_jobList]
  split
  · rename_i all
    exact iff_of_false nofun (all_terminal_iff.mp all)
  · rename_i waits
    exact iff_of_true rfl (Classical.not_not.mp fun free => waits (all_terminal_iff.mpr free))

theorem reply_eq_zero_iff : polls.reply poll = some 0 ↔ ¬ polls.Busy poll ∧ ¬ polls.Faulty poll := by
  rw [ArrayPolls.reply, pollArray_jobList, ← any_faulty_iff, ← all_terminal_iff]
  split
  · rename_i all
    split
    · rename_i faulty
      simp [faulty]
    · rename_i right
      simp [all, right]
  · rename_i waits
    simp [waits]

theorem exitsAt_zero_iff : polls.ExitsAt poll 0 ↔
    (∀ earlier < poll, polls.Busy earlier) ∧ ¬ polls.Busy poll ∧ ¬ polls.Faulty poll := by
  rw [ArrayPolls.ExitsAt, reply_eq_zero_iff, and_comm]
  exact and_congr_left fun _ => forall₂_congr fun earlier _ => reply_eq_none_iff

end Polls

section Courses

variable {course : ArrayCourse} {poll : Nat}

/-- Tasks that all end as Completed(0) are all listed so at some poll. -/
theorem ArrayCourse.all_completed
    (completed : ∀ jobId, course.IsTask jobId → ∃ poll, course.Shows poll jobId (.completed 0)) :
    ∃ poll, ∀ jobId, course.IsTask jobId → course.Shows poll jobId (.completed 0) := by
  have first (count : Nat) (bound : count ≤ course.taskCount) :
      ∃ poll, ∀ offset < count, course.Shows poll (course.baseJobId + offset) (.completed 0) := by
    induction count with
    | zero => exact ⟨0, nofun⟩
    | succ count ih =>
      obtain ⟨poll, before⟩ := ih (Nat.le_of_succ_le bound)
      obtain ⟨poll', last⟩ := completed (course.baseJobId + count) ⟨Nat.le_add_right .., Nat.add_lt_add_left bound _⟩
      refine ⟨max poll poll', fun offset inside => ?_⟩
      rcases Nat.lt_succ_iff_lt_or_eq.mp inside with earlier | rfl
      · exact course.ended (before offset earlier) rfl (Nat.le_max_left ..)
      · exact course.ended last rfl (Nat.le_max_right ..)
  obtain ⟨poll, all⟩ := first course.taskCount (Nat.le_refl _)
  refine ⟨poll, fun jobId ⟨low, high⟩ => ?_⟩
  obtain ⟨offset, rfl⟩ := Nat.exists_eq_add_of_le low
  exact all offset (Nat.lt_of_add_lt_add_left high)

/-- The outcome is reported if and only if the first list that has no waiting task has all
tasks as Completed(0), unless it has one that failed or was killed. -/
theorem ArrayCourse.reportsOutcome_iff (course : ArrayCourse) : course.ReportsOutcome ↔
    ∀ poll, (∀ earlier < poll, course.Busy earlier) → ¬ course.Busy poll → ¬ course.Faulty poll →
      ∀ jobId, course.IsTask jobId → course.Shows poll jobId (.completed 0) := by
  constructor
  · rintro ⟨after, exact⟩ poll busy free right jobId task
    have exits : course.ExitsAt poll 0 := exitsAt_zero_iff.mpr ⟨busy, free, right⟩
    obtain ⟨status, terminal, shown⟩ := after poll exits jobId task
    obtain ⟨poll', completed⟩ := exact.mp ⟨poll, exits⟩ jobId task
    have here := course.ended shown terminal (Nat.le_max_left poll poll')
    have there := course.ended completed rfl (Nat.le_max_right poll poll')
    exact course.once here there ▸ shown
  · intro settled
    refine ⟨fun poll exits jobId task => ?_, fun ⟨poll, exits⟩ jobId task => ?_, fun completed => ?_⟩
    · obtain ⟨busy, free, right⟩ := exitsAt_zero_iff.mp exits
      exact ⟨_, rfl, settled poll busy free right jobId task⟩
    · obtain ⟨busy, free, right⟩ := exitsAt_zero_iff.mp exits
      exact ⟨poll, settled poll busy free right jobId task⟩
    · obtain ⟨last, all⟩ := course.all_completed completed
      have free : ¬ course.Busy last := by
        rintro ⟨jobId, status, shown, waits⟩
        rw [course.once shown (all jobId (course.tasks shown))] at waits
        cases waits
      classical
      have some : ∃ poll, ¬ course.Busy poll := ⟨last, free⟩
      refine ⟨Nat.find some, exitsAt_zero_iff.mpr ⟨fun earlier before => ?_, Nat.find_spec some, ?_⟩⟩
      · exact Classical.not_not.mp (Nat.find_min some before)
      · rintro ⟨jobId, status, shown, faulty⟩
        have terminal : status.terminal = true := by cases status <;> first | rfl | cases faulty
        have same := course.once (course.ended shown terminal (Nat.find_min' some free)) (all jobId (course.tasks shown))
        rw [same] at faulty
        cases faulty

def failedTask : JobInfo where
  id := 1
  binary := "false"
  status := .completed 3
  arrayId := some 1
  arrayTaskId := some 0
  reqNodes := 1
  reqCores := 1
  reqMemory := 100
  userId := "ada"

def failedArray : ArrayPolls where
  baseJobId := 1
  taskCount := 1
  caller := ⟨"ada", ["submitter"]⟩
  jobs _ := ∅
  history _ := [jobToUsage failedTask]

theorem failedArray_shows {poll : Nat} {jobId : JobId} {status : JobStatus} :
    failedArray.Shows poll jobId status ↔ jobId = 1 ∧ status = .completed 3 := by
  have list : failedArray.list poll = [(jobToUsage failedTask).listed] := rfl
  simp only [ArrayPolls.Shows, list, List.exists_mem_cons_iff, List.not_mem_nil, false_and, exists_false, or_false]
  constructor
  · rintro ⟨_, rfl, rfl⟩
    exact ⟨rfl, rfl⟩
  · rintro ⟨rfl, rfl⟩
    exact ⟨rfl, rfl, rfl⟩

def failedCourse : ArrayCourse where
  toArrayPolls := failedArray
  tasks shown := by
    obtain ⟨rfl, _⟩ := failedArray_shows.mp shown
    exact ⟨Nat.le_refl _, Nat.lt_succ_self _⟩
  once shown shown' := (failedArray_shows.mp shown).2.trans (failedArray_shows.mp shown').2.symm
  stays shown _ := ⟨_, failedArray_shows.mpr ⟨(failedArray_shows.mp shown).1, rfl⟩⟩
  ended shown _ _ := failedArray_shows.mpr (failedArray_shows.mp shown)

/-- The array of a failing task is waited for with the exit code 0. -/
theorem failed_array_succeeds : ¬ failedCourse.ReportsOutcome := by
  rintro ⟨_, exact⟩
  have exits : failedCourse.ExitsAt 0 0 := ⟨rfl, nofun⟩
  obtain ⟨poll, shown⟩ := exact.mp ⟨0, exits⟩ 1 ⟨Nat.le_refl _, Nat.lt_succ_self _⟩
  have code := (failedArray_shows.mp shown).2
  exact absurd code (by decide)

end Courses

end Veloce
