import Veloce.Collections.JoinedWords
import Veloce.Handlers.JobLists
import Veloce.Handlers.Submission

/-! `veloce jobs resubmit`: a job is submitted once more from what the controller tells of it,
which is its record, or a row of the history. -/

namespace Veloce

open Collections Collections.ShellWords

/-- What the command line of the caller overrides. -/
structure ResubmitOptions where
  jobName : Option String := none
  jobComment : Option String := none
  userId : Option String := none

def parseHistoryCommandLine (split : String → Option (List String)) (commandLine : String) :
    Except String (String × List String) :=
  match split commandLine with
  | none => .error ("Failed to parse historical command line: " ++ commandLine)
  | some [] => .error "Historical job has an empty command line"
  | some (binary :: args) => .ok (binary, args)

def ResubmitOptions.repeatActive (options : ResubmitOptions) (job : JobInfo) : SubmitMessage where
  jobName := options.jobName.or job.jobName
  jobComment := options.jobComment.or job.jobComment
  binary := job.binary
  args := job.args
  reqNodes := job.reqNodes
  reqCores := job.reqCores
  reqMemory := job.reqMemory
  walltime := job.walltime
  priority := job.priority
  userId := options.userId.getD job.userId
  workingDirectory := job.workingDirectory
  arrayIndices := none
  inputs := job.inputs
  gresReq := job.gresReq
  envVars := job.envVars
  waitForLicenses := job.waitForLicenses
  estimatedWalltime := job.estimatedWalltime
  priorityOffset := job.priorityOffset
  dependencies := job.dependencies
  dependencySpecs := job.dependencySpecs
  qos := job.qos
  imageUri := job.containerAsset.map (·.id)
  vncEnabled := job.vncEnabled
  inheritHostEnv := job.inheritHostEnv
  envAllowlist := job.envAllowlist
  jobProfile := job.jobProfile

def ResubmitOptions.repeatHistorical (options : ResubmitOptions) (historyJob : JobUsage) (binary : String)
    (args : List String) : SubmitMessage where
  jobName := options.jobName.or historyJob.jobName
  jobComment := options.jobComment.or historyJob.jobComment
  binary := binary
  args := args
  reqNodes := historyJob.reqNodes
  reqCores := historyJob.reqCores
  reqMemory := historyJob.reqMemory
  walltime := 0
  priority := 0
  userId := options.userId.getD historyJob.userId
  workingDirectory := "/scratch"
  arrayIndices := none
  gresReq := historyJob.gresReq
  waitForLicenses := historyJob.waitForLicenses
  estimatedWalltime := historyJob.estimatedWalltime
  priorityOffset := historyJob.priorityOffset
  dependencies := historyJob.dependencies
  dependencySpecs := historyJob.dependencySpecs
  qos := historyJob.qos
  imageUri := historyJob.containerAsset.map (·.id)

/-- The message that is sent, after the list of the jobs and, for a job that is not in it, the
history of the job. `split` is `shell_words::split`. -/
def resubmit (split : String → Option (List String)) (options : ResubmitOptions) (jobId : JobId) (jobList : List JobInfo)
    (jobHistory : Except String (List JobUsage)) : Except String SubmitMessage :=
  match jobList.find? (·.id = jobId) with
  | some job => .ok (options.repeatActive job)
  | none => do
    let history ← jobHistory.mapError ("Error fetching job history: " ++ ·)
    match history.getLast? with
    | none => .error s!"Job {jobId} not found in active jobs or history"
    | some historyJob =>
      let (binary, args) ← parseHistoryCommandLine split historyJob.commandLine
      .ok (options.repeatHistorical historyJob binary args)

/-- What the controller has of a finished job while it is resubmitted: the table and the answers
of the accounting store, first to the query of all jobs and then to the query of this one. The
command line of a row is made of the record, or by a worker whose report comes after the record is
gone. -/
structure FinishedJob where
  job : JobInfo
  finished : job.status.terminal = true
  jobs : HashMap JobId JobInfo
  keyed : ∀ jobId record, jobs.get? jobId = some record → record.id = jobId
  unchanged : ∀ record, jobs.get? job.id = some record →
    record.binary = job.binary ∧ record.args = job.args ∧ record.userId = job.userId
  history : List JobUsage
  single : List JobUsage
  asked : ∀ row ∈ single, row.jobId = job.id
  owned : ∀ row ∈ history ++ single, row.jobId = job.id → row.userId = job.userId
  caller : Caller
  visible : caller.isViewerOnly = true → job.userId = caller.clientId

/-- A message is sent, and it has the command of the job. -/
def FinishedJob.RepeatsCommand (done : FinishedJob) (split : String → Option (List String)) (options : ResubmitOptions) :
    Prop :=
  ∃ message, resubmit split options done.job.id (handleListJobs done.jobs done.history done.caller none)
      (handleGetJobHistory done.single done.caller) = .ok message ∧
    message.binary = done.job.binary ∧ message.args = done.job.args

section Resubmit

variable {split : String → Option (List String)} {options : ResubmitOptions} {done : FinishedJob}

theorem toList_commandLine (job : JobInfo) : (jobToUsage job).commandLine.toList =
    job.binary.toList ++ ' ' :: [' '].intercalate (job.args.map String.toList) := by
  rw [jobToUsage, String.toList_append, String.toList_append, String.toList_intercalate, List.append_assoc]
  rfl

theorem commandLine_ne_binary (job : JobInfo) : (jobToUsage job).commandLine ≠ job.binary := by
  intro same
  have chars := congrArg (fun line => line.toList.length) same
  rw [toList_commandLine, List.length_append, List.length_cons] at chars
  omega

theorem parseHistoryCommandLine_eq_ok_iff {line binary : String} {args : List String} :
    parseHistoryCommandLine split line = .ok (binary, args) ↔ split line = some (binary :: args) := by
  rw [parseHistoryCommandLine]
  split
  · rename_i unread
    simp [unread]
  · rename_i empty
    simp [empty]
  · rename_i first rest words
    simp [words]

/-- The command line is split into the command if and only if its words need no quotes, but for
a backslash at the end of the last argument. -/
theorem split_commandLine_iff (splits : WordSplitter (charwise split)) (job : JobInfo) :
    split (jobToUsage job).commandLine = some (job.binary :: job.args) ↔
      Dialect.splitting.Plain job.binary.toList ∧ Kept (job.args.map String.toList) := by
  rw [← splits.join_iff, charwise, ← toList_commandLine, String.ofList_toList, ← List.map_cons]
  exact (Option.map_injective (List.map_injective_iff.mpr fun _ _ => String.toList_injective)).eq_iff.symm

theorem FinishedJob.shown (done : FinishedJob) (present : ∃ record, done.jobs.get? done.job.id = some record) :
    ∃ record, done.jobs.get? done.job.id = some record ∧
      (handleListJobs done.jobs done.history done.caller none).find? (·.id = done.job.id) = some record := by
  obtain ⟨record, present⟩ := present
  have visible (viewer : done.caller.isViewerOnly = true) : record.userId = done.caller.clientId :=
    (done.unchanged record present).2.2.trans (done.visible viewer)
  have listed : record ∈ handleListJobs done.jobs done.history done.caller none :=
    mem_handleListJobs.mpr ⟨.inl ⟨_, present⟩, visible⟩
  cases found : (handleListJobs done.jobs done.history done.caller none).find? (·.id = done.job.id) with
  | none => simpa [done.keyed _ record present] using List.find?_eq_none.mp found record listed
  | some shown =>
    have same : shown.id = done.job.id := by simpa using List.find?_some found
    obtain ⟨⟨jobId, other⟩ | ⟨row, _, other, rfl⟩, _⟩ := mem_handleListJobs.mp (List.mem_of_find?_eq_some found)
    · exact ⟨shown, same ▸ (done.keyed jobId shown other).symm ▸ other, rfl⟩
    · exact absurd ((done.keyed _ record present).trans same.symm) (other _ record present)

theorem FinishedJob.listed (done : FinishedJob) (absent : ∀ record, done.jobs.get? done.job.id ≠ some record) :
    (handleListJobs done.jobs done.history done.caller none).find? (·.id = done.job.id) =
      (done.history.find? (·.jobId = done.job.id)).map JobUsage.listed := by
  have elsewhere (record : JobInfo) (member : record ∈ done.jobs.values) : record.id ≠ done.job.id := by
    obtain ⟨jobId, present⟩ := HashMap.mem_values.mp member
    intro same
    exact absent record (same ▸ (done.keyed jobId record present).symm ▸ present)
  have listed_id (row : JobUsage) : row.listed.id = row.jobId := rfl
  have listed_user (row : JobUsage) : row.listed.userId = row.userId := rfl
  rw [handleListJobs, List.find?_filter, List.find?_append, List.find?_map, List.find?_filter,
    Option.or_eq_right_of_none (List.find?_eq_none.mpr fun record member => by simp [elsewhere record member])]
  refine congrArg (Option.map JobUsage.listed) ?_
  rw [← List.head?_filter, ← List.head?_filter, List.filter_congr fun row member => ?_]
  by_cases own : row.jobId = done.job.id
  · have user := done.owned row (List.mem_append_left _ member) own
    have unlisted : done.job.id ∉ done.jobs.values.map (·.id) := by
      intro member
      obtain ⟨record, member, same⟩ := List.mem_map.mp member
      exact elsewhere record member same
    have visible : done.caller.isViewerOnly = false ∨ done.job.userId = done.caller.clientId := by
      cases viewer : done.caller.isViewerOnly
      · exact .inl rfl
      · exact .inr (done.visible viewer)
    simpa [own, unlisted, listed_id, listed_user, user] using visible
  · simp [listed_id, own]

theorem handleGetJobHistory_nil (caller : Caller) : handleGetJobHistory [] caller = .ok [] ∨
    handleGetJobHistory [] caller = .error "Permission denied: unauthorized operation" := by
  unfold handleGetJobHistory
  cases caller.isViewerOnly
  · exact .inl rfl
  · exact .inr rfl

theorem FinishedJob.history_eq (done : FinishedJob) (known : done.single ≠ []) :
    handleGetJobHistory done.single done.caller = .ok (done.single.map fun usage => { usage with secret := "" }) := by
  unfold handleGetJobHistory
  by_cases viewer : done.caller.isViewerOnly = true
  · have own : ∀ usage ∈ done.single.map fun usage => { usage with secret := "" }, decide (usage.userId = done.caller.clientId) = true := by
      rw [List.forall_mem_map]
      intro row member
      have user := done.owned row (List.mem_append_right _ member) (done.asked row member)
      exact decide_eq_true (user.trans (done.visible viewer))
    rw [if_pos viewer, List.filter_eq_self.mpr own, if_neg (by simp [known])]
  · rw [if_neg viewer]

/-- A resubmitted job has the command if and only if the table still has the job, or the first row
of the history that has it is the binary alone, or none has it and its own row is split into the
command. A row that is made of the record is never the binary, and is split into the command if and
only if its words need no quotes. -/
theorem FinishedJob.repeatsCommand_iff (splits : WordSplitter (charwise split)) (done : FinishedJob) (options : ResubmitOptions) :
    (done.RepeatsCommand split options ↔ (∃ record, done.jobs.get? done.job.id = some record) ∨
      (∃ row, done.history.find? (·.jobId = done.job.id) = some row ∧
        row.commandLine = done.job.binary ∧ done.job.args = []) ∨
      done.history.find? (·.jobId = done.job.id) = none ∧
        ∃ row, done.single.getLast? = some row ∧ split row.commandLine = some (done.job.binary :: done.job.args)) ∧
    ∀ row : JobUsage, row.commandLine = (jobToUsage done.job).commandLine → row.commandLine ≠ done.job.binary ∧
      (split row.commandLine = some (done.job.binary :: done.job.args) ↔
        Dialect.splitting.Plain done.job.binary.toList ∧ Kept (done.job.args.map String.toList)) := by
  refine ⟨?_, fun row line => line ▸ ⟨commandLine_ne_binary done.job, split_commandLine_iff splits done.job⟩⟩
  rw [RepeatsCommand]
  by_cases present : ∃ record, done.jobs.get? done.job.id = some record
  · obtain ⟨record, found, listed⟩ := done.shown present
    obtain ⟨binary, args, _⟩ := done.unchanged record found
    simp only [resubmit, listed, Except.ok.injEq, exists_eq_left', ResubmitOptions.repeatActive]
    exact iff_of_true ⟨binary, args⟩ (.inl present)
  rw [or_iff_right present]
  have listed := done.listed (not_exists.mp present)
  cases first : done.history.find? (·.jobId = done.job.id) with
  | some row =>
    rw [first, Option.map_some] at listed
    simp only [resubmit, listed, Except.ok.injEq, exists_eq_left', ResubmitOptions.repeatActive, JobUsage.listed,
      Option.some.injEq, reduceCtorEq, false_and, or_false]
    rw [eq_comm (a := [])]
  | none =>
    rw [first, Option.map_none] at listed
    simp only [reduceCtorEq, false_and, exists_false, false_or, true_and]
    cases last : done.single.getLast? with
    | none =>
      obtain empty := List.getLast?_eq_none_iff.mp last
      refine iff_of_false ?_ (by simp)
      rintro ⟨message, sent, _⟩
      rcases handleGetJobHistory_nil done.caller with answer | answer <;>
        simp [resubmit, listed, empty, answer, Except.mapError, bind, Except.bind] at sent
    | some row =>
      have known : done.single ≠ [] := by
        rintro empty
        simp [empty] at last
      have shown : (done.single.map fun usage => { usage with secret := "" }).getLast? = some { row with secret := "" } := by
        rw [List.getLast?_map, last, Option.map_some]
      simp only [resubmit, listed, done.history_eq known, Except.mapError, shown, bind, Except.bind, Option.some.injEq,
        exists_eq_left']
      rw [← parseHistoryCommandLine_eq_ok_iff]
      cases parseHistoryCommandLine split row.commandLine with
      | error message => simp
      | ok words => simp [ResubmitOptions.repeatHistorical, Prod.ext_iff]

def echoJob : JobInfo where
  id := 7
  binary := "echo"
  args := ["hi"]
  status := .completed 0
  reqNodes := 1
  reqCores := 1
  reqMemory := 100
  userId := "ada"

def loggedJob (job : JobInfo) (finished : job.status.terminal = true) (commandLine : String) : FinishedJob where
  job := job
  finished := finished
  jobs := ∅
  keyed _ _ found := by cases found
  unchanged _ found := by cases found
  history := [{ jobToUsage job with commandLine }]
  single := [{ jobToUsage job with commandLine }]
  asked := List.forall_mem_singleton.mpr rfl
  owned row member _ := by
    have same : row = { jobToUsage job with commandLine } := by simpa using member
    subst same
    rfl
  caller := ⟨job.userId, ["submitter"]⟩
  visible _ := rfl

def recordedJob : FinishedJob := loggedJob echoJob rfl (jobToUsage echoJob).commandLine

/-- The worker has reported a job without arguments after its record is gone. -/
def reportedJob : FinishedJob := loggedJob { echoJob with binary := "sleep 30", args := [] } rfl "sleep 30"

theorem recordedJob_repeatsCommand_iff : ¬ recordedJob.RepeatsCommand (ShellWords.split .splitting) {} ∧
    reportedJob.RepeatsCommand (ShellWords.split .splitting) {} := by
  have splits : WordSplitter (charwise (ShellWords.split .splitting)) := charwise_split .splitting ▸ read_wordSplitter
  constructor
  · have recorded := FinishedJob.repeatsCommand_iff splits recordedJob {}
    rw [recorded.1]
    rintro (⟨record, present⟩ | ⟨row, found, line, _⟩ | ⟨none, _⟩)
    · cases present
    · obtain rfl : jobToUsage echoJob = row := Option.some.inj found
      exact (recorded.2 _ rfl).1 line
    · cases none
  · exact (FinishedJob.repeatsCommand_iff splits reportedJob {}).1.mpr (.inr (.inl ⟨_, rfl, rfl, rfl⟩))

/-- `echo hi` is submitted again as a program of the name `echo hi`. -/
theorem recorded_job_not_repeated : ¬ recordedJob.RepeatsCommand (ShellWords.split .splitting) {} := by
  rintro ⟨message, sent, binary, _⟩
  have listed : (handleListJobs recordedJob.jobs recordedJob.history recordedJob.caller none).find?
      (·.id = recordedJob.job.id) = some (jobToUsage echoJob).listed := rfl
  simp only [resubmit, listed, Except.ok.injEq] at sent
  subst sent
  exact commandLine_ne_binary echoJob binary

end Resubmit

end Veloce
