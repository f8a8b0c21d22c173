import Veloce.Ha.Acyclic
import Veloce.Ha.Answers
import Veloce.Ha.Ids

/-! The input files of jobs. A job that ends by a message of its worker or by CancelJob
leaves a task that deletes its inputs one by one: under the lock it looks for a Pending
or Running job of the table that lists the file, and if there is none it deletes the
file after it has released the lock. Accepted jobs are not in the table before their
batch is processed, and the table can change between the look and the deletion. -/

namespace Veloce

open Collections

def JobInfo.lists (job : JobInfo) (fileId : String) : Bool := job.inputs.any (·.fileId = fileId)

/-- A Pending or Running job of the table lists the file. -/
def GlobalState.isReferenced (state : GlobalState) (fileId : String) : Bool :=
  state.jobs.values.any fun job => (job.status = .pending || job.status = .running) && job.lists fileId

/-- A task that deletes the inputs of an ended job. -/
structure DeleteTask where
  files : List String
  /-- Looked up and not referenced; its deletion comes next. -/
  cleared : Option String := none

structure Depot where
  id : String := "a"
  controller : Controller
  history : History := {}
  deletions : List DeleteTask := []
  /-- The files that were deleted, in order. -/
  deleted : List String := []
  /-- Every job that was put into the submission channel. -/
  accepted : List JobInfo := []
  /-- Every job that has reached a terminal status. -/
  ended : List JobId := []

inductive DepotEvent where
  /-- A section of the leader; a cancellation among these is the one of the REST API. -/
  | own (event : ControllerEvent)
  /-- CancelJob of a client. -/
  | cancelJob (caller : Caller) (jobId : JobId) (now : Nat)
  | check (index : Nat)
  | delete (index : Nat) (succeeds : Bool)

def Controller.spawns (controller : Controller) : ControllerEvent → Option (List String)
  | .act (.finishDone index _ _ now) =>
    match controller.tasks[index]? with
    | some (.finishing report exitCode _) =>
      some (controller.state.finalizeJob report.jobId (.completed exitCode) now).2
    | _ => none
  | .act (.jobError report error now) => some (controller.state.finalizeJob report.jobId (.failed error) now).2
  | .act (.jobKilled report now) => some (controller.state.finalizeJob report.jobId .killed now).2
  | _ => none

def Controller.spawnsOnCancel (controller : Controller) (caller : Caller) (jobId : JobId) (now : Nat) :
    Option (List String) :=
  match controller.ctx.cancelJob caller jobId now with
  | .ok _ => some (controller.state.finalizeJob jobId .killed now).2
  | .error _ => none

/-- The record that a handler puts into the channel. -/
def Controller.sends (controller : Controller) : ControllerEvent → List JobInfo
  | .desk (.send index) =>
    ((controller.desk.tasks[index]?.bind (·.jobs.head?)).map Submission.job).toList
  | _ => []

/-- The jobs that stand in the table with a terminal status, or have left it. -/
def endings (before after : GlobalState) : List JobId :=
  after.jobs.keys.filter (fun jobId => (after.jobs.get? jobId).any (·.status.terminal)) ++
    before.jobs.keys.filter fun jobId => (after.jobs.get? jobId).isNone

namespace Depot

def advance (depot : Depot) (event : ControllerEvent) (spawned : Option (List String)) : Option Depot :=
  if event.isLocal then
    (depot.controller.step depot.id event depot.history).map fun (next, _, history) =>
      { depot with
        controller := next
        history := history
        deletions := depot.deletions ++ (spawned.map fun files => { files := files }).toList
        accepted := depot.accepted ++ depot.controller.sends event
        ended := depot.ended ++ endings depot.controller.state next.state }
  else none

/-- One step; `none` if it cannot happen or panics. -/
def apply (event : DepotEvent) (depot : Depot) : Option Depot :=
  match event with
  | .own event => depot.advance event (depot.controller.spawns event)
  | .cancelJob caller jobId now =>
    depot.advance (.act (.cancel caller jobId now)) (depot.controller.spawnsOnCancel caller jobId now)
  | .check index =>
    match depot.deletions[index]? with
    | some ⟨fileId :: rest, none⟩ =>
      let cleared := if depot.controller.state.isReferenced fileId then none else some fileId
      some { depot with deletions := depot.deletions.set index ⟨rest, cleared⟩ }
    | _ => none
  | .delete index succeeds =>
    match depot.deletions[index]? with
    | some ⟨files, some fileId⟩ =>
      some { depot with
        deletions := depot.deletions.set index ⟨files, none⟩
        deleted := if succeeds then depot.deleted ++ [fileId] else depot.deleted }
    | _ => none

/-- An accepted job that has not reached a terminal status lists the file. -/
def Needs (depot : Depot) (fileId : String) : Prop :=
  ∃ job ∈ depot.accepted, job.id ∉ depot.ended ∧ job.lists fileId = true

instance (depot : Depot) (fileId : String) : Decidable (depot.Needs fileId) := by
  unfold Needs
  infer_instance

/-- A new leader without deletion tasks. -/
structure New (depot : Depot) : Prop where
  controller : depot.controller.NewLeader
  deletions : depot.deletions = []
  deleted : depot.deleted = []
  accepted : depot.accepted = []
  ended : depot.ended = []

/-- No job in the channel lists a file that is looked up, no job that enters the channel
lists a file that waits for its deletion, and the counter of the ids does not overflow. -/
def Guarded (depot : Depot) : DepotEvent → Prop
  | .own event => TakesOverAbove depot.id depot.controller event ∧
      ∀ job ∈ depot.controller.sends event, ∀ task ∈ depot.deletions, ∀ fileId ∈ task.cleared,
        job.lists fileId = false
  | .check index => ∀ task ∈ depot.deletions[index]?, ∀ fileId ∈ task.files.head?,
      ∀ submission ∈ depot.controller.desk.channel, submission.job.lists fileId = false
  | .cancelJob .. | .delete .. => True

instance (depot : Depot) : (event : DepotEvent) → Decidable (depot.Guarded event)
  | .own event => inferInstanceAs (Decidable (TakesOverAbove depot.id depot.controller event ∧
      ∀ job ∈ depot.controller.sends event, ∀ task ∈ depot.deletions, ∀ fileId ∈ task.cleared,
        job.lists fileId = false))
  | .check index => inferInstanceAs (Decidable (∀ task ∈ depot.deletions[index]?, ∀ fileId ∈ task.files.head?,
      ∀ submission ∈ depot.controller.desk.channel, submission.job.lists fileId = false))
  | .cancelJob .. | .delete .. => isTrue trivial

def GuardedStep (depot : Depot) (event : DepotEvent) (next : Depot) : Prop :=
  depot.Guarded event ∧ depot.apply event = some next

end Depot

section Endings

variable {before after : GlobalState} {jobId : JobId} {job : JobInfo}

theorem mem_endings_of_terminal (found : after.jobs.get? jobId = some job) (terminal : job.status.terminal = true) :
    jobId ∈ endings before after := by
  refine List.mem_append_left _ (List.mem_filter.mpr ⟨HashMap.mem_keys.mpr ⟨job, found⟩, ?_⟩)
  rw [found]
  exact terminal

theorem mem_endings_of_gone (found : before.jobs.get? jobId = some job) (gone : after.jobs.get? jobId = none) :
    jobId ∈ endings before after := by
  refine List.mem_append_right _ (List.mem_filter.mpr ⟨HashMap.mem_keys.mpr ⟨job, found⟩, ?_⟩)
  rw [gone]
  rfl

theorem isReferenced_of_open {state : GlobalState} {fileId : String} (found : state.jobs.get? jobId = some job)
    (active : job.status.terminal = false) (listed : job.lists fileId = true) :
    state.isReferenced fileId = true := by
  refine List.any_eq_true.mpr ⟨job, HashMap.mem_values.mpr ⟨jobId, found⟩, ?_⟩
  rw [listed, Bool.and_true]
  cases status : job.status with
  | pending | running => rfl
  | completed | failed | killed =>
    rw [status] at active
    cases active

end Endings

/-- The job is in the channel, or its record is in the table and has not ended. -/
inductive Controller.Keeps (controller : Controller) (job : JobInfo) : Prop where
  | waiting {submission : Submission} (member : submission ∈ controller.desk.channel) (same : submission.job = job)
  | entered {job' : JobInfo} (found : controller.state.jobs.get? job.id = some job')
      (active : job'.status.terminal = false) (inputs : job'.inputs = job.inputs)

namespace Controller.Keeps

variable {controller next : Controller} {id : String} {sent : Posted} {history history' : History} {job : JobInfo}

theorem onward (kept : controller.Keeps job) (onward : controller.Onward next)
    (going : job.id ∉ endings controller.state next.state) : next.Keeps job := by
  cases kept with
  | waiting member same => exact .waiting (onward.desk ▸ member) same
  | @entered record found active inputs =>
    cases found' : next.state.jobs.get? job.id with
    | none => exact absurd (mem_endings_of_gone found found') going
    | some job' =>
      obtain ⟨origin, stored, later⟩ := onward.table job.id job' found'
      cases stored.symm.trans found
      refine .entered found' ?_ ((later.keeps JobInfo.inputs fun _ => rfl).trans inputs)
      rw [Bool.eq_false_iff]
      exact fun terminal => going (mem_endings_of_terminal found' terminal)

theorem processed (kept : controller.Keeps job) (lead : controller.leads = true) (numbered : controller.Numbered)
    (count : Nat) : Controller.Keeps { controller.withState
      (controller.state.acceptBatch (controller.desk.channel.take count) controller.desk.nextJobId) with
      desk := { controller.desk with channel := controller.desk.channel.drop count } } job := by
  have inside (jobId : JobId) (member : jobId ∈ (controller.desk.channel.take count).map (·.job.id)) :
      jobId ∈ controller.desk.channel.map (·.job.id) := ((List.take_sublist ..).map _).subset member
  rw [acceptBatch_leader _ _ _ (Controller.leads_iff.mp lead)]
  cases kept with
  | @waiting submission member same =>
    rw [← List.take_append_drop count controller.desk.channel, List.mem_append] at member
    rcases member with taken | left
    · obtain ⟨entered, listed, id, found⟩ := @Cluster.get?_insertBatch_id submission.job.id
        (controller.desk.channel.take count) controller.state.jobs (List.mem_map.mpr ⟨submission, taken, rfl⟩)
      have distinct : (controller.desk.channel.map (·.job.id)).Nodup :=
        numbered.desk.distinct.sublist (List.sublist_append_right ..)
      have alike : entered = submission := List.inj_on_of_nodup_map distinct
        ((List.take_subset ..) listed) ((List.take_subset ..) taken) id
      rw [alike, same] at found
      refine .entered found ?_ rfl
      rw [← same, submission.pending]
      rfl
    · exact .waiting left same
  | @entered record found active inputs =>
    have absent : job.id ∉ (controller.desk.channel.take count).map (·.job.id) := fun member =>
      (numbered.above lead).waiting job.id (Desk.mem_ids_channel (inside _ member))
        (HashMap.mem_keys.mpr ⟨record, found⟩)
    exact .entered ((get?_insertBatch_other absent).trans found) active inputs

theorem served (kept : controller.Keeps job) (lead : controller.leads = true) (numbered : controller.Numbered)
    {event : DeskEvent} (taken : controller.serve event = some next) : next.Keeps job := by
  obtain ⟨⟨state, desk⟩, applied, same⟩ := Option.map_eq_some_iff.mp taken
  subst same
  cases deskMove applied with
  | refused => exact kept
  | accepted | circular | passed | answered =>
    cases kept with
    | waiting member same => exact .waiting member same
    | entered found active inputs => exact .entered found active inputs
  | sent =>
    cases kept with
    | waiting member same => exact .waiting (List.mem_append_left _ member) same
    | entered found active inputs => exact .entered found active inputs
  | @processed count => exact kept.processed lead numbered count

end Controller.Keeps

section Steps

variable {controller next : Controller} {id : String} {sent : Posted} {history history' : History} {job : JobInfo}
  {event : ControllerEvent}

theorem keeps_step (kept : controller.Keeps job) (lead : controller.leads = true) (numbered : controller.Numbered)
    (own : event.isLocal = true) (taken : controller.step id event history = some (next, sent, history'))
    (going : job.id ∉ endings controller.state next.state) : next.Keeps job := by
  rcases step_local own taken with onward | ⟨served, _, applied⟩
  · exact kept.onward onward going
  · exact kept.served lead numbered applied

theorem keeps_sent (new : job ∈ controller.sends event)
    (taken : controller.step id event history = some (next, sent, history')) : next.Keeps job := by
  unfold Controller.sends at new
  split at new
  · rename_i index
    obtain ⟨served, serves, same⟩ := Option.map_eq_some_iff.mp taken
    cases same
    obtain ⟨⟨state, desk⟩, applied, same⟩ := Option.map_eq_some_iff.mp serves
    subst same
    cases deskMove applied with
    | @sent _ _ _ task submission rest place _ _ jobs =>
      rw [place, Option.bind_some, jobs, List.head?_cons, Option.map_some, Option.toList_some,
        List.mem_singleton] at new
      exact .waiting (List.mem_append_right _ (List.mem_singleton_self submission)) new.symm
  · cases new

end Steps

namespace Depot

/-- The invariant: no accepted job is lost before its end, and a file that waits for its
deletion is not needed. -/
structure Kept (depot : Depot) : Prop where
  lead : depot.controller.leads = true
  numbered : depot.controller.Numbered
  going : ∀ job ∈ depot.accepted, job.id ∉ depot.ended → depot.controller.Keeps job
  cleared : ∀ task ∈ depot.deletions, ∀ fileId ∈ task.cleared, ¬ depot.Needs fileId

variable {depot next : Depot} {index : Nat} {fileId : String}

theorem Kept.advance (valid : depot.Kept) {event : ControllerEvent} {spawned : Option (List String)}
    (above : TakesOverAbove depot.id depot.controller event)
    (unlisted : ∀ job ∈ depot.controller.sends event, ∀ task ∈ depot.deletions, ∀ fileId ∈ task.cleared,
      job.lists fileId = false)
    (taken : depot.advance event spawned = some next) : next.Kept := by
  unfold Depot.advance at taken
  split at taken
  · rename_i own
    obtain ⟨⟨after, sent, history⟩, stepped, same⟩ := Option.map_eq_some_iff.mp taken
    subst same
    refine ⟨step_keeps_lead own valid.lead stepped, ?_, fun job member going => ?_,
      fun task member fileId cleared => ?_⟩
    · refine step_numbered valid.numbered (fun snapshot carried => ?_) above stepped
      rw [ControllerEvent.snapshot_local own] at carried
      cases carried
    · rw [List.mem_append, not_or] at going
      rcases List.mem_append.mp member with old | new
      · exact keeps_step (valid.going job old going.1) valid.lead valid.numbered own stepped going.2
      · exact keeps_sent new stepped
    · rintro ⟨job, member', going, listed⟩
      rcases List.mem_append.mp member with old | new
      · rcases List.mem_append.mp member' with before | sends
        · exact valid.cleared task old fileId cleared
            ⟨job, before, fun ended => going (List.mem_append_left _ ended), listed⟩
        · rw [unlisted job sends task old fileId cleared] at listed
          cases listed
      · -- a new task has not looked up anything yet
        obtain ⟨files, _, same⟩ := Option.map_eq_some_iff.mp (Option.mem_toList.mp new)
        subst same
        cases cleared
  · cases taken

/-- A negative look finds every accepted job that has not ended, except those in the channel. -/
theorem Kept.unneeded (valid : depot.Kept)
    (unlisted : ∀ submission ∈ depot.controller.desk.channel, submission.job.lists fileId = false)
    (unreferenced : depot.controller.state.isReferenced fileId = false) : ¬ depot.Needs fileId := by
  rintro ⟨job, member, going, listed⟩
  cases valid.going job member going with
  | waiting waits same =>
    rw [← same, unlisted _ waits] at listed
    cases listed
  | entered found active inputs =>
    rw [JobInfo.lists, ← inputs] at listed
    rw [isReferenced_of_open found active listed] at unreferenced
    cases unreferenced

theorem Kept.set (valid : depot.Kept) {task : DeleteTask} (cleared : ∀ fileId ∈ task.cleared, ¬ depot.Needs fileId)
    (deleted : List String) :
    Kept { depot with deletions := depot.deletions.set index task, deleted := deleted } where
  lead := valid.lead
  numbered := valid.numbered
  going := valid.going
  cleared other member fileId waits := by
    rcases List.mem_or_eq_of_mem_set member with old | same
    · exact valid.cleared other old fileId waits
    · exact cleared fileId (same ▸ waits)

theorem delete_cases {succeeds : Bool} (taken : depot.apply (.delete index succeeds) = some next) :
    ∃ files fileId, depot.deletions[index]? = some ⟨files, some fileId⟩ ∧ next = { depot with
      deletions := depot.deletions.set index ⟨files, none⟩
      deleted := if succeeds then depot.deleted ++ [fileId] else depot.deleted } := by
  simp only [apply] at taken
  split at taken
  · rename_i files fileId found
    cases taken
    exact ⟨files, fileId, found, rfl⟩
  · cases taken

theorem advance_deleted {event : ControllerEvent} {spawned : Option (List String)}
    (taken : depot.advance event spawned = some next) : next.deleted = depot.deleted := by
  unfold Depot.advance at taken
  split at taken
  · obtain ⟨_, _, same⟩ := Option.map_eq_some_iff.mp taken
    subst same
    rfl
  · cases taken

/-- A step that deletes a file is a deletion of the task that has cleared it. -/
theorem deleted_cases {event : DepotEvent} (taken : depot.apply event = some next) :
    next.deleted = depot.deleted ∨ ∃ task ∈ depot.deletions, ∃ fileId ∈ task.cleared,
      next.deleted = depot.deleted ++ [fileId] := by
  cases event with
  | own event => exact .inl (advance_deleted taken)
  | cancelJob caller jobId now => exact .inl (advance_deleted taken)
  | check index =>
    simp only [apply] at taken
    split at taken <;> cases taken
    exact .inl rfl
  | delete index succeeds =>
    obtain ⟨files, fileId, found, same⟩ := delete_cases taken
    subst same
    cases succeeds with
    | false => exact .inl rfl
    | true => exact .inr ⟨_, List.mem_of_getElem? found, fileId, rfl, rfl⟩

theorem Kept.step (valid : depot.Kept) {event : DepotEvent} (taken : depot.GuardedStep event next) : next.Kept := by
  obtain ⟨guarded, applied⟩ := taken
  cases event with
  | own event => exact valid.advance guarded.1 guarded.2 applied
  | cancelJob caller jobId now =>
    have above : TakesOverAbove depot.id depot.controller (.act (.cancel caller jobId now)) := trivial
    exact valid.advance above (fun job sends => absurd sends List.not_mem_nil) applied
  | check index =>
    simp only [apply] at applied
    split at applied
    · rename_i fileId rest found
      cases applied
      refine valid.set (fun file waits => ?_) depot.deleted
      split at waits
      · cases waits
      · rename_i unreferenced
        cases waits
        exact valid.unneeded (guarded _ found fileId rfl) (Bool.eq_false_iff.mpr unreferenced)
    · cases applied
  | delete index succeeds =>
    obtain ⟨files, fileId, _, same⟩ := delete_cases applied
    subst same
    exact valid.set (fun _ waits => absurd waits (Option.not_mem_none _)) _

theorem New.kept (new : depot.New) : depot.Kept where
  lead := new.controller.2
  numbered := new.controller.1.numbered
  going job member := by
    rw [new.accepted] at member
    cases member
  cleared task member := by
    rw [new.deletions] at member
    cases member

end Depot

/-- A file is deleted only if no accepted job that has not ended lists it, in every run
in which the jobs that are not in the table leave alone the files that are looked up and
deleted. -/
theorem deleted_file_is_unneeded {depot next : Depot} {event : DepotEvent} {fileId : String}
    (reached : Reach Depot.New Depot.GuardedStep depot) (taken : depot.apply event = some next)
    (deleted : next.deleted = depot.deleted ++ [fileId]) : ¬ depot.Needs fileId := by
  have valid : depot.Kept :=
    reached.invariant Depot.Kept (fun _ new => new.kept) fun _ _ _ valid taken => valid.step taken
  rcases Depot.deleted_cases taken with same | ⟨task, member, cleared, waits, same⟩
  · rw [same, List.self_eq_append_right] at deleted
    cases deleted
  · rw [same, List.append_cancel_left_eq, List.singleton_inj] at deleted
    subst deleted
    exact valid.cleared task member cleared waits

section Sample

def newDepot : Depot where
  controller := newLeader

theorem newDepot_new : newDepot.New := ⟨newLeader_new, rfl, rfl, rfl, rfl⟩

def inputRequest : List DepotEvent :=
  (sampleRequest (.submit { binary := "sh", inputs := [⟨"f", "data", false, false⟩] })).map
    fun event => .own (.desk event)

def inputCancel (jobId : JobId) : DepotEvent := .cancelJob ⟨"user", ["admin"]⟩ jobId 50

/-- Of two jobs with one input the first is canceled, which spares the file, and then the second. -/
def sharedInput : List DepotEvent :=
  inputRequest ++ inputRequest ++ [inputCancel 1, .check 0, inputCancel 2, .check 1]

theorem deleted_file_is_unneeded_shared : ∃ depot next, Reach Depot.New Depot.GuardedStep depot ∧
    depot.apply (.delete 1 true) = some next ∧ next.deleted = ["f"] ∧ depot.accepted.length = 2 ∧
    ¬ depot.Needs "f" := by
  have permitted : AllowedRun Depot.Guarded Depot.apply sharedInput newDepot := by decide +kernel
  have facts : ((runLabels Depot.apply sharedInput newDepot).bind fun depot =>
      (depot.apply (.delete 1 true)).map fun next => (depot.deleted, next.deleted, depot.accepted.length)) =
      some ([], ["f"], 2) := by decide +kernel
  obtain ⟨depot, ran, facts⟩ := Option.bind_eq_some_iff.mp facts
  obtain ⟨next, taken, facts⟩ := Option.map_eq_some_iff.mp facts
  simp only [Prod.mk.injEq] at facts
  have reached : Reach Depot.New Depot.GuardedStep depot := runLabels_reach (.start newDepot_new) permitted ran
  have deleted : next.deleted = depot.deleted ++ ["f"] := by rw [facts.1, facts.2.1, List.nil_append]
  exact ⟨depot, next, reached, taken, facts.2.1, facts.2.2, deleted_file_is_unneeded reached taken deleted⟩

/-- The second job is still in the channel when the first one is canceled. -/
def waitingInput : List DepotEvent :=
  inputRequest ++ inputRequest.take 4 ++ [inputCancel 1, .check 0]

/-- The file of an answered job is deleted before its batch is processed. -/
theorem deletes_input_of_waiting_job : ∃ depot next,
    Reach Depot.New (fun depot event next => depot.apply event = some next) depot ∧
    depot.controller.desk.answered = [1, 2] ∧ depot.apply (.delete 0 true) = some next ∧ next.deleted = ["f"] ∧
    depot.Needs "f" := by
  have facts : ((runLabels Depot.apply waitingInput newDepot).bind fun depot =>
      (depot.apply (.delete 0 true)).map fun next =>
        (depot.controller.desk.answered, next.deleted, decide (depot.Needs "f"))) = some ([1, 2], ["f"], true) := by
    decide +kernel
  have permitted : AllowedRun (fun _ _ => True) Depot.apply waitingInput newDepot := by decide +kernel
  obtain ⟨depot, ran, facts⟩ := Option.bind_eq_some_iff.mp facts
  obtain ⟨next, taken, facts⟩ := Option.map_eq_some_iff.mp facts
  simp only [Prod.mk.injEq, decide_eq_true_eq] at facts
  have reached := (runLabels_reach (.start newDepot_new) permitted ran).mono fun _ _ _ => And.right
  exact ⟨depot, next, reached, facts.1, taken, facts.2.1, facts.2.2⟩

end Sample

end Veloce
