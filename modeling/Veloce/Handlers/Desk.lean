import Mathlib.Data.List.Nodup
import Veloce.Handlers.Submission

/-! What the sections of the submission handlers do: the ids of every request are a
block of the counter, records move from the handlers to the channel in order, and a
batch is inserted as a whole or dropped as a whole. -/

namespace Veloce

open Collections

def Admission.task (admission : Admission) (baseId : JobId) : SubmitTask where
  jobs := (admission.build baseId).jobs
  checks := (admission.build baseId).checks
  ids := (admission.build baseId).jobs.map (·.job.id)
  answer := (admission.build baseId).answer

def GlobalState.acceptBatch (state : GlobalState) (batch : List Submission) (nextJobId : Nat) : GlobalState :=
  batch.foldl (fun state submission => state.acceptSubmission submission nextJobId) state

/-- What one section can do. -/
inductive DeskMove (state : GlobalState) (desk : Desk) : DeskEvent → GlobalState → Desk → Prop where
  | refused {site : SubmissionSite} {principal : AuthenticatedPrincipal} {request : SubmitRequest} {reason : String}
      (denied : request.handle site principal = .error reason) :
      DeskMove state desk (.accept site principal request) state desk
  | accepted {site : SubmissionSite} {principal : AuthenticatedPrincipal} {request : SubmitRequest}
      {admission : Admission} (admitted : request.handle site principal = .ok admission) :
      DeskMove state desk (.accept site principal request) state { desk with
        nextJobId := addU64 desk.nextJobId admission.idCount
        tasks := desk.tasks ++ [admission.task desk.nextJobId] }
  | circular {index : Nat} {before after : List SubmitTask} {task : SubmitTask}
      (split : desk.tasks = before ++ task :: after) (checks : task.checks = true)
      (found : ∃ submission ∈ task.jobs, isCircular state.jobs submission.job.id submission.job.parents = true) :
      DeskMove state desk (.check index) state { desk with tasks := before ++ after }
  | passed {index : Nat} {before after : List SubmitTask} {task : SubmitTask}
      (split : desk.tasks = before ++ task :: after) (checks : task.checks = true)
      (acyclic : ∀ submission ∈ task.jobs,
        isCircular state.jobs submission.job.id submission.job.parents = false) :
      DeskMove state desk (.check index) state { desk with
        tasks := before ++ { task with checks := false } :: after }
  | sent {index : Nat} {before after : List SubmitTask} {task : SubmitTask} {submission : Submission}
      {rest : List Submission} (place : desk.tasks[index]? = some task)
      (split : desk.tasks = before ++ task :: after) (checked : task.checks = false)
      (jobs : task.jobs = submission :: rest) :
      DeskMove state desk (.send index) state { desk with
        channel := desk.channel ++ [submission]
        tasks := before ++ { task with jobs := rest } :: after }
  | answered {index : Nat} {before after : List SubmitTask} {task : SubmitTask} {told : List JobId}
      (split : desk.tasks = before ++ task :: after) (checked : task.checks = false) (jobs : task.jobs = [])
      (outcome : (∃ answer, task.answer = .ok answer) ∧ told = task.ids ∨
        (∃ reason, task.answer = .error reason) ∧ told = []) :
      DeskMove state desk (.answer index) state { desk with
        tasks := before ++ after
        answered := desk.answered ++ told }
  | processed {count : Nat} (positive : 0 < count) (bounded : count ≤ 100) (there : count ≤ desk.channel.length) :
      DeskMove state desk (.process count)
        (state.acceptBatch (desk.channel.take count) desk.nextJobId)
        { desk with channel := desk.channel.drop count }

theorem split_getElem? {α : Type} {items : List α} {index : Nat} {item : α} (found : items[index]? = some item) :
    ∃ before after, items = before ++ item :: after ∧ items.eraseIdx index = before ++ after ∧
      ∀ other, items.set index other = before ++ other :: after := by
  obtain ⟨bound, same⟩ := List.getElem?_eq_some_iff.mp found
  refine ⟨items.take index, items.drop (index + 1), ?_, List.eraseIdx_eq_take_drop_succ _ _, fun other => ?_⟩
  · rw [← same, List.getElem_cons_drop, List.take_append_drop]
  · rw [List.set_eq_take_append_cons_drop, if_pos bound]

variable {state state' : GlobalState} {desk desk' : Desk} {event : DeskEvent}

theorem deskMove (taken : event.apply state desk = some (state', desk')) : DeskMove state desk event state' desk' := by
  cases event with
  | accept site principal request =>
    simp only [DeskEvent.apply, Desk.accept, Option.some.injEq, Prod.mk.injEq] at taken
    obtain ⟨rfl, same⟩ := taken
    split at same
    · subst same
      rename_i denied
      exact .refused denied
    · subst same
      rename_i admitted
      exact .accepted admitted
  | check index =>
    obtain ⟨checked, taken, same⟩ := Option.map_eq_some_iff.mp taken
    cases same
    simp only [Desk.check] at taken
    split at taken
    · rename_i task found
      obtain ⟨before, after, split, erased, set⟩ := split_getElem? found
      split at taken
      · rename_i checks
        cases taken
        split
        · rename_i circular
          rw [erased]
          exact .circular split checks (List.any_eq_true.mp circular)
        · rename_i acyclic
          rw [set]
          refine .passed split checks fun submission member => ?_
          rw [Bool.not_eq_true, List.any_eq_false] at acyclic
          exact Bool.eq_false_iff.mpr (acyclic submission member)
      · cases taken
    · cases taken
  | send index =>
    obtain ⟨checked, taken, same⟩ := Option.map_eq_some_iff.mp taken
    cases same
    simp only [Desk.send] at taken
    split at taken
    · rename_i task found
      obtain ⟨before, after, split, _, set⟩ := split_getElem? found
      split at taken
      · rename_i submission rest checked jobs
        cases taken
        rw [set]
        exact .sent found split checked jobs
      · cases taken
    · cases taken
  | answer index =>
    obtain ⟨checked, taken, same⟩ := Option.map_eq_some_iff.mp taken
    cases same
    simp only [Desk.reply] at taken
    split at taken
    · rename_i task found
      obtain ⟨before, after, split, erased, _⟩ := split_getElem? found
      split at taken
      · rename_i done
        simp only [Bool.and_eq_true, Bool.not_eq_true', List.isEmpty_iff] at done
        cases taken
        rw [erased]
        cases outcome : task.answer with
        | ok answer => exact .answered split done.1 done.2 (.inl ⟨⟨answer, outcome⟩, rfl⟩)
        | error reason =>
          have told := @DeskMove.answered state desk index before after task [] split done.1 done.2
            (.inr ⟨⟨reason, outcome⟩, rfl⟩)
          rwa [List.append_nil] at told
      · cases taken
    · cases taken
  | process count =>
    simp only [DeskEvent.apply, processBatch] at taken
    split at taken
    · rename_i bounds
      cases taken
      exact .processed bounds.1 bounds.2.1 bounds.2.2
    · cases taken

section Admissions

variable {site : SubmissionSite} {principal : AuthenticatedPrincipal} {admission : Admission}

theorem except_bind_ok {ε α β : Type} {first : Except ε α} {next : α → Except ε β} {result : β}
    (done : first >>= next = .ok result) : ∃ value, first = .ok value ∧ next value = .ok result := by
  cases first with
  | error reason => cases done
  | ok value => exact ⟨value, rfl, done⟩

variable {nodes : List DagNode} {submission : Submission} {msg : SubmitMessage}

theorem handleSubmit_ok (done : handleSubmit site principal msg = .ok admission) :
    validateJobSubmission site.config msg.binary msg.envVars ⟨msg.inheritHostEnv, msg.envAllowlist, msg.jobProfile⟩ =
        .ok () ∧
      checkInteractive msg.qos msg.walltime msg.reqCores = .ok () ∧
      ∃ userId asset vncEnabled, msg.admission site userId asset vncEnabled true .jobId .arrayJobSubmitted =
        .ok admission := by
  simp only [handleSubmit] at done
  split at done
  · cases done
  · obtain ⟨userId, _, done⟩ := except_bind_ok done
    obtain ⟨_, valid, done⟩ := except_bind_ok done
    obtain ⟨_, limits, done⟩ := except_bind_ok done
    exact ⟨valid, limits, userId, _, _, done⟩

/-- What a REST submission has passed; `native` is the request with its virtual
container resolved. -/
theorem apiSubmitJob_ok {payload : SubmitJobRequest} (done : apiSubmitJob site principal payload = .ok admission) :
    validateJobSubmission site.config payload.binary payload.envVars
        ⟨payload.inheritHostEnv, payload.envAllowlist, payload.jobProfile⟩ = .ok () ∧
      checkInteractive payload.qos payload.walltime payload.reqCores = .ok () ∧
      ∃ native userId asset vncEnabled, resolveVirtual site payload = .ok native ∧
        (native.message vncEnabled).admission site userId asset vncEnabled false (.created · 1) .created =
          .ok admission := by
  unfold apiSubmitJob at done
  split at done
  · cases done
  · obtain ⟨userId, _, done⟩ := except_bind_ok done
    obtain ⟨_, valid, done⟩ := except_bind_ok done
    obtain ⟨_, limits, done⟩ := except_bind_ok done
    obtain ⟨native, resolved, done⟩ := except_bind_ok done
    obtain ⟨asset, _, done⟩ := except_bind_ok done
    exact ⟨valid, limits, native, userId, asset, _, resolved, done⟩

theorem handleSubmitDag_ok (done : handleSubmitDag site principal nodes = .ok admission) :
    ∃ userId vnc, dagAdmission nodes (fun baseId offset node => node.record site userId vnc true nodes baseId offset)
      .dagSubmitted "Failed to submit any tasks of the DAG" = .ok admission := by
  unfold handleSubmitDag at done
  split at done
  · cases done
  · obtain ⟨_, _, done⟩ := except_bind_ok done
    exact ⟨_, _, done⟩

theorem apiSubmitCwl_ok {workflow : CwlWorkflow} {userId workingDirectory : String}
    (done : apiSubmitCwl site principal workflow userId workingDirectory = .ok admission) :
    ∃ resolved, dagAdmission (workflow.toDag resolved workingDirectory)
      (fun baseId offset node => node.record site SubmitMessage.userId (fun msg _ => msg.vncEnabled) false
        (workflow.toDag resolved workingDirectory) baseId offset)
      .created "Submission failed for CWL workflow" = .ok admission := by
  unfold apiSubmitCwl at done
  split at done
  · cases done
  · obtain ⟨resolved, _, done⟩ := except_bind_ok done
    exact ⟨resolved, done⟩

theorem zipIdx_offsets {α : Type} (items : List α) (baseId : JobId) :
    items.zipIdx.map (fun entry => baseId + entry.2) = List.range' baseId items.length := by
  have block := List.map_add_range' (a := baseId) 0 items.length 1
  rw [← List.zipIdx_map_snd 0, List.map_map, Nat.add_zero] at block
  exact block

theorem SubmitMessage.mem_admission {userId : String} {asset : Option ContainerAsset} {vncEnabled checks : Bool}
    {answer : JobId → SubmitAnswer} {arrayAnswer : JobId → Nat → SubmitAnswer}
    (done : msg.admission site userId asset vncEnabled checks answer arrayAnswer = .ok admission) {baseId : JobId}
    (member : submission ∈ (admission.build baseId).jobs) :
    ∃ jobId place, submission = msg.record site jobId userId asset vncEnabled place msg.dependencies
      msg.dependencySpecs := by
  unfold SubmitMessage.admission at done
  split at done
  · cases done
  · cases done
    obtain ⟨⟨taskId, offset⟩, _, same⟩ := List.mem_map.mp member
    exact ⟨_, _, same.symm⟩
  · cases done
    exact ⟨_, _, List.mem_singleton.mp member⟩

theorem SubmitMessage.admission_ids {userId : String} {asset : Option ContainerAsset} {vncEnabled checks : Bool}
    {answer : JobId → SubmitAnswer} {arrayAnswer : JobId → Nat → SubmitAnswer}
    (done : msg.admission site userId asset vncEnabled checks answer arrayAnswer = .ok admission) (baseId : JobId) :
    (admission.build baseId).jobs.map (·.job.id) = List.range' baseId admission.idCount := by
  unfold SubmitMessage.admission at done
  split at done
  · cases done
  · rename_i indices _ _
    cases done
    rw [List.map_map]
    exact zipIdx_offsets indices baseId
  · cases done
    rfl

theorem mem_dagAdmission {record : (baseId offset : Nat) → DagNode → Option Submission}
    {answer : JobId → Nat → SubmitAnswer} {failure : String}
    (done : dagAdmission nodes record answer failure = .ok admission) {baseId : JobId} :
    submission ∈ (admission.build baseId).jobs ↔
      ∃ node offset, (node, offset) ∈ nodes.zipIdx ∧ record baseId offset node = some submission := by
  unfold dagAdmission at done
  split at done
  · cases done
  · cases done
    simp only [List.mem_filterMap, Prod.exists]

theorem dagAdmission_ids {record : (baseId offset : Nat) → DagNode → Option Submission}
    {answer : JobId → Nat → SubmitAnswer} {failure : String}
    (numbered : ∀ baseId offset node submission, record baseId offset node = some submission →
      submission.job.id = baseId + offset)
    (done : dagAdmission nodes record answer failure = .ok admission) (baseId : JobId) :
    ((admission.build baseId).jobs.map (·.job.id)).Sublist (List.range' baseId admission.idCount) := by
  unfold dagAdmission at done
  split at done
  · cases done
  · cases done
    rw [← zipIdx_offsets, List.map_filterMap]
    generalize nodes.zipIdx = entries
    induction entries with
    | nil => exact .slnil
    | cons entry rest ih =>
      obtain ⟨node, offset⟩ := entry
      cases made : record baseId offset node with
      | none =>
        rw [List.filterMap_cons_none (by simp only [made, Option.map_none])]
        exact ih.cons _
      | some submission =>
        rw [List.filterMap_cons_some (b := submission.job.id) (by simp only [made, Option.map_some]),
          numbered _ _ _ _ made]
        exact ih.cons_cons _

theorem DagNode.record_id {node : DagNode} {userId : SubmitMessage → String}
    {vnc : SubmitMessage → Option ContainerAsset → Bool} {emptyToNone : Bool} {baseId offset : Nat}
    (made : node.record site userId vnc emptyToNone nodes baseId offset = some submission) :
    submission.job.id = baseId + offset := by
  obtain ⟨msg, _, same⟩ := Option.map_eq_some_iff.mp made
  rw [← same]
  rfl

/-- On every path the ids of the records lie in the block that the request takes. -/
theorem handle_ids {request : SubmitRequest} (admitted : request.handle site principal = .ok admission)
    (baseId : JobId) :
    ((admission.build baseId).jobs.map (·.job.id)).Sublist (List.range' baseId admission.idCount) := by
  cases request with
  | submit msg =>
    obtain ⟨_, _, _, _, _, done⟩ := handleSubmit_ok admitted
    rw [SubmitMessage.admission_ids done]
  | submitDag nodes =>
    obtain ⟨_, _, done⟩ := handleSubmitDag_ok admitted
    exact dagAdmission_ids (fun _ _ _ _ made => DagNode.record_id made) done baseId
  | apiSubmitJob payload =>
    obtain ⟨_, _, _, _, _, _, _, done⟩ := apiSubmitJob_ok admitted
    rw [SubmitMessage.admission_ids done]
  | apiSubmitCwl workflow userId workingDirectory =>
    obtain ⟨_, done⟩ := apiSubmitCwl_ok admitted
    exact dagAdmission_ids (fun _ _ _ _ made => DagNode.record_id made) done baseId

end Admissions

section Batches

theorem acceptBatch_follower (follows : state.role ≠ .leader) (nextJobId : Nat) : ∀ batch : List Submission,
    state.acceptBatch batch nextJobId = state := by
  intro batch
  induction batch with
  | nil => rfl
  | cons submission rest ih =>
    have dropped : state.acceptSubmission submission nextJobId = state := if_neg follows
    rw [GlobalState.acceptBatch, List.foldl_cons, dropped]
    exact ih

theorem acceptBatch_leader (nextJobId : Nat) : ∀ (batch : List Submission) (state : GlobalState),
    state.role = .leader → state.acceptBatch batch nextJobId = { state with
      nextJobId := if batch.isEmpty then state.nextJobId else nextJobId
      jobs := batch.foldl (fun jobs submission => jobs.insert submission.job.id submission.job) state.jobs
      queue := state.queue ++ batch.map (·.job.id) } := by
  intro batch
  induction batch with
  | nil =>
    intro state lead
    simp only [GlobalState.acceptBatch, List.foldl_nil, List.isEmpty_nil, ↓reduceIte, List.map_nil, List.append_nil]
  | cons submission rest ih =>
    intro state lead
    have entered : state.acceptSubmission submission nextJobId = { state with
        nextJobId := nextJobId
        jobs := state.jobs.insert submission.job.id submission.job
        queue := state.queue ++ [submission.job.id] } := if_pos lead
    have whole := ih (state.acceptSubmission submission nextJobId) (by rw [entered]; exact lead)
    rw [GlobalState.acceptBatch, List.foldl_cons]
    refine whole.trans ?_
    rw [entered]
    simp only [List.isEmpty_cons, Bool.false_eq_true, ↓reduceIte, List.foldl_cons, List.map_cons, List.append_assoc,
      List.singleton_append, ite_self]

/-- Besides the table, the queue and the counter, a section at the desk leaves the state alone. -/
theorem DeskMove.frame (move : DeskMove state desk event state' desk') : state' = { state with
    nextJobId := state'.nextJobId, jobs := state'.jobs, queue := state'.queue } := by
  cases move with
  | refused | accepted | circular | passed | sent | answered => rfl
  | @processed count =>
    by_cases lead : state.role = .leader
    · rw [acceptBatch_leader desk.nextJobId (desk.channel.take count) state lead]
    · rw [acceptBatch_follower lead]

theorem get?_insertBatch {batch : List Submission} : ∀ {jobs : HashMap JobId JobInfo} {jobId : JobId} {job : JobInfo},
    (batch.foldl (fun jobs submission => jobs.insert submission.job.id submission.job) jobs).get? jobId = some job →
      jobs.get? jobId = some job ∨ ∃ submission ∈ batch, submission.job.id = jobId ∧ submission.job = job := by
  induction batch with
  | nil => intro jobs jobId job found; exact .inl found
  | cons submission rest ih =>
    intro jobs jobId job found
    rcases ih found with found | ⟨other, member, same⟩
    · rw [HashMap.get?_insert] at found
      split at found
      · rename_i same
        cases found
        exact .inr ⟨submission, List.mem_cons_self, same.symm, rfl⟩
      · exact .inl found
    · exact .inr ⟨other, List.mem_cons_of_mem _ member, same⟩

theorem get?_insertBatch_other {batch : List Submission} : ∀ {jobs : HashMap JobId JobInfo} {jobId : JobId},
    jobId ∉ batch.map (·.job.id) →
    (batch.foldl (fun jobs submission => jobs.insert submission.job.id submission.job) jobs).get? jobId =
      jobs.get? jobId := by
  induction batch with
  | nil => intro jobs jobId _; rfl
  | cons submission rest ih =>
    intro jobs jobId absent
    rw [List.map_cons, List.mem_cons, not_or] at absent
    rw [List.foldl_cons, ih absent.2, HashMap.get?_insert, if_neg absent.1]

end Batches

section Ids

namespace Desk

def ids (desk : Desk) : List JobId :=
  desk.tasks.flatMap (fun task => task.jobs.map (·.job.id)) ++ desk.channel.map (·.job.id)

/-- The ids on their way are different and below the counter. -/
structure Numbered (desk : Desk) : Prop where
  distinct : desk.ids.Nodup
  below : ∀ jobId ∈ desk.ids, jobId < desk.nextJobId

theorem Numbered.fewer (valid : desk.Numbered) (ids : desk'.ids.Subperm desk.ids)
    (counter : desk.nextJobId ≤ desk'.nextJobId) : desk'.Numbered where
  distinct := by
    obtain ⟨middle, same, fewer⟩ := ids
    exact same.nodup_iff.mp (valid.distinct.sublist fewer)
  below jobId member := (valid.below jobId (ids.subset member)).trans_le counter

end Desk

variable {request : SubmitRequest} {site : SubmissionSite} {principal : AuthenticatedPrincipal} {admission : Admission}

theorem handle_mem {jobId baseId : JobId} (admitted : request.handle site principal = .ok admission)
    (member : jobId ∈ (admission.build baseId).jobs.map (·.job.id)) :
    baseId ≤ jobId ∧ jobId < baseId + admission.idCount :=
  List.mem_range'_1.mp ((handle_ids admitted baseId).subset member)

/-- An admitted request takes the ids above the counter. -/
theorem Desk.Numbered.accepted (valid : desk.Numbered) (admitted : request.handle site principal = .ok admission)
    (room : desk.nextJobId + admission.idCount < 2 ^ 64) : Desk.Numbered { desk with
      nextJobId := addU64 desk.nextJobId admission.idCount
      tasks := desk.tasks ++ [admission.task desk.nextJobId] } := by
  have counter : addU64 desk.nextJobId admission.idCount = desk.nextJobId + admission.idCount := Nat.mod_eq_of_lt room
  have same : Desk.ids { desk with
      nextJobId := addU64 desk.nextJobId admission.idCount
      tasks := desk.tasks ++ [admission.task desk.nextJobId] } =
      desk.tasks.flatMap (fun task => task.jobs.map (·.job.id)) ++
        (admission.build desk.nextJobId).jobs.map (·.job.id) ++ desk.channel.map (·.job.id) := by
    simp only [Desk.ids, List.flatMap_append, List.flatMap_singleton, Admission.task]
  have perm : List.Perm _ ((admission.build desk.nextJobId).jobs.map (·.job.id) ++ desk.ids) :=
    same ▸ (List.perm_append_comm.append_right _).trans (.of_eq (List.append_assoc ..))
  refine ⟨perm.nodup_iff.mpr ?_, fun jobId member => ?_⟩
  · refine List.nodup_append'.mpr ⟨(List.nodup_range' 1).sublist (handle_ids admitted _), valid.distinct, ?_⟩
    intro jobId new old
    exact absurd (valid.below jobId old) (not_lt.mpr (handle_mem admitted new).1)
  · rw [counter]
    rcases List.mem_append.mp (perm.subset member) with new | old
    · exact (handle_mem admitted new).2
    · exact (valid.below jobId old).trans_le (Nat.le_add_right ..)

theorem DeskMove.ids (move : DeskMove state desk event state' desk')
    (other : ∀ site principal request, event ≠ .accept site principal request) :
    desk'.ids.Subperm desk.ids ∧ desk'.nextJobId = desk.nextJobId := by
  cases move with
  | refused | accepted => exact absurd rfl (other _ _ _)
  | circular split =>
    refine ⟨List.Sublist.subperm ?_, rfl⟩
    simp only [Desk.ids, split, List.flatMap_append, List.flatMap_cons]
    exact ((List.Sublist.refl _).append (List.sublist_append_right ..)).append (.refl _)
  | passed split =>
    refine ⟨List.Perm.subperm (.of_eq ?_), rfl⟩
    simp only [Desk.ids, split, List.flatMap_append, List.flatMap_cons]
  | @sent _ _ _ _ submission _ _ split _ jobs =>
    refine ⟨List.Perm.subperm ?_, rfl⟩
    simp only [Desk.ids, split, List.flatMap_append, List.flatMap_cons, jobs, List.map_append, List.map_cons,
      List.map_nil, List.cons_append, List.append_assoc]
    refine List.Perm.append_left _ ?_
    rw [← List.append_assoc, ← List.append_assoc]
    exact List.perm_append_singleton .. |>.trans (.of_eq (by simp only [List.append_assoc]))
  | answered split _ jobs =>
    refine ⟨List.Perm.subperm (.of_eq ?_), rfl⟩
    simp only [Desk.ids, split, List.flatMap_append, List.flatMap_cons, jobs, List.map_nil, List.nil_append]
  | processed =>
    refine ⟨List.Sublist.subperm ?_, rfl⟩
    exact (List.Sublist.refl _).append ((List.drop_sublist ..).map _)

end Ids

end Veloce
