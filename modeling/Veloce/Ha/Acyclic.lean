import Veloce.Ha.Descent
import Veloce.Handlers.Cycles

/-! The graph of the dependencies in the table of a leader. -/

namespace Veloce

open Collections Relation

abbrev enterAll (jobs : HashMap JobId JobInfo) (batch : List Submission) : HashMap JobId JobInfo :=
  batch.foldl (fun jobs submission => jobs.insert submission.job.id submission.job) jobs

/-- The table with all that waits in the channel. -/
def Controller.accepted (controller : Controller) : HashMap JobId JobInfo :=
  enterAll controller.state.jobs controller.desk.channel

/-- A handler sends a record only if `has_cycle` finds no circle through it among the
jobs of the table and of the channel. -/
def SendsNoCircle (controller : Controller) : ControllerEvent → Prop
  | .desk (.send index) => ∀ task ∈ controller.desk.tasks[index]?, ∀ submission ∈ task.jobs.head?,
      isCircular controller.accepted submission.job.id submission.job.parents = false
  | _ => True

instance (controller : Controller) (event : ControllerEvent) : Decidable (SendsNoCircle controller event) := by
  unfold SendsNoCircle
  split <;> infer_instance

def Controller.Goes (allowed : Controller → ControllerEvent → Prop) (controller : Controller) (event : ControllerEvent)
    (next : Controller) : Prop :=
  (event.isLocal = true ∧ allowed controller event) ∧
    ∃ id sent history history', controller.step id event history = some (next, sent, history')

def Controller.NewLeader (controller : Controller) : Prop := controller.Fresh ∧ controller.leads = true

section Graph

variable {jobs jobs' : HashMap JobId JobInfo}

theorem Stems.dependsOn (stems : Stems jobs jobs') (a b : JobId) (depends : DependsOn jobs' a b) :
    DependsOn jobs a b := by
  obtain ⟨job', found, listed⟩ := depends
  obtain ⟨job, stored, later⟩ := stems a job' found
  exact ⟨job, stored, later.keeps JobInfo.parents (fun _ => rfl) ▸ listed⟩

theorem stems_enterAll (stems : Stems jobs jobs') (batch : List Submission) :
    Stems (enterAll jobs batch) (enterAll jobs' batch) := by
  induction batch generalizing jobs jobs' with
  | nil => exact stems
  | cons submission rest ih =>
    refine ih fun jobId job' found => ?_
    rw [HashMap.get?_insert] at found ⊢
    split
    · rename_i same
      rw [if_pos same] at found
      cases found
      exact ⟨submission.job, rfl, .refl _⟩
    · rename_i other
      rw [if_neg other] at found
      exact stems jobId job' found

/-- A record whose parents do not lead back to it makes no circle. -/
theorem acyclic_insert {job : JobInfo} {jobId : JobId} (acyclic : Acyclic (DependsOn jobs))
    (passes : isCircular jobs jobId job.parents = false) : Acyclic (DependsOn (jobs.insert jobId job)) := by
  refine @Acyclic.change _ _ _ jobId acyclic ?_ ?_
  · rintro a b other ⟨stored, found, listed⟩
    rw [HashMap.get?_insert, if_neg other] at found
    exact ⟨stored, found, listed⟩
  · rintro b ⟨stored, found, listed⟩ path
    rw [HashMap.get?_insert_self] at found
    cases found
    rw [Bool.eq_false_iff, Ne, isCircular_iff] at passes
    exact passes ⟨b, listed, path⟩

end Graph

section Steps

variable {controller next : Controller} {id : String} {sent : Posted} {history history' : History}

/-- The invariant: the table stays without circles however many records enter it. -/
structure Controller.NoCircles (controller : Controller) : Prop where
  lead : controller.leads = true
  acyclic : ∀ count, Acyclic (DependsOn (enterAll controller.state.jobs (controller.desk.channel.take count)))

theorem step_keeps_lead {event : ControllerEvent} (own : event.isLocal = true) (lead : controller.leads = true)
    (taken : controller.step id event history = some (next, sent, history')) : next.leads = true := by
  rw [Controller.leads_iff] at lead ⊢
  generalize same : next.state = state'
  have course := step_course taken
  rw [same] at course
  cases course with
  | quiet _ role | registered _ _ _ role => exact role.trans lead
  | scheduled _ ran => exact (congrArg Prod.fst (schedule_standing ran)).trans lead
  | claimed => exact lead
  | expired order now => exact (congrArg Prod.fst (checkTimeouts_standing order controller.ctx now)).trans lead
  | promoted => rfl
  | followed | synced | deregistered | restarted => cases own

theorem serve_noCircles (valid : controller.NoCircles) {event : DeskEvent}
    (allowed : SendsNoCircle controller (.desk event)) (lead : next.leads = true)
    (taken : controller.serve event = some next) : next.NoCircles := by
  obtain ⟨⟨state, desk⟩, applied, same⟩ := Option.map_eq_some_iff.mp taken
  subst same
  refine ⟨lead, fun count => ?_⟩
  cases deskMove applied with
  | refused | accepted | circular | passed | answered => exact valid.acyclic count
  | @sent index _ _ task submission rest place split _ jobs =>
    simp only [Controller.state, Controller.withState]
    have old := valid.acyclic count
    rw [List.take_append]
    by_cases short : count ≤ controller.desk.channel.length
    · rw [Nat.sub_eq_zero_of_le short, List.take_zero, List.append_nil]
      exact old
    · rw [not_le] at short
      rw [List.take_of_length_le short.le] at old ⊢
      obtain ⟨left, rest⟩ : ∃ left, count - controller.desk.channel.length = left + 1 :=
        ⟨count - controller.desk.channel.length - 1, by omega⟩
      rw [rest, List.take_succ_cons, List.take_nil, enterAll, List.foldl_append]
      refine acyclic_insert old ?_
      refine allowed task (Option.mem_def.mpr place) submission ?_
      rw [jobs]
      exact rfl
  | @processed entered =>
    have role : controller.ctx.state.role = .leader := Controller.leads_iff.mp valid.lead
    simp only [Controller.state, Controller.withState]
    rw [acceptBatch_leader _ _ _ role]
    have whole := valid.acyclic (entered + count)
    rw [List.take_add, enterAll, List.foldl_append] at whole
    exact whole

theorem goes_noCircles {event : ControllerEvent} (valid : controller.NoCircles)
    (taken : Controller.Goes SendsNoCircle controller event next) : next.NoCircles := by
  obtain ⟨⟨own, allowed⟩, id, sent, history, history', stepped⟩ := taken
  have lead := step_keeps_lead own valid.lead stepped
  rcases step_local own stepped with onward | ⟨served, same, applied⟩
  · refine ⟨lead, fun count => (valid.acyclic count).mono ?_⟩
    rw [onward.desk]
    exact (stems_enterAll onward.table _).dependsOn
  · subst same
    exact serve_noCircles valid allowed lead applied

end Steps

/-- If handlers send only records that close no circle with the table and the channel,
the dependencies in the table of a leader never have one. -/
theorem dependencies_acyclic {controller : Controller}
    (reached : Reach Controller.NewLeader (Controller.Goes SendsNoCircle) controller) :
    Acyclic (DependsOn controller.state.jobs) := by
  have valid : controller.NoCircles := by
    refine reached.invariant Controller.NoCircles ?_ fun _ _ _ valid taken => goes_noCircles valid taken
    rintro controller ⟨fresh, lead⟩
    refine ⟨lead, fun count vertex cycle => ?_⟩
    obtain ⟨parent, depends, _⟩ := TransGen.head'_iff.mp cycle
    obtain ⟨job, found, _⟩ := depends
    rw [fresh.desk.2.1, fresh.jobs, List.take_nil] at found
    cases found
  exact valid.acyclic 0

section Sample

def Controller.advance (event : ControllerEvent) (controller : Controller) : Option Controller :=
  if event.isLocal then (controller.step "a" event {}).map Prod.fst else none

def newLeader : Controller where
  ctx := sampleLeader

theorem newLeader_new : newLeader.NewLeader := ⟨⟨rfl, rfl, rfl, rfl, ⟨rfl, rfl, rfl⟩, rfl⟩, rfl⟩

theorem advance_reach {allowed : Controller → ControllerEvent → Prop} {events : List ControllerEvent}
    {controller : Controller} (permitted : AllowedRun allowed Controller.advance events newLeader)
    (ran : runLabels Controller.advance events newLeader = some controller) :
    Reach Controller.NewLeader (Controller.Goes allowed) controller := by
  refine (runLabels_reach (.start newLeader_new) permitted ran).mono ?_
  rintro state event next ⟨permits, taken⟩
  unfold Controller.advance at taken
  split at taken
  · rename_i own
    obtain ⟨⟨after, sent, history⟩, stepped, same⟩ := Option.map_eq_some_iff.mp taken
    subst same
    exact ⟨⟨own, permits⟩, "a", sent, {}, history, stepped⟩
  · cases taken

def graphEvents (first second : List String) : List ControllerEvent :=
  [.desk (.accept {} ⟨"user", ["admin"]⟩ (.submitDag [{ nodeId := "x", task := some { binary := "sh" }, dependsOn := first },
      { nodeId := "y", task := some { binary := "sh" }, dependsOn := second }])),
    .desk (.send 0), .desk (.send 0), .desk (.answer 0), .desk (.process 2)]

theorem dependencies_acyclic_graph : ∃ controller,
    Reach Controller.NewLeader (Controller.Goes SendsNoCircle) controller ∧ DependsOn controller.state.jobs 2 1 ∧
    Acyclic (DependsOn controller.state.jobs) := by
  have facts : ((runLabels Controller.advance (graphEvents [] ["x"]) newLeader).bind fun controller =>
      (controller.state.jobs.get? 2).map JobInfo.parents) = some [1, 1] := by decide +kernel
  have permitted : AllowedRun SendsNoCircle Controller.advance (graphEvents [] ["x"]) newLeader := by decide +kernel
  obtain ⟨controller, ran, facts⟩ := Option.bind_eq_some_iff.mp facts
  obtain ⟨job, found, parents⟩ := Option.map_eq_some_iff.mp facts
  have reached := advance_reach permitted ran
  refine ⟨controller, reached, ⟨job, found, ?_⟩, dependencies_acyclic reached⟩
  rw [parents]
  exact List.mem_cons_self

/-- Two nodes of a graph that wait for each other are accepted, and both jobs wait for
ever. -/
theorem graph_waits_on_itself : ∃ controller,
    Reach Controller.NewLeader (Controller.Goes fun _ _ => True) controller ∧ controller.desk.answered = [1, 2] ∧
    ¬ Acyclic (DependsOn controller.state.jobs) := by
  have facts : ((runLabels Controller.advance (graphEvents ["y"] ["x"]) newLeader).bind fun controller =>
      (controller.state.jobs.get? 1).bind fun first => (controller.state.jobs.get? 2).map fun second =>
        (controller.desk.answered, first.parents, second.parents)) = some ([1, 2], [2, 2], [1, 1]) := by decide +kernel
  have permitted : AllowedRun (fun _ _ => True) Controller.advance (graphEvents ["y"] ["x"]) newLeader := by
    decide +kernel
  obtain ⟨controller, ran, facts⟩ := Option.bind_eq_some_iff.mp facts
  obtain ⟨first, found, facts⟩ := Option.bind_eq_some_iff.mp facts
  obtain ⟨second, found', facts⟩ := Option.map_eq_some_iff.mp facts
  simp only [Prod.mk.injEq] at facts
  refine ⟨controller, advance_reach permitted ran, facts.1, fun acyclic => acyclic 1 ?_⟩
  have there : DependsOn controller.state.jobs 1 2 := ⟨first, found, facts.2.1 ▸ List.mem_cons_self⟩
  have back : DependsOn controller.state.jobs 2 1 := ⟨second, found', facts.2.2 ▸ List.mem_cons_self⟩
  exact .tail (.single there) back

end Sample

end Veloce
