import Veloce.Ha.Descent
import Veloce.Handlers.Desk

/-! What an answer to a submission is worth. -/

namespace Veloce

open Collections

def StaysUp (_ : String) (_ : Controller) : ControllerEvent → Prop
  | .restart .. => False
  | _ => True

instance (id : String) (controller : Controller) (event : ControllerEvent) :
    Decidable (StaysUp id controller event) := by
  unfold StaysUp
  split <;> infer_instance

namespace Desk

/-- Every id that was told, or that a handler is about to tell, is with the handler, in
the channel, or was taken from there. -/
structure Owes (desk : Desk) (taken : JobId → Prop) : Prop where
  answered : ∀ jobId ∈ desk.answered, jobId ∈ desk.channel.map (·.job.id) ∨ taken jobId
  promised : ∀ task ∈ desk.tasks, ∀ jobId ∈ task.ids,
    jobId ∈ task.jobs.map (·.job.id) ∨ jobId ∈ desk.channel.map (·.job.id) ∨ taken jobId

variable {desk : Desk} {taken taken' : JobId → Prop}

theorem Owes.more (owes : desk.Owes taken) (more : ∀ jobId, taken jobId → taken' jobId) : desk.Owes taken' where
  answered jobId told := (owes.answered jobId told).imp_right (more jobId)
  promised task listed jobId member := (owes.promised task listed jobId member).imp_right (.imp_right (more jobId))

end Desk

section Steps

variable {state state' : GlobalState} {desk desk' : Desk} {event : DeskEvent} {taken : JobId → Prop}

theorem DeskMove.owes (move : DeskMove state desk event state' desk') (owes : desk.Owes taken)
    (batch : ∀ count, event = .process count → ∀ jobId ∈ (desk.channel.take count).map (·.job.id), taken jobId) :
    desk'.Owes taken := by
  cases move with
  | refused => exact owes
  | accepted =>
    refine ⟨owes.answered, fun task listed jobId member => ?_⟩
    rcases List.mem_append.mp listed with old | new
    · exact owes.promised task old jobId member
    · cases List.mem_singleton.mp new
      exact .inl member
  | @circular _ before after task split =>
    refine ⟨owes.answered, fun other listed => owes.promised other ?_⟩
    rw [split]
    exact ((List.Sublist.refl before).append (List.sublist_cons_self task after)).subset listed
  | @passed _ before after task split =>
    refine ⟨owes.answered, fun other listed jobId member => ?_⟩
    rw [List.mem_append, List.mem_cons] at listed
    rcases listed with early | same | late
    · exact owes.promised other (split ▸ List.mem_append_left _ early) jobId member
    · subst same
      exact owes.promised task (split ▸ List.mem_append_right _ List.mem_cons_self) jobId member
    · exact owes.promised other (split ▸ List.mem_append_right _ (List.mem_cons_of_mem _ late)) jobId member
  | @sent _ before after task submission rest _ split _ jobs =>
    have grows (jobId : JobId) (member : jobId ∈ desk.channel.map (·.job.id)) :
        jobId ∈ (desk.channel ++ [submission]).map (·.job.id) := by
      rw [List.map_append]
      exact List.mem_append_left _ member
    have kept (other : SubmitTask) (listed : other ∈ desk.tasks) (jobId : JobId) (member : jobId ∈ other.ids) :
        jobId ∈ other.jobs.map (·.job.id) ∨ jobId ∈ (desk.channel ++ [submission]).map (·.job.id) ∨ taken jobId :=
      (owes.promised other listed jobId member).imp_right (.imp_left (grows jobId))
    refine ⟨fun jobId told => (owes.answered jobId told).imp_left (grows jobId), fun other listed jobId member => ?_⟩
    rw [List.mem_append, List.mem_cons] at listed
    rcases listed with early | same | late
    · exact kept other (split ▸ List.mem_append_left _ early) jobId member
    · subst same
      rcases kept task (split ▸ List.mem_append_right _ List.mem_cons_self) jobId member with here | gone
      · rw [jobs, List.map_cons, List.mem_cons] at here
        refine here.elim (fun same => .inr (.inl ?_)) .inl
        rw [same, List.map_append]
        exact List.mem_append_right _ List.mem_cons_self
      · exact .inr gone
    · exact kept other (split ▸ List.mem_append_right _ (List.mem_cons_of_mem _ late)) jobId member
  | @answered _ before after task told split _ jobs outcome =>
    refine ⟨fun jobId answered => ?_, fun other listed => owes.promised other ?_⟩
    · rcases List.mem_append.mp answered with old | new
      · exact owes.answered jobId old
      · rcases outcome with ⟨_, rfl⟩ | ⟨_, rfl⟩
        · refine (owes.promised task (split ▸ List.mem_append_right _ List.mem_cons_self) jobId new).resolve_left ?_
          rw [jobs]
          exact List.not_mem_nil
        · cases new
    · rw [split]
      exact ((List.Sublist.refl before).append (List.sublist_cons_self task after)).subset listed
  | @processed count =>
    have moves (jobId : JobId) (member : jobId ∈ desk.channel.map (·.job.id)) :
        jobId ∈ (desk.channel.drop count).map (·.job.id) ∨ taken jobId := by
      rw [← List.take_append_drop count desk.channel, List.map_append, List.mem_append] at member
      exact member.symm.imp_right (batch count rfl jobId)
    exact ⟨fun jobId told => (owes.answered jobId told).elim (moves jobId) .inr, fun task listed jobId member =>
      (owes.promised task listed jobId member).imp_right fun later => later.elim (moves jobId) .inr⟩

end Steps

theorem step_desk {controller next : Controller} {id : String} {sent : Posted} {history history' : History}
    {event : ControllerEvent} (other : ∀ event', event ≠ .desk event') (up : StaysUp id controller event)
    (taken : controller.step id event history = some (next, sent, history')) : next.desk = controller.desk := by
  cases kind : event.inward with
  | false => exact (step_onward kind taken).desk
  | true =>
    cases step_inward kind taken with
    | desk _ => exact absurd rfl (other _)
    | sync => rfl
    | restart => exact up.elim

def Controller.Entered (controller : Controller) (batch : List Submission) (jobId : JobId) : Prop :=
  (∃ submission ∈ batch, submission.job.id = jobId ∧ controller.state.jobs.get? jobId = some submission.job) ∧
    jobId ∈ controller.state.queue

namespace Cluster

/-- A batch of the controller `id` that takes the record of a job from its channel: a
leader enters it, a follower drops it and changes nothing. -/
def TakesBatch (id : String) (jobId : JobId) (before after : Cluster) : Prop :=
  ∃ count controller controller', before.apply (.on id (.desk (.process count))) = some after ∧
    before.controllers.get? id = some controller ∧ after.controllers.get? id = some controller' ∧
    jobId ∈ (controller.desk.channel.take count).map (·.job.id) ∧
    (controller.leads = true → controller'.Entered (controller.desk.channel.take count) jobId) ∧
    (controller.leads = false → controller'.state = controller.state)

/-- Such a batch was taken in the run up to here. -/
def Took (id : String) (cluster : Cluster) (jobId : JobId) : Prop :=
  ∃ before after, Run StaysUp before ∧ TakesBatch id jobId before after ∧
    Reach (· = after) (fun cluster event next => cluster.Meets StaysUp event ∧ cluster.apply event = some next) cluster

variable {cluster next : Cluster} {id : String} {controller : Controller} {jobId : JobId}

theorem Took.step (took : Took id cluster jobId) {event : ClusterEvent} (meets : cluster.Meets StaysUp event)
    (applied : cluster.apply event = some next) : Took id next jobId := by
  obtain ⟨before, after, reached, batch, goesOn⟩ := took
  exact ⟨before, after, reached, batch, .step goesOn ⟨meets, applied⟩⟩

/-- Records of a batch are in the table afterwards, the last one under each id. -/
theorem get?_insertBatch_id {batch : List Submission} : ∀ {jobs : HashMap JobId JobInfo},
    jobId ∈ batch.map (·.job.id) → ∃ submission ∈ batch, submission.job.id = jobId ∧
      (batch.foldl (fun jobs submission => jobs.insert submission.job.id submission.job) jobs).get? jobId =
        some submission.job := by
  induction batch with
  | nil => intro jobs member; cases member
  | cons head rest ih =>
    intro jobs member
    by_cases later : jobId ∈ rest.map (·.job.id)
    · obtain ⟨submission, listed, same, found⟩ := @ih (jobs.insert head.job.id head.job) later
      exact ⟨submission, List.mem_cons_of_mem _ listed, same, found⟩
    · rw [List.map_cons, List.mem_cons] at member
      have same := member.resolve_right later
      refine ⟨head, List.mem_cons_self, same.symm, ?_⟩
      rw [List.foldl_cons, get?_insertBatch_other later, same, HashMap.get?_insert_self]

theorem apply_on (cluster : Cluster) (id : String) {event : ControllerEvent} (own : event.isLocal = true) :
    cluster.apply (.on id event) = cluster.move id event cluster.wire := by
  rw [apply_eq (fun _ => ClusterEvent.noConfusion)]
  simp only [resolve, own, ↓reduceIte, Option.bind_some]

theorem apply_process {count : Nat} (found : cluster.controllers.get? id = some controller) :
    cluster.apply (.on id (.desk (.process count))) = (processBatch controller.state controller.desk count).map
      fun (state, desk) => { cluster with
        controllers := cluster.controllers.insert id { controller.withState state with desk := desk } } := by
  rw [apply_on cluster id rfl, move, found]
  simp only [Option.bind_some, Controller.step, Controller.serve, DeskEvent.apply, Option.map_map, Function.comp_def,
    List.map_nil, List.append_nil]

theorem takesBatch {count : Nat} (applied : cluster.apply (.on id (.desk (.process count))) = some next)
    (found : cluster.controllers.get? id = some controller)
    (member : jobId ∈ (controller.desk.channel.take count).map (·.job.id)) : TakesBatch id jobId cluster next := by
  have made := applied
  rw [apply_process found] at made
  obtain ⟨⟨state, desk⟩, ran, made⟩ := Option.map_eq_some_iff.mp made
  subst made
  cases @deskMove _ _ _ _ (.process count) ran
  refine ⟨count, controller, _, applied, found, HashMap.get?_insert_self .., member, fun lead => ?_, fun follows => ?_⟩
  · have entered := acceptBatch_leader controller.desk.nextJobId (controller.desk.channel.take count) controller.state
      (Controller.leads_iff.mp lead)
    simp only [Controller.state] at entered
    simp only [Controller.Entered, Controller.state, Controller.withState, entered]
    exact ⟨get?_insertBatch_id member, List.mem_append_right _ member⟩
  · refine acceptBatch_follower (fun role => ?_) _ _
    rw [Controller.leads_iff.mpr role] at follows
    cases follows

/-- At every controller, what was promised is at the desk or was taken. -/
theorem owes (reached : Run StaysUp cluster) : ∀ id controller, cluster.controllers.get? id = some controller →
    controller.desk.Owes (Took id cluster) := by
  induction reached with
  | start fresh =>
    intro id controller found
    have new := (fresh.controllers id controller found).desk
    exact ⟨by simp [new.2.2], by simp [new.1]⟩
  | @step cluster next event reached taken valid =>
    obtain ⟨meets, applied⟩ := taken
    intro id controller found
    rcases apply_cases applied with ⟨same, _⟩ | ⟨moved, cevent, wire, mover, after, sent, resolved, there, stepped, same, _⟩
    · exact (valid id controller (same ▸ found)).more fun _ took => took.step meets applied
    · rw [same, HashMap.get?_insert] at found
      split at found
      · rename_i own
        cases found
        subst own
        have before := (valid id mover there).more fun _ took => Took.step took meets applied
        have up : StaysUp id mover cevent := by
          rw [Meets, resolved] at meets
          exact meets mover there
        by_cases served : ∃ event', cevent = .desk event'
        · obtain ⟨event', rfl⟩ := served
          obtain ⟨served, serves, made⟩ := Option.map_eq_some_iff.mp stepped
          obtain ⟨rfl, _⟩ := Prod.mk.inj made
          obtain ⟨⟨state, desk⟩, ran, made⟩ := Option.map_eq_some_iff.mp serves
          subst made
          refine (deskMove ran).owes before fun count isBatch jobId member => ?_
          subst isBatch
          have event_eq : event = .on id (.desk (.process count)) := by
            cases event with
            | on target cevent =>
              simp only [resolve] at resolved
              split at resolved <;> cases resolved
              rfl
            | deliver index peerHost order now =>
              obtain ⟨envelope, _, made⟩ := Option.map_eq_some_iff.mp resolved
              cases made
            | lose index => cases resolved
            | restart target source standalone maxDbId now => cases resolved
          subst event_eq
          exact ⟨cluster, next, reached, takesBatch applied there member, .start rfl⟩
        · rw [step_desk (fun event' same => served ⟨event', same⟩) up stepped]
          exact before
      · exact (valid id controller found).more fun _ took => took.step meets applied

/-- A leader that runs `submission_processor` empties its channel into the table and
the queue. -/
theorem channel_enters : ∀ (channel : List Submission) {cluster : Cluster} {controller : Controller},
    controller.desk.channel = channel → cluster.controllers.get? id = some controller → controller.leads = true →
    ∃ next controller', runLabels apply (List.replicate channel.length (.on id (.desk (.process 1)))) cluster = some next ∧
      next.controllers.get? id = some controller' ∧ controller'.desk.channel = [] ∧
      controller'.state.jobs = channel.foldl (fun jobs submission => jobs.insert submission.job.id submission.job)
        controller.state.jobs ∧
      controller'.state.queue = controller.state.queue ++ channel.map (·.job.id) := by
  intro channel
  induction channel with
  | nil =>
    intro cluster controller empty found lead
    exact ⟨cluster, controller, rfl, found, empty, rfl, (List.append_nil _).symm⟩
  | cons submission rest ih =>
    intro cluster controller filled found lead
    have batch : processBatch controller.state controller.desk 1 =
        some (controller.state.acceptSubmission submission controller.desk.nextJobId,
          { controller.desk with channel := rest }) := by
      simp only [processBatch, filled, List.length_cons]
      rw [if_pos ⟨Nat.one_pos, by decide, Nat.le_add_left ..⟩]
      rfl
    have entered : controller.state.acceptSubmission submission controller.desk.nextJobId = { controller.state with
        nextJobId := controller.desk.nextJobId
        jobs := controller.state.jobs.insert submission.job.id submission.job
        queue := controller.state.queue ++ [submission.job.id] } := if_pos (Controller.leads_iff.mp lead)
    let served : Controller := { controller.withState { controller.state with
        nextJobId := controller.desk.nextJobId
        jobs := controller.state.jobs.insert submission.job.id submission.job
        queue := controller.state.queue ++ [submission.job.id] } with
      desk := { controller.desk with channel := rest } }
    have applied : cluster.apply (.on id (.desk (.process 1))) =
        some { cluster with controllers := cluster.controllers.insert id served } := by
      rw [apply_process found, batch, entered]
      rfl
    obtain ⟨next, controller', ran, found', empty, jobs, queue⟩ :=
      @ih { cluster with controllers := cluster.controllers.insert id served } served rfl
        (HashMap.get?_insert_self ..) lead
    refine ⟨next, controller', ?_, found', empty, jobs, ?_⟩
    · rw [List.length_cons, List.replicate_succ, runLabels, applied]
      exact ran
    · rw [queue, List.map_cons, ← List.singleton_append, ← List.append_assoc]
      rfl

/-- A job whose id was answered waits in the channel, and batches of a leader enter it;
or a batch took it, which entered it if the controller led then and dropped it if not. -/
theorem answered_waits_or_taken (reached : Run StaysUp cluster) (found : cluster.controllers.get? id = some controller)
    (told : jobId ∈ controller.desk.answered) :
    (jobId ∈ controller.desk.channel.map (·.job.id) ∧ (controller.leads = true → ∃ count next controller',
      runLabels apply (List.replicate count (.on id (.desk (.process 1)))) cluster = some next ∧
      next.controllers.get? id = some controller' ∧ controller'.Entered controller.desk.channel jobId)) ∨
    Took id cluster jobId := by
  refine ((owes reached id controller found).answered jobId told).imp_left fun waits => ⟨waits, fun lead => ?_⟩
  obtain ⟨next, controller', ran, found', _, jobs, queue⟩ := channel_enters controller.desk.channel rfl found lead
  refine ⟨_, next, controller', ran, found', ?_, ?_⟩
  · rw [jobs]
    exact get?_insertBatch_id waits
  · rw [queue]
    exact List.mem_append_right _ waits

/-- The new leader `b` has answered a submission. -/
def answeringRun : List ClusterEvent :=
  sampleConnect ++ [.on "b" (.promote 100)] ++ (sampleRequest.take 4).map fun event => .on "b" (.desk event)

theorem answered_waits_or_taken_job : ∃ cluster controller, Run StaysUp cluster ∧
    cluster.controllers.get? "b" = some controller ∧ controller.desk.answered = [1] ∧ controller.leads = true ∧
    ((1 ∈ controller.desk.channel.map (·.job.id) ∧ (controller.leads = true → ∃ count next controller',
      runLabels apply (List.replicate count (.on "b" (.desk (.process 1)))) cluster = some next ∧
      next.controllers.get? "b" = some controller' ∧ controller'.Entered controller.desk.channel 1)) ∨
    Took "b" cluster 1) := by
  have allowed : AllowedRun (Meets StaysUp) apply answeringRun sampleCluster := by decide +kernel
  have facts : ((runLabels apply answeringRun sampleCluster).bind fun cluster =>
      (cluster.controllers.get? "b").map fun controller => (controller.desk.answered, controller.leads)) =
      some ([1], true) := by decide +kernel
  obtain ⟨cluster, reached, _, facts⟩ := exists_reach_of_bind sampleCluster_fresh allowed facts
  obtain ⟨controller, found, facts⟩ := Option.map_eq_some_iff.mp facts
  simp only [Prod.mk.injEq] at facts
  have told : 1 ∈ controller.desk.answered := by
    rw [facts.1]
    exact List.mem_cons_self
  exact ⟨cluster, controller, reached, found, facts.1, facts.2, answered_waits_or_taken reached found told⟩

/-- What has become of the submissions of a controller. -/
structure DeskView where
  leads : Bool
  answered : List JobId
  channel : List JobId
  jobs : List JobId
  queue : List JobId
deriving DecidableEq

def deskView (controller : Controller) : DeskView :=
  ⟨controller.leads, controller.desk.answered, controller.desk.channel.map (·.job.id), controller.state.jobs.keys,
    controller.state.queue⟩

/-- The leader `b` has answered; it yields to a heartbeat of `a`, and the batch is dropped. -/
theorem yielding_leader_drops_answered : ∃ before after controller controller', Run StaysUp before ∧
    before.apply (.on "b" (.desk (.process 1))) = some after ∧
    before.controllers.get? "b" = some controller ∧ after.controllers.get? "b" = some controller' ∧
    deskView controller = ⟨false, [1], [1], [], []⟩ ∧ deskView controller' = ⟨false, [1], [], [], []⟩ := by
  let events : List ClusterEvent := answeringRun ++ [.on "a" (.beat "b"), .deliver 2 "a" .stored 102]
  obtain ⟨before, ran⟩ : ∃ before, runLabels apply events sampleCluster = some before :=
    Option.isSome_iff_exists.mp (by decide +kernel)
  have allowed : AllowedRun (Meets StaysUp) apply events sampleCluster := by decide +kernel
  have first : ((runLabels apply events sampleCluster).bind fun before =>
      (before.controllers.get? "b").map deskView) = some ⟨false, [1], [1], [], []⟩ := by decide +kernel
  have second : (((runLabels apply events sampleCluster).bind (apply (.on "b" (.desk (.process 1))))).bind fun after =>
      (after.controllers.get? "b").map deskView) = some ⟨false, [1], [], [], []⟩ := by decide +kernel
  rw [ran, Option.bind_some] at first second
  obtain ⟨controller, found, view⟩ := Option.map_eq_some_iff.mp first
  obtain ⟨after, taken, second⟩ := Option.bind_eq_some_iff.mp second
  obtain ⟨controller', found', view'⟩ := Option.map_eq_some_iff.mp second
  exact ⟨before, after, controller, controller', runLabels_reach (.start sampleCluster_fresh) allowed ran, taken,
    found, found', view, view'⟩

end Cluster

end Veloce
