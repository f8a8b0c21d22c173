import Veloce.Ha.Descent
import Veloce.Handlers.Desk

/-! The ids of new jobs. They come from the counter of the process, which a StateSync
does not move: the counter in the state is replicated, the one that handlers draw from
is not. Ids are new as long as every controller that takes over has a counter above
the table it takes over with. -/

namespace Veloce

open Collections

/-- No id that the controller will give out or insert is in the table. -/
structure CountsAbove (controller : Controller) (jobs : HashMap JobId JobInfo) : Prop where
  counter : ∀ jobId ∈ jobs.keys, jobId < controller.desk.nextJobId
  waiting : ∀ jobId ∈ controller.desk.ids, jobId ∉ jobs.keys

instance (controller : Controller) (jobs : HashMap JobId JobInfo) : Decidable (CountsAbove controller jobs) :=
  decidable_of_iff ((∀ jobId ∈ jobs.keys, jobId < controller.desk.nextJobId) ∧
      ∀ jobId ∈ controller.desk.ids, jobId ∉ jobs.keys)
    ⟨fun both => ⟨both.1, both.2⟩, fun above => ⟨above.counter, above.waiting⟩⟩

/-- Whether the counter stays in range is decided once the request is handled. -/
def decidableCounted (handled : Except String Admission) (nextJobId : Nat) :
    Decidable (match handled with
      | .ok admission => nextJobId + admission.idCount < 2 ^ 64
      | .error _ => True) :=
  match handled with
  | .ok admission => inferInstanceAs (Decidable (nextJobId + admission.idCount < 2 ^ 64))
  | .error _ => isTrue trivial

/-- A controller promotes itself, or processes a StateSync as a leader, only with a
counter above the table; the counter does not overflow. -/
def TakesOverAbove (_ : String) (controller : Controller) : ControllerEvent → Prop
  | .promote _ => CountsAbove controller controller.state.jobs
  | .receive _ _ _ _ (.stateSync newState) => controller.leads = true → CountsAbove controller newState.jobs
  | .desk (.accept site principal request) =>
    match request.handle site principal with
    | .ok admission => controller.desk.nextJobId + admission.idCount < 2 ^ 64
    | .error _ => True
  | _ => True

instance (id : String) (controller : Controller) : (event : ControllerEvent) →
    Decidable (TakesOverAbove id controller event)
  | .promote _ => inferInstanceAs (Decidable (CountsAbove controller controller.state.jobs))
  | .receive _ _ _ _ (.stateSync newState) =>
    inferInstanceAs (Decidable (controller.leads = true → CountsAbove controller newState.jobs))
  | .desk (.accept site principal request) => decidableCounted (request.handle site principal) _
  | .desk (.check _) | .desk (.send _) | .desk (.answer _) | .desk (.process _) | .act _ | .hear _ | .drain _
  | .reserve _ | .syncActiveState | .connect _ | .hangUp _ | .beat _ | .restart .. | .receive _ _ _ _ (.heartbeat _)
  | .receive _ _ _ _ (.registerWorker _) | .receive _ _ _ _ (.deregisterWorker _)
  | .receive _ _ _ _ (.batchWorkerHeartbeats _) => isTrue trivial

structure Controller.Numbered (controller : Controller) : Prop where
  desk : controller.desk.Numbered
  table : ∀ jobId ∈ controller.state.jobs.keys, jobId < controller.state.nextJobId
  above : controller.leads = true → CountsAbove controller controller.state.jobs

/-- What a leader may rely on: new ids are not in the table, and neither are those of
the records on their way, which differ from each other. -/
structure Controller.DrawsNewIds (controller : Controller) : Prop where
  accepted : ∀ (site : SubmissionSite) (principal : AuthenticatedPrincipal) (request : SubmitRequest)
    (admission : Admission), request.handle site principal = .ok admission →
    ∀ submission ∈ (admission.build controller.desk.nextJobId).jobs,
      controller.state.jobs.contains submission.job.id = false
  inserted : ∀ submission ∈ controller.desk.channel, controller.state.jobs.contains submission.job.id = false
  distinct : (controller.desk.channel.map (·.job.id)).Nodup

section Steps

variable {controller next : Controller} {id : String} {sent : Posted} {history history' : History}

theorem Stems.keys {jobs jobs' : HashMap JobId JobInfo} (stems : Stems jobs jobs') {jobId : JobId}
    (member : jobId ∈ jobs'.keys) : jobId ∈ jobs.keys := by
  obtain ⟨job', found⟩ := HashMap.mem_keys.mp member
  obtain ⟨job, found, _⟩ := stems jobId job' found
  exact HashMap.mem_keys.mpr ⟨job, found⟩

theorem CountsAbove.fewer {jobs jobs' : HashMap JobId JobInfo} (above : CountsAbove controller jobs)
    (desk : next.desk = controller.desk) (keys : ∀ jobId ∈ jobs'.keys, jobId ∈ jobs.keys) : CountsAbove next jobs' where
  counter jobId member := desk ▸ above.counter jobId (keys jobId member)
  waiting jobId member present := above.waiting jobId (desk ▸ member) (keys jobId present)

theorem Controller.Numbered.onward (valid : controller.Numbered) (onward : controller.Onward next)
    (lead : next.leads = true → CountsAbove controller controller.state.jobs) : next.Numbered where
  desk := onward.desk ▸ valid.desk
  table jobId member := onward.counter ▸ valid.table jobId (onward.table.keys member)
  above leads := (lead leads).fewer onward.desk fun _ => onward.table.keys

theorem mem_insertBatch {batch : List Submission} {jobs : HashMap JobId JobInfo} {jobId : JobId}
    (member : jobId ∈ (batch.foldl (fun jobs submission => jobs.insert submission.job.id submission.job) jobs).keys) :
    jobId ∈ jobs.keys ∨ jobId ∈ batch.map (·.job.id) := by
  obtain ⟨job, found⟩ := HashMap.mem_keys.mp member
  rcases get?_insertBatch found with found | ⟨submission, listed, same, _⟩
  · exact .inl (HashMap.mem_keys.mpr ⟨job, found⟩)
  · exact .inr (List.mem_map.mpr ⟨submission, listed, same⟩)

theorem Desk.mem_ids_channel {desk : Desk} {jobId : JobId} (member : jobId ∈ desk.channel.map (·.job.id)) :
    jobId ∈ desk.ids := List.mem_append_right _ member

theorem Controller.Numbered.processed (valid : controller.Numbered) {count : Nat} (positive : 0 < count)
    (there : count ≤ controller.desk.channel.length) : Controller.Numbered { controller.withState
      (controller.state.acceptBatch (controller.desk.channel.take count) controller.desk.nextJobId) with
      desk := { controller.desk with channel := controller.desk.channel.drop count } } := by
  have fewer : List.Subperm (Desk.ids { controller.desk with channel := controller.desk.channel.drop count })
      controller.desk.ids := ((List.Sublist.refl _).append ((List.drop_sublist ..).map _)).subperm
  by_cases lead : controller.leads = true
  · have above := valid.above lead
    have filled : (controller.desk.channel.take count).isEmpty = false := by
      rw [List.isEmpty_eq_false_iff]
      intro empty
      have length := congrArg List.length empty
      rw [List.length_take, List.length_nil] at length
      omega
    rw [acceptBatch_leader _ _ _ (Controller.leads_iff.mp lead), filled]
    have before (jobId : JobId) (member : jobId ∈ (controller.desk.channel.take count).map (·.job.id)) :
        jobId ∈ controller.desk.ids :=
      Desk.mem_ids_channel (((List.take_sublist ..).map _).subset member)
    have counter (jobId : JobId) (member : jobId ∈ ((controller.desk.channel.take count).foldl
        (fun jobs submission => jobs.insert submission.job.id submission.job) controller.state.jobs).keys) :
        jobId < controller.desk.nextJobId := by
      rcases mem_insertBatch member with old | new
      · exact above.counter jobId old
      · exact valid.desk.below jobId (before jobId new)
    refine ⟨valid.desk.fewer fewer le_rfl, counter, fun _ => ⟨counter, fun jobId member present => ?_⟩⟩
    rcases mem_insertBatch present with old | new
    · exact above.waiting jobId (fewer.subset member) old
    · -- an id of the batch is not left at the desk
      have distinct := valid.desk.distinct
      rw [Desk.ids, ← List.take_append_drop count controller.desk.channel, List.map_append] at distinct
      rcases List.mem_append.mp member with task | left
      · exact (List.nodup_append'.mp distinct).2.2 task (List.mem_append_left _ new)
      · exact (List.nodup_append'.mp (List.nodup_append'.mp distinct).2.1).2.2 new left
  · rw [acceptBatch_follower (fun same => lead (Controller.leads_iff.mpr same))]
    exact ⟨valid.desk.fewer fewer le_rfl, valid.table, fun leads => absurd leads lead⟩

theorem serve_numbered (valid : controller.Numbered) {event : DeskEvent}
    (allowed : TakesOverAbove id controller (.desk event)) (taken : controller.serve event = some next) :
    next.Numbered := by
  obtain ⟨⟨state, desk⟩, applied, same⟩ := Option.map_eq_some_iff.mp taken
  subst same
  have move := deskMove applied
  have shrinks (other : ∀ site principal request, event ≠ .accept site principal request)
      (same : state = controller.state) :
      Controller.Numbered { controller.withState state with desk := desk } := by
    subst same
    obtain ⟨fewer, counter⟩ := move.ids other
    refine ⟨valid.desk.fewer fewer counter.ge, valid.table, fun lead => ?_⟩
    exact ⟨fun jobId member => counter.symm ▸ (valid.above lead).counter jobId member,
      fun jobId member => (valid.above lead).waiting jobId (fewer.subset member)⟩
  cases move with
  | refused => exact valid
  | @accepted site principal request admission admitted =>
    simp only [TakesOverAbove, admitted] at allowed
    have counter : addU64 controller.desk.nextJobId admission.idCount =
        controller.desk.nextJobId + admission.idCount := Nat.mod_eq_of_lt allowed
    refine ⟨valid.desk.accepted admitted allowed, valid.table, fun lead => ?_⟩
    have above := valid.above lead
    refine ⟨fun jobId member => ?_, fun jobId member present => ?_⟩
    · simp only [counter]
      exact (above.counter jobId member).trans_le (Nat.le_add_right ..)
    · simp only [Desk.ids, List.flatMap_append, List.flatMap_singleton, List.mem_append] at member
      rcases member with (task | new) | channel
      · exact above.waiting jobId (List.mem_append_left _ task) present
      · exact absurd (above.counter jobId present) (not_lt.mpr (handle_mem admitted new).1)
      · exact above.waiting jobId (List.mem_append_right _ channel) present
  | circular | passed | sent | answered => exact shrinks (fun _ _ _ => DeskEvent.noConfusion) rfl
  | processed positive bounded there => exact valid.processed positive there

theorem step_numbered {event : ControllerEvent} (valid : controller.Numbered)
    (snapshot : ∀ snapshot, event.snapshot = some snapshot → ∀ jobId ∈ snapshot.jobs.keys, jobId < snapshot.nextJobId)
    (allowed : TakesOverAbove id controller event)
    (taken : controller.step id event history = some (next, sent, history')) : next.Numbered := by
  cases kind : event.inward with
  | false =>
    refine valid.onward (step_onward kind taken) fun lead => ?_
    by_cases promotes : ∃ now, event = .promote now
    · obtain ⟨now, rfl⟩ := promotes
      exact allowed
    · refine valid.above (step_leads (fun now same => promotes ⟨now, same⟩) ?_ taken lead)
      rintro file standalone maxDbId now rfl
      cases kind
  | true =>
    cases step_inward kind taken with
    | desk served => exact serve_numbered valid allowed served
    | sync source peerHost order now newState =>
      refine ⟨valid.desk, snapshot newState rfl, fun lead => ?_⟩
      have above : CountsAbove controller newState.jobs := allowed lead
      exact ⟨above.counter, above.waiting⟩
    | restart file standalone maxDbId now =>
      have table : ∀ jobId ∈ (initialState file standalone maxDbId controller.state.apiPort now).jobs.keys,
          jobId < (initialState file standalone maxDbId controller.state.apiPort now).nextJobId := by
        intro jobId member
        cases file with
        | none => cases member
        | some file =>
          have below := snapshot file rfl jobId member
          simp only [initialState, syncedJobId]
          split
          · rename_i higher
            exact (below.trans_le higher).trans (Nat.lt_succ_self maxDbId)
          · exact below
      refine ⟨⟨List.nodup_nil, fun jobId member => ?_⟩, table, fun _ => ⟨table, fun jobId member => ?_⟩⟩
      · cases member
      · cases member

end Steps

theorem Controller.Fresh.numbered {controller : Controller} (fresh : controller.Fresh) : controller.Numbered := by
  have empty : controller.desk.ids = [] := by
    rw [Desk.ids, fresh.desk.1, fresh.desk.2.1]
    rfl
  have none : controller.state.jobs.keys = [] := by
    rw [fresh.jobs]
    rfl
  exact ⟨⟨empty ▸ List.nodup_nil, by simp [empty]⟩, by simp [none], fun _ => ⟨by simp [none], by simp [empty]⟩⟩

namespace Cluster

variable {cluster : Cluster} {id : String} {controller : Controller}

theorem numbered (reached : Run TakesOverAbove cluster) (found : cluster.controllers.get? id = some controller) :
    controller.Numbered := by
  refine invariant (fun _ controller => controller.Numbered)
    (fun snapshot => ∀ jobId ∈ snapshot.jobs.keys, jobId < snapshot.nextJobId) ?_ ?_ ?_ reached found
  · exact fun _ _ fresh => fresh.numbered
  · exact fun _ _ valid _ => valid.table
  · exact fun _ _ _ _ _ _ _ valid snapshot allowed taken => step_numbered valid snapshot allowed taken

/-- A leader never gives out or inserts an id that its table has. -/
theorem leader_draws_new_ids (reached : Run TakesOverAbove cluster)
    (found : cluster.controllers.get? id = some controller) (lead : controller.leads = true) :
    controller.DrawsNewIds := by
  have valid := numbered reached found
  have above := valid.above lead
  have absent (jobId : JobId) (none : jobId ∉ controller.state.jobs.keys) :
      controller.state.jobs.contains jobId = false := by
    rw [Bool.eq_false_iff, Ne, HashMap.contains_iff, ← HashMap.mem_keys]
    exact none
  refine ⟨fun site principal request admission admitted submission member => absent _ fun present => ?_,
    fun submission member => absent _ (above.waiting _ ?_), ?_⟩
  · have new := handle_mem admitted (List.mem_map.mpr ⟨submission, member, rfl⟩)
    exact absurd (above.counter _ present) (not_lt.mpr new.1)
  · exact Desk.mem_ids_channel (List.mem_map.mpr ⟨submission, member, rfl⟩)
  · exact valid.desk.distinct.sublist (List.sublist_append_right ..)

/-- The follower `b` takes over after it has raised its own counter by a request that
it answered and dropped. -/
theorem leader_draws_new_ids_takeover : ∃ cluster controller, Run TakesOverAbove cluster ∧
    cluster.controllers.get? "b" = some controller ∧ controller.leads = true ∧
    controller.state.jobs.keys = [1] ∧ controller.desk.nextJobId = 2 ∧ controller.DrawsNewIds := by
  let events : List ClusterEvent := gatewayRun ++ [.deliver 1 "a" .stored 101] ++
    sampleRequest.map (fun event => .on "b" (.desk event)) ++ [.on "b" (.promote 200)]
  have allowed : AllowedRun (Meets TakesOverAbove) apply events sampleCluster := by decide +kernel
  have facts : ((runLabels apply events sampleCluster).bind fun cluster =>
      (cluster.controllers.get? "b").map fun controller =>
        (controller.leads, controller.state.jobs.keys, controller.desk.nextJobId)) = some (true, [1], 2) := by
    decide +kernel
  obtain ⟨cluster, reached, _, facts⟩ := exists_reach_of_bind sampleCluster_fresh allowed facts
  obtain ⟨controller, found, facts⟩ := Option.map_eq_some_iff.mp facts
  simp only [Prod.mk.injEq] at facts
  exact ⟨cluster, controller, reached, found, facts.1, facts.2.1, facts.2.2,
    leader_draws_new_ids reached found facts.1⟩

def OneLeader (cluster : Cluster) : Prop := (cluster.controllers.values.filter Controller.leads).length ≤ 1

instance (cluster : Cluster) : Decidable cluster.OneLeader := inferInstanceAs (Decidable (_ ≤ _))

/-- The leader `a` accepts a job and restarts as a follower; `b`, which has the job from
a StateSync, promotes itself. -/
def succession : List ClusterEvent :=
  sampleConnect ++ (sampleRequest (.submit { binary := "sh", jobName := some "first" })).map
    (fun event => .on "a" (.desk event)) ++
    [.on "a" (.act (.schedule { now := 100 })), .deliver 1 "a" .stored 101, .restart "a" "a" false 0 200,
      .on "b" (.promote 300)]

/-- The new leader gives the id of the job in its table to the next submission, whose
record replaces the other one. -/
theorem new_leader_reuses_id : ∃ cluster next controller controller' job job',
    Reach Fresh (fun cluster event next => cluster.OneLeader ∧ cluster.apply event = some next) cluster ∧
    cluster.OneLeader ∧ cluster.controllers.get? "b" = some controller ∧ controller.leads = true ∧
    Reach (· = cluster) (fun cluster event next => cluster.OneLeader ∧ cluster.apply event = some next) next ∧
    next.controllers.get? "b" = some controller' ∧ controller'.desk.answered = [1] ∧
    controller.state.jobs.get? 1 = some job ∧ job.jobName = some "first" ∧
    controller'.state.jobs.get? 1 = some job' ∧ job'.jobName = some "second" := by
  let again : List ClusterEvent := (sampleRequest (.submit { binary := "sh", jobName := some "second" })).map
    fun event => .on "b" (.desk event)
  obtain ⟨cluster, ran⟩ : ∃ cluster, runLabels apply succession sampleCluster = some cluster :=
    Option.isSome_iff_exists.mp (by decide +kernel)
  have allowed : AllowedRun (fun cluster _ => cluster.OneLeader) apply succession sampleCluster := by decide +kernel
  have both : ((runLabels apply succession sampleCluster).bind (runLabels apply again)).isSome = true := by
    decide +kernel
  have allowed' : (runLabels apply succession sampleCluster).map (fun cluster => decide (cluster.OneLeader ∧
      AllowedRun (fun cluster _ => cluster.OneLeader) apply again cluster)) = some true := by decide +kernel
  have first : ((runLabels apply succession sampleCluster).bind fun cluster =>
      (cluster.controllers.get? "b").bind fun controller => (controller.state.jobs.get? 1).map fun job =>
        (controller.leads, job.jobName)) = some (true, some "first") := by decide +kernel
  have second : (((runLabels apply succession sampleCluster).bind (runLabels apply again)).bind fun next =>
      (next.controllers.get? "b").bind fun controller => (controller.state.jobs.get? 1).map fun job =>
        (controller.desk.answered, job.jobName)) = some ([1], some "second") := by decide +kernel
  rw [ran] at both first second allowed'
  rw [Option.bind_some] at both first second
  rw [Option.map_some, Option.some.injEq, decide_eq_true_eq] at allowed'
  obtain ⟨next, goes⟩ := Option.isSome_iff_exists.mp both
  rw [goes, Option.bind_some] at second
  obtain ⟨controller, found, first⟩ := Option.bind_eq_some_iff.mp first
  obtain ⟨job, stored, first⟩ := Option.map_eq_some_iff.mp first
  obtain ⟨controller', found', second⟩ := Option.bind_eq_some_iff.mp second
  obtain ⟨job', stored', second⟩ := Option.map_eq_some_iff.mp second
  simp only [Prod.mk.injEq] at first second
  exact ⟨cluster, next, controller, controller', job, job', runLabels_reach (.start sampleCluster_fresh) allowed ran,
    allowed'.1, found, first.1, runLabels_reach (.start rfl) allowed'.2 goes, found', second.1, stored, first.2,
    stored', second.2⟩

end Cluster

end Veloce
