import Veloce.Collections.Run
import Veloce.Handlers.Launch

/-! The cores of a job that its steps occupy. -/

namespace Veloce

open Collections

def StepMessage.key : StepMessage → StepKey
  | .stepStarted key | .stepDone key _ | .stepError key _ | .stepOutput key _ _ => key

def StepMessage.status : StepMessage → Option StepStatus
  | .stepStarted _ => some .running
  | .stepDone _ exitCode => some (.completed exitCode)
  | .stepError _ error => some (.failed error)
  | .stepOutput _ _ _ => none

/-- The steps of the controller and what their workers make of them: `active` are the orders
that are not over yet, `processes` the steps that have a process on a worker. -/
structure StepSite where
  state : GlobalState
  board : StepBoard := {}
  active : List (WorkerId × StepKey) := []
  processes : List (WorkerId × StepKey) := []

inductive StepEvent where
  /-- The rest of the controller changes its tables. -/
  | table (state : GlobalState)
  | submit (request : StepRequest)
  | schedule (order : IterOrder Unit)
  | report (workerId : WorkerId) (msg : StepMessage)
  | spawn (workerId : WorkerId) (key : StepKey)
  /-- The last process of the step on the worker has ended. -/
  | exit (workerId : WorkerId) (key : StepKey)
  /-- The order is over on the worker, or never arrived. -/
  | finish (workerId : WorkerId) (key : StepKey)

namespace StepBoard

def ordered (board : StepBoard) : List (WorkerId × StepKey) := board.outbox.map fun sent => (sent.1, sent.2.key)

/-- Sum of the cores of the Running steps of a job. -/
def runningCores (board : StepBoard) (jobId : JobId) : Nat :=
  board.steps.total fun key step => if key.1 = jobId ∧ step.status = .running then step.reqCores else 0

/-- No addition leaves the range of `u32` while the waiting steps are gone through. -/
def NoWrap (cores : Nat) : Nat → List (StepId × StepInfo) → Prop
  | _, [] => True
  | used, step :: rest => used + step.2.reqCores < 2 ^ 32 ∧
      NoWrap cores (if used + step.2.reqCores ≤ cores then used + step.2.reqCores else used) rest

instance NoWrap.decidable (cores : Nat) :
    ∀ (used : Nat) (steps : List (StepId × StepInfo)), Decidable (NoWrap cores used steps)
  | _, [] => isTrue trivial
  | used, step :: rest =>
    have : Decidable (NoWrap cores (if used + step.2.reqCores ≤ cores then used + step.2.reqCores else used) rest) :=
      NoWrap.decidable cores _ rest
    inferInstanceAs (Decidable (_ ∧ _))

end StepBoard

namespace StepSite

/-- A report comes from a worker that was sent the step, however late or often. -/
def apply (event : StepEvent) (site : StepSite) : Option StepSite :=
  match event with
  | .table state => some { site with state := state }
  | .submit request =>
    match site.board.submitStep site.state request with
    | .ok (_, board) => some { site with board := board }
    | .error _ => some site
  | .schedule order =>
    let board := site.board.scheduleSteps order site.state
    some { site with board := board, active := site.active ++ board.ordered.drop site.board.ordered.length }
  | .report workerId msg =>
    if (workerId, msg.key) ∈ site.board.ordered then some { site with board := site.board.handle msg } else none
  | .spawn workerId key =>
    if (workerId, key) ∈ site.active then some { site with processes := (workerId, key) :: site.processes } else none
  | .exit workerId key => some { site with processes := site.processes.filter (· ≠ (workerId, key)) }
  | .finish workerId key =>
    if (workerId, key) ∈ site.processes then none
    else some { site with active := site.active.erase (workerId, key) }

/-- Sum of the cores of the steps of a job that have a process on an assigned worker. -/
def busyCores (site : StepSite) (jobId : JobId) : Nat :=
  site.board.steps.total fun key step =>
    if key.1 = jobId ∧ ∃ workerId ∈ step.assignedWorkers, (workerId, key) ∈ site.processes then step.reqCores else 0

/-- A job with steps keeps its cores as long as it is in the table; they are `u32`. -/
def Genuine (site : StepSite) : StepEvent → Prop
  | .table state => ∀ entry ∈ state.jobs.toList, entry.2.reqCores < 2 ^ 32 ∧
      ((∃ job ∈ site.state.jobs.get? entry.1, job.reqCores = entry.2.reqCores) ∨
        ∀ step ∈ site.board.steps.toList, step.1.1 ≠ entry.1)
  | _ => True

/-- A step gets a key of its own, the sums of a pass stay in the range of `u32`, a step that is
over is not reported as started, and it is reported as over when no worker is at it any more. -/
def Careful (site : StepSite) : StepEvent → Prop
  | .submit request => site.board.steps.get? (request.parentJobId, site.board.nextStepId) = none
  | .schedule _ => ∀ entry ∈ site.state.jobs.toList, entry.2.status = .running →
      StepBoard.NoWrap entry.2.reqCores (site.board.runningCores entry.1) (site.board.pendingSteps entry.1)
  | .report _ (.stepStarted key) => ∀ step ∈ site.board.steps.get? key, step.status.ended = false
  | .report _ (.stepDone key _) | .report _ (.stepError key _) => ∀ held ∈ site.active, held.2 ≠ key
  | _ => True

/-- No step was submitted yet. -/
structure Start (site : StepSite) : Prop where
  cores : ∀ jobId job, site.state.jobs.get? jobId = some job → job.reqCores < 2 ^ 32
  steps : site.board.steps = ∅
  outbox : site.board.outbox = []
  active : site.active = []
  processes : site.processes = []

def CarefulStep (site : StepSite) (event : StepEvent) (next : StepSite) : Prop :=
  site.Genuine event ∧ site.Careful event ∧ site.apply event = some next

end StepSite

namespace StepBoard

variable {state : GlobalState} {board board' board'' : StepBoard} {key : StepKey} {jobId : JobId}

section Sums

private theorem foldl_addU32 (values : List Nat) : ∀ start, start < 2 ^ 32 →
    values.foldl addU32 start = (start + values.sum) % 2 ^ 32 := by
  induction values with
  | nil =>
    intro start bound
    exact (Nat.mod_eq_of_lt bound).symm
  | cons value rest ih =>
    intro start _
    rw [List.foldl_cons, addU32, ih _ (Nat.mod_lt _ (by decide)), List.sum_cons, Nat.mod_add_mod, Nat.add_assoc]

/-- The sum of the controller is the true one modulo the range of `u32`. -/
private theorem coresUsed_eq (board : StepBoard) (jobId : JobId) : board.coresUsed jobId = board.runningCores jobId % 2 ^ 32 := by
  rw [coresUsed, foldl_addU32 _ 0 (by decide), Nat.zero_add, runningCores, HashMap.total]
  congr 1
  induction board.steps.toList with
  | nil => rfl
  | cons entry rest ih =>
    by_cases counts : entry.1.1 = jobId ∧ entry.2.status = .running
    · rw [List.filter_cons_of_pos (by simpa using counts), List.map_cons, List.map_cons, List.sum_cons, List.sum_cons,
        ih, if_pos counts]
    · rw [List.filter_cons_of_neg (by simpa using counts), List.map_cons, List.sum_cons, ih, if_neg counts, Nat.zero_add]

private theorem pickSteps_sublist (cores : Nat) (steps : List (StepId × StepInfo)) : ∀ used,
    (pickSteps cores used steps).Sublist steps := by
  induction steps with
  | nil => intro used; exact .refl _
  | cons step rest ih =>
    intro used
    rw [pickSteps]
    split
    · exact (ih _).cons_cons step
    · exact (ih _).cons step

/-- What is picked fits beside the cores in use, as long as no sum leaves the range. -/
private theorem pickSteps_fits {cores : Nat} {steps : List (StepId × StepInfo)} : ∀ {used}, used ≤ cores →
    NoWrap cores used steps → used + ((pickSteps cores used steps).map fun step => step.2.reqCores).sum ≤ cores := by
  induction steps with
  | nil =>
    intro used bound _
    exact bound
  | cons step rest ih =>
    intro used bound ⟨small, after⟩
    have exact_sum : addU32 used step.2.reqCores = used + step.2.reqCores := Nat.mod_eq_of_lt small
    rw [pickSteps, exact_sum]
    split
    · rename_i fits
      rw [if_pos fits] at after
      have bound' := ih fits after
      rw [List.map_cons, List.sum_cons]
      omega
    · rename_i tooBig
      rw [if_neg tooBig] at after
      exact ih bound after

end Sums

section Dispatch

def request (board : StepBoard) (key : StepKey) : Nat := ((board.steps.get? key).map StepInfo.reqCores).getD 0

private theorem dispatchStep_cases (state : GlobalState) (board : StepBoard) (key : StepKey) :
    dispatchStep state board key = board ∨
    ∃ job step, board.steps.get? key = some step ∧ dispatchStep state board key = { board with
      steps := board.steps.insert key { step with
        assignedWorkers := job.assignedWorkers.take step.reqNodes
        status := .running }
      outbox := board.outbox ++ runMessages state job key step } := by
  cases known : state.jobs.get? key.1 with
  | none => exact .inl (by simp [dispatchStep, performStepDispatch, known])
  | some job =>
    cases found : board.steps.get? key with
    | none => exact .inl (by simp [dispatchStep, performStepDispatch, known, found])
    | some step => exact .inr ⟨job, step, rfl, by simp [dispatchStep, performStepDispatch, known, found]⟩

/-- Steps are dispatched: none is lost or changes its request, their statuses stay or become
Running, and the orders are for Running steps. -/
structure Dispatched (board board' : StepBoard) : Prop where
  kept : ∀ key step, board.steps.get? key = some step → ∃ step', board'.steps.get? key = some step' ∧
    step'.reqCores = step.reqCores ∧ (step'.status = step.status ∨ step'.status = .running)
  orders : ∃ sent, board'.ordered = board.ordered ++ sent ∧
    ∀ order ∈ sent, ∃ step, board'.steps.get? order.2 = some step ∧ step.status = .running

namespace Dispatched

theorem refl (board : StepBoard) : Dispatched board board where
  kept _ step found := ⟨step, found, rfl, .inl rfl⟩
  orders := ⟨[], (List.append_nil _).symm, fun _ member => absurd member List.not_mem_nil⟩

theorem running (later : Dispatched board board')
    (runs : ∃ step, board.steps.get? key = some step ∧ step.status = .running) :
    ∃ step, board'.steps.get? key = some step ∧ step.status = .running := by
  obtain ⟨step, found, runs⟩ := runs
  obtain ⟨step', found', _, same | now⟩ := later.kept key step found
  · exact ⟨step', found', same.trans runs⟩
  · exact ⟨step', found', now⟩

theorem trans (first : Dispatched board board') (second : Dispatched board' board'') : Dispatched board board'' := by
  refine ⟨fun key step found => ?_, ?_⟩
  · obtain ⟨step', found', cores, status⟩ := first.kept key step found
    obtain ⟨step'', found'', cores', status'⟩ := second.kept key step' found'
    refine ⟨step'', found'', cores'.trans cores, ?_⟩
    rcases status' with same | now
    · exact status.imp same.trans same.trans
    · exact .inr now
  · obtain ⟨sent, grown, runs⟩ := first.orders
    obtain ⟨sent', grown', runs'⟩ := second.orders
    refine ⟨sent ++ sent', by rw [grown', grown, List.append_assoc], fun order member => ?_⟩
    rcases List.mem_append.mp member with early | late
    · exact second.running (runs order early)
    · exact runs' order late

end Dispatched

private theorem dispatched_dispatchStep (state : GlobalState) (board : StepBoard) (key : StepKey) :
    Dispatched board (dispatchStep state board key) := by
  obtain same | ⟨job, step, found, after⟩ := dispatchStep_cases state board key
  · rw [same]
    exact .refl board
  · rw [after]
    refine ⟨fun other step' found' => ?_, ?_⟩
    · by_cases own : other = key
      · subst own
        rw [found, Option.some.injEq] at found'
        subst found'
        exact ⟨_, HashMap.get?_insert_self .., rfl, .inr rfl⟩
      · exact ⟨step', by rw [HashMap.get?_insert, if_neg own, found'], rfl, .inl rfl⟩
    · refine ⟨(runMessages state job key step).map fun sent : WorkerId × RunStep => (sent.1, sent.2.key),
        by simp [ordered], ?_⟩
      intro order member
      obtain ⟨sent, inside, same⟩ := List.mem_map.mp member
      obtain ⟨target, _, made⟩ := List.mem_map.mp inside
      have own : order.2 = key := by rw [← same, ← made]; rfl
      exact ⟨_, by rw [own]; exact HashMap.get?_insert_self .., rfl⟩

/-- A dispatch takes at most the request of its step. -/
private theorem runningCores_dispatchStep (state : GlobalState) (board : StepBoard) (key : StepKey) (jobId : JobId) :
    (dispatchStep state board key).runningCores jobId ≤
      board.runningCores jobId + if key.1 = jobId then board.request key else 0 := by
  obtain same | ⟨job, step, found, after⟩ := dispatchStep_cases state board key
  · rw [same]
    exact Nat.le_add_right _ _
  · rw [after, request, found]
    have sum := HashMap.total_replace found { step with
      assignedWorkers := job.assignedWorkers.take step.reqNodes
      status := .running } fun key step => if key.1 = jobId ∧ step.status = .running then step.reqCores else 0
    simp only [and_true] at sum
    simp only [runningCores, Option.map_some, Option.getD_some]
    omega

private theorem request_dispatchStep (state : GlobalState) (board : StepBoard) (key other : StepKey) :
    (dispatchStep state board key).request other = board.request other := by
  obtain same | ⟨job, step, found, after⟩ := dispatchStep_cases state board key
  · rw [same]
  · rw [after, request, request, HashMap.get?_insert]
    split
    · rename_i own
      rw [own, found]
      rfl
    · rfl

def requested (board : StepBoard) (jobId : JobId) (keys : List StepKey) : Nat :=
  ((keys.filter fun key => key.1 = jobId).map board.request).sum

private theorem requested_congr (same : ∀ key, board'.request key = board.request key) (jobId : JobId) (keys : List StepKey) :
    board'.requested jobId keys = board.requested jobId keys := by
  simp [requested, funext same]

private theorem dispatch_all (state : GlobalState) (keys : List StepKey) : ∀ board : StepBoard,
    Dispatched board (keys.foldl (dispatchStep state) board) ∧ ∀ jobId,
      (keys.foldl (dispatchStep state) board).runningCores jobId ≤
        board.runningCores jobId + board.requested jobId keys := by
  induction keys with
  | nil => intro board; exact ⟨.refl board, fun _ => Nat.le_add_right _ _⟩
  | cons key rest ih =>
    intro board
    obtain ⟨later, bound⟩ := ih (dispatchStep state board key)
    refine ⟨(dispatched_dispatchStep state board key).trans later, fun jobId => ?_⟩
    have first := runningCores_dispatchStep state board key jobId
    have others := bound jobId
    rw [requested_congr (request_dispatchStep state board key)] at others
    rw [List.foldl_cons]
    have split_sum : board.requested jobId (key :: rest) =
        (if key.1 = jobId then board.request key else 0) + board.requested jobId rest := by
      by_cases own : key.1 = jobId <;> simp [requested, own]
    omega

private theorem dispatch_other (state : GlobalState) {keys : List StepKey} (other : key ∉ keys) : ∀ board : StepBoard,
    (keys.foldl (dispatchStep state) board).steps.get? key = board.steps.get? key := by
  induction keys with
  | nil => intro board; rfl
  | cons first rest ih =>
    intro board
    obtain ⟨different, outside⟩ := not_or.mp (mt List.mem_cons.mpr other)
    rw [List.foldl_cons, ih outside]
    obtain same | ⟨job, step, _, after⟩ := dispatchStep_cases state board first
    · rw [same]
    · rw [after, HashMap.get?_insert, if_neg different]

end Dispatch

section Schedule

private theorem mem_pendingSteps {stepId : StepId} {step : StepInfo} (member : (stepId, step) ∈ board.pendingSteps jobId) :
    board.steps.get? (jobId, stepId) = some step ∧ step.status = .pending := by
  rw [pendingSteps, List.mem_insertionSort, List.mem_map] at member
  obtain ⟨⟨⟨parent, number⟩, info⟩, inside, same⟩ := member
  obtain ⟨listed, fits⟩ := List.mem_filter.mp inside
  cases same
  simp only [Bool.and_eq_true, decide_eq_true_eq] at fits
  obtain ⟨rfl, waits⟩ := fits
  exact ⟨HashMap.mem_toList.mp listed, waits⟩

private theorem mem_jobSteps (member : key ∈ jobSteps state board jobId) :
    key.1 = jobId ∧ ∃ step, board.steps.get? key = some step ∧ step.status = .pending := by
  unfold jobSteps at member
  split at member
  · split at member
    · exact absurd member List.not_mem_nil
    · obtain ⟨⟨stepId, step⟩, picked, rfl⟩ := List.mem_map.mp member
      exact ⟨rfl, step, mem_pendingSteps ((pickSteps_sublist _ _ _).mem picked)⟩
  · exact absurd member List.not_mem_nil

/-- Each job has its turn once. -/
private theorem filter_flatMap_jobSteps (state : GlobalState) (board : StepBoard) (jobId : JobId) {jobs : List JobId}
    (distinct : jobs.Nodup) :
    (jobs.flatMap (jobSteps state board)).filter (fun key => key.1 = jobId) =
      if jobId ∈ jobs then jobSteps state board jobId else [] := by
  induction jobs with
  | nil => rfl
  | cons first rest ih =>
    obtain ⟨fresh, distinct⟩ := List.nodup_cons.mp distinct
    rw [List.flatMap_cons, List.filter_append, ih distinct]
    by_cases own : first = jobId
    · subst own
      have all : (jobSteps state board first).filter (fun key => key.1 = first) = jobSteps state board first :=
        List.filter_eq_self.mpr fun key member => decide_eq_true (mem_jobSteps member).1
      simp [all, fresh]
    · have none : (jobSteps state board first).filter (fun key => key.1 = jobId) = [] :=
        List.filter_eq_nil_iff.mpr fun key member => by simp [(mem_jobSteps member).1, own]
      simp [none, Ne.symm own]

/-- The steps that one pass dispatches. -/
def toDispatch (order : IterOrder Unit) (state : GlobalState) (board : StepBoard) : List StepKey :=
  (order.shuffle () board.waitingJobs).flatMap (jobSteps state board)

variable {order : IterOrder Unit}

private theorem scheduleSteps_eq :
    scheduleSteps order state board = (toDispatch order state board).foldl (dispatchStep state) board := rfl

private theorem mem_toDispatch (member : key ∈ toDispatch order state board) :
    ∃ step, board.steps.get? key = some step ∧ step.status = .pending := by
  obtain ⟨jobId, _, inside⟩ := List.mem_flatMap.mp member
  exact (mem_jobSteps inside).2

private theorem jobSteps_fit {job : JobInfo} (found : state.jobs.get? jobId = some job) (small : job.reqCores < 2 ^ 32)
    (within : board.runningCores jobId ≤ job.reqCores)
    (noWrap : job.status = .running → NoWrap job.reqCores (board.runningCores jobId) (board.pendingSteps jobId)) :
    board.runningCores jobId + ((jobSteps state board jobId).map board.request).sum ≤ job.reqCores := by
  simp only [jobSteps, found]
  split
  · simpa using within
  · rename_i runs
    have used : board.coresUsed jobId = board.runningCores jobId := by
      rw [coresUsed_eq, Nat.mod_eq_of_lt (Nat.lt_of_le_of_lt within small)]
    have requests : ∀ step ∈ pickSteps job.reqCores (board.runningCores jobId) (board.pendingSteps jobId),
        (board.request ∘ fun step => (jobId, step.1)) step = step.2.reqCores := by
      intro step picked
      rw [Function.comp_apply, request, (mem_pendingSteps ((pickSteps_sublist _ _ _).mem picked)).1]
      rfl
    rw [used, List.map_map, List.map_congr_left requests]
    exact pickSteps_fits within (noWrap (Decidable.not_not.mp runs))

private theorem runningCores_scheduleSteps {job : JobInfo} (found : state.jobs.get? jobId = some job)
    (small : job.reqCores < 2 ^ 32) (within : board.runningCores jobId ≤ job.reqCores)
    (noWrap : job.status = .running → NoWrap job.reqCores (board.runningCores jobId) (board.pendingSteps jobId)) :
    (scheduleSteps order state board).runningCores jobId ≤ job.reqCores := by
  have bound := (dispatch_all state (toDispatch order state board) board).2 jobId
  have distinct : (order.shuffle () board.waitingJobs).Nodup := IterOrder.shuffle_nodup (List.nodup_dedup _)
  have fit := jobSteps_fit found small within noWrap
  rw [requested, toDispatch, filter_flatMap_jobSteps state board jobId distinct] at bound
  rw [scheduleSteps_eq, toDispatch]
  split at bound
  · exact bound.trans fit
  · exact bound.trans (by simpa using within)

end Schedule

section Submit

private theorem submitStep_ok {request : StepRequest} {stepId : StepId}
    (accepted : board.submitStep state request = .ok (stepId, board')) :
    stepId = board.nextStepId ∧ board' = { board with
      nextStepId := addU32 board.nextStepId 1
      steps := board.steps.insert (request.parentJobId, board.nextStepId) (request.info board.nextStepId) } := by
  unfold submitStep at accepted
  split at accepted
  · cases accepted
  · split at accepted
    · cases accepted
    · split at accepted
      · cases accepted
      · cases accepted
        exact ⟨rfl, rfl⟩

/-- A step with a key of its own leaves the others in the table. -/
private theorem submitStep_keeps {request : StepRequest} {stepId : StepId} {step : StepInfo}
    (accepted : board.submitStep state request = .ok (stepId, board'))
    (fresh : board.steps.get? (request.parentJobId, board.nextStepId) = none) (found : board.steps.get? key = some step) :
    board'.steps.get? key = some step := by
  obtain ⟨_, rfl⟩ := submitStep_ok accepted
  rw [HashMap.get?_insert, if_neg fun own => ?_, found]
  rw [own, fresh] at found
  cases found

end Submit

section Report

private theorem handle_steps (board : StepBoard) (msg : StepMessage) :
    (board.handle msg).steps = match msg.status with
      | some status => (board.setStatus msg.key status).steps
      | none => board.steps := by
  cases msg with
  | stepStarted about => rfl
  | stepDone about exitCode => rfl
  | stepError about error => rfl
  | stepOutput about isStderr data =>
    rw [handle, forward]
    split
    · rfl
    · rfl

private theorem handle_ordered (board : StepBoard) (msg : StepMessage) : (board.handle msg).ordered = board.ordered := by
  cases msg with
  | stepStarted about => rfl
  | stepDone about exitCode => rfl
  | stepError about error => rfl
  | stepOutput about isStderr data =>
    rw [handle, forward]
    split
    · rfl
    · rfl

private theorem get?_handle (board : StepBoard) (msg : StepMessage) {step : StepInfo} (found : board.steps.get? key = some step) :
    ∃ step', (board.handle msg).steps.get? key = some step' ∧
      (step'.status = step.status ∨ msg.key = key ∧ msg.status = some step'.status) := by
  rw [handle_steps]
  cases told : msg.status with
  | none => exact ⟨step, found, .inl rfl⟩
  | some status =>
    simp only [setStatus, HashMap.get?_modify]
    split
    · rename_i own
      subst own
      exact ⟨_, congrArg (Option.map _) found, .inr ⟨rfl, rfl⟩⟩
    · exact ⟨step, found, .inl rfl⟩

private theorem runningCores_setStatus (status : StepStatus)
    (calm : ∀ step ∈ board.steps.get? key, status = .running → step.status = .running) (jobId : JobId) :
    (board.setStatus key status).runningCores jobId ≤ board.runningCores jobId := by
  cases found : board.steps.get? key with
  | none => rw [setStatus, HashMap.modify, found]
  | some step =>
    have sum := HashMap.total_replace found { step with status := status }
      fun key step => if key.1 = jobId ∧ step.status = .running then step.reqCores else 0
    have less : (if key.1 = jobId ∧ status = .running then step.reqCores else 0) ≤
        if key.1 = jobId ∧ step.status = .running then step.reqCores else 0 := by
      split
      · rename_i runs
        rw [if_pos ⟨runs.1, calm step found runs.2⟩]
      · exact Nat.zero_le _
    simp only at sum
    rw [setStatus, HashMap.modify, found]
    simp only [runningCores]
    omega

private theorem runningCores_handle (msg : StepMessage)
    (calm : ∀ step ∈ board.steps.get? msg.key, msg.status = some .running → step.status = .running) (jobId : JobId) :
    (board.handle msg).runningCores jobId ≤ board.runningCores jobId := by
  rw [runningCores, handle_steps]
  cases told : msg.status with
  | none => exact Nat.le_refl _
  | some status =>
    exact runningCores_setStatus status (fun step found now => calm step found (told.trans (congrArg _ now))) jobId

end Report

end StepBoard

namespace StepSite

variable {site next : StepSite} {event : StepEvent}

/-- The Running steps of a job fit in, what has a process is Running, and every step that was
sent has been dispatched. -/
structure Kept (site : StepSite) : Prop where
  cores : ∀ jobId job, site.state.jobs.get? jobId = some job → job.reqCores < 2 ^ 32
  within : ∀ jobId job, site.state.jobs.get? jobId = some job → site.board.runningCores jobId ≤ job.reqCores
  processes : ∀ held ∈ site.processes, held ∈ site.active
  active : ∀ held ∈ site.active, ∃ step, site.board.steps.get? held.2 = some step ∧ step.status = .running
  ordered : ∀ held ∈ site.board.ordered, ∃ step, site.board.steps.get? held.2 = some step ∧ step.status ≠ .pending

theorem Start.kept (start : site.Start) : site.Kept := by
  refine ⟨start.cores, fun jobId job _ => ?_, ?_, ?_, ?_⟩
  · rw [StepBoard.runningCores, start.steps]
    exact Nat.zero_le _
  · simp [start.processes]
  · simp [start.active]
  · simp [StepBoard.ordered, start.outbox]

namespace Kept

theorem table (kept : site.Kept) {state : GlobalState} (genuine : site.Genuine (.table state)) :
    ({ site with state := state } : StepSite).Kept := by
  refine ⟨fun jobId job found => (genuine _ (HashMap.mem_toList.mpr found)).1, fun jobId job found => ?_,
    kept.processes, kept.active, kept.ordered⟩
  rcases (genuine _ (HashMap.mem_toList.mpr found)).2 with ⟨old, found', same⟩ | unused
  · exact same ▸ kept.within jobId old found'
  · have none : site.board.runningCores jobId = 0 := by
      refine List.sum_eq_zero fun weight member => ?_
      obtain ⟨entry, inside, rfl⟩ := List.mem_map.mp member
      exact if_neg fun counts => unused entry inside counts.1
    rw [none]
    exact Nat.zero_le _

theorem submit (kept : site.Kept) {request : StepRequest} {stepId : StepId} {board : StepBoard}
    (careful : site.Careful (.submit request)) (taken : site.board.submitStep site.state request = .ok (stepId, board)) :
    ({ site with board := board } : StepSite).Kept := by
  obtain ⟨_, rfl⟩ := StepBoard.submitStep_ok taken
  refine ⟨kept.cores, fun jobId job found => ?_, kept.processes, fun held member => ?_, fun held member => ?_⟩
  · refine Nat.le_trans (Nat.le_of_eq ?_) (kept.within jobId job found)
    simp only [StepBoard.runningCores, HashMap.total_insert, HashMap.total_remove_absent careful]
    simp [StepRequest.info]
  · obtain ⟨step, found, runs⟩ := kept.active held member
    exact ⟨step, StepBoard.submitStep_keeps taken careful found, runs⟩
  · obtain ⟨step, found, sent⟩ := kept.ordered held member
    exact ⟨step, StepBoard.submitStep_keeps taken careful found, sent⟩

theorem schedule (kept : site.Kept) {order : IterOrder Unit} (careful : site.Careful (.schedule order))
    (taken : site.apply (.schedule order) = some next) : next.Kept := by
  cases taken
  obtain ⟨later, _⟩ := StepBoard.dispatch_all site.state (StepBoard.toDispatch order site.state site.board) site.board
  rw [← StepBoard.scheduleSteps_eq] at later
  obtain ⟨sent, grown, runs⟩ := later.orders
  refine ⟨kept.cores, fun jobId job found => ?_, fun held member => List.mem_append_left _ (kept.processes held member),
    fun held member => ?_, fun held member => ?_⟩
  · exact StepBoard.runningCores_scheduleSteps found (kept.cores jobId job found) (kept.within jobId job found)
      (careful _ (HashMap.mem_toList.mpr found))
  · rw [grown, List.drop_left, List.mem_append] at member
    rcases member with early | new
    · exact later.running (kept.active held early)
    · exact runs held new
  · rw [grown, List.mem_append] at member
    rcases member with early | new
    · obtain ⟨step, found, dispatched⟩ := kept.ordered held early
      obtain ⟨step', found', _, same | now⟩ := later.kept held.2 step found
      · exact ⟨step', found', same ▸ dispatched⟩
      · exact ⟨step', found', by simp [now]⟩
    · obtain ⟨step, found, now⟩ := runs held new
      exact ⟨step, found, by simp [now]⟩

private theorem careful_report (kept : site.Kept) {workerId : WorkerId} {msg : StepMessage}
    (careful : site.Careful (.report workerId msg)) (sent : (workerId, msg.key) ∈ site.board.ordered) :
    (∀ step ∈ site.board.steps.get? msg.key, msg.status = some .running → step.status = .running) ∧
      ∀ status, msg.status = some status → status ≠ .running → ∀ held ∈ site.active, held.2 ≠ msg.key := by
  cases msg with
  | stepStarted key =>
    refine ⟨fun step found _ => ?_, fun status told other => absurd (Option.some.inj told).symm other⟩
    obtain ⟨step', found', dispatched⟩ := kept.ordered _ sent
    cases Option.some.inj (found.symm.trans found')
    have open_step := careful step found
    cases status : step.status with
    | running => rfl
    | pending => exact absurd status dispatched
    | completed code => rw [status] at open_step; cases open_step
    | failed error => rw [status] at open_step; cases open_step
    | killed => rw [status] at open_step; cases open_step
  | stepDone key exitCode => exact ⟨fun _ _ told => (by cases told), fun _ _ _ => careful⟩
  | stepError key error => exact ⟨fun _ _ told => (by cases told), fun _ _ _ => careful⟩
  | stepOutput key isStderr data => exact ⟨fun _ _ told => (by cases told), fun _ told => (by cases told)⟩

theorem report (kept : site.Kept) {workerId : WorkerId} {msg : StepMessage}
    (careful : site.Careful (.report workerId msg)) (sent : (workerId, msg.key) ∈ site.board.ordered) :
    ({ site with board := site.board.handle msg } : StepSite).Kept := by
  obtain ⟨calm, last⟩ := kept.careful_report careful sent
  refine ⟨kept.cores, fun jobId job found => ?_, kept.processes, fun held member => ?_, fun held member => ?_⟩
  · exact (StepBoard.runningCores_handle msg calm jobId).trans (kept.within jobId job found)
  · obtain ⟨step, found, runs⟩ := kept.active held member
    obtain ⟨step', found', same | ⟨own, told⟩⟩ := StepBoard.get?_handle site.board msg found
    · exact ⟨step', found', same.trans runs⟩
    · refine ⟨step', found', ?_⟩
      by_contra other
      exact last _ told other held member own.symm
  · rw [StepBoard.handle_ordered] at member
    obtain ⟨step, found, dispatched⟩ := kept.ordered held member
    obtain ⟨step', found', same | ⟨_, told⟩⟩ := StepBoard.get?_handle site.board msg found
    · exact ⟨step', found', same ▸ dispatched⟩
    · refine ⟨step', found', fun waits => ?_⟩
      rw [waits] at told
      cases msg <;> cases told

theorem step (kept : site.Kept) (taken : site.CarefulStep event next) : next.Kept := by
  obtain ⟨genuine, careful, taken⟩ := taken
  cases event with
  | table state =>
    cases taken
    exact kept.table genuine
  | submit request =>
    simp only [apply] at taken
    split at taken
    · rename_i stepId board accepted
      cases taken
      exact kept.submit careful accepted
    · cases taken
      exact kept
  | schedule order => exact kept.schedule careful taken
  | report workerId msg =>
    obtain ⟨sent, same⟩ := Option.ite_none_right_eq_some.mp taken
    cases same
    exact kept.report careful sent
  | spawn workerId key =>
    obtain ⟨held, same⟩ := Option.ite_none_right_eq_some.mp taken
    cases same
    refine { kept with processes := fun other member => ?_ }
    rcases List.mem_cons.mp member with rfl | before
    · exact held
    · exact kept.processes other before
  | exit workerId key =>
    cases taken
    exact { kept with processes := fun held member => kept.processes held (List.mem_of_mem_filter member) }
  | finish workerId key =>
    obtain ⟨free, same⟩ := Option.ite_none_left_eq_some.mp taken
    cases same
    refine { kept with
      processes := fun held member => ?_
      active := fun held member => kept.active held (List.mem_of_mem_erase member) }
    have other : held ≠ (workerId, key) := fun same => free (same ▸ member)
    exact (List.mem_erase_of_ne other).mpr (kept.processes held member)

private theorem busyCores_le (kept : site.Kept) {jobId : JobId} {job : JobInfo} (found : site.state.jobs.get? jobId = some job) :
    site.busyCores jobId ≤ job.reqCores := by
  refine Nat.le_trans (HashMap.total_le fun key step present => ?_) (kept.within jobId job found)
  split
  · rename_i busy
    obtain ⟨own, workerId, _, held⟩ := busy
    obtain ⟨step', present', runs⟩ := kept.active _ (kept.processes _ held)
    cases Option.some.inj (present.symm.trans present')
    rw [if_pos ⟨own, runs⟩]
  · exact Nat.zero_le _

end Kept

theorem CarefulStep.ended {key : StepKey} {step : StepInfo} (taken : site.CarefulStep event next)
    (found : site.board.steps.get? key = some step) (ended : step.status.ended = true) :
    ∃ step', next.board.steps.get? key = some step' ∧ step'.status.ended = true := by
  obtain ⟨_, careful, taken⟩ := taken
  cases event with
  | table state =>
    cases taken
    exact ⟨step, found, ended⟩
  | submit request =>
    simp only [apply] at taken
    split at taken
    · rename_i stepId board accepted
      cases taken
      exact ⟨step, StepBoard.submitStep_keeps accepted careful found, ended⟩
    · cases taken
      exact ⟨step, found, ended⟩
  | schedule order =>
    cases taken
    refine ⟨step, ?_, ended⟩
    rw [StepBoard.scheduleSteps_eq, StepBoard.dispatch_other _ fun waits => ?_, found]
    obtain ⟨step', found', pending⟩ := StepBoard.mem_toDispatch waits
    cases Option.some.inj (found.symm.trans found')
    rw [pending] at ended
    cases ended
  | report workerId msg =>
    obtain ⟨_, same⟩ := Option.ite_none_right_eq_some.mp taken
    cases same
    obtain ⟨step', found', same | ⟨own, told⟩⟩ := StepBoard.get?_handle site.board msg found
    · exact ⟨step', found', by rw [same, ended]⟩
    · refine ⟨step', found', ?_⟩
      cases msg with
      | stepStarted about =>
        cases own
        rw [careful step found] at ended
        cases ended
      | stepDone about exitCode => rw [← Option.some.inj told]; rfl
      | stepError about error => rw [← Option.some.inj told]; rfl
      | stepOutput about isStderr data => cases told
  | spawn workerId key =>
    obtain ⟨_, same⟩ := Option.ite_none_right_eq_some.mp taken
    cases same
    exact ⟨step, found, ended⟩
  | exit workerId key =>
    cases taken
    exact ⟨step, found, ended⟩
  | finish workerId key =>
    obtain ⟨_, same⟩ := Option.ite_none_left_eq_some.mp taken
    cases same
    exact ⟨step, found, ended⟩

end StepSite

/-- If every step gets a key of its own, no sum of a pass leaves the range of `u32`, no report of a
start comes after the end, and no report of the end comes while a worker still has the step, then
the processes of a job's steps fit into its cores, and no step that is over runs again. -/
theorem steps_stay_in_budget {site : StepSite} (reached : Reach StepSite.Start StepSite.CarefulStep site) :
    (∀ jobId job, site.state.jobs.get? jobId = some job → site.busyCores jobId ≤ job.reqCores) ∧
    ∀ key step, site.board.steps.get? key = some step → step.status.ended = true →
      ∀ later, Reach (· = site) StepSite.CarefulStep later →
        ∃ step', later.board.steps.get? key = some step' ∧ step'.status.ended = true := by
  have kept : site.Kept :=
    reached.invariant StepSite.Kept (fun _ start => start.kept) fun _ _ _ kept taken => kept.step taken
  refine ⟨fun jobId job found => kept.busyCores_le found, fun key step found ended later reached => ?_⟩
  refine reached.invariant
    (fun site => ∃ step, site.board.steps.get? key = some step ∧ step.status.ended = true) ?_ ?_
  · rintro _ rfl
    exact ⟨step, found, ended⟩
  · rintro _ _ _ ⟨_, found, ended⟩ taken
    exact taken.ended found ended

namespace StepSite

instance decidableGenuine (site : StepSite) : (event : StepEvent) → Decidable (site.Genuine event)
  | .table _ => inferInstanceAs (Decidable (∀ entry ∈ _, _ ∧ ((∃ job ∈ _, _) ∨ ∀ step ∈ _, _)))
  | .submit _ | .schedule _ | .report _ _ | .spawn _ _ | .exit _ _ | .finish _ _ => isTrue trivial

instance decidableCareful (site : StepSite) : (event : StepEvent) → Decidable (site.Careful event)
  | .submit _ => inferInstanceAs (Decidable (_ = _))
  | .schedule _ => inferInstanceAs (Decidable (∀ entry ∈ _, _ → _))
  | .report _ (.stepStarted _) => inferInstanceAs (Decidable (∀ step ∈ _, _))
  | .report _ (.stepDone _ _) | .report _ (.stepError _ _) => inferInstanceAs (Decidable (∀ held ∈ _, _))
  | .report _ (.stepOutput _ _ _) | .table _ | .spawn _ _ | .exit _ _ | .finish _ _ => isTrue trivial

/-- A job runs with four cores on two nodes. -/
def sample : StepSite where
  state := StepBoard.runsOnNodes ["a", "b"]

private theorem start_sample : sample.Start := by
  refine ⟨fun jobId job found => ?_, rfl, rfl, rfl, rfl⟩
  have cores : ∀ entry ∈ sample.state.jobs.toList, entry.2.reqCores < 2 ^ 32 := by decide +kernel
  exact cores _ (HashMap.mem_toList.mpr found)

def ask (reqNodes reqCores : Nat) : StepEvent :=
  .submit { parentJobId := 1, binary := "sh", reqNodes, reqCores, ntasks := reqNodes }

def Happens (events : List StepEvent) (site : StepSite) : Prop :=
  runLabels apply events sample = some site ∧
    Reach Start (fun site event next => site.Genuine event ∧ site.apply event = some next) site

theorem Happens.of_run {events : List StepEvent} {holds : StepSite → Prop} [DecidablePred holds]
    (genuine : AllowedRun Genuine apply events sample)
    (facts : (runLabels apply events sample).map (fun site => decide (holds site)) = some true) :
    ∃ site, Happens events site ∧ holds site := by
  obtain ⟨site, ran, fact⟩ := Option.map_eq_some_iff.mp facts
  exact ⟨site, ⟨ran, runLabels_reach (.start start_sample) genuine ran⟩, of_decide_eq_true fact⟩

/-- The cores of the job are exceeded. -/
def Exceeded (site : StepSite) : Prop := ∃ job ∈ site.state.jobs.get? 1, job.reqCores < site.busyCores 1

instance : DecidablePred Exceeded := fun _ => inferInstanceAs (Decidable (∃ job ∈ _, _))

/-- The first of two workers reports the end of a step, and the cores of the other one are given
to the next step. -/
def releasedEarly : List StepEvent :=
  [ask 2 4, .schedule .stored, .report "a" (.stepStarted (1, 1)), .spawn "a" (1, 1), .spawn "b" (1, 1),
    .exit "a" (1, 1), .report "a" (.stepDone (1, 1) 0), ask 1 4, .schedule .stored, .spawn "a" (1, 2)]

/-- The other worker reports the start of a step after the first one reported its end. -/
def startedLate : List StepEvent :=
  [ask 2 4, .schedule .stored, .report "a" (.stepDone (1, 1) 0), .report "b" (.stepStarted (1, 1))]

/-- A request of almost the whole range of `u32` wraps around. -/
def wrapped : List StepEvent := [ask 1 4, ask 1 (2 ^ 32 - 1), .schedule .stored, .spawn "a" (1, 1), .spawn "a" (1, 2)]

end StepSite

open StepSite

/-- Two steps, one after the other. -/
theorem steps_stay_in_budget_in_turn : ∃ site later : StepSite, Reach Start CarefulStep site ∧
    Reach (· = site) CarefulStep later ∧ site.busyCores 1 = 4 ∧
    (∀ job, site.state.jobs.get? 1 = some job → site.busyCores 1 ≤ job.reqCores) ∧
    ∃ step, later.board.steps.get? (1, 1) = some step ∧ step.status.ended = true := by
  let events : List StepEvent :=
    [ask 2 4, .schedule .stored, .report "a" (.stepStarted (1, 1)), .spawn "a" (1, 1), .spawn "b" (1, 1),
      .report "b" (.stepStarted (1, 1)), .exit "a" (1, 1), .finish "a" (1, 1), .exit "b" (1, 1), .finish "b" (1, 1),
      .report "a" (.stepDone (1, 1) 0), .report "b" (.stepDone (1, 1) 0), ask 1 4, .schedule .stored, .spawn "a" (1, 2)]
  have allowed : AllowedRun (fun site event => site.Genuine event ∧ site.Careful event) StepSite.apply events sample := by
    decide +kernel
  obtain ⟨site, ran, busy, last⟩ : ∃ site, runLabels StepSite.apply events sample = some site ∧ site.busyCores 1 = 4 ∧
      ∃ step ∈ site.board.steps.get? (1, 1), step.status.ended = true := by
    have facts : (runLabels StepSite.apply events sample).map (fun site => decide (site.busyCores 1 = 4 ∧
        ∃ step ∈ site.board.steps.get? (1, 1), step.status.ended = true)) = some true := by decide +kernel
    obtain ⟨site, ran, fact⟩ := Option.map_eq_some_iff.mp facts
    exact ⟨site, ran, of_decide_eq_true fact⟩
  obtain ⟨step, found, ended⟩ := last
  have reached : Reach Start CarefulStep site :=
    (runLabels_reach (.start start_sample) allowed ran).mono fun _ _ _ step => ⟨step.1.1, step.1.2, step.2⟩
  have exits : CarefulStep site (.exit "a" (1, 2))
      { site with processes := site.processes.filter (· ≠ ("a", (1, 2))) } := ⟨trivial, trivial, rfl⟩
  have goesOn : Reach (· = site) CarefulStep _ := .step (.start rfl) exits
  obtain ⟨within, stays⟩ := steps_stay_in_budget reached
  exact ⟨site, _, reached, goesOn, busy, within 1, stays (1, 1) step found ended _ goesOn⟩

/-- A step is released by the first of its workers, or a sum wraps around; and a late report
of the start sets a step back to Running that was completed. -/
theorem steps_exceed_budget : (∃ site, Happens releasedEarly site ∧ Exceeded site) ∧
    (∃ site, Happens wrapped site ∧ Exceeded site) ∧
    (∃ site, Happens (startedLate.take 3) site ∧ ∃ step ∈ site.board.steps.get? (1, 1), step.status = .completed 0) ∧
    ∃ site, Happens startedLate site ∧ ∃ step ∈ site.board.steps.get? (1, 1), step.status = .running := by
  refine ⟨?_, ?_, ?_, ?_⟩
  · exact Happens.of_run (by decide +kernel) (by decide +kernel)
  · exact Happens.of_run (by decide +kernel) (by decide +kernel)
  · exact Happens.of_run (by decide +kernel) (by decide +kernel)
  · exact Happens.of_run (by decide +kernel) (by decide +kernel)

end Veloce
