import Veloce.Collections.Blocks
import Veloce.Handlers.Worker
import Veloce.Scheduler.Steps

/-! The ranks of a step: dispatching it splits them among the workers it takes, and every
worker is told all of them. -/

namespace Veloce

open Collections StepBoard

/-- The orders for a step hand out all its ranks in the order of its workers, evenly, and
list the addresses of all these workers. -/
structure RanksPartitioned (state : GlobalState) (step : StepInfo) (sent : List (WorkerId × RunStep)) : Prop where
  ordered : (sent.map Prod.fst).Sublist step.assignedWorkers
  covered : (sent.flatMap fun order => order.2.assignedRanks) = List.range step.ntasks
  even : ∀ order ∈ sent, ∀ other ∈ sent, order.2.assignedRanks.length ≤ other.2.assignedRanks.length + 1
  nodes : ∀ order ∈ sent, List.Forall₂
    (fun addr workerId => ∃ handle, state.workers.get? workerId = some handle ∧ handle.addr = addr)
    order.2.nodeList step.assignedWorkers

/-- Some worker is taken if there are ranks, those that get ranks have a route, and all of
them are known when an order goes out. -/
def WorkersReached (state : GlobalState) (workers : List WorkerId) (ntasks : Nat) : Prop :=
  (workers = [] → ntasks = 0) ∧ (∀ workerId ∈ workers.take ntasks, state.routable workerId = true) ∧
    ((∃ workerId ∈ workers, state.routable workerId = true) →
      ∀ workerId ∈ workers, (state.workers.get? workerId).isSome = true)

instance (state : GlobalState) (workers : List WorkerId) (ntasks : Nat) :
    Decidable (WorkersReached state workers ntasks) := by
  unfold WorkersReached
  infer_instance

section Shares

variable {ntasks workers index : Nat}

theorem rankShare_eq (fits : workers < 2 ^ 32) (inside : index < workers) :
    rankShare ntasks workers index = evenShare ntasks workers index := by
  have count : asU32 workers = workers := Nat.mod_eq_of_lt fits
  have place : asU32 index = index := Nat.mod_eq_of_lt (Nat.lt_trans inside fits)
  have some : 0 < workers := Nat.zero_lt_of_lt inside
  simp only [rankShare, evenShare, count, place, if_pos some]

theorem map_rankShare (fits : workers < 2 ^ 32) {reach : Nat} (within : reach ≤ workers) :
    (List.range reach).map (rankShare ntasks workers) = (List.range reach).map (evenShare ntasks workers) := by
  refine List.map_congr_left fun index member => rankShare_eq fits ?_
  exact Nat.lt_of_lt_of_le (List.mem_range.mp member) within

/-- The counter does not wrap below the number of ranks, so the shares are the blocks of an
even split. -/
theorem rankShares_eq (typed : ntasks < 2 ^ 32) (fits : workers < 2 ^ 32) :
    rankShares ntasks workers = blocks (evenShare ntasks workers) workers := by
  refine List.map_congr_left fun index member => ?_
  have inside := List.mem_range.mp member
  rw [rankShare_eq fits inside, map_rankShare fits (Nat.le_of_lt inside)]
  refine List.map_congr_left fun offset member => Nat.mod_eq_of_lt ?_
  have all := sum_range_le (evenShare ntasks workers) inside
  have last := sum_range_le (evenShare ntasks workers) (Nat.succ_le_of_lt inside)
  rw [sum_evenShare ntasks (Nat.zero_lt_of_lt inside), sum_range_succ] at last
  have within := List.mem_range.mp member
  omega

theorem rankShares_length : (rankShares ntasks workers).length = workers := by simp [rankShares]

theorem flatten_rankShares (typed : ntasks < 2 ^ 32) (fits : workers < 2 ^ 32) (some : 0 < workers) :
    (rankShares ntasks workers).flatten = List.range ntasks := by
  rw [rankShares_eq typed fits, flatten_blocks, sum_evenShare ntasks some]

theorem getElem?_rankShares (typed : ntasks < 2 ^ 32) (fits : workers < 2 ^ 32) {ranks : List Nat}
    (found : (rankShares ntasks workers)[index]? = some ranks) :
    index < workers ∧ ranks.length = evenShare ntasks workers index := by
  rw [rankShares_eq typed fits, blocks, List.getElem?_map] at found
  obtain ⟨place, there, rfl⟩ := Option.map_eq_some_iff.mp found
  obtain ⟨inside, rfl⟩ := List.getElem?_eq_some_iff.mp there
  rw [List.length_range] at inside
  exact ⟨inside, by simp⟩

/-- From 2^32 workers on the shares add up to more ranks than there are. -/
theorem lt_length_flatten_rankShares (wraps : 2 ^ 32 ≤ workers) (some : 0 < ntasks) :
    ntasks < (rankShares ntasks workers).flatten.length := by
  have lengths : (rankShares ntasks workers).flatten.length =
      ((List.range workers).map (rankShare ntasks workers)).sum := by
    simp [rankShares, List.length_flatten, Function.comp_def]
  rw [lengths]
  by_cases empty : asU32 workers = 0
  · have share : rankShare ntasks workers = fun _ => ntasks := by
      funext index
      simp [rankShare, empty]
    have product : ((List.range workers).map (rankShare ntasks workers)).sum = workers * ntasks := by
      rw [share]
      simp
    rw [product]
    exact Nat.lt_of_lt_of_le (by omega) (Nat.mul_le_mul_right ntasks wraps)
  · have counted : 0 < asU32 workers := Nat.pos_of_ne_zero empty
    have small : asU32 workers < 2 ^ 32 := Nat.mod_lt _ (by decide)
    have reach : 2 ^ 32 + asU32 workers ≤ workers := by
      unfold asU32 at *
      omega
    -- the places below the wrapped count get all ranks, and so do those 2^32 further on
    have round (start : Nat) (even : start % 2 ^ 32 = 0) :
        ((List.range (asU32 workers)).map fun offset => rankShare ntasks workers (start + offset)).sum = ntasks := by
      have same : ((List.range (asU32 workers)).map fun offset => rankShare ntasks workers (start + offset)) =
          (List.range (asU32 workers)).map (evenShare ntasks (asU32 workers)) := by
        refine List.map_congr_left fun offset member => ?_
        have place : asU32 (start + offset) = offset := by
          have inside := List.mem_range.mp member
          unfold asU32 at *
          omega
        simp only [rankShare, evenShare, place, if_pos counted]
      rw [same, sum_evenShare ntasks counted]
    have first : ((List.range (asU32 workers)).map (rankShare ntasks workers)).sum = ntasks := by
      simpa using round 0 rfl
    have second := round (2 ^ 32) (by decide)
    have early := sum_range_le (rankShare ntasks workers) (Nat.le_of_lt small)
    have all := sum_range_le (rankShare ntasks workers) reach
    rw [List.range_add, List.map_append, List.sum_append, List.map_map] at all
    simp only [Function.comp_def] at all
    omega

end Shares

section Orders

variable {state : GlobalState} {job : JobInfo} {key : StepKey} {step : StepInfo} {workers : List WorkerId} {ntasks : Nat}

theorem zip_rankShares_fst : (workers.zip (rankShares ntasks workers.length)).map Prod.fst = workers :=
  List.map_fst_zip (Nat.le_of_eq rankShares_length.symm)

theorem zip_rankShares_flatMap :
    (workers.zip (rankShares ntasks workers.length)).flatMap Prod.snd = (rankShares ntasks workers.length).flatten := by
  rw [List.flatMap_def, List.map_snd_zip (Nat.le_of_eq rankShares_length)]

theorem mem_zip_rankShares (ntasks : Nat) {workerId : WorkerId} (member : workerId ∈ workers) :
    ∃ ranks, (workerId, ranks) ∈ workers.zip (rankShares ntasks workers.length) := by
  have listed : workerId ∈ (workers.zip (rankShares ntasks workers.length)).map Prod.fst := by
    rw [zip_rankShares_fst]
    exact member
  obtain ⟨⟨_, ranks⟩, inside, rfl⟩ := List.mem_map.mp listed
  exact ⟨ranks, inside⟩

theorem shares_reached_iff (typed : ntasks < 2 ^ 32) (fits : workers.length < 2 ^ 32) :
    (∀ target ∈ workers.zip (rankShares ntasks workers.length), state.routable target.1 = false → target.2 = []) ↔
      ∀ workerId ∈ workers.take ntasks, state.routable workerId = true := by
  constructor
  · intro empty workerId early
    by_contra lost
    obtain ⟨index, inside⟩ := List.mem_iff_getElem?.mp early
    rw [List.getElem?_take] at inside
    split at inside
    · rename_i below
      have place := (List.getElem?_eq_some_iff.mp inside).1
      obtain ⟨ranks, share⟩ : ∃ ranks, (rankShares ntasks workers.length)[index]? = some ranks :=
        ⟨_, List.getElem?_eq_getElem (by rwa [rankShares_length])⟩
      have target : (workerId, ranks) ∈ workers.zip (rankShares ntasks workers.length) :=
        List.mem_iff_getElem?.mpr ⟨index, List.getElem?_zip_eq_some.mpr ⟨inside, share⟩⟩
      have none := empty _ target (eq_false_of_ne_true lost)
      have size := (getElem?_rankShares typed fits share).2
      dsimp only at none
      rw [none, List.length_nil, eq_comm, evenShare_eq_zero_iff place] at size
      exact absurd below (Nat.not_lt.mpr size)
    · cases inside
  · rintro reached ⟨workerId, ranks⟩ member lost
    obtain ⟨index, inside⟩ := List.mem_iff_getElem?.mp member
    obtain ⟨worker, share⟩ := List.getElem?_zip_eq_some.mp inside
    obtain ⟨place, size⟩ := getElem?_rankShares typed fits share
    have late : ntasks ≤ index := by
      by_contra below
      have early : workerId ∈ workers.take ntasks :=
        List.mem_iff_getElem?.mpr ⟨index, by rw [List.getElem?_take, if_pos (Nat.lt_of_not_le below), worker]⟩
      rw [reached workerId early] at lost
      cases lost
    rw [(evenShare_eq_zero_iff place).mpr late] at size
    exact List.length_eq_zero_iff.mp size

theorem runMessages_fst : ((runMessages state job key step).map Prod.fst).Sublist
    (job.assignedWorkers.take step.reqNodes) := by
  rw [runMessages, List.map_map]
  refine (List.Sublist.map Prod.fst List.filter_sublist).trans ?_
  rw [zip_rankShares_fst]

theorem runMessages_ranks : ((runMessages state job key step).flatMap fun order => order.2.assignedRanks) =
    (((job.assignedWorkers.take step.reqNodes).zip
      (rankShares step.ntasks (job.assignedWorkers.take step.reqNodes).length)).filter
        fun target => state.routable target.1).flatMap Prod.snd := by
  rw [runMessages, List.flatMap_map]
  rfl

theorem mem_runMessages {order : WorkerId × RunStep} (member : order ∈ runMessages state job key step) :
    ∃ (index : Nat) (ranks : List Nat), (rankShares step.ntasks (job.assignedWorkers.take step.reqNodes).length)[index]? = some ranks ∧
      order.1 ∈ job.assignedWorkers.take step.reqNodes ∧ state.routable order.1 = true ∧
      order.2 = StepBoard.runMessage state job key step (job.assignedWorkers.take step.reqNodes) ranks := by
  obtain ⟨⟨workerId, ranks⟩, inside, rfl⟩ := List.mem_map.mp member
  obtain ⟨target, route⟩ := List.mem_filter.mp inside
  obtain ⟨index, place⟩ := List.mem_iff_getElem?.mp target
  obtain ⟨worker, share⟩ := List.getElem?_zip_eq_some.mp place
  exact ⟨index, ranks, share, List.mem_of_getElem? worker, route, rfl⟩

theorem exists_runMessages (key : StepKey) {workerId : WorkerId} (taken : workerId ∈ job.assignedWorkers.take step.reqNodes)
    (route : state.routable workerId = true) : ∃ order, (workerId, order) ∈ runMessages state job key step := by
  obtain ⟨ranks, target⟩ := mem_zip_rankShares step.ntasks taken
  exact ⟨_, List.mem_map.mpr ⟨(workerId, ranks), List.mem_filter.mpr ⟨target, route⟩, rfl⟩⟩

theorem nodes_listed_iff :
    List.Forall₂ (fun addr workerId => ∃ handle, state.workers.get? workerId = some handle ∧ handle.addr = addr)
      (workers.filterMap fun workerId => (state.workers.get? workerId).map WorkerHandle.addr) workers ↔
    ∀ workerId ∈ workers, (state.workers.get? workerId).isSome = true := by
  constructor
  · intro listed workerId member
    obtain ⟨index, place⟩ := List.mem_iff_getElem?.mp member
    have inside := (List.getElem?_eq_some_iff.mp place).1
    rw [← listed.length_eq] at inside
    obtain ⟨handle, known, _⟩ := (List.forall₂_iff_get.mp listed).2 index inside (listed.length_eq ▸ inside)
    have same := (List.getElem?_eq_some_iff.mp place).2
    simp only [List.get_eq_getElem, same] at known
    rw [known]
    rfl
  · intro known
    induction workers with
    | nil => exact .nil
    | cons first rest ih =>
      obtain ⟨handle, found⟩ := Option.isSome_iff_exists.mp (known first List.mem_cons_self)
      have entry : (state.workers.get? first).map WorkerHandle.addr = some handle.addr := by rw [found]; rfl
      rw [List.filterMap_cons, entry]
      exact .cons ⟨handle, found, rfl⟩ (ih fun workerId member => known workerId (List.mem_cons_of_mem _ member))

theorem ranks_covered_iff (typed : step.ntasks < 2 ^ 32)
    (fits : (job.assignedWorkers.take step.reqNodes).length < 2 ^ 32) :
    ((runMessages state job key step).flatMap fun order => order.2.assignedRanks) = List.range step.ntasks ↔
      (job.assignedWorkers.take step.reqNodes = [] → step.ntasks = 0) ∧
      ∀ workerId ∈ (job.assignedWorkers.take step.reqNodes).take step.ntasks, state.routable workerId = true := by
  rw [runMessages_ranks]
  generalize job.assignedWorkers.take step.reqNodes = workers at *
  cases workers with
  | nil => simp [eq_comm (a := [])]
  | cons first rest =>
    rw [← flatten_rankShares typed fits (Nat.succ_pos _), ← zip_rankShares_flatMap, flatMap_filter_eq_iff,
      shares_reached_iff typed fits]
    simp

/-- A dispatch marks its step Running. When fewer than 2^32 workers are taken, its orders
split the ranks exactly if those workers are reached; beyond, never when all have a route
and there are ranks. -/
theorem ranks_partitioned_iff {board dispatched : StepBoard} (parent : state.jobs.get? key.1 = some job)
    (waits : board.steps.get? key = some step) (typed : step.ntasks < 2 ^ 32)
    (done : board.performStepDispatch state key = .ok dispatched) :
    ∃ started sent, dispatched.steps.get? key = some started ∧ started.status = .running ∧
      dispatched.outbox = board.outbox ++ sent ∧
      ((job.assignedWorkers.take step.reqNodes).length < 2 ^ 32 → (RanksPartitioned state started sent ↔
        WorkersReached state (job.assignedWorkers.take step.reqNodes) step.ntasks)) ∧
      (2 ^ 32 ≤ (job.assignedWorkers.take step.reqNodes).length → 0 < step.ntasks →
        (∀ workerId ∈ job.assignedWorkers.take step.reqNodes, state.routable workerId = true) →
        ¬ RanksPartitioned state started sent) := by
  simp only [performStepDispatch, parent, waits, Except.ok.injEq] at done
  subst done
  refine ⟨_, _, HashMap.get?_insert_self .., rfl, rfl, fun fits => ?_, fun wraps some routes split => ?_⟩
  · constructor
    · intro split
      obtain ⟨filled, reached⟩ := (ranks_covered_iff typed fits).mp split.covered
      refine ⟨filled, reached, fun ⟨workerId, taken, route⟩ => ?_⟩
      obtain ⟨order, sent⟩ := exists_runMessages key taken route
      obtain ⟨_, _, _, _, _, made⟩ := mem_runMessages sent
      have listed := split.nodes _ sent
      rw [made] at listed
      exact nodes_listed_iff.mp listed
    · rintro ⟨filled, reached, known⟩
      refine ⟨runMessages_fst, (ranks_covered_iff typed fits).mpr ⟨filled, reached⟩, ?_, ?_⟩
      · intro order member other member'
        obtain ⟨index, ranks, share, _, _, made⟩ := mem_runMessages member
        obtain ⟨index', ranks', share', _, _, made'⟩ := mem_runMessages member'
        rw [made, made']
        have size := (getElem?_rankShares typed fits share).2
        have size' := (getElem?_rankShares typed fits share').2
        exact size ▸ size' ▸ evenShare_le ..
      · intro order member
        obtain ⟨_, _, _, taken, route, made⟩ := mem_runMessages member
        rw [made]
        exact nodes_listed_iff.mpr (known ⟨order.1, taken, route⟩)
  · have total := congrArg List.length split.covered
    rw [runMessages_ranks, List.filter_eq_self.mpr fun target member => routes _ (List.of_mem_zip member).1,
      zip_rankShares_flatMap, List.length_range] at total
    exact absurd (lt_length_flatten_rankShares wraps some) (by rw [total]; exact Nat.lt_irrefl _)

end Orders

section Sample

def partedJob : JobInfo where
  id := 1
  binary := "sh"
  status := .running
  reqNodes := 3
  reqCores := 4
  reqMemory := 1
  assignedWorkers := ["a", "b", "c"]
  userId := "user"

/-- A Running job of three workers, of which the third has no handle. -/
def partedState : GlobalState :=
  { (GlobalState.registerWorker {} (sampleRegistration "a") 100).registerWorker (sampleRegistration "b") 100 with
    jobs := HashMap.insert ∅ 1 partedJob }

def threeRanks (nodes : Nat) : StepRequest where
  parentJobId := 1
  binary := "mpirun"
  reqNodes := nodes
  reqCores := 1
  ntasks := 3

def threeRanksBoard (nodes : Nat) : StepBoard where
  steps := HashMap.insert ∅ (1, 1) ((threeRanks nodes).info 1)
  nextStepId := 2

theorem ranks_partitioned_iff_two : ∃ dispatched started sent,
    submitStep partedState {} (threeRanks 2) = .ok (1, threeRanksBoard 2) ∧
    (threeRanksBoard 2).performStepDispatch partedState (1, 1) = .ok dispatched ∧
    dispatched.steps.get? (1, 1) = some started ∧ started.status = .running ∧ dispatched.outbox = sent ∧
    RanksPartitioned partedState started sent := by
  obtain ⟨dispatched, done⟩ : ∃ dispatched,
      (threeRanksBoard 2).performStepDispatch partedState (1, 1) = .ok dispatched := ⟨_, rfl⟩
  have parent : partedState.jobs.get? 1 = some partedJob := rfl
  obtain ⟨started, sent, known, running, out, split, _⟩ := ranks_partitioned_iff parent rfl (by decide) done
  refine ⟨dispatched, started, sent, rfl, done, known, running, out, (split (by decide)).mpr ?_⟩
  decide +kernel

/-- A step that is accepted and marked Running although its ranks are not all handed out. -/
def RanksLost (nodes : Nat) : Prop := ∃ dispatched started,
  submitStep partedState {} (threeRanks nodes) = .ok (1, threeRanksBoard nodes) ∧
  (threeRanksBoard nodes).performStepDispatch partedState (1, 1) = .ok dispatched ∧
  dispatched.steps.get? (1, 1) = some started ∧ started.status = .running ∧
  ¬ RanksPartitioned partedState started dispatched.outbox

/-- A step of no nodes starts no rank, and the third worker's rank is lost. -/
theorem ranks_lost : RanksLost 0 ∧ RanksLost 3 := by
  constructor
  · refine ⟨_, _, rfl, rfl, rfl, rfl, fun split => ?_⟩
    exact absurd split.covered (by decide +kernel)
  · refine ⟨_, _, rfl, rfl, rfl, rfl, fun split => ?_⟩
    exact absurd split.covered (by decide +kernel)

end Sample

end Veloce
