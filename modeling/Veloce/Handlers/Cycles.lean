import Veloce.Collections.Graph
import Veloce.Handlers.Desk

/-! `has_cycle` is a depth-first search: it finds its target if and only if the target
can be reached along the dependencies in the table. -/

namespace Veloce

open Collections Relation

/-- The job `a` of the table names `b` as a parent. -/
def DependsOn (jobs : HashMap JobId JobInfo) (a b : JobId) : Prop :=
  ∃ job, jobs.get? a = some job ∧ b ∈ job.parents

/-- How many records of the table the search has not entered yet. -/
def unvisited (jobs : HashMap JobId JobInfo) (visited : List JobId) : Nat :=
  jobs.keys.countP (· ∉ visited)

variable {jobs : HashMap JobId JobInfo} {target : JobId}

theorem unvisited_mono {visited visited' : List JobId} (more : ∀ jobId ∈ visited, jobId ∈ visited') :
    unvisited jobs visited' ≤ unvisited jobs visited := by
  refine List.countP_mono_left fun jobId _ outside => ?_
  simp only [decide_eq_true_eq] at outside ⊢
  exact fun member => outside (more jobId member)

theorem unvisited_enter {visited : List JobId} {current : JobId} {job : JobInfo}
    (found : jobs.get? current = some job) (new : current ∉ visited) :
    unvisited jobs (current :: visited) < unvisited jobs visited := by
  have key : current ∈ jobs.keys := HashMap.mem_keys.mpr ⟨job, found⟩
  obtain ⟨before, after, split⟩ := List.append_of_mem key
  have early := @List.countP_mono_left _ (fun jobId => decide (jobId ∉ current :: visited))
    (fun jobId => decide (jobId ∉ visited)) before (fun jobId _ outside => by
      simp only [List.mem_cons, not_or, decide_eq_true_eq] at outside ⊢
      exact outside.2)
  have late := @List.countP_mono_left _ (fun jobId => decide (jobId ∉ current :: visited))
    (fun jobId => decide (jobId ∉ visited)) after (fun jobId _ outside => by
      simp only [List.mem_cons, not_or, decide_eq_true_eq] at outside ⊢
      exact outside.2)
  simp only [unvisited, split, List.countP_append, List.countP_cons, new, not_false_eq_true, decide_true, ↓reduceIte,
    List.mem_cons, true_or, not_true_eq_false, decide_false, Bool.false_eq_true] at early late ⊢
  omega

structure Searched (jobs : HashMap JobId JobInfo) (target : JobId) (starts visited visited' : List JobId) : Prop where
  misses : target ∉ visited'
  keeps : ∀ jobId ∈ visited, jobId ∈ visited'
  starts : ∀ jobId ∈ starts, jobId ∈ visited'
  closed : ∀ jobId ∈ visited', jobId ∈ visited ∨ ∀ parent, DependsOn jobs jobId parent → parent ∈ visited'

theorem Searched.next {first : JobId} {rest visited middle visited' : List JobId}
    (head : Searched jobs target [first] visited middle) (tail : Searched jobs target rest middle visited') :
    Searched jobs target (first :: rest) visited visited' where
  misses := tail.misses
  keeps jobId member := tail.keeps jobId (head.keeps jobId member)
  starts jobId member := by
    rcases List.mem_cons.mp member with rfl | later
    · exact tail.keeps _ (head.starts _ List.mem_cons_self)
    · exact tail.starts jobId later
  closed jobId member := by
    rcases tail.closed jobId member with earlier | closed
    · exact (head.closed jobId earlier).imp_right fun closed parent depends => tail.keeps parent (closed parent depends)
    · exact .inr closed

theorem Searched.enter {current : JobId} {job : JobInfo} {visited visited' : List JobId}
    (found : jobs.get? current = some job)
    (search : Searched jobs target job.parents (current :: visited) visited') :
    Searched jobs target [current] visited visited' where
  misses := search.misses
  keeps jobId member := search.keeps jobId (List.mem_cons_of_mem _ member)
  starts jobId member := by
    cases List.mem_singleton.mp member
    exact search.keeps current List.mem_cons_self
  closed jobId member := by
    rcases search.closed jobId member with earlier | closed
    · rcases List.mem_cons.mp earlier with rfl | earlier
      · refine .inr fun parent depends => search.starts parent ?_
        obtain ⟨job', found', listed⟩ := depends
        cases found.symm.trans found'
        exact listed
      · exact .inl earlier
    · exact .inr closed

theorem hasCycleAny_searched {fuel : Nat} (single : ∀ current visited, unvisited jobs visited < fuel →
      target ∉ visited → (hasCycle jobs target fuel current visited).1 = false →
      Searched jobs target [current] visited (hasCycle jobs target fuel current visited).2) :
    ∀ (parents visited : List JobId), unvisited jobs visited < fuel → target ∉ visited →
      (hasCycleAny (hasCycle jobs target fuel) parents visited).1 = false →
      Searched jobs target parents visited (hasCycleAny (hasCycle jobs target fuel) parents visited).2 := by
  intro parents
  induction parents with
  | nil =>
    intro visited _ misses _
    rw [hasCycleAny]
    exact ⟨misses, fun _ => id, fun _ member => (nomatch member), fun _ => .inl⟩
  | cons parent rest ih =>
    intro visited room misses none
    have first := single parent visited room misses
    rw [hasCycleAny] at none ⊢
    generalize hasCycle jobs target fuel parent visited = result at none first ⊢
    obtain ⟨hit, middle⟩ := result
    cases hit with
    | true => cases none
    | false =>
      have head := first rfl
      exact head.next (ih middle ((unvisited_mono head.keeps).trans_lt room) head.misses none)

theorem hasCycle_searched : ∀ (fuel : Nat) (current : JobId) (visited : List JobId), unvisited jobs visited < fuel →
    target ∉ visited → (hasCycle jobs target fuel current visited).1 = false →
    Searched jobs target [current] visited (hasCycle jobs target fuel current visited).2 := by
  intro fuel
  induction fuel with
  | zero => intro current visited room; exact absurd room (Nat.not_lt_zero _)
  | succ fuel ih =>
    intro current visited room misses none
    rw [hasCycle] at none ⊢
    split at none
    · cases none
    · rename_i other
      rw [if_neg other]
      split at none
      · rename_i seen
        rw [if_pos seen]
        refine ⟨misses, fun _ => id, fun jobId member => ?_, fun _ => .inl⟩
        cases List.mem_singleton.mp member
        exact seen
      · rename_i new
        rw [if_neg new]
        have away : target ∉ current :: visited := by
          rw [List.mem_cons, not_or]
          exact ⟨fun same => other same.symm, misses⟩
        cases found : jobs.get? current with
        | none =>
          refine ⟨away, fun _ => List.mem_cons_of_mem _, fun jobId member => ?_, fun jobId member => ?_⟩
          · cases List.mem_singleton.mp member
            exact List.mem_cons_self
          · rcases List.mem_cons.mp member with rfl | earlier
            · refine .inr fun parent depends => ?_
              obtain ⟨job, stored, _⟩ := depends
              cases found.symm.trans stored
            · exact .inl earlier
        | some job =>
          rw [found] at none
          have below := unvisited_enter found new
          exact Searched.enter found (hasCycleAny_searched ih job.parents _ (by omega) away none)

theorem hasCycle_reaches : ∀ (fuel : Nat) (current : JobId) (visited : List JobId),
    (hasCycle jobs target fuel current visited).1 = true → ReflTransGen (DependsOn jobs) current target := by
  intro fuel
  induction fuel with
  | zero =>
    intro current visited hit
    rw [hasCycle] at hit
    exact of_decide_eq_true hit ▸ .refl
  | succ fuel ih =>
    intro current visited hit
    rw [hasCycle] at hit
    split at hit
    · rename_i same
      exact same ▸ .refl
    · split at hit
      · cases hit
      · cases found : jobs.get? current with
        | none =>
          rw [found] at hit
          cases hit
        | some job =>
          rw [found] at hit
          have loop : ∀ (parents visited : List JobId), (hasCycleAny (hasCycle jobs target fuel) parents visited).1 = true →
              ∃ parent ∈ parents, ReflTransGen (DependsOn jobs) parent target := by
            intro parents
            induction parents with
            | nil =>
              intro visited hit
              rw [hasCycleAny] at hit
              cases hit
            | cons parent rest later =>
              intro visited hit
              have first := ih parent visited
              rw [hasCycleAny] at hit
              generalize hasCycle jobs target fuel parent visited = result at hit first
              obtain ⟨direct, middle⟩ := result
              cases direct with
              | true => exact ⟨parent, List.mem_cons_self, first rfl⟩
              | false =>
                obtain ⟨other, member, path⟩ := later middle hit
                exact ⟨other, List.mem_cons_of_mem _ member, path⟩
          obtain ⟨parent, member, path⟩ := loop job.parents _ hit
          exact .head ⟨job, found, member⟩ path

/-- From no visited job, with room for every record, the search is exact. -/
theorem hasCycle_iff {current : JobId} : (hasCycle jobs target (jobs.keys.length + 1) current []).1 = true ↔
    ReflTransGen (DependsOn jobs) current target := by
  refine ⟨hasCycle_reaches _ _ _, fun path => ?_⟩
  by_contra missed
  have search := hasCycle_searched (jobs.keys.length + 1) current []
    (Nat.lt_succ_of_le List.countP_le_length) List.not_mem_nil (Bool.eq_false_iff.mpr missed)
  refine not_reaches_of_closed (· ∈ (hasCycle jobs target (jobs.keys.length + 1) current []).2)
    (search.starts current List.mem_cons_self) (fun a b inside depends => ?_) search.misses path
  exact ((search.closed a inside).resolve_left List.not_mem_nil) b depends

/-- The check of a Submit finds exactly the parents that depend on the new job. -/
theorem isCircular_iff {jobId : JobId} {parents : List JobId} : isCircular jobs jobId parents = true ↔
    ∃ parent ∈ parents, ReflTransGen (DependsOn jobs) parent jobId := by
  simp only [isCircular, List.any_eq_true]
  exact exists_congr fun parent => and_congr_right fun _ => hasCycle_iff

/-! The calls of `has_cycle` as the source has them, with no bound on their depth. -/

mutual

/-- A call for `current` returns `found` and leaves the visited ids behind. -/
inductive SearchReturns (jobs : HashMap JobId JobInfo) (target : JobId) :
    (current : JobId) → (visited : List JobId) → (found : Bool) → (visited' : List JobId) → Prop where
  | target {visited} : SearchReturns jobs target target visited true visited
  | seen {current visited} (other : current ≠ target) (seen : current ∈ visited) :
      SearchReturns jobs target current visited false visited
  | unknown {current visited} (other : current ≠ target) (new : current ∉ visited)
      (absent : jobs.get? current = none) : SearchReturns jobs target current visited false (current :: visited)
  | record {current visited job found visited'} (other : current ≠ target) (new : current ∉ visited)
      (stored : jobs.get? current = some job)
      (loop : ParentsReturn jobs target job.parents (current :: visited) found visited') :
      SearchReturns jobs target current visited found visited'

/-- The loops over the raw dependencies and the specs of a record. -/
inductive ParentsReturn (jobs : HashMap JobId JobInfo) (target : JobId) :
    (parents : List JobId) → (visited : List JobId) → (found : Bool) → (visited' : List JobId) → Prop where
  | done {visited} : ParentsReturn jobs target [] visited false visited
  | hit {parent rest visited visited'} (search : SearchReturns jobs target parent visited true visited') :
      ParentsReturn jobs target (parent :: rest) visited true visited'
  | next {parent rest visited middle found visited'} (search : SearchReturns jobs target parent visited false middle)
      (loop : ParentsReturn jobs target rest middle found visited') :
      ParentsReturn jobs target (parent :: rest) visited found visited'

end

section Calls

mutual

theorem SearchReturns.keeps {jobId : JobId} : ∀ {current visited found visited'},
    SearchReturns jobs target current visited found visited' → jobId ∈ visited → jobId ∈ visited'
  | _, _, _, _, .target, member => member
  | _, _, _, _, .seen _ _, member => member
  | _, _, _, _, .unknown _ _ _, member => List.mem_cons_of_mem _ member
  | _, _, _, _, .record _ _ _ loop, member => loop.keeps (List.mem_cons_of_mem _ member)

theorem ParentsReturn.keeps {jobId : JobId} : ∀ {parents visited found visited'},
    ParentsReturn jobs target parents visited found visited' → jobId ∈ visited → jobId ∈ visited'
  | _, _, _, _, .done, member => member
  | _, _, _, _, .hit search, member => search.keeps member
  | _, _, _, _, .next search loop, member => loop.keeps (search.keeps member)

end

mutual

theorem SearchReturns.unique : ∀ {current visited found visited' found' visited''},
    SearchReturns jobs target current visited found visited' →
    SearchReturns jobs target current visited found' visited'' → found = found' ∧ visited' = visited''
  | _, _, _, _, _, _, .target, returns' => by
    cases returns' with
    | target => exact ⟨rfl, rfl⟩
    | seen other _ => exact absurd rfl other
    | unknown other _ _ => exact absurd rfl other
    | record other _ _ _ => exact absurd rfl other
  | _, _, _, _, _, _, .seen other seen, returns' => by
    cases returns' with
    | target => exact absurd rfl other
    | seen _ _ => exact ⟨rfl, rfl⟩
    | unknown _ new _ => exact absurd seen new
    | record _ new _ _ => exact absurd seen new
  | _, _, _, _, _, _, .unknown other new absent, returns' => by
    cases returns' with
    | target => exact absurd rfl other
    | seen _ seen => exact absurd seen new
    | unknown _ _ _ => exact ⟨rfl, rfl⟩
    | record _ _ stored _ => cases absent.symm.trans stored
  | _, _, _, _, _, _, .record other new stored loop, returns' => by
    cases returns' with
    | target => exact absurd rfl other
    | seen _ seen => exact absurd seen new
    | unknown _ _ absent => cases absent.symm.trans stored
    | record _ _ stored' loop' =>
      cases stored.symm.trans stored'
      exact loop.unique loop'

theorem ParentsReturn.unique : ∀ {parents visited found visited' found' visited''},
    ParentsReturn jobs target parents visited found visited' →
    ParentsReturn jobs target parents visited found' visited'' → found = found' ∧ visited' = visited''
  | _, _, _, _, _, _, .done, .done => ⟨rfl, rfl⟩
  | _, _, _, _, _, _, .hit search, returns' => by
    cases returns' with
    | hit search' => exact ⟨rfl, (search.unique search').2⟩
    | next search' _ => cases (search.unique search').1
  | _, _, _, _, _, _, .next search loop, returns' => by
    cases returns' with
    | hit search' => cases (search.unique search').1
    | next search' loop' =>
      obtain ⟨-, same⟩ := search.unique search'
      subst same
      exact loop.unique loop'

end

theorem parentsReturn_hasCycleAny {fuel : Nat} (single : ∀ current visited, unvisited jobs visited < fuel →
      SearchReturns jobs target current visited (hasCycle jobs target fuel current visited).1
        (hasCycle jobs target fuel current visited).2) :
    ∀ (parents visited : List JobId), unvisited jobs visited < fuel →
      ParentsReturn jobs target parents visited (hasCycleAny (hasCycle jobs target fuel) parents visited).1
        (hasCycleAny (hasCycle jobs target fuel) parents visited).2 := by
  intro parents
  induction parents with
  | nil => exact fun visited _ => .done
  | cons parent rest ih =>
    intro visited room
    have first := single parent visited room
    rw [hasCycleAny]
    generalize hasCycle jobs target fuel parent visited = result at first ⊢
    obtain ⟨hit, middle⟩ := result
    cases hit with
    | true => exact .hit first
    | false =>
      have room' := (unvisited_mono fun jobId member => first.keeps member).trans_lt room
      exact .next first (ih middle room')

/-- A depth of one more than the records not yet entered is never used up. -/
theorem searchReturns_hasCycle : ∀ (fuel : Nat) (current : JobId) (visited : List JobId),
    unvisited jobs visited < fuel → SearchReturns jobs target current visited
      (hasCycle jobs target fuel current visited).1 (hasCycle jobs target fuel current visited).2 := by
  intro fuel
  induction fuel with
  | zero => intro current visited room; exact absurd room (Nat.not_lt_zero _)
  | succ fuel ih =>
    intro current visited room
    rw [hasCycle]
    by_cases same : current = target
    · subst same
      rw [if_pos rfl]
      exact .target
    · rw [if_neg same]
      by_cases seen : current ∈ visited
      · rw [if_pos seen]
        exact .seen same seen
      · rw [if_neg seen]
        cases stored : jobs.get? current with
        | none => exact .unknown same seen stored
        | some job =>
          have below := unvisited_enter stored seen
          exact .record same seen stored (parentsReturn_hasCycleAny ih job.parents _ (by omega))

/-- The edges of the search: the raw dependencies and the parents of the specs that parse. -/
theorem dependsOn_iff {a b : JobId} : DependsOn jobs a b ↔ ∃ job, jobs.get? a = some job ∧
    (b ∈ job.dependencies.getD [] ∨
      ∃ spec ∈ job.dependencySpecs.getD [], ∃ parsed, DependencySpec.parse spec = .ok parsed ∧ parsed.parentId = b) := by
  refine exists_congr fun job => and_congr_right fun _ => ?_
  rw [JobInfo.parents, parentIds, List.mem_append, List.mem_filterMap]
  refine or_congr_right (exists_congr fun spec => and_congr_right fun _ => ?_)
  cases DependencySpec.parse spec with
  | ok parsed => simp
  | error message => simp

/-- `has_cycle` terminates on every table, with one result: whether the target can be
reached from the current id along raw dependencies and parsable specs. -/
theorem hasCycle_exact (jobs : HashMap JobId JobInfo) (current target : JobId) :
    ∃ found visited, SearchReturns jobs target current [] found visited ∧
      (∀ found' visited', SearchReturns jobs target current [] found' visited' → found' = found ∧ visited' = visited) ∧
      (found = true ↔ ReflTransGen (fun a b => ∃ job, jobs.get? a = some job ∧
        (b ∈ job.dependencies.getD [] ∨ ∃ spec ∈ job.dependencySpecs.getD [], ∃ parsed,
          DependencySpec.parse spec = .ok parsed ∧ parsed.parentId = b)) current target) := by
  have returns := @searchReturns_hasCycle jobs target (jobs.keys.length + 1) current []
    (Nat.lt_succ_of_le List.countP_le_length)
  refine ⟨_, _, returns, fun found' visited' other => other.unique returns, ?_⟩
  rw [hasCycle_iff]
  have edges : DependsOn jobs = fun a b => ∃ job, jobs.get? a = some job ∧
      (b ∈ job.dependencies.getD [] ∨ ∃ spec ∈ job.dependencySpecs.getD [], ∃ parsed,
        DependencySpec.parse spec = .ok parsed ∧ parsed.parentId = b) := by
    funext a b
    exact propext dependsOn_iff
  rw [edges]

end Calls

end Veloce
