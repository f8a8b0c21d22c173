import Veloce.Collections.Overflow
import Veloce.Ha.Panics

/-! What the queue asks for, as the autoscaler reads it: once over the REST interface from
the queue, and once in the metrics from the cached jobs. -/

namespace Veloce

open Collections

structure QueueResourceGap where
  pendingJobs : Nat := 0
  pendingCores : Nat := 0
  pendingMemoryMb : Nat := 0
  pendingNodes : Nat := 0

/-- What the endpoint adds for a pending job: cores are `u32`, memory is `u64` and nodes are
`usize`. The number of jobs is at most the length of the queue. -/
def QueueResourceGap.add (build : Build) (gap : QueueResourceGap) (job : JobInfo) : Option QueueResourceGap := do
  let cores ← build.fit 32 (job.reqCores * asU32 job.reqNodes)
  let pendingCores ← build.fit 32 (gap.pendingCores + cores)
  let memory ← build.fit 64 (job.reqMemory * job.reqNodes)
  let pendingMemoryMb ← build.fit 64 (gap.pendingMemoryMb + memory)
  let pendingNodes ← build.fit 64 (gap.pendingNodes + job.reqNodes)
  return ⟨gap.pendingJobs + 1, pendingCores, pendingMemoryMb, pendingNodes⟩

def AuthenticatedPrincipal.mayView (principal : AuthenticatedPrincipal) : Bool :=
  principal.roles.any fun role => role = "admin" || role = "operator" || role = "submitter" || role = "viewer"

def apiGetQueueGap (build : Build) (principal : AuthenticatedPrincipal) (state : GlobalState) :
    Option (Except Refusal QueueResourceGap) :=
  if !principal.mayView then some (.error (403, "Forbidden: insufficient role"))
  else do
    let gap ← state.queue.foldlM (fun gap jobId =>
      match state.jobs.get? jobId with
      | some job => if job.status = .pending then gap.add build job else some gap
      | none => some gap) {}
    return .ok gap

structure GapCounters where
  gapCores : Nat := 0
  gapNodes : Nat := 0
  gapMem : Nat := 0

def GapCounters.add (build : Build) (gap : GapCounters) (job : JobInfo) : Option GapCounters := do
  let cores ← build.fit 32 (job.reqCores * asU32 job.reqNodes)
  let gapCores ← build.fit 32 (gap.gapCores + cores)
  let gapNodes ← build.fit 64 (gap.gapNodes + job.reqNodes)
  let memory ← build.fit 64 (job.reqMemory * job.reqNodes)
  let gapMem ← build.fit 64 (gap.gapMem + memory)
  return ⟨gapCores, gapNodes, gapMem⟩

structure ExportedGap where
  queueGapCores : Nat
  queueGapNodes : Nat
  queueGapMemoryBytes : Nat

/-- The gap in `generate_prometheus_metrics` over the cached jobs, in the order in which
they are visited. -/
def exportedGap (build : Build) (activeJobs : List JobInfo) : Option ExportedGap := do
  let gap ← activeJobs.foldlM (fun gap job => if job.status = .pending then GapCounters.add build gap job else some gap) {}
  let kilobytes ← build.fit 64 (gap.gapMem * 1024)
  let bytes ← build.fit 64 (kilobytes * 1024)
  return ⟨gap.gapCores, gap.gapNodes, bytes⟩

/-- The pending jobs of the queue. -/
def GlobalState.queuedPending (state : GlobalState) : List JobInfo :=
  (state.queue.filterMap state.jobs.get?).filter fun job => job.status = .pending

def pendingJobs (jobs : List JobInfo) : List JobInfo := jobs.filter fun job => job.status = .pending

def coreGap (jobs : List JobInfo) : Nat := (jobs.map fun job => job.reqCores * job.reqNodes).sum

def memoryGap (jobs : List JobInfo) : Nat := (jobs.map fun job => job.reqMemory * job.reqNodes).sum

def nodeGap (jobs : List JobInfo) : Nat := (jobs.map JobInfo.reqNodes).sum

/-- The sums fit into the types of the counters, memory into so many bits. -/
structure GapFits (memoryBits : Nat) (jobs : List JobInfo) : Prop where
  cores : coreGap jobs < 2 ^ 32
  memory : memoryGap jobs < 2 ^ memoryBits
  nodes : nodeGap jobs < 2 ^ 64

/-- Both reports are exact, and the same if they are about the same jobs. -/
structure GapExact (build : Build) (state : GlobalState) (activeJobs : List JobInfo) : Prop where
  reported : ∀ principal : AuthenticatedPrincipal, principal.mayView = true → apiGetQueueGap build principal state =
    some (.ok ⟨state.queuedPending.length, coreGap state.queuedPending, memoryGap state.queuedPending,
      nodeGap state.queuedPending⟩)
  exported : exportedGap build activeJobs =
    some ⟨coreGap (pendingJobs activeJobs), nodeGap (pendingJobs activeJobs), memoryGap (pendingJobs activeJobs) * 1024 * 1024⟩
  agree : state.queuedPending.Perm (pendingJobs activeJobs) →
    ∀ (principal : AuthenticatedPrincipal) gap exported, apiGetQueueGap build principal state = some (.ok gap) →
      exportedGap build activeJobs = some exported → exported.queueGapCores = gap.pendingCores ∧
        exported.queueGapNodes = gap.pendingNodes ∧ exported.queueGapMemoryBytes = gap.pendingMemoryMb * 1024 * 1024

section Loops

variable {build : Build} {gap final : QueueResourceGap} {counters last : GapCounters} {job : JobInfo} {jobs : List JobInfo}

theorem queue_loop_eq (build : Build) (state : GlobalState) : ∀ (queue : List JobId) (gap : QueueResourceGap),
    queue.foldlM (fun gap jobId =>
      match state.jobs.get? jobId with
      | some job => if job.status = .pending then gap.add build job else some gap
      | none => some gap) gap =
    ((queue.filterMap state.jobs.get?).filter fun job => job.status = .pending).foldlM (QueueResourceGap.add build) gap := by
  intro queue gap
  rw [List.foldlM_filter, List.foldlM_filterMap]
  refine congrArg (List.foldlM · gap queue) (funext fun gap => funext fun jobId => ?_)
  cases state.jobs.get? jobId with
  | none => rfl
  | some job => simp only [decide_eq_true_eq]; rfl

theorem export_loop_eq (build : Build) : ∀ (jobs : List JobInfo) (gap : GapCounters),
    jobs.foldlM (fun gap job => if job.status = .pending then GapCounters.add build gap job else some gap) gap =
      (pendingJobs jobs).foldlM (GapCounters.add build) gap := by
  intro jobs gap
  rw [pendingJobs, List.foldlM_filter]
  simp only [decide_eq_true_eq]
  rfl

theorem asU32_modEq (cores nodes : Nat) : cores * asU32 nodes ≡ cores * nodes [MOD 2 ^ 32] :=
  (Nat.mod_modEq nodes _).mul_left cores

theorem QueueResourceGap.add_eq_some (added : gap.add build job = some final) :
    final.pendingJobs = gap.pendingJobs + 1 ∧
    (final.pendingCores ≡ gap.pendingCores + job.reqCores * job.reqNodes [MOD 2 ^ 32]) ∧
    (final.pendingMemoryMb ≡ gap.pendingMemoryMb + job.reqMemory * job.reqNodes [MOD 2 ^ 64]) ∧
    (final.pendingNodes ≡ gap.pendingNodes + job.reqNodes [MOD 2 ^ 64]) ∧
    final.pendingCores < 2 ^ 32 ∧ final.pendingMemoryMb < 2 ^ 64 ∧ final.pendingNodes < 2 ^ 64 := by
  simp only [QueueResourceGap.add, Option.bind_eq_bind, Option.bind_eq_some_iff] at added
  obtain ⟨cores, product, pendingCores, sum, memory, product', pendingMemoryMb, sum', pendingNodes, sum'', same⟩ := added
  cases same
  refine ⟨rfl, ?_, ?_, Build.fit_modEq sum'', Build.fit_lt sum, Build.fit_lt sum', Build.fit_lt sum''⟩
  · exact (Build.fit_modEq sum).trans (((Build.fit_modEq product).trans (asU32_modEq _ _)).add_left _)
  · exact (Build.fit_modEq sum').trans ((Build.fit_modEq product').add_left _)

theorem GapCounters.add_eq_some (added : counters.add build job = some last) :
    (last.gapCores ≡ counters.gapCores + job.reqCores * job.reqNodes [MOD 2 ^ 32]) ∧
    (last.gapMem ≡ counters.gapMem + job.reqMemory * job.reqNodes [MOD 2 ^ 64]) ∧
    (last.gapNodes ≡ counters.gapNodes + job.reqNodes [MOD 2 ^ 64]) ∧
    last.gapCores < 2 ^ 32 ∧ last.gapMem < 2 ^ 64 ∧ last.gapNodes < 2 ^ 64 := by
  simp only [GapCounters.add, Option.bind_eq_bind, Option.bind_eq_some_iff] at added
  obtain ⟨cores, product, gapCores, sum, gapNodes, sum', memory, product', gapMem, sum'', same⟩ := added
  cases same
  refine ⟨?_, ?_, Build.fit_modEq sum', Build.fit_lt sum, Build.fit_lt sum'', Build.fit_lt sum'⟩
  · exact (Build.fit_modEq sum).trans (((Build.fit_modEq product).trans (asU32_modEq _ _)).add_left _)
  · exact (Build.fit_modEq sum'').trans ((Build.fit_modEq product').add_left _)

/-- A product of cores that fits is formed as it is. -/
theorem asU32_of_lt {cores nodes : Nat} (small : cores * nodes < 2 ^ 32) : cores * asU32 nodes = cores * nodes := by
  cases cores with
  | zero => rw [Nat.zero_mul, Nat.zero_mul]
  | succ cores =>
    have bound : nodes < 2 ^ 32 := lt_of_le_of_lt (Nat.le_mul_of_pos_left nodes (Nat.succ_pos cores)) small
    rw [asU32, Nat.mod_eq_of_lt bound]

theorem QueueResourceGap.add_of_fits (cores : gap.pendingCores + job.reqCores * job.reqNodes < 2 ^ 32)
    (memory : gap.pendingMemoryMb + job.reqMemory * job.reqNodes < 2 ^ 64) (nodes : gap.pendingNodes + job.reqNodes < 2 ^ 64) :
    gap.add build job = some ⟨gap.pendingJobs + 1, gap.pendingCores + job.reqCores * job.reqNodes,
      gap.pendingMemoryMb + job.reqMemory * job.reqNodes, gap.pendingNodes + job.reqNodes⟩ := by
  have product : job.reqCores * job.reqNodes < 2 ^ 32 := by omega
  have product' : job.reqMemory * job.reqNodes < 2 ^ 64 := by omega
  simp only [QueueResourceGap.add, asU32_of_lt product, Build.fit_of_lt product, Build.fit_of_lt product',
    Build.fit_of_lt cores, Build.fit_of_lt memory, Build.fit_of_lt nodes, Option.bind_eq_bind, Option.bind_some]
  rfl

theorem GapCounters.add_of_fits (cores : counters.gapCores + job.reqCores * job.reqNodes < 2 ^ 32)
    (memory : counters.gapMem + job.reqMemory * job.reqNodes < 2 ^ 64) (nodes : counters.gapNodes + job.reqNodes < 2 ^ 64) :
    counters.add build job = some ⟨counters.gapCores + job.reqCores * job.reqNodes, counters.gapNodes + job.reqNodes,
      counters.gapMem + job.reqMemory * job.reqNodes⟩ := by
  have product : job.reqCores * job.reqNodes < 2 ^ 32 := by omega
  have product' : job.reqMemory * job.reqNodes < 2 ^ 64 := by omega
  simp only [GapCounters.add, asU32_of_lt product, Build.fit_of_lt product, Build.fit_of_lt product',
    Build.fit_of_lt cores, Build.fit_of_lt memory, Build.fit_of_lt nodes, Option.bind_eq_bind, Option.bind_some]
  rfl

theorem QueueResourceGap.foldlM_of_fits : ∀ (jobs : List JobInfo) (gap : QueueResourceGap),
    gap.pendingCores + coreGap jobs < 2 ^ 32 → gap.pendingMemoryMb + memoryGap jobs < 2 ^ 64 →
    gap.pendingNodes + nodeGap jobs < 2 ^ 64 → jobs.foldlM (QueueResourceGap.add build) gap =
      some ⟨gap.pendingJobs + jobs.length, gap.pendingCores + coreGap jobs, gap.pendingMemoryMb + memoryGap jobs,
        gap.pendingNodes + nodeGap jobs⟩ := by
  intro jobs
  induction jobs with
  | nil => intro gap _ _ _; rfl
  | cons job rest ih =>
    intro gap cores memory nodes
    simp only [coreGap, memoryGap, nodeGap, List.map_cons, List.sum_cons, List.length_cons, ← Nat.add_assoc]
      at cores memory nodes ih ⊢
    rw [List.foldlM_cons, QueueResourceGap.add_of_fits (by omega) (by omega) (by omega), Option.bind_eq_bind,
      Option.bind_some, ih _ cores memory nodes, Nat.add_right_comm]

theorem GapCounters.foldlM_of_fits : ∀ (jobs : List JobInfo) (counters : GapCounters),
    counters.gapCores + coreGap jobs < 2 ^ 32 → counters.gapMem + memoryGap jobs < 2 ^ 64 →
    counters.gapNodes + nodeGap jobs < 2 ^ 64 → jobs.foldlM (GapCounters.add build) counters =
      some ⟨counters.gapCores + coreGap jobs, counters.gapNodes + nodeGap jobs, counters.gapMem + memoryGap jobs⟩ := by
  intro jobs
  induction jobs with
  | nil => intro counters _ _ _; rfl
  | cons job rest ih =>
    intro counters cores memory nodes
    simp only [coreGap, memoryGap, nodeGap, List.map_cons, List.sum_cons, ← Nat.add_assoc] at cores memory nodes ih ⊢
    rw [List.foldlM_cons, GapCounters.add_of_fits (by omega) (by omega) (by omega), Option.bind_eq_bind,
      Option.bind_some, ih _ cores memory nodes]

/-- The values that the counters can hold. -/
def QueueResourceGap.Bounded (gap : QueueResourceGap) : Prop :=
  gap.pendingCores < 2 ^ 32 ∧ gap.pendingMemoryMb < 2 ^ 64 ∧ gap.pendingNodes < 2 ^ 64

instance (gap : QueueResourceGap) : Decidable gap.Bounded := inferInstanceAs (Decidable (_ ∧ _ ∧ _))

def GapCounters.Bounded (gap : GapCounters) : Prop := gap.gapCores < 2 ^ 32 ∧ gap.gapMem < 2 ^ 64 ∧ gap.gapNodes < 2 ^ 64

instance (gap : GapCounters) : Decidable gap.Bounded := inferInstanceAs (Decidable (_ ∧ _ ∧ _))

theorem QueueResourceGap.foldlM_exact_iff : jobs.foldlM (QueueResourceGap.add build) {} =
    some ⟨jobs.length, coreGap jobs, memoryGap jobs, nodeGap jobs⟩ ↔ GapFits 64 jobs := by
  constructor
  · intro ran
    have bounds : coreGap jobs < 2 ^ 32 ∧ memoryGap jobs < 2 ^ 64 ∧ nodeGap jobs < 2 ^ 64 :=
      @foldlM_invariant _ _ _ _ _ _ QueueResourceGap.Bounded (fun _ _ _ _ added => (QueueResourceGap.add_eq_some added).2.2.2.2)
        (by decide) ran
    exact ⟨bounds.1, bounds.2.1, bounds.2.2⟩
  · rintro ⟨cores, memory, nodes⟩
    have whole := @QueueResourceGap.foldlM_of_fits build jobs {} (by simpa using cores) (by simpa using memory)
      (by simpa using nodes)
    simpa using whole

theorem exportedGap_exact_iff {activeJobs : List JobInfo} : exportedGap build activeJobs =
    some ⟨coreGap (pendingJobs activeJobs), nodeGap (pendingJobs activeJobs), memoryGap (pendingJobs activeJobs) * 1024 * 1024⟩ ↔
      GapFits 44 (pendingJobs activeJobs) := by
  rw [exportedGap, export_loop_eq]
  constructor
  · intro ran
    simp only [Option.bind_eq_bind, Option.bind_eq_some_iff] at ran
    obtain ⟨counters, looped, kilobytes, _, bytes, fits, same⟩ := ran
    have bounds : counters.Bounded :=
      foldlM_invariant (fun _ _ _ _ added => (GapCounters.add_eq_some added).2.2.2) (by decide) looped
    have small := Build.fit_lt fits
    obtain ⟨cores, nodes, memory⟩ := ExportedGap.mk.inj (Option.some.inj same)
    exact ⟨cores ▸ bounds.1, by omega, nodes ▸ bounds.2.2⟩
  · rintro ⟨cores, memory, nodes⟩
    have whole := @GapCounters.foldlM_of_fits build (pendingJobs activeJobs) {} (by simpa using cores)
      (by simp only [Nat.zero_add]; omega) (by simpa using nodes)
    simp only [Nat.zero_add] at whole
    have kilobytes : memoryGap (pendingJobs activeJobs) * 1024 < 2 ^ 64 := by omega
    have bytes : memoryGap (pendingJobs activeJobs) * 1024 * 1024 < 2 ^ 64 := by
      rw [Nat.mul_assoc]
      exact Nat.mul_lt_mul_of_pos_right memory (by decide)
    simp only [whole, Option.bind_eq_bind, Option.bind_some, Build.fit_of_lt kilobytes, Build.fit_of_lt bytes]
    rfl

theorem apiGetQueueGap_iff {principal : AuthenticatedPrincipal} {state : GlobalState} (views : principal.mayView = true) :
    apiGetQueueGap build principal state = some (.ok gap) ↔
      state.queuedPending.foldlM (QueueResourceGap.add build) {} = some gap := by
  rw [apiGetQueueGap, views, queue_loop_eq]
  simp only [Bool.not_true, Bool.false_eq_true, if_false, GlobalState.queuedPending]
  cases ((state.queue.filterMap state.jobs.get?).filter fun job => job.status = .pending).foldlM
      (QueueResourceGap.add build) {} with
  | none => simp
  | some gap => simp

theorem GapExact.fits {state : GlobalState} {activeJobs : List JobInfo} (exact : GapExact build state activeJobs) :
    GapFits 64 state.queuedPending ∧ GapFits 44 (pendingJobs activeJobs) := by
  have admin : (AuthenticatedPrincipal.mk "admin" ["admin"]).mayView = true := by decide
  have ran := (apiGetQueueGap_iff admin).mp (exact.reported _ admin)
  exact ⟨QueueResourceGap.foldlM_exact_iff.mp ran, exportedGap_exact_iff.mp exact.exported⟩

/-- The gap is exact in both places, and the same where they are about the same jobs, if
and only if the sums fit into the counters. -/
theorem queueGap_exact_iff (build : Build) (state : GlobalState) (activeJobs : List JobInfo) :
    GapExact build state activeJobs ↔ GapFits 64 state.queuedPending ∧ GapFits 44 (pendingJobs activeJobs) := by
  refine ⟨GapExact.fits, ?_⟩
  rintro ⟨fits, fits'⟩
  have exact : state.queuedPending.foldlM (QueueResourceGap.add build) {} = some _ := QueueResourceGap.foldlM_exact_iff.mpr fits
  have exact' : exportedGap build activeJobs = some _ := exportedGap_exact_iff.mpr fits'
  refine ⟨fun principal views => (apiGetQueueGap_iff views).mpr exact, exact', fun same principal gap exported asked read => ?_⟩
  have views : principal.mayView = true := by
    by_contra hidden
    rw [Bool.not_eq_true] at hidden
    simp [apiGetQueueGap, hidden] at asked
  cases (exact.symm.trans ((apiGetQueueGap_iff views).mp asked))
  cases exact'.symm.trans read
  refine ⟨?_, ?_, ?_⟩
  · exact ((same.map _).sum_eq).symm
  · exact ((same.map _).sum_eq).symm
  · exact congrArg (· * 1024 * 1024) ((same.map _).sum_eq).symm

/-- A Submit of 65536 cores on each of 65536 nodes is admitted and entered. -/
def wideRun : List ControllerEvent :=
  (sampleRequest (.submit { binary := "sh", reqCores := 65536, reqNodes := 65536 })).map ControllerEvent.desk

/-- Its 2 ^ 32 cores are no `u32`: they are reported as none at all, or the endpoint panics. -/
theorem wide_job_wraps : ∃ controller, Reach Controller.NewLeader (Controller.Goes InTime) controller ∧
    coreGap controller.state.queuedPending = 2 ^ 32 ∧
    (∀ build, ¬ GapExact build controller.state controller.state.jobs.values) ∧
    (apiGetQueueGap .release ⟨"admin", ["admin"]⟩ controller.state).map (fun answer => answer.toOption.map (·.pendingCores)) =
      some (some 0) ∧
    (apiGetQueueGap .debug ⟨"admin", ["admin"]⟩ controller.state).isNone = true := by
  have permitted : AllowedRun InTime Controller.advance wideRun newLeader := by decide +kernel
  have facts : (runLabels Controller.advance wideRun newLeader).map (fun controller =>
      (coreGap controller.state.queuedPending,
        (apiGetQueueGap .release ⟨"admin", ["admin"]⟩ controller.state).map (fun answer =>
          answer.toOption.map (·.pendingCores)),
        (apiGetQueueGap .debug ⟨"admin", ["admin"]⟩ controller.state).isNone)) = some (2 ^ 32, some (some 0), true) := by
    decide +kernel
  obtain ⟨controller, ran, facts⟩ := Option.map_eq_some_iff.mp facts
  simp only [Prod.mk.injEq] at facts
  refine ⟨controller, advance_reach permitted ran, facts.1, fun build exact => ?_, facts.2⟩
  have small := exact.fits.1.cores
  rw [facts.1] at small
  exact absurd small (lt_irrefl _)

end Loops

end Veloce
