import Veloce.Collections.Cgroups
import Veloce.Collections.Run
import Veloce.Handlers.Worker
import Veloce.Ledger.Allocate
import Veloce.Worker.BpfFilter

/-! The control groups of the jobs on a worker: which devices of the NVIDIA driver a process may open. -/

namespace Veloce

open Collections

abbrev Pid := Nat

inductive CgroupName where
  | worker
  | veloce
  | job (jobId : JobId)
  | step (stepId : Nat)
deriving DecidableEq

abbrev JobGroups := Cgroups CgroupName Pid (List Ebpf.Insn)

def jobPath (jobId : JobId) : List CgroupName := [.job jobId, .veloce]

def stepPath (jobId : JobId) (stepId : Nat) : List CgroupName := .step stepId :: jobPath jobId

/-- How the file operations end while a group is prepared, and the major of nvidia-uvm in
/proc/devices, which is not that of the driver itself. -/
structure Preparation where
  removed : Bool := true
  created : Bool := true
  parentCreated : Bool := true
  stepCreated : Bool := true
  memoryMax : Bool := true
  cpuMax : Bool := true
  uvmMajor : Option Nat := none
  uvmApart : ∀ major ∈ uvmMajor, major ≠ 195 ∧ major < 2 ^ 31 := by simp

namespace JobGroups

variable (groups : JobGroups) (jobId : JobId)

/-- Of five attempts to remove the directory one succeeds or none. -/
def cleanupJobCgroup (removed : Bool) : JobGroups :=
  if removed then (groups.rmdir (jobPath jobId)).getD groups else groups

/-- The groups, and whether the directory was made. -/
def createJobCgroup (prep : Preparation) : JobGroups × Bool :=
  let cleaned := cleanupJobCgroup groups jobId prep.removed
  match if prep.created then cleaned.mkdir (.job jobId) [.veloce] else none with
  | some created => (created, true)
  | none => (cleaned, false)

/-- Attach a filter for an entry of the allocation; every filter is accepted. -/
def attachGpuFilter (uvmMajor : Option Nat) (groups : JobGroups) (entry : String × List Nat) : JobGroups :=
  if entry.1 = "gpu" then (groups.attach (jobPath jobId) (compileBpfProgram uvmMajor entry.2)).getD groups else groups

/-- The limits of memory and cores are written first, and a failed write ends it. -/
def setLimits (memoryMb cores : Nat) (allocatedGres : HashMap String (List Nat)) (prep : Preparation) : JobGroups :=
  if 0 < memoryMb ∧ !prep.memoryMax then groups
  else if 0 < cores ∧ !prep.cpuMax then groups
  else allocatedGres.toList.foldl (attachGpuFilter jobId prep.uvmMajor) groups

def runJob (order : RunJob) (prep : Preparation) : JobGroups :=
  match createJobCgroup groups order.jobId prep with
  | (created, true) => setLimits created order.jobId order.reqMemory ((order.assignedCores.map List.length).getD 0)
      order.allocatedGres prep
  | (kept, false) => kept

/-- The group of a step, from `run_step`, with all directories above it. -/
def runStep (stepId : Nat) (prep : Preparation) : JobGroups :=
  let kept := (createJobCgroup groups jobId prep).1
  let parent := if prep.parentCreated then (kept.mkdir (.job jobId) [.veloce]).getD kept else kept
  if prep.stepCreated then (parent.mkdir (.step stepId) (jobPath jobId)).getD parent else parent

/-- The hierarchy of `init`. -/
def init : JobGroups :=
  let root : JobGroups := .root
  ((root.mkdir .worker []).bind (·.mkdir .veloce [])).getD root

end JobGroups

structure Opening where
  jobId : JobId
  gpuIds : List (BitVec 32)
  minor : BitVec 32
deriving DecidableEq

/-- The groups and processes of a worker's machine, and what the last orders of its jobs allocate on it. -/
structure GpuHost where
  groups : JobGroups := .init
  allocated : HashMap JobId (HashMap String (List Nat)) := ∅
  owner : HashMap Pid JobId := ∅
  opened : List Opening := []

namespace GpuHost

def gpuIds (host : GpuHost) (jobId : JobId) : List (BitVec 32) :=
  (((host.allocated.get? jobId).bind (·.get? "gpu")).getD []).map (BitVec.ofNat 32)

/-- A process may open a device if every filter above it returns 1. -/
def mayOpen (host : GpuHost) (path : List CgroupName) (ctx : BpfCgroupDevCtx) (regs : BitVec 4 → BitVec 64) (steps : Nat) : Bool :=
  (host.groups.effective path).all fun program => Ebpf.run (ctx.load (regs 1)) program steps ⟨0, regs⟩ = some 1

end GpuHost

/-- What happens on the machine: the worker prepares groups, starts processes in its own group
and moves them, processes fork and end, and open NVIDIA devices. -/
inductive GpuHostEvent where
  | runJob (order : RunJob) (prep : Preparation)
  | runStep (jobId : JobId) (stepId : Nat) (prep : Preparation)
  | spawn (jobId : JobId) (pid : Pid)
  | addProcess (jobId : JobId) (pid : Pid) (moved : Bool)
  | addRank (jobId : JobId) (stepId : Nat) (pid : Pid) (moved : Bool)
  | fork (parent child : Pid)
  | exit (pid : Pid)
  | cleanup (jobId : JobId) (removed : Bool)
  | opens (pid : Pid) (accessType minor : BitVec 32) (regs : BitVec 4 → BitVec 64) (steps : Nat)

namespace GpuHost

def move (host : GpuHost) (jobId : JobId) (pid : Pid) (path : List CgroupName) (moved : Bool) : Option GpuHost :=
  if host.owner.get? pid = some jobId then
    some { host with groups := if moved then (host.groups.place pid path).getD host.groups else host.groups }
  else none

def start (host : GpuHost) (jobId : JobId) (pid : Pid) (path : List CgroupName) : Option GpuHost :=
  if host.owner.contains pid then none
  else (host.groups.place pid path).map fun groups => { host with groups, owner := host.owner.insert pid jobId }

def apply (event : GpuHostEvent) (host : GpuHost) : Option GpuHost :=
  match event with
  | .runJob order prep =>
    some { host with
      groups := host.groups.runJob order prep
      allocated := host.allocated.insert order.jobId order.allocatedGres }
  | .runStep jobId stepId prep => some { host with groups := host.groups.runStep jobId stepId prep }
  | .spawn jobId pid => host.start jobId pid [.worker]
  | .addProcess jobId pid moved => host.move jobId pid (jobPath jobId) moved
  | .addRank jobId stepId pid moved => host.move jobId pid (stepPath jobId stepId) moved
  | .fork parent child =>
    match host.owner.get? parent, host.groups.placed.get? parent with
    | some jobId, some path => host.start jobId child path
    | _, _ => none
  | .exit pid => some { host with groups := host.groups.leave pid, owner := host.owner.remove pid }
  | .cleanup jobId removed => some { host with groups := host.groups.cleanupJobCgroup jobId removed }
  | .opens pid accessType minor regs steps =>
    match host.owner.get? pid, host.groups.placed.get? pid with
    | some jobId, some path =>
      if host.mayOpen path ⟨accessType, 195, minor⟩ regs steps then
        some { host with opened := host.opened ++ [⟨jobId, host.gpuIds jobId, minor⟩] }
      else none
    | _, _ => none

/-- The steps that keep the GPUs apart: the order of a job names GPUs, and its group is made
anew and limited; a step finds the group of its job in use; a process that opens a device was
moved before. -/
def Shields (host : GpuHost) : GpuHostEvent → Prop
  | .runJob order prep =>
    order.allocatedGres.contains "gpu" = true ∧ (host.groups.contains (jobPath order.jobId) = true → prep.removed = true) ∧
      host.groups.busy (jobPath order.jobId) = false ∧ prep.created = true ∧
      (0 < order.reqMemory → prep.memoryMax = true) ∧
      (0 < (order.assignedCores.map List.length).getD 0 → prep.cpuMax = true)
  | .runStep jobId _ _ => host.groups.busy (jobPath jobId) = true
  | .opens pid _ _ _ _ => ∀ jobId ∈ host.owner.get? pid, ∃ path ∈ host.groups.placed.get? pid, jobPath jobId <:+ path
  | _ => True

instance (host : GpuHost) : (event : GpuHostEvent) → Decidable (host.Shields event)
  | .runJob _ _ => inferInstanceAs (Decidable (_ ∧ (_ → _) ∧ _ ∧ _ ∧ (_ → _) ∧ (_ → _)))
  | .runStep _ _ _ => inferInstanceAs (Decidable (_ = true))
  | .opens _ _ _ _ _ => inferInstanceAs (Decidable (∀ jobId ∈ _, ∃ path ∈ _, _))
  | .spawn _ _ | .addProcess _ _ _ | .addRank _ _ _ _ | .fork _ _ | .exit _ | .cleanup _ _ => isTrue trivial

end GpuHost

namespace JobGroups

variable {groups : JobGroups} {jobId other : JobId} {prep : Preparation} {path : List CgroupName}

theorem jobPath_inj : jobPath jobId = jobPath other ↔ jobId = other := by simp [jobPath]

theorem jobPath_ne_stepPath (jobId other : JobId) (stepId : Nat) : jobPath jobId ≠ .step stepId :: jobPath other := by
  simp [jobPath]

theorem contains_of_busy {path : List CgroupName} (busy : groups.busy path = true) : groups.contains path = true := by
  rw [Cgroups.busy, Bool.or_eq_true] at busy
  rcases busy with placed | below
  · obtain ⟨path', member, same⟩ := List.any_eq_true.mp placed
    obtain ⟨pid, here⟩ := HashMap.mem_values.mp member
    exact of_decide_eq_true same ▸ groups.inside pid path' here
  · obtain ⟨path', member, same⟩ := List.any_eq_true.mp below
    obtain ⟨named, rfl⟩ := of_decide_eq_true same
    cases path' with
    | nil => exact absurd rfl named
    | cons name rest => exact groups.closed name rest (HashMap.contains_iff.mpr (HashMap.mem_keys.mp member))

theorem rmdir_busy (busy : groups.busy path = true) : groups.rmdir path = none :=
  dif_neg (by simp [busy])

theorem mkdir_present {name : CgroupName} (present : groups.contains (name :: path) = true) : groups.mkdir name path = none := by
  cases made : groups.mkdir name path with
  | none => rfl
  | some groups' => exact absurd present (by simp [(Cgroups.mkdir_cases made).1])

theorem cleanup_programs (groups : JobGroups) (jobId : JobId) (removed : Bool) (path : List CgroupName) :
    (cleanupJobCgroup groups jobId removed).programs.get? path = groups.programs.get? path ∨
      path = jobPath jobId ∧ (cleanupJobCgroup groups jobId removed).programs.get? path = none := by
  unfold cleanupJobCgroup
  split
  · cases gone : groups.rmdir (jobPath jobId) with
    | none => exact .inl rfl
    | some groups' =>
      rw [Option.getD_some, (Cgroups.rmdir_cases gone).2.2, HashMap.get?_remove]
      by_cases same : path = jobPath jobId
      · exact .inr ⟨same, if_pos same⟩
      · exact .inl (if_neg same)
  · exact .inl rfl

theorem cleanup_busy (busy : groups.busy (jobPath jobId) = true) (removed : Bool) :
    cleanupJobCgroup groups jobId removed = groups := by
  simp [cleanupJobCgroup, rmdir_busy busy]

theorem createJobCgroup_busy (busy : groups.busy (jobPath jobId) = true) (prep : Preparation) :
    createJobCgroup groups jobId prep = (groups, false) := by
  have present : groups.mkdir (.job jobId) [.veloce] = none := mkdir_present (contains_of_busy busy)
  simp [createJobCgroup, cleanup_busy busy, present]

/-- A step of a job whose group is in use adds its own group and nothing else. -/
theorem runStep_busy (busy : groups.busy (jobPath jobId) = true) (stepId : Nat) (prep : Preparation) :
    (runStep groups jobId stepId prep).programs.get? (jobPath other) = groups.programs.get? (jobPath other) := by
  have present : groups.mkdir (.job jobId) [.veloce] = none := mkdir_present (contains_of_busy busy)
  simp only [runStep, createJobCgroup_busy busy, present, Option.getD_none, ite_self]
  split
  · cases made : groups.mkdir (.step stepId) (jobPath jobId) with
    | none => rfl
    | some groups' =>
      rw [Option.getD_some, (Cgroups.mkdir_cases made).2.2, HashMap.get?_insert,
        if_neg (jobPath_ne_stepPath other jobId stepId)]
  · rfl

theorem attachGpuFilter_elsewhere (apart : path ≠ jobPath jobId) (uvmMajor : Option Nat) (groups : JobGroups)
    (entry : String × List Nat) :
    (attachGpuFilter jobId uvmMajor groups entry).programs.get? path = groups.programs.get? path := by
  unfold attachGpuFilter
  split
  · cases attached : groups.attach (jobPath jobId) (compileBpfProgram uvmMajor entry.2) with
    | none => rfl
    | some groups' => rw [Option.getD_some, (Cgroups.attach_cases attached).2, HashMap.get?_insert, if_neg apart]
  · rfl

theorem attachAll_elsewhere (apart : path ≠ jobPath jobId) (uvmMajor : Option Nat) (entries : List (String × List Nat)) :
    ∀ groups : JobGroups,
      (entries.foldl (attachGpuFilter jobId uvmMajor) groups).programs.get? path = groups.programs.get? path := by
  induction entries with
  | nil => exact fun _ => rfl
  | cons entry rest ih => exact fun groups => (ih _).trans (attachGpuFilter_elsewhere apart uvmMajor groups entry)

theorem attachGpuFilter_gpu (present : groups.contains (jobPath jobId) = true) (uvmMajor : Option Nat) (ids : List Nat) :
    (attachGpuFilter jobId uvmMajor groups ("gpu", ids)).programs.get? (jobPath jobId) =
      some (some (compileBpfProgram uvmMajor ids)) := by
  simp [attachGpuFilter, Cgroups.attach, present]

theorem attachAll_gpu (uvmMajor : Option Nat) {ids : List Nat} {entries : List (String × List Nat)} :
    ∀ {groups : JobGroups}, groups.contains (jobPath jobId) = true → (∀ entry ∈ entries, entry.1 = "gpu" → entry.2 = ids) →
      ("gpu", ids) ∈ entries ∨ groups.programs.get? (jobPath jobId) = some (some (compileBpfProgram uvmMajor ids)) →
      (entries.foldl (attachGpuFilter jobId uvmMajor) groups).programs.get? (jobPath jobId) =
        some (some (compileBpfProgram uvmMajor ids)) := by
  induction entries with
  | nil =>
    intro groups _ _ known
    exact known.resolve_left List.not_mem_nil
  | cons entry rest ih =>
    intro groups present one known
    have others : ∀ entry ∈ rest, entry.1 = "gpu" → entry.2 = ids := fun entry member => one entry (List.mem_cons_of_mem _ member)
    rw [List.foldl_cons]
    obtain ⟨name, listed⟩ := entry
    by_cases gpu : name = "gpu"
    · subst gpu
      have same : listed = ids := one _ List.mem_cons_self rfl
      subst same
      have bound := attachGpuFilter_gpu present uvmMajor listed
      exact ih (HashMap.contains_iff.mpr ⟨_, bound⟩) others (.inr bound)
    · have skipped : attachGpuFilter jobId uvmMajor groups (name, listed) = groups := if_neg gpu
      rw [skipped]
      refine ih present others (known.imp_left fun member => ?_)
      rcases List.mem_cons.mp member with same | later
      · exact absurd (congrArg Prod.fst same).symm gpu
      · exact later

/-- The directory is made, without a program, or nothing but the removal takes place. -/
theorem createJobCgroup_cases (groups : JobGroups) (jobId : JobId) (prep : Preparation) :
    (∃ created, createJobCgroup groups jobId prep = (created, true) ∧
      created.programs = (cleanupJobCgroup groups jobId prep.removed).programs.insert (jobPath jobId) none) ∨
    createJobCgroup groups jobId prep = (cleanupJobCgroup groups jobId prep.removed, false) := by
  unfold createJobCgroup
  cases prep.created with
  | false => exact .inr rfl
  | true =>
    cases made : (groups.cleanupJobCgroup jobId prep.removed).mkdir (.job jobId) [.veloce] with
    | none => exact .inr (by simp [made])
    | some created => exact .inl ⟨created, by simp [made], (Cgroups.mkdir_cases made).2.2⟩

theorem createJobCgroup_elsewhere (apart : path ≠ jobPath jobId) :
    (createJobCgroup groups jobId prep).1.programs.get? path = groups.programs.get? path := by
  have cleaned := (cleanup_programs groups jobId prep.removed path).resolve_right fun both => apart both.1
  obtain ⟨created, made, programs⟩ | kept := createJobCgroup_cases groups jobId prep
  · rw [made, programs, HashMap.get?_insert, if_neg apart]
    exact cleaned
  · rw [kept]
    exact cleaned

theorem runJob_elsewhere {order : RunJob} (apart : path ≠ jobPath order.jobId) :
    (runJob groups order prep).programs.get? path = groups.programs.get? path := by
  have kept : (createJobCgroup groups order.jobId prep).1.programs.get? path = _ := createJobCgroup_elsewhere apart
  unfold runJob
  split
  · rename_i created made
    rw [made] at kept
    unfold setLimits
    split
    · exact kept
    · split
      · exact kept
      · exact (attachAll_elsewhere apart prep.uvmMajor _ created).trans kept
  · rename_i same
    rw [same] at kept
    exact kept

theorem cleanup_free (free : groups.busy (jobPath jobId) = false) {removed : Bool}
    (gone : groups.contains (jobPath jobId) = true → removed = true) :
    (cleanupJobCgroup groups jobId removed).contains (jobPath jobId) = false := by
  unfold cleanupJobCgroup
  cases present : groups.contains (jobPath jobId) with
  | false =>
    have none : groups.rmdir (jobPath jobId) = none := by simp [Cgroups.rmdir, present]
    simp [none, present]
  | true =>
    rw [if_pos (gone present)]
    cases result : groups.rmdir (jobPath jobId) with
    | none => simp [Cgroups.rmdir, free, present] at result
    | some groups' => simp [Cgroups.contains, (Cgroups.rmdir_cases result).2.2, HashMap.contains]

theorem runJob_own {order : RunJob} {ids : List Nat} (gpus : order.allocatedGres.get? "gpu" = some ids)
    (gone : groups.contains (jobPath order.jobId) = true → prep.removed = true)
    (free : groups.busy (jobPath order.jobId) = false) (memory : 0 < order.reqMemory → prep.memoryMax = true)
    (cpu : 0 < (order.assignedCores.map List.length).getD 0 → prep.cpuMax = true)
    (there : (runJob groups order prep).contains (jobPath order.jobId) = true) :
    (runJob groups order prep).programs.get? (jobPath order.jobId) = some (some (compileBpfProgram prep.uvmMajor ids)) := by
  unfold runJob at there ⊢
  obtain ⟨created, made, programs⟩ | kept := createJobCgroup_cases groups order.jobId prep
  · have fresh : created.contains (jobPath order.jobId) = true := by simp [Cgroups.contains, programs, HashMap.contains]
    simp only [made]
    rw [setLimits, if_neg (by simpa using memory), if_neg (by simpa using cpu)]
    refine attachAll_gpu prep.uvmMajor fresh ?_ (.inl (HashMap.mem_toList.mpr gpus))
    intro entry member gpu
    have found := HashMap.mem_toList.mp (show (entry.1, entry.2) ∈ _ from member)
    rw [gpu, gpus] at found
    exact (Option.some.inj found).symm
  · rw [kept] at there
    exact absurd there (Bool.eq_false_iff.mp (cleanup_free free gone))

end JobGroups

namespace GpuHost

/-- Every group of a job has the filter of the last order of the job, and the devices opened so
far were given to their jobs. -/
structure Shielded (host : GpuHost) : Prop where
  filtered : ∀ jobId, host.groups.contains (jobPath jobId) = true → ∃ ids uvmMajor,
    (host.allocated.get? jobId).bind (·.get? "gpu") = some ids ∧ (∀ major ∈ uvmMajor, major ≠ 195 ∧ major < 2 ^ 31) ∧
      host.groups.programs.get? (jobPath jobId) = some (some (compileBpfProgram uvmMajor ids))
  opened : ∀ opening ∈ host.opened, opening.minor = 254 ∨ opening.minor = 255 ∨ opening.minor ∈ opening.gpuIds

variable {host next : GpuHost} {event : GpuHostEvent}

/-- A change that leaves the programs of the jobs, or takes some of them away. -/
theorem Shielded.of_groups (valid : host.Shielded) (allocated : next.allocated = host.allocated)
    (opened : next.opened = host.opened)
    (kept : ∀ jobId, next.groups.programs.get? (jobPath jobId) = host.groups.programs.get? (jobPath jobId) ∨
      next.groups.programs.get? (jobPath jobId) = none) : next.Shielded where
  filtered jobId there := by
    obtain ⟨program, present⟩ := HashMap.contains_iff.mp there
    have same := (kept jobId).resolve_right (by rw [present]; simp)
    rw [same, allocated]
    exact valid.filtered jobId (HashMap.contains_iff.mpr ⟨program, same ▸ present⟩)
  opened := opened ▸ valid.opened

theorem place_kept (groups : JobGroups) (pid : Pid) (path : List CgroupName) :
    ((groups.place pid path).getD groups).programs = groups.programs := by
  cases moved : groups.place pid path with
  | none => rfl
  | some groups' => exact (Cgroups.place_cases moved).2.2

variable {path : List CgroupName}

theorem Shielded.move (valid : host.Shielded) {jobId : JobId} {pid : Pid} {moved : Bool}
    (taken : host.move jobId pid path moved = some next) : next.Shielded := by
  unfold GpuHost.move at taken
  split at taken
  · cases taken
    refine valid.of_groups rfl rfl fun _ => .inl ?_
    cases moved with
    | false => rfl
    | true => exact congrArg (HashMap.get? · _) (place_kept host.groups pid path)
  · cases taken

theorem Shielded.start (valid : host.Shielded) {jobId : JobId} {pid : Pid}
    (taken : host.start jobId pid path = some next) : next.Shielded := by
  unfold GpuHost.start at taken
  split at taken
  · cases taken
  · obtain ⟨groups, placed, rfl⟩ := Option.map_eq_some_iff.mp taken
    refine valid.of_groups rfl rfl fun jobId => .inl ?_
    exact congrArg (HashMap.get? · (jobPath jobId)) (Cgroups.place_cases placed).2.2

/-- A process in the group of its job opens what the filter of the group lets through. -/
theorem Shielded.listed (valid : host.Shielded) {pid : Pid} {jobId : JobId}
    (here : host.groups.placed.get? pid = some path) (below : jobPath jobId <:+ path) {accessType minor : BitVec 32}
    {regs : BitVec 4 → BitVec 64} {steps : Nat} (may : host.mayOpen path ⟨accessType, 195, minor⟩ regs steps = true) :
    minor = 254 ∨ minor = 255 ∨ minor ∈ host.gpuIds jobId := by
  obtain ⟨ids, uvmMajor, gpus, uvm, bound⟩ :=
    valid.filtered jobId (Cgroups.contains_of_suffix below (host.groups.inside pid path here))
  have allows := of_decide_eq_true (List.all_eq_true.mp may _ (Cgroups.mem_effective below bound))
  rw [gpuIds, gpus]
  exact listed_of_run uvm rfl rfl allows

theorem Shielded.step (valid : host.Shielded) (shields : host.Shields event) (taken : host.apply event = some next) :
    next.Shielded := by
  cases event with
  | runJob order prep =>
    obtain ⟨named, gone, free, _, memory, cpu⟩ := shields
    obtain ⟨ids, gpus⟩ := HashMap.contains_iff.mp named
    cases taken
    refine ⟨fun jobId there => ?_, valid.opened⟩
    by_cases same : jobId = order.jobId
    · subst same
      refine ⟨ids, prep.uvmMajor, ?_, prep.uvmApart, JobGroups.runJob_own gpus gone free memory cpu there⟩
      rw [HashMap.get?_insert_self]
      exact gpus
    · have apart : jobPath jobId ≠ jobPath order.jobId := fun both => same (JobGroups.jobPath_inj.mp both)
      have kept : (host.groups.runJob order prep).programs.get? (jobPath jobId) = _ := JobGroups.runJob_elsewhere apart
      rw [kept, HashMap.get?_insert, if_neg same]
      refine valid.filtered jobId ?_
      rw [Cgroups.contains, HashMap.contains, kept] at there
      exact there
  | runStep jobId stepId prep =>
    cases taken
    exact valid.of_groups rfl rfl fun other => .inl (JobGroups.runStep_busy shields stepId prep)
  | spawn jobId pid => exact valid.start taken
  | addProcess jobId pid moved => exact valid.move taken
  | addRank jobId stepId pid moved => exact valid.move taken
  | fork parent child =>
    simp only [apply] at taken
    split at taken
    · exact valid.start taken
    · cases taken
  | exit pid =>
    cases taken
    exact valid.of_groups rfl rfl fun _ => .inl rfl
  | cleanup jobId removed =>
    cases taken
    refine valid.of_groups rfl rfl fun other => ?_
    exact (JobGroups.cleanup_programs host.groups jobId removed _).imp_right And.right
  | opens pid accessType minor regs steps =>
    simp only [apply] at taken
    split at taken
    · rename_i jobId path owner here
      split at taken
      · rename_i may
        cases taken
        obtain ⟨path', here', below⟩ := shields jobId owner
        cases here.symm.trans here'
        refine ⟨valid.filtered, fun opening member => ?_⟩
        rcases List.mem_append.mp member with before | now
        · exact valid.opened opening before
        · cases List.mem_singleton.mp now
          exact valid.listed here below may
      · cases taken
    · cases taken

theorem shielded_boot : ({} : GpuHost).Shielded where
  filtered jobId there := by
    have absent : JobGroups.init.programs.get? (jobPath jobId) = none := rfl
    rw [Cgroups.contains, HashMap.contains, absent] at there
    cases there
  opened _ member := absurd member List.not_mem_nil

/-- A machine on which every order names GPUs, every step joins a job that runs, and no process
opens a device before it was moved, keeps the GPUs of its jobs apart. -/
theorem gpus_isolated {events : List GpuHostEvent} (run : runLabels apply events {} = some host)
    (shields : AllowedRun Shields apply events {}) :
    ∀ opening ∈ host.opened, opening.minor ≠ 254 → opening.minor ≠ 255 → opening.minor ∈ opening.gpuIds := by
  have reached : Reach (· = {}) _ host := runLabels_reach (.start rfl) shields run
  have valid : host.Shielded := reached.invariant Shielded (fun _ same => by rw [same]; exact shielded_boot)
    fun _ _ _ valid taken => valid.step taken.1 taken.2
  intro opening member notModeset notLast
  exact ((valid.opened opening member).resolve_left notModeset).resolve_left notLast

def ordersOn : List JobInfo → WorkerHandle → List RunJob
  | [], _ => []
  | job :: rest, worker =>
    match worker.allocateJob job with
    | some allocated => runMessage {} job ["w"] 0 allocated :: ordersOn rest allocated
    | none => ordersOn rest worker

def sampleJobs (gpus : List (Option Nat)) : List GpuHostEvent :=
  let jobs : List JobInfo := gpus.zipIdx.map fun entry =>
    { id := entry.2 + 1, binary := "sh", reqNodes := 1, reqCores := 1, reqMemory := 1, userId := "user"
      gresReq := .ofList (entry.1.toList.map fun count => ("gpu", count)) }
  let worker := (sampleRegistration "w").handle (.direct .live) 0 (rebuildWorkerAllocations "w" sampleResources ∅)
  (ordersOn jobs worker).flatMap fun order =>
    [.runJob order {}, .spawn order.jobId (10 * order.jobId), .addProcess order.jobId (10 * order.jobId) true]

def sampleOpen (pid : Pid) (minor : BitVec 32) : GpuHostEvent := .opens pid 6 minor (fun _ => 4096) 20

theorem gpus_isolated_pair : ∃ host,
    runLabels apply (sampleJobs [some 1, some 1] ++ [sampleOpen 10 0, sampleOpen 20 1]) {} = some host ∧
      (host.opened = [⟨1, [0], 0⟩, ⟨2, [1], 1⟩]) ∧
      ∀ opening ∈ host.opened, opening.minor ≠ 254 → opening.minor ≠ 255 → opening.minor ∈ opening.gpuIds := by
  obtain ⟨host, ran, opened⟩ : ∃ host,
      runLabels apply (sampleJobs [some 1, some 1] ++ [sampleOpen 10 0, sampleOpen 20 1]) {} = some host ∧
        host.opened = [⟨1, [0], 0⟩, ⟨2, [1], 1⟩] := ⟨_, rfl, rfl⟩
  exact ⟨host, ran, opened, gpus_isolated ran (by decide +kernel)⟩

/-- A job without GPUs opens the GPU of another one. -/
theorem foreign_gpu_opened : ∃ host, runLabels apply (sampleJobs [some 1, none] ++ [sampleOpen 20 0]) {} = some host ∧
    ∃ opening ∈ host.opened, opening.minor ≠ 254 ∧ opening.minor ≠ 255 ∧ opening.minor ∉ opening.gpuIds ∧
      opening.jobId = 2 ∧ opening.minor ∈ host.gpuIds 1 := by
  obtain ⟨host, ran, opened, held⟩ : ∃ host,
      runLabels apply (sampleJobs [some 1, none] ++ [sampleOpen 20 0]) {} = some host ∧
        host.opened = [⟨2, [], 0⟩] ∧ host.gpuIds 1 = [0] := ⟨_, rfl, rfl, rfl⟩
  refine ⟨host, ran, ⟨2, [], 0⟩, ?_, by decide, by decide, by decide, rfl, ?_⟩
  · rw [opened]
    exact List.mem_singleton_self _
  · rw [held]
    exact List.mem_singleton_self _

end GpuHost

end Veloce
