import Mathlib.Algebra.Order.Ring.Nat
import Mathlib.Data.Finset.Card

/-! The hook that runs in the process of a job before its program: the identity, the
processor cores and the memory limit of the process. -/

namespace Veloce

/-- What the hook changes of a process. -/
structure ProcessAttributes where
  uid : Nat
  gid : Nat
  groupsOf : String
  affinity : Finset Nat
  addressSpace : Option Nat := none
deriving DecidableEq

/-- What the system calls of the hook answer, and what `core_affinity::set_for_current`
makes of the thread's mask. -/
structure ProcessCalls where
  setgid : Nat → Bool := fun _ => true
  initgroups : String → Nat → Bool := fun _ _ => true
  setuid : Nat → Bool := fun _ => true
  setrlimit : Nat → Bool := fun _ => true
  setForCurrent : Nat → Finset Nat → Finset Nat

/-- What the hook takes over from `run_job`. -/
structure PreExec where
  userImpersonationInfo : Option (Nat × Nat × String) := none
  assignedCores : Option (List Nat)
  useRlimit : Bool := false
  reqMemory : Nat := 0
deriving DecidableEq

namespace PreExec

variable (calls : ProcessCalls)

/-- A process of root takes the group, the further groups and the identity of the user. -/
def impersonate (process : ProcessAttributes) : Option (Nat × Nat × String) → Except String ProcessAttributes
  | none => .ok process
  | some (uid, gid, user) =>
    if process.uid = 0 then
      if calls.setgid gid then
        if calls.initgroups user gid then
          if calls.setuid uid then .ok { process with uid := uid, gid := gid, groupsOf := user }
          else .error "setuid failed"
        else .error "initgroups failed"
      else .error "setgid failed"
    else .ok process

def pinCores (cores : List Nat) (process : ProcessAttributes) : ProcessAttributes :=
  cores.foldl (fun process core => { process with affinity := calls.setForCurrent core process.affinity }) process

/-- The limit in bytes saturates at the range of `u64`, and a call that fails is ignored. -/
def limitMemory (hook : PreExec) (process : ProcessAttributes) : ProcessAttributes :=
  let bytes := min (hook.reqMemory * (1024 * 1024)) (2 ^ 64 - 1)
  if hook.useRlimit ∧ 0 < hook.reqMemory ∧ calls.setrlimit bytes then { process with addressSpace := some bytes }
  else process

def run (hook : PreExec) (process : ProcessAttributes) : Except String ProcessAttributes :=
  match impersonate calls process hook.userImpersonationInfo with
  | .error reason => .error reason
  | .ok process => .ok (limitMemory calls hook (pinCores calls (hook.assignedCores.getD []) process))

section Affinity

variable {calls} {hook : PreExec} {process after : ProcessAttributes} {cores : List Nat}

@[simp] theorem limitMemory_affinity : (limitMemory calls hook process).affinity = process.affinity := by
  unfold limitMemory
  dsimp only
  split <;> rfl

/-- Every call replaces the mask, so the last core is what remains. -/
theorem pinCores_affinity (replaces : ∀ core mask, calls.setForCurrent core mask = {core}) (filled : cores ≠ []) :
    (pinCores calls cores process).affinity = {cores.getLast filled} := by
  induction cores generalizing process with
  | nil => exact absurd rfl filled
  | cons first rest ih =>
    rw [pinCores, List.foldl_cons]
    cases rest with
    | nil => exact replaces first process.affinity
    | cons second later =>
      rw [List.getLast_cons (List.cons_ne_nil second later)]
      exact ih (List.cons_ne_nil second later)

theorem run_affinity (replaces : ∀ core mask, calls.setForCurrent core mask = {core}) (filled : cores ≠ [])
    (assigned : hook.assignedCores = some cores) (ran : hook.run calls process = .ok after) :
    after.affinity = {cores.getLast filled} := by
  unfold run at ran
  cases entered : impersonate calls process hook.userImpersonationInfo with
  | error reason =>
    rw [entered] at ran
    cases ran
  | ok user =>
    rw [entered, assigned] at ran
    rw [← Except.ok.inj ran, limitMemory_affinity]
    exact pinCores_affinity replaces filled

/-- The process of a job may use exactly its cores if and only if they are one core. -/
theorem affinity_exact_iff (replaces : ∀ core mask, calls.setForCurrent core mask = {core}) (filled : cores ≠ [])
    (assigned : hook.assignedCores = some cores) (ran : hook.run calls process = .ok after) :
    after.affinity = cores.toFinset ↔ ∀ core ∈ cores, ∀ other ∈ cores, core = other := by
  rw [run_affinity replaces filled assigned ran]
  constructor
  · intro exact core member other member'
    have single (listed : Nat) (member : listed ∈ cores) : listed = cores.getLast filled := by
      rw [← Finset.mem_singleton, exact, List.mem_toFinset]
      exact member
    exact (single core member).trans (single other member').symm
  · intro same
    ext core
    rw [Finset.mem_singleton, List.mem_toFinset]
    constructor
    · exact fun last => last ▸ List.getLast_mem filled
    · exact fun member => same core member _ (List.getLast_mem filled)

end Affinity

section Sample

def sampleCalls : ProcessCalls where
  setForCurrent core _ := {core}

def rootProcess : ProcessAttributes where
  uid := 0
  gid := 0
  groupsOf := "root"
  affinity := {0, 1, 2, 3}

def sampleHook : PreExec where
  userImpersonationInfo := some (1000, 1000, "ada")
  assignedCores := some [3]

theorem affinity_exact_iff_third : ∃ after, sampleHook.run sampleCalls rootProcess = .ok after ∧
    (after.affinity = [3].toFinset ↔ ∀ core ∈ [3], ∀ other ∈ [3], core = other) := by
  obtain ⟨after, ran⟩ : ∃ after, sampleHook.run sampleCalls rootProcess = .ok after := ⟨_, rfl⟩
  exact ⟨after, ran, affinity_exact_iff (fun _ _ => rfl) (by decide) rfl ran⟩

/-- Of two assigned cores the process may use the second alone. -/
theorem first_core_unusable : ∃ after, run sampleCalls { assignedCores := some [0, 1] } rootProcess = .ok after ∧
    after.affinity = {1} ∧ after.affinity ≠ [0, 1].toFinset :=
  ⟨_, rfl, by decide, by decide⟩

end Sample

end PreExec

end Veloce
