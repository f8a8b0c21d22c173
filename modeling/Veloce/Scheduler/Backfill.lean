import Mathlib.Data.List.Sort
import Veloce.Controller.State

/-! Queue priorities, reservations and the projected earliest start of a job. -/

namespace Veloce

open Collections

/-- `VELOCE_STARVATION_THRESHOLD` and `VELOCE_BOOST_RATE` with their defaults. -/
structure PriorityTuning where
  starvationThreshold : Nat := 1800
  boostRate : Float := 10.0

def calculateEffectivePriority (tuning : PriorityTuning) (job : JobInfo) (tracker : UsageTracker)
    (now : Nat) : Float :=
  let waitTime := (now - job.queuedTime).toFloat
  let agingBonus := waitTime * 0.5
  let usagePenalty := tracker.getUsage job.userId * 0.01
  let threshold := tuning.starvationThreshold.toFloat
  let boostingBonus :=
    if waitTime > threshold then
      let excessMins := (waitTime - threshold) / 60.0
      excessMins * excessMins * tuning.boostRate
    else 0.0
  job.priority.toFloat + agingBonus + boostingBonus - usagePenalty

def QosLevel.boost : QosLevel → Float
  | .interactive => 10000.0
  | .production => 0.0
  | .preemptible => -5000.0
  | .background => -10000.0

def partialCmp (left right : Float) : Option Ordering :=
  if left < right then some .lt
  else if right < left then some .gt
  else if left == right then some .eq
  else none

/-- Higher scores first; equal and incomparable scores fall back to the job id. -/
def scoreOrder (score : JobId → Float) (left right : JobId) : Ordering :=
  ((partialCmp (score right) (score left)).getD .eq).then (compare left right)

def jobScore (tuning : PriorityTuning) (state : GlobalState) (now : Nat) (jobId : JobId) : Float :=
  match state.jobs.get? jobId with
  | some job => calculateEffectivePriority tuning job state.usageTracker now + job.qos.boost
  | none => 0.0

def sortPending (tuning : PriorityTuning) (state : GlobalState) (now : Nat) (pending : List JobId) :
    List JobId :=
  pending.insertionSort fun left right =>
    scoreOrder (jobScore tuning state now) left right ≠ .gt

/-- A reservation of another user blocks the worker while it is active, and
before it starts if the job could still be running then. -/
def Reservation.blocks (reservation : Reservation) (workerId : WorkerId) (job : JobInfo)
    (start : Nat) : Bool :=
  workerId ∈ reservation.nodes && reservation.owner != job.userId &&
    (decide (reservation.startTime ≤ start ∧ start < reservation.endTime) ||
      decide (reservation.startTime > start ∧
        addU64 start (if job.walltime = 0 then 24 * 3600 else job.walltime) > reservation.startTime))

def GlobalState.isReserved (state : GlobalState) (workerId : WorkerId) (job : JobInfo)
    (start : Nat) : Bool :=
  state.reservations.values.any (·.blocks workerId job start)

/-- The runtime the backfill test assumes for a job. -/
def JobInfo.expectedDuration (job : JobInfo) : Nat :=
  job.estimatedWalltime.getD (if job.walltime > 0 then job.walltime else 3600)

structure ProjectedWorkerResources where
  coresAvailable : Nat
  memoryAvailableMb : Nat
  gresAvailable : HashMap String Nat

def ProjectedWorkerResources.current (worker : WorkerHandle) : ProjectedWorkerResources where
  coresAvailable := worker.availableCoreIds.length
  memoryAvailableMb := worker.resources.totalMb - worker.allocatedMemory
  gresAvailable := worker.availableGresIds.updateEntries (fun _ ids _ => some ids.length) ∅

/-- Add what a job that ends before the candidate time gives back on the worker. -/
def ProjectedWorkerResources.free (projection : ProjectedWorkerResources) (worker : WorkerHandle)
    (job : JobInfo) : ProjectedWorkerResources where
  coresAvailable := projection.coresAvailable +
    ((worker.jobCoreAssignments.get? job.id).map List.length).getD job.reqCores
  memoryAvailableMb := addU64 projection.memoryAvailableMb job.reqMemory
  gresAvailable := job.gresReq.updateEntries (fun name reqCount entry =>
    some (entry.getD 0 +
      (((worker.jobGresAssignments.get? job.id).bind (·.get? name)).map List.length).getD reqCount))
    projection.gresAvailable

def ProjectedWorkerResources.fits (projection : ProjectedWorkerResources) (job : JobInfo) : Bool :=
  decide (job.reqCores ≤ projection.coresAvailable) &&
    decide (job.reqMemory ≤ projection.memoryAvailableMb) &&
    job.gresReq.toList.all fun entry => decide (entry.2 ≤ projection.gresAvailable.getD entry.1 0)

def Resources.group (resources : Resources) : String × String := (resources.cpuModel, resources.arch)

def GlobalState.workerGroup (state : GlobalState) (workerId : WorkerId) : Option (String × String) :=
  (state.workers.get? workerId).map (·.resources.group)

def GlobalState.runningJobs (state : GlobalState) : List JobInfo :=
  state.jobs.values.filter fun job => job.status = .running

def projectedEnd (job : JobInfo) (now : Nat) : Nat :=
  max (addU64 (job.startTime.getD now) job.expectedDuration) (addU64 now 1)

/-- The worker at `start`, after every job expected to have ended by then: a
listed worker counts once for each occurrence in `assigned_workers`. -/
def projectWorker (running : List JobInfo) (now start : Nat) (workerId : WorkerId)
    (worker : WorkerHandle) : ProjectedWorkerResources :=
  running.foldl (fun projection job =>
    if projectedEnd job now ≤ start then
      (job.assignedWorkers.filter (· = workerId)).foldl
        (fun projection _ => projection.free worker job) projection
    else projection) (.current worker)

def candidateWorkers (job : JobInfo) (state : GlobalState) (now start : Nat) : List WorkerId :=
  (state.workers.toList.filter fun entry =>
    !entry.2.draining && entry.2.connected && !state.isReserved entry.1 job start &&
      (projectWorker state.runningJobs now start entry.1 entry.2).fits job).map Prod.fst

def startsAt (job : JobInfo) (state : GlobalState) (now start : Nat) : Bool :=
  let candidates := candidateWorkers job state now start
  decide (job.reqNodes ≤ candidates.length) &&
    (decide (job.reqNodes ≤ 1) ||
      (HashMap.groupBy state.workerGroup candidates).values.any fun ids =>
        decide (job.reqNodes ≤ ids.length))

/-- The first of `now` and the projected ends of the running jobs at which the
job fits; a year ahead if there is none. -/
def calculateEarliestStartTime (job : JobInfo) (state : GlobalState) (now : Nat) : Nat :=
  let times := (now :: state.runningJobs.map (projectedEnd · now)).insertionSort (· ≤ ·)
  (times.dedup.find? (startsAt job state now)).getD (now + 365 * 24 * 3600)

end Veloce
