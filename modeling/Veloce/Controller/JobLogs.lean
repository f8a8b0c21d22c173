import Veloce.Controller.State

/-! Tracking of the workers a job was dispatched to and of those that are done. -/

namespace Veloce

open Collections

def recordDispatchedWorkers (state : GlobalState) (jobId : JobId) (workers : List WorkerId) :
    GlobalState :=
  { state with multinodeJobTracking := { state.multinodeJobTracking with
      dispatchedWorkers := state.multinodeJobTracking.dispatchedWorkers.insert jobId workers } }

namespace MultinodeJobTracking

/-- How many workers must report; without a dispatch record, all assigned ones. -/
def expectedDoneWorkers (tracking : MultinodeJobTracking) (jobId : JobId) (job : JobInfo) : Nat :=
  match tracking.dispatchedWorkers.get? jobId with
  | some workers => workers.length
  | none => max job.assignedWorkers.length 1

def recordWorkerLogFiles (tracking : MultinodeJobTracking) (jobId : JobId) (workerId : WorkerId)
    (stdoutFileId stderrFileId : Option String) : MultinodeJobTracking :=
  let logFiles := (tracking.workerLogFiles.getD jobId ∅).insert workerId ⟨stdoutFileId, stderrFileId⟩
  { tracking with workerLogFiles := tracking.workerLogFiles.insert jobId logFiles }

def doneSet (tracking : MultinodeJobTracking) (jobId : JobId) : HashSet WorkerId :=
  tracking.doneWorkers.getD jobId ∅

/-- Mark a worker done and count the marks of the job. -/
def markWorkerDone (tracking : MultinodeJobTracking) (jobId : JobId) (workerId : WorkerId) :
    MultinodeJobTracking × Nat :=
  let done := (tracking.doneSet jobId).insert workerId
  ({ tracking with doneWorkers := tracking.doneWorkers.insert jobId done }, done.len)

theorem markWorkerDone_doneSet (tracking : MultinodeJobTracking) (jobId other : JobId) (workerId : WorkerId) :
    (tracking.markWorkerDone jobId workerId).1.doneSet other =
      if other = jobId then (tracking.doneSet jobId).insert workerId else tracking.doneSet other := by
  simp only [markWorkerDone, doneSet, HashMap.getD, HashMap.get?_insert]
  split <;> rfl

def cleanupJobTracking (tracking : MultinodeJobTracking) (jobId : JobId) : MultinodeJobTracking where
  dispatchedWorkers := tracking.dispatchedWorkers.remove jobId
  workerLogFiles := tracking.workerLogFiles.remove jobId
  doneWorkers := tracking.doneWorkers.remove jobId

theorem cleanup_doneSet (tracking : MultinodeJobTracking) (jobId other : JobId) :
    (tracking.cleanupJobTracking jobId).doneSet other = if other = jobId then ∅ else tracking.doneSet other := by
  simp only [doneSet, cleanupJobTracking, HashMap.getD, HashMap.get?_remove]
  split <;> rfl

end MultinodeJobTracking

end Veloce
