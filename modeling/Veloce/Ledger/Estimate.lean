import Veloce.Ledger.TopJob

/-! The placement test and the projection at the present. -/

namespace Veloce

open Collections

section Pass

variable {input : PassInput}

theorem turns_top (order : List JobId) {pass final : PassState} {start : Nat}
    (ran : passTurns input order pass = some final) (top : pass.topJobEarliestStart = some start) :
    final.topJobEarliestStart = some start :=
  passTurns_invariant (fun _ pass => pass.topJobEarliestStart = some start)
    (fun _ _ _ _ before taken => turn_top taken before) order top ran

theorem passTurns_estimates (order : List JobId) {pass final : PassState} {earliest : Nat}
    (ran : passTurns input order pass = some final) (unset : pass.topJobEarliestStart = none)
    (top : final.topJobEarliestStart = some earliest) :
    ∃ job estimated turn, firstBlocked input order pass = some (job, estimated) ∧
      placeJob input turn estimated job = some none ∧
      earliest = calculateEarliestStartTime job estimated input.now := by
  induction order generalizing pass with
  | nil =>
    cases ran
    rw [unset] at top
    cases top
  | cons jobId rest ih =>
    unfold passTurns at ran
    cases taken : passTurn input rest.length pass jobId with
    | none =>
      rw [taken] at ran
      cases ran
    | some next =>
      rw [taken] at ran
      cases set : next.topJobEarliestStart with
      | none =>
        obtain ⟨job, estimated, turn, blocked, facts⟩ := ih ran set
        refine ⟨job, estimated, turn, ?_, facts⟩
        rw [firstBlocked, taken]
        simp [set, blocked]
      | some start =>
        obtain ⟨job, found, nowhere, estimate, _⟩ := turn_blocks taken unset (by rw [set]; exact Option.some_ne_none _)
        refine ⟨_, _, _, firstBlocked_cons found taken unset set, nowhere, ?_⟩
        have kept := turns_top rest ran set
        rw [kept] at top
        rw [set] at estimate
        exact (Option.some.inj top).symm.trans (Option.some.inj estimate)

/-- The earliest start is estimated as now exactly when the selection finds workers, if and
only if the cast does no harm; and so for the job that a pass leaves blocked: its estimate
is later than now. -/
theorem estimate_now_iff (clock : input.now + 1 < 2 ^ 64) :
    (∀ turn state job, 1 ≤ job.reqNodes →
      ((calculateEarliestStartTime job state input.now = input.now ↔
          ∃ nodes, pickNodes input.order (.groups turn) state.workerGroup job.reqNodes
            (availableWorkers input turn state job) = some (some nodes)) ↔
        CastHarmless state input.now job)) ∧
    (∀ order pass final earliest, passTurns input order pass = some final → pass.topJobEarliestStart = none →
      final.topJobEarliestStart = some earliest → ∃ job estimated, firstBlocked input order pass = some (job, estimated) ∧
        (earliest ≠ input.now ↔ CastHarmless estimated input.now job)) := by
  refine ⟨fun turn state job positive => ?_, fun order pass final earliest ran unset top => ?_⟩
  · rw [selects_iff positive, earliest_eq_now_iff clock, hosts_availableWorkers_iff, CastHarmless]
    refine ⟨fun same => same.mp, fun harmless => ⟨harmless, fun hosts => ?_⟩⟩
    exact hosts.mono ((roomyWorkers_nodup state input.now job).filter _)
      (fun _ member => (List.mem_filter.mp member).1) fun _ => rfl
  · obtain ⟨job, estimated, turn, blocked, nowhere, same⟩ := passTurns_estimates order ran unset top
    exact ⟨job, estimated, blocked, same ▸ blocked_later_iff clock nowhere⟩

end Pass

section Sample

def idleState : GlobalState := GlobalState.registerWorker {} (sampleRegistration "w1") 100

theorem estimate_now_iff_idleState :
    calculateEarliestStartTime (sampleSubmission 1 .production 1 "sh").job idleState 100 = 100 ∧
    ∃ nodes, pickNodes .stored (.groups 0) idleState.workerGroup 1
      (availableWorkers { now := 100 } 0 idleState (sampleSubmission 1 .production 1 "sh").job) = some (some nodes) := by
  have harmless : CastHarmless idleState 100 (sampleSubmission 1 .production 1 "sh").job :=
    fun _ => ⟨by decide +kernel, fun several => absurd several (by decide)⟩
  have agree := ((@estimate_now_iff { now := 100 } (by decide)).1 0 idleState _ (by decide)).mpr harmless
  have starts : calculateEarliestStartTime (sampleSubmission 1 .production 1 "sh").job idleState 100 = 100 := by
    decide +kernel
  exact ⟨starts, agree.mp starts⟩

/-- The cast leaves none of 2^32 free cores: the job is blocked, and estimated for now. -/
theorem blocked_job_starts_now :
    calculateEarliestStartTime { coreSubmission.job with id := 1 } (hugePass.clearWaiting 1).state 100 = 100 ∧
    (¬ ∃ nodes, pickNodes .stored (.groups 1) (hugePass.clearWaiting 1).state.workerGroup 1
      (availableWorkers { now := 100 } 1 (hugePass.clearWaiting 1).state { coreSubmission.job with id := 1 }) =
        some (some nodes)) ∧
    passTurn { now := 100 } 1 hugePass 1 = some blockedPass ∧ blockedPass.topJobEarliestStart = some 100 := by
  refine ⟨hugePass_estimate, ?_, hugePass_blocks, blockedPass_top⟩
  rintro ⟨nodes, picked⟩
  have unfit := not_hosts_of_unplaced hugePass_unplaced
  exact unfit (@hosts_of_pickNodes { now := 100 } _ _ _ _ _ picked)

end Sample

end Veloce
