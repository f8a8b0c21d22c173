import Mathlib.Data.List.Count
import Veloce.Handlers.Launch

/-! Who is told about the end of a step. -/

namespace Veloce

open Collections

/-- The code that a message tells the waiters of a step, if it is about its end. -/
def StepMessage.ending (key : StepKey) : StepMessage → Option Int
  | .stepDone about exitCode => if about = key then some exitCode else none
  | .stepError about _ => if about = key then some (-1) else none
  | .stepStarted _ | .stepOutput _ _ _ => none

/-- A number is listed once under the key of its owner and nowhere else. -/
def Listed (table : HashMap StepKey (List Nat)) (waiter : Nat) (owner : Option StepKey) : Prop :=
  ∀ key, (table.getD key []).count waiter = if owner = some key then 1 else 0

namespace Listed

variable {table : HashMap StepKey (List Nat)} {waiter : Nat} {owner : Option StepKey}

theorem remove (listed : Listed table waiter owner) (key : StepKey) :
    Listed (table.remove key) waiter (owner.filter (· ≠ key)) := by
  intro other
  rw [HashMap.getD, HashMap.get?_remove]
  by_cases same : other = key
  · subst same
    simp
  · have kept : owner.filter (· ≠ key) = some other ↔ owner = some other := by
      simp [Option.filter_eq_some_iff, same]
    rw [if_neg same]
    simp only [kept]
    exact listed other

theorem replace {key : StepKey} {waiters : List Nat} (listed : Listed table waiter owner)
    (same : waiters.count waiter = (table.getD key []).count waiter) : Listed (table.insert key waiters) waiter owner := by
  intro other
  rw [HashMap.getD, HashMap.get?_insert]
  split
  · rename_i own
    rw [own, Option.getD_some, same]
    exact listed key
  · exact listed other

theorem add {key : StepKey} (fresh : Listed table waiter none) :
    Listed (table.insert key (table.getD key [] ++ [waiter])) waiter (some key) := by
  intro other
  rw [HashMap.getD, HashMap.get?_insert]
  have before := fresh other
  rw [if_neg (by simp)] at before
  split
  · rename_i own
    subst own
    simp [before]
  · rename_i other
    rw [if_neg (by simpa using Ne.symm other)]
    exact before

end Listed

namespace StepBoard

/-- The workers of a step. A launched step has no record; its worker is the one that got its order. -/
def assigned (board : StepBoard) (key : StepKey) : List WorkerId :=
  match board.steps.get? key with
  | some step => step.assignedWorkers
  | none => (board.outbox.filter fun entry => entry.2.key = key).map Prod.fst

def codes (board : StepBoard) (waiter : Nat) : List Int :=
  (board.notified.filter (·.1 = waiter)).map Prod.snd

def handleAll (board : StepBoard) (messages : List StepMessage) : StepBoard := messages.foldl handle board

section Codes

variable {board : StepBoard} {waiter : Nat} {owner : Option StepKey}

theorem codes_notify (board : StepBoard) (key : StepKey) (code : Int) (waiter : Nat) :
    (board.notify key code).codes waiter =
      board.codes waiter ++ List.replicate ((board.stepWaiters.getD key []).count waiter) code := by
  have told : ∀ waiters : List Nat, ((waiters.map fun other => (other, code)).filter (·.1 = waiter)).map Prod.snd =
      List.replicate (waiters.count waiter) code := by
    intro waiters
    induction waiters with
    | nil => rfl
    | cons first rest ih =>
      rw [List.map_cons, List.count_cons]
      by_cases same : first = waiter
      · simp [same, ih, List.replicate_succ]
      · simp [same, ih]
  rw [codes, notify, List.filter_append, List.map_append, told]
  rfl

/-- The end of a step is told to its owners, once. -/
theorem notify_listed (listed : Listed board.stepWaiters waiter owner) (key : StepKey) (code : Int) :
    (board.notify key code).codes waiter = board.codes waiter ++ (if owner = some key then [code] else []) ∧
      Listed (board.notify key code).stepWaiters waiter (owner.filter (· ≠ key)) := by
  refine ⟨?_, listed.remove key⟩
  rw [codes_notify, listed key]
  split <;> rfl

theorem ended_codes {msg : StepMessage} {key : StepKey} {code : Int} {status : StepStatus}
    (ends : ∀ own, msg.ending own = if key = own then some code else none)
    (handled : board.handle msg = (board.setStatus key status).notify key code)
    (listed : Listed board.stepWaiters waiter owner) :
    (board.handle msg).codes waiter = board.codes waiter ++ (owner.bind (msg.ending ·)).toList ∧
      Listed (board.handle msg).stepWaiters waiter (owner.filter fun key => (msg.ending key).isNone) := by
  have kept : Listed (board.setStatus key status).stepWaiters waiter owner := listed
  obtain ⟨told, rest⟩ := notify_listed kept key code
  rw [handled]
  cases owner with
  | none => exact ⟨told, rest⟩
  | some own =>
    by_cases same : key = own
    · subst same
      refine ⟨told.trans ?_, ?_⟩
      · simp [ends, setStatus, codes]
      · simpa [Option.filter, ends] using rest
    · refine ⟨told.trans ?_, ?_⟩
      · simp [ends, same, Ne.symm same, setStatus, codes]
      · simpa [Option.filter, ends, same, Ne.symm same] using rest

theorem handle_codes (listed : Listed board.stepWaiters waiter owner) (msg : StepMessage) :
    (board.handle msg).codes waiter = board.codes waiter ++ (owner.bind (msg.ending ·)).toList ∧
      Listed (board.handle msg).stepWaiters waiter (owner.filter fun key => (msg.ending key).isNone) := by
  cases msg with
  | stepStarted key =>
    refine ⟨?_, ?_⟩
    · cases owner <;> simp [handle, setStatus, codes, StepMessage.ending]
    · cases owner <;> exact listed
  | stepDone key exitCode => exact ended_codes (fun _ => rfl) rfl listed
  | stepError key error => exact ended_codes (fun _ => rfl) rfl listed
  | stepOutput key isStderr data =>
    have same : (board.forward key (isStderr, data)).stepWaiters = board.stepWaiters ∧
        (board.forward key (isStderr, data)).notified = board.notified := by
      unfold forward
      split <;> exact ⟨rfl, rfl⟩
    refine ⟨?_, ?_⟩
    · cases owner <;> simp [handle, codes, same.2, StepMessage.ending]
    · rw [handle, same.1]
      cases owner <;> exact listed

/-- A waiter that was not told yet is told the first end of its step. -/
theorem handleAll_codes (messages : List StepMessage) {board : StepBoard} {key : StepKey}
    (listed : Listed board.stepWaiters waiter (some key)) (untold : board.codes waiter = []) :
    (board.handleAll messages).codes waiter = (messages.filterMap (·.ending key)).head?.toList := by
  have settled : ∀ (messages : List StepMessage) (board : StepBoard), Listed board.stepWaiters waiter none →
      (board.handleAll messages).codes waiter = board.codes waiter := by
    intro messages
    induction messages with
    | nil => intro board _; rfl
    | cons msg rest ih =>
      intro board gone
      obtain ⟨same, gone'⟩ := handle_codes gone msg
      exact (ih (board.handle msg) gone').trans (same.trans (List.append_nil _))
  induction messages generalizing board with
  | nil => exact untold
  | cons msg rest ih =>
    obtain ⟨told, listed'⟩ := handle_codes listed msg
    change ((board.handle msg).handleAll rest).codes waiter = _
    cases ends : msg.ending key with
    | none =>
      simp only [Option.bind_some, ends, untold, List.nil_append, Option.toList_none] at told
      simp only [Option.filter, ends, Option.isNone_none, ↓reduceIte] at listed'
      rw [ih listed' told, List.filterMap_cons_none ends]
    | some code =>
      simp only [Option.bind_some, ends, untold, List.nil_append, Option.toList_some] at told
      simp only [Option.filter, ends, Option.isNone_some, Bool.false_eq_true, ↓reduceIte] at listed'
      rw [settled rest _ listed', told, List.filterMap_cons_some ends]
      rfl

end Codes

/-- The workers that reported the end of a step. -/
def reporters (key : StepKey) (messages : List (WorkerId × StepMessage)) : List WorkerId :=
  (messages.filter fun msg => (msg.2.ending key).isSome).map Prod.fst

/-- A waiter is told nothing while a worker of the step has still to report, and one code in the
end, which is 0 exactly if every worker reported StepDone with exit code 0. -/
def EndsOnce (board : StepBoard) (key : StepKey) (waiter : Nat) (messages : List (WorkerId × StepMessage)) : Prop :=
  (∀ count, (∃ workerId ∈ board.assigned key, workerId ∉ reporters key (messages.take count)) →
    (board.handleAll ((messages.take count).map Prod.snd)).codes waiter = []) ∧
  ∃ code, (board.handleAll (messages.map Prod.snd)).codes waiter = [code] ∧
    (code = 0 ↔ ∀ workerId ∈ board.assigned key, (workerId, StepMessage.stepDone key 0) ∈ messages)

section Ends

variable {board : StepBoard} {key : StepKey} {waiter : Nat} {messages : List (WorkerId × StepMessage)}

theorem ending_zero_iff {msg : StepMessage} : msg.ending key = some 0 ↔ msg = .stepDone key 0 := by
  cases msg with
  | stepDone about exitCode =>
    by_cases same : about = key
    · simp [StepMessage.ending, same]
    · simp [StepMessage.ending, same]
  | stepError about error =>
    by_cases same : about = key
    · simp [StepMessage.ending, same]
    · simp [StepMessage.ending, same]
  | stepStarted about => simp [StepMessage.ending]
  | stepOutput about isStderr data => simp [StepMessage.ending]

theorem filterMap_ending (key : StepKey) (messages : List (WorkerId × StepMessage)) :
    (messages.map Prod.snd).filterMap (·.ending key) =
      (messages.filter fun msg => (msg.2.ending key).isSome).filterMap fun msg => msg.2.ending key := by
  rw [List.filterMap_map, List.filterMap_filter]
  refine List.filterMap_congr fun msg _ => ?_
  cases ends : msg.2.ending key <;> simp [ends]

theorem codes_reported (listed : Listed board.stepWaiters waiter (some key)) (untold : board.codes waiter = [])
    (messages : List (WorkerId × StepMessage)) :
    (board.handleAll (messages.map Prod.snd)).codes waiter =
      ((messages.filter fun msg => (msg.2.ending key).isSome).filterMap fun msg => msg.2.ending key).head?.toList := by
  rw [handleAll_codes _ listed untold, filterMap_ending]

theorem endsOnce_of_single {workerId : WorkerId} (listed : Listed board.stepWaiters waiter (some key))
    (untold : board.codes waiter = []) (single : board.assigned key = [workerId])
    (reports : reporters key messages = [workerId]) : board.EndsOnce key waiter messages := by
  obtain ⟨⟨reporter, msg⟩, one, same⟩ := List.map_eq_singleton_iff.mp reports
  subst same
  have member : (reporter, msg) ∈ messages ∧ (msg.ending key).isSome = true := by
    have listed : (reporter, msg) ∈ messages.filter fun msg => (msg.2.ending key).isSome := by simp [one]
    simpa using List.mem_filter.mp listed
  obtain ⟨code, ends⟩ := Option.isSome_iff_exists.mp member.2
  refine ⟨fun count missing => ?_, code, ?_, ?_⟩
  · rw [codes_reported listed untold]
    simp only [single, List.mem_singleton, exists_eq_left] at missing
    -- What was reported so far is a part of the one report.
    have part : (reporters key (messages.take count)).Sublist [reporter] := by
      rw [← reports]
      exact ((List.take_sublist count messages).filter _).map _
    have empty : reporters key (messages.take count) = [] := by
      rcases List.sublist_singleton.mp part with none | all
      · exact none
      · exact absurd (by simp [all]) missing
    rw [List.map_eq_nil_iff.mp empty]
    rfl
  · rw [codes_reported listed untold, one]
    simp [ends]
  · simp only [single, List.mem_singleton, forall_eq]
    constructor
    · intro zero
      rw [ending_zero_iff.mp (ends.trans (congrArg some zero))] at member
      exact member.1
    · intro reported
      have found : (reporter, StepMessage.stepDone key 0) ∈ messages.filter fun msg => (msg.2.ending key).isSome := by
        simp [reported, StepMessage.ending]
      rw [one, List.mem_singleton, Prod.mk.injEq] at found
      have zero := ending_zero_iff.mpr found.2.symm
      rw [ends, Option.some.injEq] at zero
      exact zero

/-- The first report is told at once. -/
theorem told_at_first_report {first : WorkerId × StepMessage} {rest : List (WorkerId × StepMessage)}
    (listed : Listed board.stepWaiters waiter (some key)) (untold : board.codes waiter = [])
    (reported : (messages.filter fun msg => (msg.2.ending key).isSome) = first :: rest) :
    ∃ count, reporters key (messages.take count) = [first.1] ∧
      (board.handleAll ((messages.take count).map Prod.snd)).codes waiter ≠ [] := by
  obtain ⟨before, after, split, quiet, ends, _⟩ := List.filter_eq_cons_iff.mp reported
  have one : (messages.take (before.length + 1)).filter (fun msg => (msg.2.ending key).isSome) = [first] := by
    have silent : before.filter (fun msg => (msg.2.ending key).isSome) = [] := List.filter_eq_nil_iff.mpr quiet
    have taken : messages.take (before.length + 1) = before ++ [first] := by
      rw [split, List.take_append, List.take_of_length_le (Nat.le_succ _)]
      simp
    rw [taken, List.filter_append, silent]
    simp [ends]
  obtain ⟨code, tells⟩ := Option.isSome_iff_exists.mp ends
  refine ⟨before.length + 1, by rw [reporters, one]; rfl, ?_⟩
  rw [codes_reported listed untold, one]
  simp [tells]

/-- If every worker of a step reports its end once, in any order and among any other messages,
its waiters are told once, at the end and truthfully, exactly if the step has one worker. -/
theorem step_ends_once_iff (listed : Listed board.stepWaiters waiter (some key)) (untold : board.codes waiter = [])
    (distinct : (board.assigned key).Nodup) (reports : (reporters key messages).Perm (board.assigned key)) :
    board.EndsOnce key waiter messages ↔ (board.assigned key).length = 1 := by
  constructor
  · rintro ⟨early, code, told, _⟩
    rw [codes_reported listed untold] at told
    cases reported : messages.filter fun msg => (msg.2.ending key).isSome with
    | nil =>
      rw [reported] at told
      cases told
    | cons first rest =>
      have member : first.1 ∈ board.assigned key := by
        refine reports.mem_iff.mp (List.mem_map_of_mem ?_)
        rw [reported]
        exact List.mem_cons_self
      obtain ⟨count, heard, tells⟩ := told_at_first_report listed untold reported
      have alone : ∀ workerId ∈ board.assigned key, workerId = first.1 := by
        intro workerId member
        by_contra other
        exact tells (early count ⟨workerId, member, by simpa [heard] using other⟩)
      rw [List.eq_replicate_of_mem alone] at distinct ⊢
      have bound := List.nodup_replicate.mp distinct
      have positive := List.length_pos_of_mem member
      rw [List.length_replicate]
      omega
  · intro one
    obtain ⟨workerId, single⟩ := List.length_eq_one_iff.mp one
    exact endsOnce_of_single listed untold single (List.perm_singleton.mp (single ▸ reports))

theorem listed_launch {jobId : JobId} (fresh : Listed board.stepWaiters waiter none) :
    Listed (board.registerLaunch jobId waiter).stepWaiters waiter (some (jobId, board.nextStepId)) := fresh.add

theorem listed_empty (waiter : Nat) : Listed ∅ waiter none := fun _ => rfl

/-- A launched step has one worker. -/
theorem step_ends_once_iff_launched :
    ((apiInternalLaunch .stored none 0 (runsOnNodes ["a"]) {} (sampleLaunch "a")).1).EndsOnce (1, 1) 0
      [("a", .stepStarted (1, 1)), ("a", .stepOutput (1, 1) false [104, 105]), ("a", .stepDone (1, 1) 0)] := by
  let board := (apiInternalLaunch .stored none 0 (runsOnNodes ["a"]) {} (sampleLaunch "a")).1
  have listed : Listed board.stepWaiters 0 (some (1, 1)) := by
    have accepted : (apiInternalLaunch .stored none 0 (runsOnNodes ["a"]) {} (sampleLaunch "a")).2 =
        .ok { workerId := "a", waiter := 0 } := by decide +kernel
    obtain ⟨job, _, found, _, _, _, _, after⟩ := apiInternalLaunch_ok accepted
    have own : ((runsOnNodes ["a"]).jobs.get? (sampleLaunch "a").jobId).map JobInfo.id = some 1 := by decide +kernel
    rw [found, Option.map_some, Option.some.injEq] at own
    rw [congrArg stepWaiters after, own]
    have empty : Listed ({} : StepBoard).stepWaiters 0 none := listed_empty 0
    exact listed_launch empty
  have assigned : board.assigned (1, 1) = ["a"] := by decide +kernel
  have untold : board.codes 0 = [] := by decide +kernel
  refine (step_ends_once_iff listed untold (by decide +kernel) ?_).mpr (by decide +kernel)
  rw [assigned]
  decide +kernel

/-- The waiter of a launch, after a StateSync from another leader put the counter back: the next
step gets the same id, and two workers. The waiter is told 0 by the first worker, before the
second one reports an error. -/
theorem first_report_ends_step : ∃ (state : GlobalState) (launched submitted : StepBoard) (request : StepRequest)
    (messages : List (WorkerId × StepMessage)),
    launched = (apiInternalLaunch .stored none 0 state {} (sampleLaunch "a")).1 ∧
    (launched.stateSync ∅ 1).submitStep state request = .ok (1, submitted) ∧
    ((submitted.scheduleSteps .stored state).assigned (1, 1)).Nodup ∧
    (reporters (1, 1) messages).Perm ((submitted.scheduleSteps .stored state).assigned (1, 1)) ∧
    (submitted.scheduleSteps .stored state).stepWaiters.get? (1, 1) = some [0] ∧
    ¬ (submitted.scheduleSteps .stored state).EndsOnce (1, 1) 0 messages := by
  let state := runsOnNodes ["a", "b"]
  let launched := (apiInternalLaunch .stored none 0 state {} (sampleLaunch "a")).1
  let request : StepRequest := { parentJobId := 1, binary := "sh", reqNodes := 2, reqCores := 2, ntasks := 2 }
  let messages : List (WorkerId × StepMessage) := [("a", .stepDone (1, 1) 0), ("b", .stepError (1, 1) "failed")]
  let submitted : StepBoard := { launched.stateSync ∅ 1 with
    nextStepId := 2, steps := (∅ : HashMap StepKey StepInfo).insert (1, 1) (request.info 1) }
  refine ⟨state, launched, submitted, request, messages, rfl, ?_, ?_, ?_, ?_, ?_⟩
  · rfl
  · decide +kernel
  · decide +kernel
  · decide +kernel
  · rintro ⟨early, _⟩
    have told : ((submitted.scheduleSteps .stored state).handleAll ((messages.take 1).map Prod.snd)).codes 0 = [0] := by
      decide +kernel
    rw [early 1 ⟨"b", by decide +kernel, by decide +kernel⟩] at told
    cases told

end Ends

end StepBoard

end Veloce
