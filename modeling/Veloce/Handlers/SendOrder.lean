import Veloce.Collections.Mpsc
import Veloce.Collections.Run
import Veloce.Handlers.Worker
import Veloce.Scheduler.Pass

/-! The order of the messages to one worker. `send_to_worker` puts a message into the channel
of the worker's connection, or leaves it to a task of its own when the channel is full. -/

namespace Veloce

open Collections

variable {M : Type}

/-- The channel of a worker's connection, the calls of `send_to_worker` for the worker so
far, each with its number, and the messages that left the channel. -/
structure WorkerLink (M : Type) where
  channel : Mpsc (Nat × M)
  calls : List (Nat × M) := []
  received : List (Nat × M) := []

inductive LinkEvent (M : Type) where
  | sendToWorker (msg : M)
  | poll (index : Nat)
  | resume (index : Nat)
  | recv

namespace WorkerLink

def connected : WorkerLink M where
  channel := { permits := 1024 }

def apply (event : LinkEvent M) (link : WorkerLink M) : Option (WorkerLink M) :=
  match event with
  | .sendToWorker msg =>
    let call := (link.calls.length, msg)
    some { link with channel := link.channel.sendOrSpawn call, calls := link.calls ++ [call] }
  | .poll index => (link.channel.poll index).map fun channel => { link with channel := channel }
  | .resume index => (link.channel.resume index).map fun channel => { link with channel := channel }
  | .recv => link.channel.recv.map fun next => { link with channel := next.2, received := link.received ++ [next.1] }

/-- The messages that entered the channel, in the order in which they leave it. -/
def passed (link : WorkerLink M) : List (Nat × M) := link.received ++ link.channel.queue

/-- The messages left and will leave the channel in the order of the calls, and none that is
still waiting was overtaken. -/
def InCallOrder (link : WorkerLink M) : Prop := link.passed <+: link.calls

/-- A message enters the channel only when no task has an older one. -/
def InTurn (link : WorkerLink M) : LinkEvent M → Prop
  | .sendToWorker _ => 0 < link.channel.permits → link.channel.outstanding = []
  | .poll index => 0 < link.channel.permits →
      ∀ msg ∈ link.channel.spawned[index]?, ∀ other ∈ link.channel.outstanding, msg.1 ≤ other.1
  | .resume index => ∀ msg ∈ link.channel.granted[index]?, ∀ other ∈ link.channel.outstanding, msg.1 ≤ other.1
  | .recv => True

end WorkerLink

section Order

theorem singleton_prefix_iff {items others : List (Nat × M)} {item : Nat × M}
    (increasing : items.Pairwise fun first second => first.1 < second.1) (same : others.Perm items)
    (member : item ∈ others) :
    [item] <+: items ↔ ∀ other ∈ others, item.1 ≤ other.1 := by
  cases items with
  | nil => exact absurd (same.subset member) List.not_mem_nil
  | cons head rest =>
    rw [List.pairwise_cons] at increasing
    rw [List.cons_prefix_cons]
    constructor
    · rintro ⟨rfl, _⟩ other inside
      rcases List.mem_cons.mp (same.subset inside) with rfl | later
      · exact Nat.le_refl _
      · exact Nat.le_of_lt (increasing.1 other later)
    · intro least
      refine ⟨?_, List.nil_prefix⟩
      rcases List.mem_cons.mp (same.subset member) with first | later
      · exact first
      · have smaller := least head (same.mem_iff.mpr List.mem_cons_self)
        exact absurd (increasing.1 item later) (Nat.not_lt.mpr smaller)

/-- Every call is in the channel, has left it, or is with a task; the calls are numbered. -/
structure WorkerLink.Accounted (link : WorkerLink M) : Prop where
  calls : (link.passed ++ link.channel.outstanding).Perm link.calls
  numbers : link.calls.map Prod.fst = List.range link.calls.length

namespace WorkerLink.Accounted

variable {link next : WorkerLink M}

theorem increasing (valid : link.Accounted) : link.calls.Pairwise fun first second => first.1 < second.1 := by
  rw [← List.pairwise_map (f := Prod.fst) (R := fun first second => first < second), valid.numbers]
  exact List.pairwise_lt_range

/-- What is left of the calls is with the tasks. -/
theorem rest (valid : link.Accounted) {rest : List (Nat × M)} (split : link.passed ++ rest = link.calls) :
    link.channel.outstanding.Perm rest := by
  have calls := valid.calls
  rw [← split] at calls
  exact (List.perm_append_left_iff _).mp calls

/-- A task's message may enter the channel in order exactly if it is the oldest. -/
theorem enters_iff (valid : link.Accounted) (inOrder : link.InCallOrder) {msg : Nat × M}
    (member : msg ∈ link.channel.outstanding) :
    link.passed ++ [msg] <+: link.calls ↔ ∀ other ∈ link.channel.outstanding, msg.1 ≤ other.1 := by
  obtain ⟨rest, split⟩ := inOrder
  have increasing := valid.increasing
  rw [← split, List.pairwise_append] at increasing
  rw [← split, List.prefix_append_right_inj]
  exact singleton_prefix_iff increasing.2.1 (valid.rest split) member

theorem calls_iff (valid : link.Accounted) (inOrder : link.InCallOrder) (msg : M) :
    link.passed ++ [(link.calls.length, msg)] <+: link.calls ++ [(link.calls.length, msg)] ↔
      link.channel.outstanding = [] := by
  obtain ⟨rest, split⟩ := inOrder
  have waiting := valid.rest split
  have fresh : (link.calls.length, msg) ∉ link.calls := by
    intro member
    have number : link.calls.length ∈ link.calls.map Prod.fst := List.mem_map_of_mem member
    rw [valid.numbers, List.mem_range] at number
    exact absurd number (Nat.lt_irrefl _)
  constructor
  · intro starts
    rw [← split] at starts
    rw [List.append_assoc, List.prefix_append_right_inj] at starts
    cases rest with
    | nil => exact waiting.eq_nil
    | cons head others =>
      rw [List.cons_append, List.cons_prefix_cons, split] at starts
      have inside : head ∈ link.calls := split ▸ List.mem_append_right _ List.mem_cons_self
      exact absurd (starts.1 ▸ inside) fresh
  · intro none
    rw [none] at waiting
    rw [waiting.symm.eq_nil, List.append_nil] at split
    exact ⟨[], by rw [split, List.append_nil]⟩

theorem passed_length_le (valid : link.Accounted) : link.passed.length ≤ link.calls.length := by
  have lengths := valid.calls.length_eq
  rw [List.length_append] at lengths
  omega

theorem inCallOrder_back (valid : link.Accounted) (passed : link.passed <+: next.passed)
    (calls : link.calls <+: next.calls) (inOrder : next.InCallOrder) : link.InCallOrder :=
  List.prefix_of_prefix_length_le (passed.trans inOrder) calls valid.passed_length_le

theorem enter (valid : link.Accounted) (next : WorkerLink M) {msg : Nat × M}
    (passed : next.passed = link.passed ++ [msg])
    (calls : next.calls = link.calls) (tasks : link.channel.outstanding.Perm (msg :: next.channel.outstanding)) :
    next.Accounted ∧ (next.InCallOrder ↔
      link.InCallOrder ∧ ∀ other ∈ link.channel.outstanding, msg.1 ≤ other.1) := by
  have member : msg ∈ link.channel.outstanding := tasks.mem_iff.mpr List.mem_cons_self
  refine ⟨⟨?_, by rw [calls]; exact valid.numbers⟩, ?_⟩
  · rw [passed, calls, List.append_assoc]
    exact (List.Perm.append_left _ tasks.symm).trans valid.calls
  · constructor
    · intro inOrder
      have before : link.InCallOrder := valid.inCallOrder_back (passed ▸ List.prefix_append _ _)
        (calls ▸ List.prefix_refl _) inOrder
      rw [WorkerLink.InCallOrder, passed, calls] at inOrder
      exact ⟨before, (valid.enters_iff before member).mp inOrder⟩
    · rintro ⟨before, least⟩
      rw [WorkerLink.InCallOrder, passed, calls]
      exact (valid.enters_iff before member).mpr least

theorem stay (valid : link.Accounted) (next : WorkerLink M) (passed : next.passed = link.passed)
    (calls : next.calls = link.calls) (tasks : link.channel.outstanding.Perm next.channel.outstanding) :
    next.Accounted ∧ (next.InCallOrder ↔ link.InCallOrder) := by
  refine ⟨⟨?_, by rw [calls]; exact valid.numbers⟩, by rw [WorkerLink.InCallOrder, passed, calls]; rfl⟩
  rw [passed, calls]
  exact (List.Perm.append_left _ tasks.symm).trans valid.calls

theorem call (valid : link.Accounted) {msg : M} (taken : link.apply (.sendToWorker msg) = some next) :
    next.Accounted ∧ (next.InCallOrder ↔ link.InCallOrder ∧ link.InTurn (.sendToWorker msg)) := by
  cases taken
  have numbers : (link.calls ++ [(link.calls.length, msg)]).map Prod.fst =
      List.range (link.calls ++ [(link.calls.length, msg)]).length := by
    rw [List.map_append, valid.numbers, List.length_append, List.length_singleton, List.range_succ]
    rfl
  rcases link.channel.sendOrSpawn_cases (link.calls.length, msg) with ⟨room, queue, tasks⟩ | ⟨full, queue, tasks⟩
  · have passed : link.received ++ (link.channel.sendOrSpawn (link.calls.length, msg)).queue =
        link.passed ++ [(link.calls.length, msg)] := by rw [queue, WorkerLink.passed, List.append_assoc]
    refine ⟨⟨?_, numbers⟩, ?_⟩
    · rw [WorkerLink.passed, passed, tasks, List.append_assoc, List.singleton_append]
      exact List.perm_middle.trans ((valid.calls.cons _).trans (List.perm_append_singleton _ _).symm)
    · rw [WorkerLink.InCallOrder, WorkerLink.passed, passed]
      constructor
      · intro inOrder
        have before : link.InCallOrder := List.prefix_of_prefix_length_le ((List.prefix_append _ _).trans inOrder)
          (List.prefix_append _ _) valid.passed_length_le
        exact ⟨before, fun _ => (valid.calls_iff before msg).mp inOrder⟩
      · rintro ⟨before, inTurn⟩
        exact (valid.calls_iff before msg).mpr (inTurn room)
  · have passed : link.received ++ (link.channel.sendOrSpawn (link.calls.length, msg)).queue = link.passed := by
      rw [queue, WorkerLink.passed]
    refine ⟨⟨?_, numbers⟩, ?_⟩
    · rw [WorkerLink.passed, passed]
      exact (List.Perm.append_left _ tasks).trans
        (List.perm_middle.trans ((valid.calls.cons _).trans (List.perm_append_singleton _ _).symm))
    · rw [WorkerLink.InCallOrder, WorkerLink.passed, passed]
      constructor
      · intro inOrder
        refine ⟨List.prefix_of_prefix_length_le inOrder (List.prefix_append _ _) valid.passed_length_le, fun room => ?_⟩
        omega
      · rintro ⟨before, _⟩
        exact before.trans (List.prefix_append _ _)

/-- A step keeps account of all calls, and the order is kept exactly if it was and the step
is in turn. -/
theorem step (valid : link.Accounted) {event : LinkEvent M} (taken : link.apply event = some next) :
    next.Accounted ∧ (next.InCallOrder ↔ link.InCallOrder ∧ link.InTurn event) := by
  cases event with
  | sendToWorker msg => exact valid.call taken
  | poll index =>
    obtain ⟨channel, polled, same⟩ := Option.map_eq_some_iff.mp taken
    subst same
    obtain ⟨msg, found, ⟨room, queue, tasks⟩ | ⟨full, queue, tasks⟩⟩ := Mpsc.poll_cases polled
    · obtain ⟨valid', order⟩ := valid.enter { link with channel := channel }
        (by simp only [WorkerLink.passed, queue, List.append_assoc]) rfl tasks
      refine ⟨valid', order.trans (and_congr_right fun _ => ?_)⟩
      simp [WorkerLink.InTurn, room, found]
    · obtain ⟨valid', order⟩ := valid.stay { link with channel := channel }
        (by simp only [WorkerLink.passed, queue]) rfl tasks
      refine ⟨valid', order.trans ?_⟩
      simp [WorkerLink.InTurn, full]
  | resume index =>
    obtain ⟨channel, resumed, same⟩ := Option.map_eq_some_iff.mp taken
    subst same
    obtain ⟨msg, found, queue, tasks⟩ := Mpsc.resume_cases resumed
    obtain ⟨valid', order⟩ := valid.enter { link with channel := channel }
      (by simp only [WorkerLink.passed, queue, List.append_assoc]) rfl tasks
    refine ⟨valid', order.trans (and_congr_right fun _ => ?_)⟩
    simp [WorkerLink.InTurn, found]
  | recv =>
    obtain ⟨⟨msg, channel⟩, received, same⟩ := Option.map_eq_some_iff.mp taken
    subst same
    obtain ⟨queue, tasks⟩ := Mpsc.recv_cases received
    obtain ⟨valid', order⟩ := valid.stay { link with channel := channel, received := link.received ++ [msg] }
      (by simp [WorkerLink.passed, queue]) rfl tasks
    exact ⟨valid', order.trans (and_iff_left trivial).symm⟩

end WorkerLink.Accounted

end Order

/-- In every run of calls, tasks and the receiver, the messages leave the channel in the order
of the calls exactly if no step puts a message in ahead of an older one that waits in a
task. -/
theorem messages_in_call_order_iff {events : List (LinkEvent M)} {final : WorkerLink M}
    (ran : runLabels WorkerLink.apply events .connected = some final) :
    final.InCallOrder ↔ AllowedRun WorkerLink.InTurn WorkerLink.apply events .connected := by
  have start : (WorkerLink.connected : WorkerLink M).Accounted := ⟨.refl _, rfl⟩
  refine (runLabels_iff (fun valid taken => valid.step taken) start ran).trans ?_
  exact and_iff_right (List.nil_prefix)

instance (link : WorkerLink M) : (event : LinkEvent M) → Decidable (link.InTurn event)
  | .sendToWorker _ => inferInstanceAs (Decidable (_ → _ = []))
  | .poll _ => inferInstanceAs (Decidable (_ → ∀ msg ∈ _, ∀ other ∈ _, _))
  | .resume _ => inferInstanceAs (Decidable (∀ msg ∈ _, ∀ other ∈ _, _))
  | .recv => isTrue trivial

def sampleRunJob : Message :=
  .runJob (runMessage {} { id := 1, binary := "sh", reqNodes := 1, reqCores := 1, reqMemory := 1, userId := "user" } ["w"] 0
    ((sampleRegistration "w").handle (.direct .live) 0 (rebuildWorkerAllocations "w" sampleResources ∅)))

/-- There is room for both messages. -/
theorem messages_in_call_order_iff_room : ∃ final,
    runLabels WorkerLink.apply [.sendToWorker sampleRunJob, .sendToWorker (.terminateJob 1), .recv] .connected =
      some final ∧ final.InCallOrder := by
  obtain ⟨final, ran⟩ : ∃ final, runLabels WorkerLink.apply
      [.sendToWorker sampleRunJob, .sendToWorker (.terminateJob 1), .recv] .connected = some final := ⟨_, rfl⟩
  exact ⟨final, ran, (messages_in_call_order_iff ran).mpr (by decide +kernel)⟩

section Full

theorem run_calls (msg : M) : ∀ (count : Nat) (link : WorkerLink M), link.Accounted → count ≤ link.channel.permits →
    ∃ next, runLabels WorkerLink.apply (List.replicate count (.sendToWorker msg)) link = some next ∧ next.Accounted ∧
      next.channel = { link.channel with
        permits := link.channel.permits - count
        queue := next.channel.queue } ∧
      next.channel.queue.length = link.channel.queue.length + count ∧ next.calls.length = link.calls.length + count := by
  intro count
  induction count with
  | zero =>
    intro link valid _
    exact ⟨link, rfl, valid, rfl, rfl, rfl⟩
  | succ count ih =>
    intro link valid room
    have positive : 0 < link.channel.permits := by omega
    have entered : link.channel.sendOrSpawn (link.calls.length, msg) = { link.channel with
        permits := link.channel.permits - 1
        queue := link.channel.queue ++ [(link.calls.length, msg)] } := by
      rw [Mpsc.sendOrSpawn, Mpsc.trySend, if_pos positive]
      rfl
    have first : link.apply (.sendToWorker msg) = some { link with
      channel := link.channel.sendOrSpawn (link.calls.length, msg)
      calls := link.calls ++ [(link.calls.length, msg)] } := rfl
    have left : count ≤ (link.channel.sendOrSpawn (link.calls.length, msg)).permits := by
      rw [entered]
      exact Nat.le_sub_one_of_lt room
    obtain ⟨next, ran, valid', channel, queue, calls⟩ := ih _ (valid.call first).1 left
    refine ⟨next, ?_, valid', ?_, ?_, ?_⟩
    · rw [List.replicate_succ, runLabels_cons]
      exact ran
    · rw [channel, entered]
      simp only [Mpsc.mk.injEq, and_true]
      omega
    · rw [queue, entered, List.length_append, List.length_singleton]
      omega
    · rw [calls, List.length_append, List.length_singleton]
      omega

/-- The channel is full when the job is sent and has room again when its end is sent. -/
theorem terminate_overtakes_run : ∃ (events : List (LinkEvent Message)) (final : WorkerLink Message),
    runLabels WorkerLink.apply events .connected = some final ∧
    (1024, sampleRunJob) ∈ final.channel.outstanding ∧ (1025, .terminateJob 1) ∈ final.passed ∧
    ¬ final.InCallOrder := by
  obtain ⟨⟨channel, calls, received⟩, ran, valid, same, queue, count⟩ :=
    run_calls (Message.terminateJob 9) 1024 .connected ⟨.refl _, rfl⟩ (by decide)
  obtain ⟨permits, messages, spawned, waiting, granted⟩ := channel
  dsimp only [WorkerLink.connected] at same queue count
  cases same
  cases messages with
  | nil => cases queue
  | cons head rest =>
    let full : WorkerLink Message := ⟨{ permits := 0, queue := head :: rest }, calls, received⟩
    let spawned : WorkerLink Message :=
      ⟨{ permits := 0, queue := head :: rest, spawned := [(1024, sampleRunJob)] }, calls ++ [(1024, sampleRunJob)], received⟩
    let drained : WorkerLink Message :=
      ⟨{ permits := 1, queue := rest, spawned := [(1024, sampleRunJob)] }, calls ++ [(1024, sampleRunJob)],
        received ++ [head]⟩
    let final : WorkerLink Message :=
      ⟨{ permits := 0, queue := rest ++ [(1025, .terminateJob 1)], spawned := [(1024, sampleRunJob)] },
        calls ++ [(1024, sampleRunJob)] ++ [(1025, .terminateJob 1)], received ++ [head]⟩
    have length : calls.length = 1024 := by simpa using count
    have first : full.apply (.sendToWorker sampleRunJob) = some spawned := by
      simp [WorkerLink.apply, full, spawned, Mpsc.sendOrSpawn, Mpsc.trySend, Mpsc.spawn, length]
    have second : spawned.apply .recv = some drained := rfl
    have third : drained.apply (.sendToWorker (.terminateJob 1)) = some final := by
      simp [WorkerLink.apply, drained, final, Mpsc.sendOrSpawn, Mpsc.trySend, length]
    have accounted := ((valid.step first).1.step second).1
    refine ⟨List.replicate 1024 (.sendToWorker (.terminateJob 9)) ++
      [.sendToWorker sampleRunJob, .recv, .sendToWorker (.terminateJob 1)], final, ?_, ?_, ?_, fun inOrder => ?_⟩
    · rw [runLabels_append, ran, Option.bind_some, runLabels_cons, first, Option.bind_some, runLabels_cons, second,
        Option.bind_some, runLabels_cons, third]
      rfl
    · simp [final, Mpsc.outstanding]
    · simp [final, WorkerLink.passed]
    · have inTurn := ((accounted.step third).2.mp inOrder).2
      exact absurd (inTurn Nat.one_pos) (by simp [drained, Mpsc.outstanding])

end Full

end Veloce
