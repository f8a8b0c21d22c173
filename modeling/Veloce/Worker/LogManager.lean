import Mathlib.Data.List.Induction
import Veloce.Collections.Custody

/-! The log manager of a worker: log messages go to the connection with the controller, and
while there is none into a ring buffer. -/

namespace Veloce

open Collections

structure RingBuffer (α : Type) where
  buffer : List α
  capacity : Nat

namespace RingBuffer

variable {α : Type} (ring : RingBuffer α)

def push (item : α) : RingBuffer α :=
  let buffer := if ring.buffer.length ≥ ring.capacity then ring.buffer.tail else ring.buffer
  { ring with buffer := buffer ++ [item] }

def popped : Option α := if ring.buffer.length ≥ ring.capacity then ring.buffer.head? else none

def popAll : List α × RingBuffer α := (ring.buffer, { ring with buffer := [] })

variable {ring} {item : α}

theorem popped_append_push (ring : RingBuffer α) (item : α) :
    ring.popped.toList ++ (ring.push item).buffer = ring.buffer ++ [item] := by
  rw [push, popped]
  split
  · cases ring.buffer with
    | nil => rfl
    | cons first rest => rfl
  · rfl

theorem push_length_le (short : ring.buffer.length ≤ ring.capacity) (some : 0 < ring.capacity) :
    (ring.push item).buffer.length ≤ ring.capacity := by
  simp only [push, List.length_append, List.length_singleton]
  split
  · rw [List.length_tail]
    omega
  · omega

/-- Something is taken out only of a full buffer, which is full again then. -/
theorem length_of_popped {old : α} (short : ring.buffer.length ≤ ring.capacity) (out : ring.popped = some old) :
    (ring.push item).buffer.length = ring.capacity := by
  have total := congrArg List.length (popped_append_push ring item)
  have full : ring.capacity ≤ ring.buffer.length := by
    rw [popped] at out
    split at out
    · assumption
    · cases out
  simp only [out, Option.toList_some, List.length_append, List.length_singleton] at total
  omega

end RingBuffer

structure LogManager (Tx M : Type) where
  currentTx : Option Tx
  ringBuffer : RingBuffer M

def successes {α : Type} (items : List α) (accepted : Nat → Bool) : List α :=
  (items.zipIdx.filter fun (_, index) => accepted index).map Prod.fst

theorem successes_sublist {α : Type} (items : List α) (accepted : Nat → Bool) : (successes items accepted).Sublist items := by
  have kept := (List.filter_sublist (p := fun (_, index) => accepted index) (l := items.zipIdx)).map Prod.fst
  rwa [List.zipIdx_map_fst] at kept

theorem length_le_successes_iff {α : Type} {items : List α} {accepted : Nat → Bool} :
    items.length ≤ (successes items accepted).length ↔ ∀ index < items.length, accepted index = true := by
  have all : (successes items accepted).length = items.length ↔ ∀ entry ∈ items.zipIdx, accepted entry.2 = true := by
    rw [successes, List.length_map, ← List.length_zipIdx (l := items), List.length_filter_eq_length_iff]
  rw [Nat.le_antisymm_iff, and_iff_right (successes_sublist items accepted).length_le] at all
  rw [all]
  constructor
  · intro every index inside
    exact every (items[index], index) (List.mem_zipIdx_iff_getElem?.mpr (List.getElem?_eq_getElem inside))
  · intro every entry member
    exact every entry.2 (List.getElem?_eq_some_iff.mp (List.mem_zipIdx_iff_getElem?.mp member)).1

/-- What arrives, with what the sends answer that it leads to: a backfill sends one message
after the other. -/
inductive LogEvent (Tx M : Type) where
  | log (msg : M) (accepted : Bool)
  | setTx (newTx : Tx) (accepted : Nat → Bool)

/-- The manager after an event, the sends that succeeded, and a message that was evicted
with the buffer it had to leave. -/
structure LogOutcome (Tx M : Type) where
  manager : LogManager Tx M
  handed : List (Tx × M) := []
  evicted : List (M × List M) := []

namespace LogManager

variable {Tx M : Type} (manager : LogManager Tx M)

def ringCapacity : Nat := 5000

def new : LogManager Tx M := ⟨none, ⟨[], ringCapacity⟩⟩

def keep (msg : M) : LogOutcome Tx M where
  manager := ⟨none, manager.ringBuffer.push msg⟩
  evicted := manager.ringBuffer.popped.toList.map fun old => (old, (manager.ringBuffer.push msg).buffer)

def handle : LogEvent Tx M → LogOutcome Tx M
  | .log msg accepted =>
    match manager.currentTx with
    | some tx => if accepted then { manager, handed := [(tx, msg)] } else manager.keep msg
    | none => manager.keep msg
  | .setTx newTx accepted =>
    let (backfill, ringBuffer) := manager.ringBuffer.popAll
    { manager := ⟨some newTx, ringBuffer⟩
      handed := (successes backfill accepted).map fun m => (newTx, m) }

end LogManager

/-- A manager since its start, with its messages numbered as they arrived. -/
structure LogCourse (Tx M : Type) where
  manager : LogManager Tx (Nat × M) := .new
  arrived : List (Nat × M) := []
  handed : List (Tx × (Nat × M)) := []
  evicted : List ((Nat × M) × List (Nat × M)) := []

namespace LogCourse

variable {Tx M : Type} (course : LogCourse Tx M)

def take (outcome : LogOutcome Tx (Nat × M)) : LogCourse Tx M where
  manager := outcome.manager
  arrived := course.arrived
  handed := course.handed ++ outcome.handed
  evicted := course.evicted ++ outcome.evicted

def step : LogEvent Tx M → LogCourse Tx M
  | .log content accepted =>
    let msg := (course.arrived.length, content)
    { course.take (course.manager.handle (.log msg accepted)) with arrived := course.arrived ++ [msg] }
  | .setTx newTx accepted => course.take (course.manager.handle (.setTx newTx accepted))

def run (events : List (LogEvent Tx M)) : LogCourse Tx M := events.foldl step {}

def buffer : List (Nat × M) := course.manager.ringBuffer.buffer

def held : List (Nat × M) := course.handed.map Prod.snd ++ course.buffer ++ course.evicted.map Prod.fst

/-- Every message that arrived was handed to one sender once, or is in the buffer, or was evicted;
a sender is handed messages in order, and none is evicted but for a buffer full of newer ones. -/
structure Law : Prop where
  placed : course.held.Perm course.arrived
  inOrder : course.handed.Pairwise fun first second => first.1 = second.1 → first.2.1 < second.2.1
  evicted : ∀ old newer, (old, newer) ∈ course.evicted → newer.length = 5000 ∧ ∀ msg ∈ newer, old.1 < msg.1

/-- A backfill succeeds with all messages that are in the buffer. -/
def BackfillTaken : LogEvent Tx M → Prop
  | .log _ _ => True
  | .setTx _ accepted => ∀ index < course.buffer.length, accepted index = true

structure Valid : Prop where
  custody : Custody course.arrived course.held
  ordered : (course.handed.map Prod.snd ++ course.buffer).Pairwise fun first second => first.1 < second.1
  connected : course.manager.currentTx.isSome → course.buffer = []
  capacity : course.manager.ringBuffer.capacity = 5000
  short : course.buffer.length ≤ 5000
  evicted : ∀ old newer, (old, newer) ∈ course.evicted → newer.length = 5000 ∧ ∀ msg ∈ newer, old.1 < msg.1

variable {course} {msg : Nat × M} {event : LogEvent Tx M}

theorem Valid.start : Valid ({} : LogCourse Tx M) where
  custody := .nil
  ordered := .nil
  connected := nofun
  capacity := rfl
  short := Nat.zero_le _
  evicted := nofun

/-- A message that arrives is newer than all that are held. -/
theorem Valid.arrives (valid : Valid course) (content : M) :
    (course.handed.map Prod.snd ++ course.buffer ++ [(course.arrived.length, content)]).Pairwise
      fun first second => first.1 < second.1 := by
  refine List.pairwise_append.mpr ⟨valid.ordered, List.pairwise_singleton .., fun earlier held last member => ?_⟩
  cases List.mem_singleton.mp member
  exact valid.custody.number_lt (List.mem_append_left _ held)

def keep (content : M) : LogCourse Tx M :=
  let msg := (course.arrived.length, content)
  { course.take (course.manager.keep msg) with arrived := course.arrived ++ [msg] }

open scoped List in
theorem keep_held (content : M) : (course.keep content).held.Perm ((course.arrived.length, content) :: course.held) := by
  have moved := RingBuffer.popped_append_push course.manager.ringBuffer (course.arrived.length, content)
  have evicted : (course.keep content).evicted.map Prod.fst =
      course.evicted.map Prod.fst ++ course.manager.ringBuffer.popped.toList := by
    simp [LogCourse.keep, take, LogManager.keep, Function.comp_def]
  have handed : (course.keep content).handed = course.handed := List.append_nil _
  simp only [held, evicted, handed]
  generalize course.handed.map Prod.snd = front, course.evicted.map Prod.fst = back at *
  calc front ++ (course.keep content).buffer ++ (back ++ course.manager.ringBuffer.popped.toList)
    _ = front ++ ((course.keep content).buffer ++ (back ++ course.manager.ringBuffer.popped.toList)) := List.append_assoc ..
    _ ~ front ++ ((back ++ course.manager.ringBuffer.popped.toList) ++ (course.keep content).buffer) :=
      List.perm_append_comm.append_left front
    _ = front ++ back ++ (course.buffer ++ [(course.arrived.length, content)]) := by
      rw [← show _ = course.buffer ++ _ from moved]
      simp only [List.append_assoc]
      rfl
    _ ~ (course.arrived.length, content) :: (front ++ back ++ course.buffer) := by
      rw [← List.append_assoc]
      exact List.perm_append_singleton ..
    _ ~ (course.arrived.length, content) :: (front ++ course.buffer ++ back) := by
      rw [List.append_assoc, List.append_assoc]
      exact (List.perm_append_comm.append_left front).cons _

theorem Valid.keep (valid : Valid course) (content : M) :
    Valid (course.keep content) ∧ ((course.keep content).arrived ⊆ (course.keep content).held ↔ course.arrived ⊆ course.held) := by
  have sent := valid.custody.send content (keep_held content)
  have short : course.manager.ringBuffer.buffer.length ≤ course.manager.ringBuffer.capacity :=
    valid.capacity.symm ▸ valid.short
  have moved := RingBuffer.popped_append_push course.manager.ringBuffer (course.arrived.length, content)
  have newest := valid.arrives content
  rw [List.append_assoc, buffer, ← moved] at newest
  have handed : (course.keep content).handed = course.handed := List.append_nil _
  have capacity : (course.keep content).manager.ringBuffer.capacity = 5000 := valid.capacity
  refine ⟨⟨sent.1, ?_, nofun, capacity, ?_, ?_⟩, sent.2⟩
  · rw [handed]
    exact newest.sublist ((List.sublist_append_right ..).append_left _)
  · exact capacity ▸ RingBuffer.push_length_le short (by rw [valid.capacity]; decide)
  · intro old newer member
    rcases List.mem_append.mp member with before | now
    · exact valid.evicted old newer before
    · obtain ⟨popped, out, same⟩ := List.mem_map.mp now
      cases same
      rw [Option.mem_toList] at out
      refine ⟨(RingBuffer.length_of_popped short out).trans valid.capacity, ?_⟩
      rw [Option.mem_def.mp out] at newest
      exact (List.pairwise_cons.mp (List.pairwise_append.mp newest).2.1).1

theorem step_log_keep {content : M} {accepted : Bool} (refused : course.manager.currentTx.isSome → accepted = false) :
    course.step (.log content accepted) = course.keep content := by
  rw [step, LogCourse.keep, LogManager.handle]
  cases tx : course.manager.currentTx with
  | none => rfl
  | some tx' => rw [refused (by rw [tx]; rfl)]; rfl

def hand (tx : Tx) (content : M) : LogCourse Tx M :=
  let msg := (course.arrived.length, content)
  { course with handed := course.handed ++ [(tx, msg)], arrived := course.arrived ++ [msg] }

theorem step_log_hand {tx : Tx} (connected : course.manager.currentTx = some tx) (content : M) :
    course.step (.log content true) = course.hand tx content := by
  simp [step, LogManager.handle, connected, take, hand]

theorem Valid.hand (valid : Valid course) (connected : course.manager.currentTx.isSome) (tx : Tx) (content : M) :
    Valid (course.hand tx content) ∧
      ((course.hand tx content).arrived ⊆ (course.hand tx content).held ↔ course.arrived ⊆ course.held) := by
  have empty := valid.connected connected
  have still : (course.hand tx content).buffer = [] := empty
  have handed : (course.hand tx content).handed.map Prod.snd =
      course.handed.map Prod.snd ++ [(course.arrived.length, content)] := List.map_append ..
  have newest := valid.arrives content
  have held : (course.hand tx content).held.Perm ((course.arrived.length, content) :: course.held) := by
    rw [LogCourse.held, LogCourse.held, still, empty, handed]
    simp only [List.append_nil, List.append_assoc, List.singleton_append]
    exact List.perm_middle
  have sent := valid.custody.send content held
  refine ⟨⟨sent.1, ?_, fun _ => still, valid.capacity, valid.short, valid.evicted⟩, sent.2⟩
  rw [handed, still, List.append_nil]
  rwa [empty, List.append_nil] at newest

/-- A backfill loses what its sends lose. -/
theorem Valid.setTx (valid : Valid course) (newTx : Tx) (accepted : Nat → Bool) :
    Valid (course.step (.setTx newTx accepted)) ∧
      ((course.step (.setTx newTx accepted)).arrived ⊆ (course.step (.setTx newTx accepted)).held ↔
        course.arrived ⊆ course.held ∧ ∀ index < course.buffer.length, accepted index = true) := by
  have kept := successes_sublist course.buffer accepted
  have handed : (course.step (.setTx newTx accepted)).handed.map Prod.snd =
      course.handed.map Prod.snd ++ successes course.buffer accepted := by
    simp [step, take, LogManager.handle, RingBuffer.popAll, buffer, Function.comp_def]
  have evicted : (course.step (.setTx newTx accepted)).evicted = course.evicted := List.append_nil _
  have held : (course.step (.setTx newTx accepted)).held =
      course.handed.map Prod.snd ++ successes course.buffer accepted ++ course.evicted.map Prod.fst := by
    rw [LogCourse.held, handed, evicted]
    exact congrArg (· ++ _) (List.append_nil _)
  have fewer : (course.step (.setTx newTx accepted)).held.Sublist course.held := by
    rw [held]
    exact (kept.append_left _).append_right _
  obtain ⟨custody, all⟩ := valid.custody.drop fewer.subperm
  have short : course.held.length ≤ (course.step (.setTx newTx accepted)).held.length ↔
      course.buffer.length ≤ (successes course.buffer accepted).length := by
    rw [held, LogCourse.held]
    simp only [List.length_append]
    omega
  refine ⟨⟨custody, ?_, fun _ => rfl, valid.capacity, Nat.zero_le _, ?_⟩, ?_⟩
  · rw [handed]
    exact valid.ordered.sublist ((List.append_nil _).symm ▸ kept.append_left _)
  · rw [evicted]
    exact valid.evicted
  · rw [← length_le_successes_iff, ← short]
    exact all

theorem Valid.step (valid : Valid course) (event : LogEvent Tx M) : Valid (course.step event) ∧
    ((course.step event).arrived ⊆ (course.step event).held ↔
      course.arrived ⊆ course.held ∧ course.BackfillTaken event) := by
  cases event with
  | setTx newTx accepted => exact valid.setTx newTx accepted
  | log content accepted =>
    simp only [BackfillTaken, and_true]
    cases accepted with
    | false =>
      rw [step_log_keep fun _ => rfl]
      exact valid.keep content
    | true =>
      cases tx : course.manager.currentTx with
      | none =>
        rw [step_log_keep fun connected => by rw [tx] at connected; cases connected]
        exact valid.keep content
      | some tx' =>
        rw [step_log_hand tx]
        exact valid.hand (by rw [tx]; rfl) tx' content

theorem Valid.law_iff_held (valid : Valid course) : Law course ↔ course.arrived ⊆ course.held := by
  rw [← valid.custody.perm_iff]
  constructor
  · intro law
    exact law.placed
  · intro placed
    refine ⟨placed, ?_, valid.evicted⟩
    have ordered := List.pairwise_map.mp (List.pairwise_append.mp valid.ordered).1
    refine ordered.imp ?_
    intro first second earlier _
    exact earlier

theorem run_concat (events : List (LogEvent Tx M)) (event : LogEvent Tx M) : run (events ++ [event]) = (run events).step event := by
  rw [run, List.foldl_concat]
  rfl

theorem Valid.run (events : List (LogEvent Tx M)) : Valid (run events) := by
  induction events using List.reverseRecOn with
  | nil => exact .start
  | append_singleton events event ih =>
    rw [run_concat]
    exact (ih.step event).1

/-- Messages are lost otherwise than by eviction if and only if a send of a backfill fails. -/
theorem law_iff (events : List (LogEvent Tx M)) : Law (run events) ↔
    ∀ before event after, events = before ++ event :: after → (run before).BackfillTaken event := by
  rw [(Valid.run events).law_iff_held]
  induction events using List.reverseRecOn with
  | nil => exact iff_of_true (List.nil_subset _) fun before event after same => absurd same (by simp)
  | append_singleton events last ih =>
    rw [run_concat, ((Valid.run events).step last).2, ih]
    constructor
    · rintro ⟨earlier, taken⟩ before event after same
      rcases List.eq_nil_or_concat after with rfl | ⟨front, final, rfl⟩
      · obtain ⟨rfl, final⟩ := List.append_inj' same rfl
        cases List.singleton_inj.mp final
        exact taken
      · rw [List.concat_eq_append, ← List.cons_append, ← List.append_assoc] at same
        exact earlier before event front (List.append_inj' same rfl).1
    · intro all
      refine ⟨fun before event after same => all before event (after ++ [last]) (by rw [same]; simp), ?_⟩
      exact all events last [] rfl

/-- A message waits for a connection, and the first one fails in the backfill. -/
theorem failed_backfill_loses : ¬ Law (run [.log () false, .setTx () fun _ => false]) := by
  intro law
  have placed := law.placed.length_eq
  exact absurd placed (by decide)

end LogCourse

end Veloce
