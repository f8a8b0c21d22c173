import Veloce.Collections.Mpsc
import Veloce.Handlers.LaunchStream

/-! The output of a step on its worker. -/

namespace Veloce

open Collections

/-- One pipe of a rank: what its processes wrote, and the part that was not read. -/
structure StepPipe where
  isStderr : Bool
  written : List UInt8 := []
  unread : List UInt8 := []

/-- A message for the controller, by the reader that waits until it is in the channel. What
is not about a step is left open. -/
structure StepSend where
  pipe : Option Nat := none
  msg : Option StepMessage

namespace StepSend

def chunk (key : StepKey) (send : StepSend) : Option StepChunk := send.msg.bind (·.chunk key)

def ending (key : StepKey) (send : StepSend) : Option Int := send.msg.bind (·.ending key)

end StepSend

/-- A step after its ranks were started: their exit codes, how many of them the task of the
step has waited for, and whether it has come to its last message. -/
structure StepRun where
  pipes : List StepPipe
  exits : List (Option Int)
  waited : Nat := 0
  finished : Bool := false
  channel : Mpsc StepSend := { permits := 32 }
  received : List StepSend := []

inductive StepRunEvent where
  /-- A rank or a process that has its pipe writes. -/
  | write (pipe : Nat) (data : List UInt8)
  | read (pipe : Nat) (count : Nat)
  /-- The process of a rank ends, with no code after a signal. -/
  | exit (rank : Nat) (code : Option Int)
  | wait
  | kill
  | finish
  /-- A task of the worker sends something else. -/
  | send (msg : Option StepMessage)
  | poll (index : Nat)
  | resume (index : Nat)
  | recv

namespace StepRun

def spawned (ranks : Nat) : StepRun where
  pipes := (List.replicate ranks [{ isStderr := false }, { isStderr := true }]).flatten
  exits := List.replicate ranks none

def exitCode (exits : List (Option Int)) : Int :=
  exits.foldl (fun last code => if code.getD 0 ≠ 0 then code.getD 0 else last) 0

def report (key : StepKey) (run : StepRun) (code : Int) : StepRun :=
  { run with finished := true, channel := run.channel.spawn { msg := some (.stepDone key code) } }

/-- The reader of the pipe still has a chunk to send. -/
def Sending (run : StepRun) (pipe : Nat) : Prop := ∃ send ∈ run.channel.outstanding, send.pipe = some pipe

instance (run : StepRun) (pipe : Nat) : Decidable (run.Sending pipe) :=
  inferInstanceAs (Decidable (∃ send ∈ _, _))

def apply (key : StepKey) (event : StepRunEvent) (run : StepRun) : Option StepRun :=
  match event with
  | .write index data =>
    run.pipes[index]?.bind fun pipe =>
      if data = [] then none
      else some { run with
        pipes := run.pipes.set index { pipe with written := pipe.written ++ data, unread := pipe.unread ++ data } }
  | .read index count =>
    run.pipes[index]?.bind fun pipe =>
      if 0 < count ∧ count ≤ 1024 ∧ count ≤ pipe.unread.length ∧ ¬ run.Sending index then
        some { run with
          pipes := run.pipes.set index { pipe with unread := pipe.unread.drop count }
          channel := run.channel.spawn
            { pipe := some index, msg := some (.stepOutput key pipe.isStderr (pipe.unread.take count)) } }
      else none
  | .exit rank code =>
    if run.exits[rank]? = some none then some { run with exits := run.exits.set rank (some (code.getD (-1))) } else none
  | .wait =>
    run.exits[run.waited]?.bind fun code =>
      if code = none ∨ run.finished then none else some { run with waited := run.waited + 1 }
  | .kill => if run.finished ∨ run.exits.length ≤ run.waited then none else some (run.report key (-1))
  | .finish => if run.finished ∨ run.waited < run.exits.length then none else some (run.report key (exitCode run.exits))
  | .send msg =>
    if (msg.bind (·.chunk key)).isSome ∨ (msg.bind (·.ending key)).isSome then none
    else some { run with channel := run.channel.spawn { msg } }
  | .poll index => (run.channel.poll index).map fun channel => { run with channel := channel }
  | .resume index => (run.channel.resume index).map fun channel => { run with channel := channel }
  | .recv => run.channel.recv.map fun next => { run with channel := next.2, received := run.received ++ [next.1] }

/-- The messages that entered the channel, in the order in which the controller handles them. -/
def passed (run : StepRun) : List StepSend := run.received ++ run.channel.queue

/-- No output of the step after its end. -/
def OutputFirst (key : StepKey) (sends : List StepSend) : Prop :=
  sends.Pairwise fun first second => (first.ending key).isSome = true → second.chunk key = none

def Reported (key : StepKey) (run : StepRun) : Prop := ∃ send ∈ run.passed, (send.ending key).isSome = true

def Quiet (key : StepKey) (run : StepRun) : Prop :=
  (∀ pipe ∈ run.pipes, pipe.unread = []) ∧ ∀ send ∈ run.channel.outstanding, send.chunk key = none

/-- StepDone enters the channel when the readers have nothing left, and nobody writes to a pipe
of the step after it. -/
def Joined (key : StepKey) (run : StepRun) : StepRunEvent → Prop
  | .write _ _ => ¬ run.Reported key
  | .poll index => 0 < run.channel.permits → ∀ send ∈ run.channel.spawned[index]?, (send.ending key).isSome = true →
      run.Quiet key
  | .resume index => ∀ send ∈ run.channel.granted[index]?, (send.ending key).isSome = true → run.Quiet key
  | _ => True

/-- All output has been read and handled. -/
structure Drained (run : StepRun) : Prop where
  pipes : ∀ pipe ∈ run.pipes, pipe.unread = []
  channel : run.channel.held = []

/-- No output came after the end, and none is to come. -/
structure Orderly (key : StepKey) (run : StepRun) : Prop where
  first : OutputFirst key run.passed
  quiet : run.Reported key → run.Quiet key

section Order

variable {key : StepKey} {run next : StepRun} {send : StepSend}

theorem chunk_of_ending (ends : (send.ending key).isSome = true) : send.chunk key = none := by
  obtain ⟨code, ends⟩ := Option.isSome_iff_exists.mp ends
  obtain ⟨msg, sent, ends⟩ := Option.bind_eq_some_iff.mp ends
  rw [StepSend.chunk, sent, Option.bind_some, StepMessage.chunk_of_ending ends]

theorem outputFirst_append {sends : List StepSend} : OutputFirst key (sends ++ [send]) ↔
    OutputFirst key sends ∧ ((∃ before ∈ sends, (before.ending key).isSome = true) → send.chunk key = none) := by
  simp only [OutputFirst, List.pairwise_append, List.pairwise_singleton, List.mem_singleton, forall_eq, true_and]
  exact and_congr_right fun _ => ⟨fun all ⟨before, member, ends⟩ => all before member ends,
    fun all before member ends => all ⟨before, member, ends⟩⟩

theorem orderly_enter (run : StepRun) (send : StepSend) (passed : next.passed = run.passed ++ [send])
    (pipes : next.pipes = run.pipes)
    (tasks : run.channel.outstanding.Perm (send :: next.channel.outstanding)) :
    next.Orderly key ↔ run.Orderly key ∧ ((send.ending key).isSome = true → run.Quiet key) := by
  have member : send ∈ run.channel.outstanding := tasks.mem_iff.mpr List.mem_cons_self
  have quiet : run.Quiet key ↔ next.Quiet key ∧ send.chunk key = none := by
    simp only [Quiet, pipes, tasks.mem_iff, List.forall_mem_cons]
    exact ⟨fun ⟨empty, own, others⟩ => ⟨⟨empty, others⟩, own⟩, fun ⟨⟨empty, others⟩, own⟩ => ⟨empty, own, others⟩⟩
  have reported : next.Reported key ↔ run.Reported key ∨ (send.ending key).isSome = true := by
    simp only [Reported, passed, List.mem_append, List.mem_singleton, or_and_right, exists_or, exists_eq_left]
  constructor
  · rintro ⟨first, settled⟩
    rw [passed, outputFirst_append] at first
    refine ⟨⟨first.1, fun before => ?_⟩, fun ends => ?_⟩
    · exact quiet.mpr ⟨settled (reported.mpr (.inl before)), first.2 before⟩
    · exact quiet.mpr ⟨settled (reported.mpr (.inr ends)), chunk_of_ending ends⟩
  · rintro ⟨⟨first, settled⟩, joined⟩
    refine ⟨?_, fun now => ?_⟩
    · rw [passed, outputFirst_append]
      exact ⟨first, fun before => (settled before).2 send member⟩
    · rcases reported.mp now with before | ends
      · exact (quiet.mp (settled before)).1
      · exact (quiet.mp (joined ends)).1

theorem orderly_stay (run : StepRun) (passed : next.passed = run.passed) (quiet : next.Quiet key ↔ run.Quiet key) :
    next.Orderly key ↔ run.Orderly key := by
  have reported : next.Reported key ↔ run.Reported key := by simp only [Reported, passed]
  constructor
  · rintro ⟨first, settled⟩
    exact ⟨passed ▸ first, fun before => quiet.mp (settled (reported.mpr before))⟩
  · rintro ⟨first, settled⟩
    exact ⟨passed.symm ▸ first, fun before => quiet.mpr (settled (reported.mp before))⟩

theorem orderly_busy (run : StepRun) (passed : next.passed = run.passed) (busy : ¬ next.Quiet key) :
    next.Orderly key ↔ OutputFirst key run.passed ∧ ¬ run.Reported key := by
  have reported : next.Reported key ↔ run.Reported key := by simp only [Reported, passed]
  constructor
  · rintro ⟨first, settled⟩
    exact ⟨passed ▸ first, fun before => busy (settled (reported.mpr before))⟩
  · rintro ⟨first, silent⟩
    exact ⟨passed.symm ▸ first, fun before => absurd (reported.mp before) silent⟩

theorem mem_outstanding_spawn (channel : Mpsc StepSend) (send other : StepSend) :
    other ∈ (channel.spawn send).outstanding ↔ other ∈ channel.outstanding ∨ other = send := by
  simp only [Mpsc.outstanding, Mpsc.spawn, List.mem_append, List.mem_singleton]
  tauto

theorem quiet_spawn (silent : send.chunk key = none) (same : next.channel = run.channel.spawn send)
    (pipes : next.pipes = run.pipes) : next.Quiet key ↔ run.Quiet key := by
  simp only [Quiet, same, pipes, mem_outstanding_spawn]
  refine and_congr_right fun _ => ⟨fun all other member => all other (.inl member), fun all other member => ?_⟩
  rcases member with before | rfl
  · exact all other before
  · exact silent

theorem orderly_report (code : Int) : (run.report key code).Orderly key ↔ run.Orderly key :=
  have silent : StepSend.chunk key { msg := some (.stepDone key code) } = none := rfl
  orderly_stay run rfl (quiet_spawn silent rfl rfl)

/-- A run stays orderly exactly if StepDone waits for the readers, and nobody writes after it. -/
theorem orderly_step {event : StepRunEvent} (taken : run.apply key event = some next) :
    next.Orderly key ↔ run.Orderly key ∧ run.Joined key event := by
  cases event with
  | write index data =>
    obtain ⟨pipe, found, taken⟩ := Option.bind_eq_some_iff.mp taken
    obtain ⟨some_data, same⟩ := Option.ite_none_left_eq_some.mp taken
    cases same
    refine Iff.trans (orderly_busy run rfl fun quiet => ?_) ?_
    · have left := quiet.1 _ (List.mem_set (List.getElem?_eq_some_iff.mp found).1 _)
      exact some_data (List.append_eq_nil_iff.mp left).2
    · constructor
      · rintro ⟨first, silent⟩
        exact ⟨⟨first, fun before => absurd before silent⟩, silent⟩
      · rintro ⟨orderly, silent⟩
        exact ⟨orderly.first, silent⟩
  | read index count =>
    obtain ⟨pipe, found, taken⟩ := Option.bind_eq_some_iff.mp taken
    obtain ⟨⟨positive, _, bound, _⟩, same⟩ := Option.ite_none_right_eq_some.mp taken
    cases same
    -- The byte was in the pipe before, and is with the reader now.
    refine Iff.trans (orderly_busy run rfl fun quiet => ?_) ?_
    · have silent := quiet.2 _ ((mem_outstanding_spawn _ _ _).mpr (.inr rfl))
      simp [StepSend.chunk, StepMessage.chunk] at silent
    · constructor
      · rintro ⟨first, silent⟩
        exact ⟨⟨first, fun before => absurd before silent⟩, trivial⟩
      · rintro ⟨orderly, _⟩
        refine ⟨orderly.first, fun before => ?_⟩
        have empty := (orderly.quiet before).1 pipe (List.mem_of_getElem? found)
        rw [empty, List.length_nil] at bound
        omega
  | exit rank code =>
    obtain ⟨_, same⟩ := Option.ite_none_right_eq_some.mp taken
    cases same
    exact Iff.trans (orderly_stay run rfl .rfl) (and_iff_left trivial).symm
  | wait =>
    obtain ⟨code, _, taken⟩ := Option.bind_eq_some_iff.mp taken
    obtain ⟨_, same⟩ := Option.ite_none_left_eq_some.mp taken
    cases same
    exact Iff.trans (orderly_stay run rfl .rfl) (and_iff_left trivial).symm
  | kill =>
    obtain ⟨_, same⟩ := Option.ite_none_left_eq_some.mp taken
    cases same
    exact Iff.trans (orderly_report _) (and_iff_left trivial).symm
  | finish =>
    obtain ⟨_, same⟩ := Option.ite_none_left_eq_some.mp taken
    cases same
    exact Iff.trans (orderly_report _) (and_iff_left trivial).symm
  | send msg =>
    obtain ⟨foreign, same⟩ := Option.ite_none_left_eq_some.mp taken
    cases same
    have silent : (StepSend.chunk key { msg }) = none := Option.not_isSome_iff_eq_none.mp (not_or.mp foreign).1
    exact Iff.trans (orderly_stay run rfl (quiet_spawn silent rfl rfl)) (and_iff_left trivial).symm
  | poll index =>
    obtain ⟨channel, polled, same⟩ := Option.map_eq_some_iff.mp taken
    subst same
    obtain ⟨send, found, ⟨room, queue, tasks⟩ | ⟨full, queue, tasks⟩⟩ := Mpsc.poll_cases polled
    · refine Iff.trans (orderly_enter run send ?_ rfl tasks) (and_congr_right fun _ => ?_)
      · simp only [StepRun.passed, queue, List.append_assoc]
      · simp [Joined, room, found]
    · refine Iff.trans (orderly_stay run ?_ ?_) ?_
      · simp only [StepRun.passed, queue]
      · simp only [Quiet, tasks.mem_iff]
      · simp [Joined, full]
  | resume index =>
    obtain ⟨channel, resumed, same⟩ := Option.map_eq_some_iff.mp taken
    subst same
    obtain ⟨send, found, queue, tasks⟩ := Mpsc.resume_cases resumed
    refine Iff.trans (orderly_enter run send ?_ rfl tasks) (and_congr_right fun _ => ?_)
    · simp only [StepRun.passed, queue, List.append_assoc]
    · simp [Joined, found]
  | recv =>
    obtain ⟨⟨send, channel⟩, received, same⟩ := Option.map_eq_some_iff.mp taken
    subst same
    obtain ⟨queue, tasks⟩ := Mpsc.recv_cases received
    refine Iff.trans (orderly_stay run ?_ ?_) (and_iff_left trivial).symm
    · simp only [StepRun.passed, queue, List.append_assoc, List.singleton_append]
    · simp only [Quiet, tasks.mem_iff]

end Order

section Bytes

def bytesOf (key : StepKey) (isStderr : Bool) (sends : List StepSend) : List UInt8 :=
  streamOf isStderr (sends.filterMap (·.chunk key))

def pipesOf (part : StepPipe → List UInt8) (isStderr : Bool) (pipes : List StepPipe) : List UInt8 :=
  (pipes.filter fun pipe => pipe.isStderr = isStderr).flatMap part

/-- Every byte that was written is in a pipe or in a message. -/
def Counted (key : StepKey) (run : StepRun) : Prop := ∀ isStderr,
  (bytesOf key isStderr (run.received ++ run.channel.held) ++ pipesOf StepPipe.unread isStderr run.pipes).Perm
    (pipesOf StepPipe.written isStderr run.pipes)

variable {key : StepKey} {run next : StepRun} {isStderr : Bool}

theorem bytesOf_perm {sends sends' : List StepSend} (same : sends.Perm sends') :
    (bytesOf key isStderr sends).Perm (bytesOf key isStderr sends') :=
  ((same.filterMap _).filter _).flatMap_right _

theorem pipesOf_perm (part : StepPipe → List UInt8) {pipes pipes' : List StepPipe} (same : pipes.Perm pipes') :
    (pipesOf part isStderr pipes).Perm (pipesOf part isStderr pipes') := (same.filter _).flatMap_right _

theorem pipesOf_cons (part : StepPipe → List UInt8) (pipe : StepPipe) (pipes : List StepPipe) :
    pipesOf part isStderr (pipe :: pipes) =
      (if pipe.isStderr = isStderr then part pipe else []) ++ pipesOf part isStderr pipes := by
  by_cases own : pipe.isStderr = isStderr <;> simp [pipesOf, own]

theorem count_pipesOf (part : StepPipe → List UInt8) {pipes : List StepPipe} {pipe : StepPipe} {index : Nat}
    (found : pipes[index]? = some pipe) (byte : UInt8) :
    (pipesOf part isStderr pipes).count byte = (if pipe.isStderr = isStderr then part pipe else []).count byte +
      (pipesOf part isStderr (pipes.eraseIdx index)).count byte := by
  rw [(pipesOf_perm part (Mpsc.perm_eraseIdx found)).count_eq, pipesOf_cons, List.count_append]

theorem count_pipesOf_set (part : StepPipe → List UInt8) {pipes : List StepPipe} {pipe : StepPipe} {index : Nat}
    (bound : index < pipes.length) (byte : UInt8) :
    (pipesOf part isStderr (pipes.set index pipe)).count byte =
      (if pipe.isStderr = isStderr then part pipe else []).count byte +
        (pipesOf part isStderr (pipes.eraseIdx index)).count byte := by
  have found : (pipes.set index pipe)[index]? = some pipe := by simp [bound]
  rw [count_pipesOf part found, List.eraseIdx_set_eq]

theorem held_spawn (channel : Mpsc StepSend) (send : StepSend) :
    (channel.spawn send).held.Perm (send :: channel.held) := by
  simp only [Mpsc.held, Mpsc.outstanding, Mpsc.spawn, List.append_assoc, List.singleton_append]
  exact (List.perm_middle.append_left _).trans List.perm_middle

theorem count_bytesOf_held {received held held' sends : List StepSend} (same : held'.Perm (sends ++ held))
    (byte : UInt8) :
    (bytesOf key isStderr (received ++ held')).count byte =
      (bytesOf key isStderr sends).count byte + (bytesOf key isStderr (received ++ held)).count byte := by
  have moved : (received ++ held').Perm (sends ++ (received ++ held)) := by
    refine (same.append_left _).trans ?_
    rw [← List.append_assoc, ← List.append_assoc]
    exact List.perm_append_comm.append_right _
  rw [(bytesOf_perm moved).count_eq, ← List.count_append]
  simp [bytesOf, streamOf]

theorem counted_spawned (key : StepKey) (ranks : Nat) : (spawned ranks).Counted key := by
  intro isStderr
  have empty (part : StepPipe → List UInt8) (none : ∀ isStderr, part { isStderr } = []) :
      pipesOf part isStderr (spawned ranks).pipes = [] := by
    refine List.flatMap_eq_nil_iff.mpr fun pipe member => ?_
    obtain ⟨pipes, copy, inside⟩ := List.mem_flatten.mp (List.mem_of_mem_filter member)
    rw [List.eq_of_mem_replicate copy] at inside
    simp only [List.mem_cons, List.not_mem_nil, or_false] at inside
    rcases inside with rfl | rfl
    · exact none false
    · exact none true
  rw [empty _ fun _ => rfl, empty _ fun _ => rfl]
  exact .refl _

namespace Counted

theorem moved (counted : run.Counted key) {sends : List StepSend} (silent : ∀ send ∈ sends, send.chunk key = none)
    (pipes : next.pipes = run.pipes) (received : next.received = run.received)
    (held : next.channel.held.Perm (sends ++ run.channel.held)) : next.Counted key := by
  intro isStderr
  refine List.perm_iff_count.mpr fun byte => ?_
  have balance := List.perm_iff_count.mp (counted isStderr) byte
  have empty : bytesOf key isStderr sends = [] := by
    rw [bytesOf, List.filterMap_eq_nil_iff.mpr silent]
    rfl
  rw [List.count_append] at balance ⊢
  rw [received, count_bytesOf_held held, empty, pipes, List.count_nil, Nat.zero_add]
  exact balance

theorem write (counted : run.Counted key) {index : Nat} {pipe : StepPipe} (found : run.pipes[index]? = some pipe)
    (data : List UInt8) : Counted key { run with
      pipes := run.pipes.set index
        { pipe with written := pipe.written ++ data, unread := pipe.unread ++ data } } := by
  intro isStderr
  refine List.perm_iff_count.mpr fun byte => ?_
  have balance := List.perm_iff_count.mp (counted isStderr) byte
  have bound := (List.getElem?_eq_some_iff.mp found).1
  rw [List.count_append, count_pipesOf _ found, count_pipesOf _ found] at balance
  rw [List.count_append, count_pipesOf_set _ bound, count_pipesOf_set _ bound]
  by_cases own : pipe.isStderr = isStderr
  · simp only [own, if_true, List.count_append] at balance ⊢
    omega
  · simpa [own] using balance

/-- A reader takes bytes out of its pipe and into a message. -/
theorem read (counted : run.Counted key) {index count : Nat} {pipe : StepPipe}
    (found : run.pipes[index]? = some pipe) : Counted key { run with
      pipes := run.pipes.set index { pipe with unread := pipe.unread.drop count }
      channel := run.channel.spawn
        { pipe := some index, msg := some (.stepOutput key pipe.isStderr (pipe.unread.take count)) } } := by
  intro isStderr
  refine List.perm_iff_count.mpr fun byte => ?_
  have balance := List.perm_iff_count.mp (counted isStderr) byte
  have bound := (List.getElem?_eq_some_iff.mp found).1
  let send : StepSend := { pipe := some index, msg := some (.stepOutput key pipe.isStderr (pipe.unread.take count)) }
  have spawned : (run.channel.spawn send).held.Perm ([send] ++ run.channel.held) := held_spawn run.channel send
  have sent : bytesOf key isStderr [send] = if pipe.isStderr = isStderr then pipe.unread.take count else [] := by
    by_cases own : pipe.isStderr = isStderr <;> simp [bytesOf, send, StepSend.chunk, StepMessage.chunk, streamOf, own]
  have whole : (pipe.unread.take count).count byte + (pipe.unread.drop count).count byte =
      pipe.unread.count byte := by
    rw [← List.count_append, List.take_append_drop]
  rw [List.count_append, count_pipesOf _ found, count_pipesOf _ found] at balance
  rw [List.count_append, count_pipesOf_set _ bound, count_pipesOf_set _ bound, count_bytesOf_held spawned, sent]
  by_cases own : pipe.isStderr = isStderr
  · simp only [own, if_true] at balance ⊢
    omega
  · simpa [own] using balance

theorem recv (counted : run.Counted key) {send : StepSend} {channel : Mpsc StepSend}
    (received : run.channel.recv = some (send, channel)) :
    Counted key { run with channel := channel, received := run.received ++ [send] } := by
  intro isStderr
  have moved : (run.received ++ [send] ++ channel.held).Perm (run.received ++ run.channel.held) := by
    rw [List.append_assoc]
    exact (Mpsc.held_recv received).symm.append_left _
  exact ((bytesOf_perm moved).append_right _).trans (counted isStderr)

end Counted

theorem counted_step (counted : run.Counted key) {event : StepRunEvent} (taken : run.apply key event = some next) :
    next.Counted key := by
  have noOutput {msg : Option StepMessage} (silent : StepSend.chunk key { msg } = none) :
      ∀ send ∈ [({ msg } : StepSend)], send.chunk key = none := by
    intro send member
    rw [List.mem_singleton.mp member]
    exact silent
  cases event with
  | write index data =>
    obtain ⟨pipe, found, taken⟩ := Option.bind_eq_some_iff.mp taken
    obtain ⟨_, same⟩ := Option.ite_none_left_eq_some.mp taken
    cases same
    exact counted.write found data
  | read index count =>
    obtain ⟨pipe, found, taken⟩ := Option.bind_eq_some_iff.mp taken
    obtain ⟨_, same⟩ := Option.ite_none_right_eq_some.mp taken
    cases same
    exact counted.read found
  | exit rank code =>
    obtain ⟨_, same⟩ := Option.ite_none_right_eq_some.mp taken
    cases same
    exact counted
  | wait =>
    obtain ⟨code, _, taken⟩ := Option.bind_eq_some_iff.mp taken
    obtain ⟨_, same⟩ := Option.ite_none_left_eq_some.mp taken
    cases same
    exact counted
  | kill =>
    obtain ⟨_, same⟩ := Option.ite_none_left_eq_some.mp taken
    cases same
    exact counted.moved (noOutput rfl) rfl rfl (held_spawn run.channel _)
  | finish =>
    obtain ⟨_, same⟩ := Option.ite_none_left_eq_some.mp taken
    cases same
    exact counted.moved (noOutput rfl) rfl rfl (held_spawn run.channel _)
  | send msg =>
    obtain ⟨foreign, same⟩ := Option.ite_none_left_eq_some.mp taken
    cases same
    have silent : (StepSend.chunk key { msg }) = none := Option.not_isSome_iff_eq_none.mp (not_or.mp foreign).1
    exact counted.moved (noOutput silent) rfl rfl (held_spawn run.channel _)
  | poll index =>
    obtain ⟨channel, polled, same⟩ := Option.map_eq_some_iff.mp taken
    subst same
    exact counted.moved (fun _ none => absurd none List.not_mem_nil) rfl rfl (Mpsc.held_poll polled)
  | resume index =>
    obtain ⟨channel, resumed, same⟩ := Option.map_eq_some_iff.mp taken
    subst same
    exact counted.moved (fun _ none => absurd none List.not_mem_nil) rfl rfl (Mpsc.held_resume resumed)
  | recv =>
    obtain ⟨⟨send, channel⟩, received, same⟩ := Option.map_eq_some_iff.mp taken
    subst same
    exact counted.recv received

end Bytes

end StepRun

section Forwarding

variable {key : StepKey} {board : StepBoard} {waiter : Nat}

/-- The controller forwards what it hears of a step until the step ends. -/
theorem outputs_handleAll {messages : List StepMessage} (heard : List StepChunk × Option Int)
    (listens : Listed board.stepOutputWaiters waiter (ownerOf key heard.2))
    (receives : board.outputs.get? waiter = some heard.1) :
    (board.handleAll messages).outputs.get? waiter = some (messages.foldl (hear key) heard).1 := by
  induction messages generalizing board heard with
  | nil => exact receives
  | cons msg rest ih =>
    obtain ⟨outputs, listens'⟩ := handle_outputs listens receives msg
    obtain ⟨chunks, ended⟩ := heard
    refine ih (hear key (chunks, ended) msg) ?_ ?_
    · cases ended with
      | some code => exact listens'
      | none =>
        have owner : (ownerOf key none).filter (fun key => (msg.ending key).isNone) = ownerOf key (msg.ending key) := by
          cases ends : msg.ending key <;> simp [ownerOf, Option.filter, ends]
        exact owner ▸ listens'
    · cases ended with
      | some code => simpa [ownerOf, hear] using outputs
      | none => exact outputs

theorem hear_all {messages : List StepMessage} {heard : List StepChunk}
    (first : messages.Pairwise fun first second => (first.ending key).isSome = true → second.chunk key = none) :
    (messages.foldl (hear key) (heard, none)).1 = heard ++ messages.filterMap (·.chunk key) := by
  induction messages generalizing heard with
  | nil => simp
  | cons msg rest ih =>
    obtain ⟨after, first⟩ := List.pairwise_cons.mp first
    rw [List.foldl_cons]
    change (rest.foldl (hear key) (heard ++ (msg.chunk key).toList, msg.ending key)).1 = _
    cases ends : msg.ending key with
    | none =>
      rw [ih first]
      cases carried : msg.chunk key <;> simp [carried]
    | some code =>
      have silent : rest.filterMap (·.chunk key) = [] :=
        List.filterMap_eq_nil_iff.mpr fun later member => after later member (by rw [ends]; rfl)
      rw [foldl_hear_ended, List.filterMap_cons, StepMessage.chunk_of_ending ends, silent]
      simp

end Forwarding

namespace StepRun

/-- A controller that has a live receiver for the output of the step forwards all of it. -/
def Forwarded (key : StepKey) (run : StepRun) : Prop := ∀ (board : StepBoard) (waiter : Nat),
  Listed board.stepOutputWaiters waiter (some key) → board.outputs.get? waiter = some [] →
    ∃ chunks, (board.handleAll (run.received.filterMap StepSend.msg)).outputs.get? waiter = some chunks ∧
      ∀ isStderr, (streamOf isStderr chunks).Perm (pipesOf StepPipe.written isStderr run.pipes)

theorem forwarded_of_orderly {key : StepKey} {run : StepRun} (counted : run.Counted key) (drained : run.Drained)
    (first : OutputFirst key run.received) : run.Forwarded key := by
  intro board waiter listens receives
  have ordered : (run.received.filterMap StepSend.msg).Pairwise
      fun first second => (first.ending key).isSome = true → second.chunk key = none := by
    refine List.pairwise_filterMap.mpr (first.imp fun {before after} order msg sent msg' sent' ends => ?_)
    have silent := order (by rw [StepSend.ending, sent]; exact ends)
    rwa [StepSend.chunk, sent'] at silent
  have chunks : (run.received.filterMap StepSend.msg).filterMap (·.chunk key) = run.received.filterMap (·.chunk key) :=
    List.filterMap_filterMap
  refine ⟨run.received.filterMap (·.chunk key), ?_, fun isStderr => ?_⟩
  · rw [outputs_handleAll ([], none) listens receives, hear_all ordered, chunks, List.nil_append]
  · have all := counted isStderr
    have unread : pipesOf StepPipe.unread isStderr run.pipes = [] :=
      List.flatMap_eq_nil_iff.mpr fun pipe member => drained.pipes pipe (List.mem_of_mem_filter member)
    rwa [drained.channel, List.append_nil, unread, List.append_nil] at all

end StepRun

/-- However the tasks of a step are scheduled and whatever its ranks write: once all output is
read and handled, it was sent before StepDone, and the controller forwards all of it, exactly if
StepDone entered the channel when the readers had nothing left and nobody wrote after it. -/
theorem output_precedes_done_iff {key : StepKey} {ranks : Nat} {events : List StepRunEvent} {final : StepRun}
    (ran : runLabels (StepRun.apply key) events (.spawned ranks) = some final) (drained : final.Drained) :
    StepRun.OutputFirst key final.received ∧ final.Forwarded key ↔
      AllowedRun (StepRun.Joined key) (StepRun.apply key) events (.spawned ranks) := by
  have start : (StepRun.spawned ranks).Orderly key :=
    ⟨.nil, fun ⟨_, member, _⟩ => absurd member List.not_mem_nil⟩
  have step {run : StepRun} {event : StepRunEvent} {next : StepRun} (_ : True)
      (taken : run.apply key event = some next) :
      True ∧ (next.Orderly key ↔ run.Orderly key ∧ run.Joined key event) := ⟨trivial, StepRun.orderly_step taken⟩
  have orderly := runLabels_iff step trivial ran
  have counted : final.Counted key :=
    runLabels_invariant (fun counted taken => StepRun.counted_step counted taken) (StepRun.counted_spawned key ranks) ran
  have passed : final.passed = final.received := by
    have empty : final.channel.queue = [] := (List.append_eq_nil_iff.mp drained.channel).1
    rw [StepRun.passed, empty, List.append_nil]
  have quiet : final.Quiet key := by
    have empty : final.channel.outstanding = [] := (List.append_eq_nil_iff.mp drained.channel).2
    exact ⟨drained.pipes, by simp [empty]⟩
  rw [← and_iff_right (b := AllowedRun _ _ _ _) start, ← orderly]
  constructor
  · rintro ⟨first, _⟩
    exact ⟨passed.symm ▸ first, fun _ => quiet⟩
  · intro orderly
    have first : StepRun.OutputFirst key final.received := passed ▸ orderly.first
    exact ⟨first, StepRun.forwarded_of_orderly counted drained first⟩

namespace StepRun

instance (key : StepKey) (run : StepRun) : Decidable (run.Reported key) :=
  inferInstanceAs (Decidable (∃ send ∈ _, _))

instance (key : StepKey) (run : StepRun) : Decidable (run.Quiet key) :=
  inferInstanceAs (Decidable ((∀ pipe ∈ _, _) ∧ ∀ send ∈ _, _))

instance (key : StepKey) (run : StepRun) : (event : StepRunEvent) → Decidable (run.Joined key event)
  | .write _ _ => inferInstanceAs (Decidable (¬ _))
  | .poll _ => inferInstanceAs (Decidable (_ → ∀ send ∈ _, _ → _))
  | .resume _ => inferInstanceAs (Decidable (∀ send ∈ _, _ → _))
  | .read _ _ | .exit _ _ | .wait | .kill | .finish | .send _ | .recv => isTrue trivial

instance (run : StepRun) : Decidable run.Drained :=
  decidable_of_iff ((∀ pipe ∈ run.pipes, pipe.unread = []) ∧ run.channel.held.isEmpty = true)
    ⟨fun ⟨pipes, channel⟩ => ⟨pipes, List.isEmpty_iff.mp channel⟩,
      fun drained => ⟨drained.pipes, List.isEmpty_iff.mpr drained.channel⟩⟩

end StepRun

/-- The readers of a rank come before its end is reported. -/
theorem output_precedes_done_iff_read_first : ∃ final : StepRun,
    runLabels (StepRun.apply (1, 1)) [.write 0 [104, 105], .write 1 [33], .exit 0 (some 0), .read 0 2, .read 1 1, .poll 0,
      .wait, .poll 0, .finish, .poll 0, .recv, .recv, .recv] (.spawned 1) = some final ∧ final.Drained ∧
    StepRun.OutputFirst (1, 1) final.received ∧ final.Forwarded (1, 1) := by
  let events : List StepRunEvent := [.write 0 [104, 105], .write 1 [33], .exit 0 (some 0), .read 0 2, .read 1 1, .poll 0,
    .wait, .poll 0, .finish, .poll 0, .recv, .recv, .recv]
  have facts : (runLabels (StepRun.apply (1, 1)) events (.spawned 1)).map (fun final => decide final.Drained) = some true := by
    decide +kernel
  obtain ⟨final, ran, drained⟩ := Option.map_eq_some_iff.mp facts
  have joined : AllowedRun (StepRun.Joined (1, 1)) (StepRun.apply (1, 1)) events (.spawned 1) := by decide +kernel
  have drained := of_decide_eq_true drained
  exact ⟨final, ran, drained, (output_precedes_done_iff ran drained).mpr joined⟩

/-- The rank has ended, and the task of the step is faster than the reader. -/
theorem done_overtakes_output : ∃ (final : StepRun) (board : StepBoard),
    runLabels (StepRun.apply (1, 1)) [.write 0 [104, 105], .exit 0 (some 0), .wait, .finish, .poll 0, .read 0 2, .poll 0,
      .recv, .recv] (.spawned 1) = some final ∧ final.Drained ∧ ¬ StepRun.OutputFirst (1, 1) final.received ∧
    Listed board.stepOutputWaiters 0 (some (1, 1)) ∧ board.outputs.get? 0 = some [] ∧
    (board.handleAll (final.received.filterMap StepSend.msg)).outputs.get? 0 = some [] ∧
    StepRun.pipesOf StepPipe.written false final.pipes = [104, 105] := by
  let events : List StepRunEvent := [.write 0 [104, 105], .exit 0 (some 0), .wait, .finish, .poll 0, .read 0 2, .poll 0,
    .recv, .recv]
  let board : StepBoard := StepBoard.registerLaunch {} 1 0
  have facts : (runLabels (StepRun.apply (1, 1)) events (.spawned 1)).map (fun final => decide (final.Drained ∧
      StepRun.pipesOf StepPipe.written false final.pipes = [104, 105] ∧
      (board.handleAll (final.received.filterMap StepSend.msg)).outputs.get? 0 = some [])) = some true := by decide +kernel
  obtain ⟨final, ran, holds⟩ := Option.map_eq_some_iff.mp facts
  obtain ⟨drained, written, forwarded⟩ := of_decide_eq_true holds
  have listens : Listed board.stepOutputWaiters 0 (some (1, 1)) := (StepBoard.listed_empty 0).add
  refine ⟨final, board, ran, drained, fun first => ?_, listens, rfl, forwarded, written⟩
  have counted : final.Counted (1, 1) :=
    runLabels_invariant (fun counted taken => StepRun.counted_step counted taken) (StepRun.counted_spawned (1, 1) 1) ran
  obtain ⟨chunks, received, bytes⟩ := StepRun.forwarded_of_orderly counted drained first board 0 listens rfl
  rw [forwarded, Option.some.injEq] at received
  have stdout := bytes false
  rw [← received, written] at stdout
  exact absurd stdout.length_eq (by decide)

end Veloce
