import Mathlib.Data.List.Perm.Basic

/-! Bounded channels with many senders. -/

namespace Collections

/-- A channel with the messages in its queue and those of tasks that still have to put theirs
in: not polled yet, in line for a permit, or with a permit and not polled since. -/
structure Mpsc (α : Type) where
  permits : Nat
  queue : List α := []
  spawned : List α := []
  waiting : List α := []
  granted : List α := []

namespace Mpsc

variable {α : Type}

/-- `none` if the channel is full. -/
def trySend (channel : Mpsc α) (msg : α) : Option (Mpsc α) :=
  if 0 < channel.permits then some { channel with permits := channel.permits - 1, queue := channel.queue ++ [msg] }
  else none

def spawn (channel : Mpsc α) (msg : α) : Mpsc α := { channel with spawned := channel.spawned ++ [msg] }

/-- Send, and leave the message to a task if the channel is full. -/
def sendOrSpawn (channel : Mpsc α) (msg : α) : Mpsc α := (channel.trySend msg).getD (channel.spawn msg)

/-- The first poll of a task. -/
def poll (channel : Mpsc α) (index : Nat) : Option (Mpsc α) :=
  channel.spawned[index]?.map fun msg =>
    let rest := { channel with spawned := channel.spawned.eraseIdx index }
    (rest.trySend msg).getD { rest with waiting := rest.waiting ++ [msg] }

def resume (channel : Mpsc α) (index : Nat) : Option (Mpsc α) :=
  channel.granted[index]?.map fun msg =>
    { channel with granted := channel.granted.eraseIdx index, queue := channel.queue ++ [msg] }

def release (channel : Mpsc α) : Mpsc α :=
  match channel.waiting with
  | msg :: rest => { channel with waiting := rest, granted := channel.granted ++ [msg] }
  | [] => { channel with permits := channel.permits + 1 }

def recv (channel : Mpsc α) : Option (α × Mpsc α) :=
  match channel.queue with
  | msg :: rest => some (msg, { channel with queue := rest }.release)
  | [] => none

/-- The messages that tasks still have to put in. -/
def outstanding (channel : Mpsc α) : List α := channel.spawned ++ channel.waiting ++ channel.granted

/-- The messages that wait in the channel or with its tasks. -/
def held (channel : Mpsc α) : List α := channel.queue ++ channel.outstanding

section Moves

variable {channel next : Mpsc α} {msg : α} {index : Nat}

theorem room_of_trySend (sent : channel.trySend msg = some next) : 0 < channel.permits := by
  unfold trySend at sent
  split at sent
  · assumption
  · cases sent

theorem full_of_trySend (refused : channel.trySend msg = none) : ¬ 0 < channel.permits := by
  unfold trySend at refused
  split at refused
  · cases refused
  · assumption

theorem sendOrSpawn_cases (channel : Mpsc α) (msg : α) :
    0 < channel.permits ∧ (channel.sendOrSpawn msg).queue = channel.queue ++ [msg] ∧
        (channel.sendOrSpawn msg).outstanding = channel.outstanding ∨
      channel.permits = 0 ∧ (channel.sendOrSpawn msg).queue = channel.queue ∧
        ((channel.sendOrSpawn msg).outstanding).Perm (msg :: channel.outstanding) := by
  unfold sendOrSpawn trySend
  split
  · rename_i room
    exact .inl ⟨room, rfl, rfl⟩
  · rename_i full
    refine .inr ⟨Nat.eq_zero_of_not_pos full, rfl, ?_⟩
    simp only [Option.getD_none, spawn, outstanding, List.append_assoc]
    exact List.perm_middle

theorem perm_eraseIdx {items : List α} (found : items[index]? = some msg) :
    items.Perm (msg :: items.eraseIdx index) := by
  obtain ⟨bound, same⟩ := List.getElem?_eq_some_iff.mp found
  have split := List.getElem_cons_eraseIdx_perm bound
  rw [same] at split
  exact split.symm

theorem poll_cases (polled : channel.poll index = some next) : ∃ msg, channel.spawned[index]? = some msg ∧
    (0 < channel.permits ∧ next.queue = channel.queue ++ [msg] ∧
        channel.outstanding.Perm (msg :: next.outstanding) ∨
      channel.permits = 0 ∧ next.queue = channel.queue ∧ channel.outstanding.Perm next.outstanding) := by
  obtain ⟨msg, found, same⟩ := Option.map_eq_some_iff.mp polled
  have leaves := perm_eraseIdx found
  refine ⟨msg, found, ?_⟩
  subst same
  by_cases room : 0 < channel.permits
  · refine .inl ⟨room, ?_⟩
    simp only [trySend, if_pos room, Option.getD_some, true_and]
    exact (leaves.append_right _).append_right _
  · refine .inr ⟨Nat.eq_zero_of_not_pos room, ?_⟩
    simp only [trySend, if_neg room, Option.getD_none, true_and]
    have middle : (msg :: (channel.spawned.eraseIdx index ++ channel.waiting)).Perm
        (channel.spawned.eraseIdx index ++ msg :: channel.waiting) := List.perm_middle.symm
    have moved := (leaves.append_right channel.waiting).trans middle
    refine List.Perm.append_right channel.granted (moved.trans (List.Perm.append_left _ ?_))
    exact (List.perm_append_singleton msg channel.waiting).symm

theorem resume_cases (resumed : channel.resume index = some next) : ∃ msg, channel.granted[index]? = some msg ∧
    next.queue = channel.queue ++ [msg] ∧ channel.outstanding.Perm (msg :: next.outstanding) := by
  obtain ⟨msg, found, same⟩ := Option.map_eq_some_iff.mp resumed
  subst same
  refine ⟨msg, found, rfl, ?_⟩
  exact ((perm_eraseIdx found).append_left _).trans List.perm_middle

theorem recv_cases (received : channel.recv = some (msg, next)) :
    channel.queue = msg :: next.queue ∧ channel.outstanding.Perm next.outstanding := by
  unfold recv at received
  split at received
  · rename_i head rest queued
    cases received
    unfold release
    dsimp only
    split
    · rename_i first others line
      refine ⟨queued, ?_⟩
      simp only [outstanding, line, List.append_assoc]
      refine List.Perm.append_left _ ?_
      rw [← List.append_assoc, List.cons_append]
      exact (List.perm_append_singleton first _).symm
    · exact ⟨queued, .refl _⟩
  · cases received

theorem held_trySend (sent : channel.trySend msg = some next) : next.held.Perm (msg :: channel.held) := by
  unfold trySend at sent
  split at sent
  · cases sent
    simp only [held, List.append_assoc, List.singleton_append]
    exact List.perm_middle
  · cases sent

theorem held_sendOrSpawn (channel : Mpsc α) (msg : α) : (channel.sendOrSpawn msg).held.Perm (msg :: channel.held) := by
  rcases channel.sendOrSpawn_cases msg with ⟨_, queue, tasks⟩ | ⟨_, queue, tasks⟩
  · rw [held, queue, tasks, List.append_assoc, List.singleton_append]
    exact List.perm_middle
  · rw [held, queue]
    exact (tasks.append_left _).trans List.perm_middle

theorem held_poll (polled : channel.poll index = some next) : next.held.Perm channel.held := by
  obtain ⟨msg, _, ⟨_, queue, tasks⟩ | ⟨_, queue, tasks⟩⟩ := poll_cases polled
  · rw [held, queue, List.append_assoc, List.singleton_append]
    exact tasks.symm.append_left _
  · rw [held, queue]
    exact tasks.symm.append_left _

theorem held_resume (resumed : channel.resume index = some next) : next.held.Perm channel.held := by
  obtain ⟨msg, _, queue, tasks⟩ := resume_cases resumed
  rw [held, queue, List.append_assoc, List.singleton_append]
  exact tasks.symm.append_left _

theorem held_recv (received : channel.recv = some (msg, next)) : channel.held.Perm (msg :: next.held) := by
  obtain ⟨queue, tasks⟩ := recv_cases received
  rw [held, queue]
  exact (tasks.append_left _).cons msg

end Moves

end Mpsc

end Collections
