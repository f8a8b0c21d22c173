import Veloce.Handlers.Usage
import Veloce.Lifecycle.Leader

/-! A leader with the tasks around it that write and read the accounting store. -/

namespace Veloce

open Collections

/-- A leader, its accounting store, the spawned `record_job` tasks that have not run yet,
and the scheduling passes that are reading the store. -/
structure Service where
  leader : Leader
  store : AccountingStore := {}
  tasks : List Entry := []
  passes : List PassLookup := []

inductive ServiceEvent where
  | act (event : Event)
  | reportJobUsage (workerId : WorkerId) (usage : JobUsage)
  | recordJob (index : Nat) (up writable : Bool)
  | drain
  | retry (up : Bool)
  | rebuffer
  | beginPass
  | lookUp (index : Nat) (parentId : JobId) (up readable : Bool)
  | endPass (index : Nat) (input : PassInput)

namespace Service

def act (service : Service) (event : Event) : Option Service :=
  (service.leader.apply event).map fun leader =>
    let filed := leader.ctx.recorded.drop service.leader.ctx.recorded.length
    { service with leader := leader, tasks := service.tasks ++ filed.map fun usage => ⟨usage, true⟩ }

def apply (event : ServiceEvent) (service : Service) : Option Service :=
  match event with
  | .act (.schedule _) => none
  | .act event => service.act event
  | .reportJobUsage workerId usage =>
    let reported := service.leader.ctx.reportJobUsage workerId usage
    some { service with
      leader := service.leader.withCtx reported.1
      tasks := service.tasks ++ [⟨reported.2, false⟩] }
  | .recordJob index up writable =>
    service.tasks[index]?.map fun entry =>
      { service with store := service.store.recordJob entry up writable, tasks := service.tasks.eraseIdx index }
  | .drain => service.store.drain.map fun store => { service with store := store }
  | .retry up => (service.store.retry up).map fun store => { service with store := store }
  | .rebuffer => service.store.rebuffer.map fun store => { service with store := store }
  | .beginPass =>
    if service.leader.ctx.state.role = .leader then
      some { service with passes := service.passes ++ [{ neededIds := service.leader.ctx.state.neededIds }] }
    else some service
  | .lookUp index parentId up readable =>
    service.passes[index]?.bind fun pass =>
      if parentId ∈ pass.neededIds then
        some { service with
          passes := service.passes.set index (pass.note parentId (service.store.lookUp up readable parentId)) }
      else none
  | .endPass index input =>
    service.passes[index]?.bind fun pass =>
      if pass.neededIds.isEmpty then
        let rest := { service with passes := service.passes.eraseIdx index }
        if service.leader.ctx.state.role = .leader then rest.act (.schedule { input with dbCache := pass.dbCache })
        else some rest
      else none

end Service

/-- All records that are in the store or on their way through it. -/
def AccountingStore.entries (store : AccountingStore) : List Entry :=
  store.rows ++ store.fallback ++ store.buffer ++ store.retrying ++ store.failed

/-- At most one row is added, to one of the logs, and no other record appears. -/
structure Writes (store store' : AccountingStore) (written : Option (Log × Entry)) (known : List Entry) : Prop where
  backend : store'.backend = store.backend
  log : ∀ log, store'.log log = store.log log ++ (written.toList.filter (·.1 = log)).map Prod.snd
  entries : ∀ entry ∈ store'.entries, entry ∈ known

section Store

variable {store store' : AccountingStore}

theorem recordJob_writes (store : AccountingStore) (entry : Entry) (up writable : Bool) :
    Writes store (store.recordJob entry up writable)
      (if up then some (.backend, entry) else if writable then some (store.fileLog, entry) else none)
      (entry :: store.entries) := by
  have buffered : ∀ other ∈ (store.pushBuffer entry).entries, other ∈ entry :: store.entries := by
    intro other member
    simp only [AccountingStore.entries, AccountingStore.pushBuffer, List.mem_append, List.mem_singleton] at member
    simp only [AccountingStore.entries, List.mem_cons, List.mem_append]
    split at member
    · tauto
    · have old := @List.mem_of_mem_tail _ other store.buffer
      tauto
  have written (store' : AccountingStore) (log : Log) : ∀ other ∈ (store'.write entry log).entries,
      other ∈ store'.entries ∨ other = entry := by
    intro other member
    cases log <;>
    · simp only [AccountingStore.entries, AccountingStore.write, List.mem_append, List.mem_singleton] at member ⊢
      tauto
  unfold AccountingStore.recordJob
  split
  · refine ⟨rfl, fun log => ?_, fun other member => ?_⟩
    · cases log <;> simp [AccountingStore.write, AccountingStore.log]
    · exact (written store .backend other member).elim (List.mem_cons_of_mem _) fun same => same ▸ List.mem_cons_self
  · split
    · refine ⟨?_, fun log => ?_, fun other member => ?_⟩
      · cases store.fileLog <;> rfl
      · cases store.fileLog <;> cases log <;>
          simp [AccountingStore.write, AccountingStore.log, AccountingStore.pushBuffer]
      · exact (written _ store.fileLog other member).elim (buffered other) fun same => same ▸ List.mem_cons_self
    · refine ⟨rfl, fun log => ?_, buffered⟩
      cases log <;> simp [AccountingStore.log, AccountingStore.pushBuffer]

theorem drain_writes (drained : store.drain = some store') : Writes store store' none store.entries := by
  unfold AccountingStore.drain at drained
  split at drained
  · cases drained
    refine ⟨rfl, fun log => ?_, fun entry member => ?_⟩
    · cases log <;> simp [AccountingStore.log]
    · simp only [AccountingStore.entries, List.mem_append, List.not_mem_nil, or_false] at member ⊢
      tauto
  · cases drained

theorem retry_writes {up : Bool} (retried : store.retry up = some store') :
    Writes store store' (if up then store.retrying.head?.map fun entry => (.backend, entry) else none)
      store.entries := by
  unfold AccountingStore.retry at retried
  cases waiting : store.retrying with
  | nil =>
    rw [waiting] at retried
    cases retried
  | cons entry rest =>
    rw [waiting] at retried
    dsimp only at retried
    split at retried
    · rename_i taken
      cases retried
      refine ⟨rfl, fun log => ?_, fun other member => ?_⟩
      · cases log <;> simp [AccountingStore.log, AccountingStore.write, taken]
      · simp only [AccountingStore.entries, AccountingStore.write, waiting, List.mem_append, List.mem_cons,
          List.not_mem_nil, or_false] at member ⊢
        tauto
    · rename_i refused
      cases retried
      refine ⟨rfl, fun log => ?_, fun other member => ?_⟩
      · cases log <;> simp [AccountingStore.log, refused]
      · simp only [AccountingStore.entries, waiting, List.mem_append, List.mem_cons, List.not_mem_nil,
          or_false] at member ⊢
        tauto

theorem rebuffer_writes (rebuffered : store.rebuffer = some store') : Writes store store' none store.entries := by
  unfold AccountingStore.rebuffer at rebuffered
  split at rebuffered
  · cases rebuffered
    refine ⟨rfl, fun log => ?_, fun entry member => ?_⟩
    · cases log <;> simp [AccountingStore.log]
    · simp only [AccountingStore.entries, List.mem_append, List.not_mem_nil, or_false] at member ⊢
      tauto
  · cases rebuffered

end Store

end Veloce
