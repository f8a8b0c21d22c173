import Veloce.Ha.Descent
import Veloce.Lifecycle.Filing
import Veloce.Lifecycle.Service

/-! Dependents and the accounting store. -/

namespace Veloce

open Collections

/-- A row with the first status decides a dependency, and not as the second one does. -/
def JobStatus.Misleads (seen final : JobStatus) : Prop :=
  seen.terminal = true ∧ ¬ (seen = .completed 0 ↔ final = .completed 0)

instance (seen final : JobStatus) : Decidable (seen.Misleads final) := inferInstanceAs (Decidable (_ ∧ _))

def Landed (rows : List Entry) (jobId : JobId) : Prop := ∃ entry ∈ rows, entry.final = true ∧ entry.usage.jobId = jobId

instance (rows : List Entry) (jobId : JobId) : Decidable (Landed rows jobId) :=
  inferInstanceAs (Decidable (∃ entry ∈ rows, _))

/-- The row does not contradict how its job ended; of a job that has not ended it tells no
outcome. -/
def Service.Truthful (service : Service) (log : Log) (usage : JobUsage) : Prop :=
  match service.leader.ctx.finalStatus usage.jobId with
  | some final => ¬ (service.store.readStatus log usage).Misleads final
  | none => (service.store.readStatus log usage).terminal = false

instance (service : Service) (log : Log) (usage : JobUsage) : Decidable (service.Truthful log usage) :=
  match ended : service.leader.ctx.finalStatus usage.jobId with
  | some final => decidable_of_iff (¬ (service.store.readStatus log usage).Misleads final)
      (by rw [Service.Truthful, ended])
  | none => decidable_of_iff ((service.store.readStatus log usage).terminal = false)
      (by rw [Service.Truthful, ended])

/-- The row that an event adds to a log. -/
def ServiceEvent.writes (service : Service) : ServiceEvent → Option (Log × Entry)
  | .recordJob index up writable =>
    service.tasks[index]?.bind fun entry =>
      if up then some (.backend, entry) else if writable then some (service.store.fileLog, entry) else none
  | .retry up => if up then service.store.retrying.head?.map fun entry => (.backend, entry) else none
  | _ => none

/-- Submitted ids are new, and heartbeats find no job overdue. -/
def ServiceEvent.Regular (service : Service) : ServiceEvent → Prop
  | .act (.submit submission _) => submission.job.id ∉ service.leader.history.used
  | .act event => event.ReapsNone service.leader
  | _ => True

/-- A report that is written after the final record of its job does not contradict it. -/
def ServiceEvent.WritesInOrder (service : Service) (event : ServiceEvent) : Prop :=
  ∀ written ∈ event.writes service, written.2.final = false →
    Landed (service.store.log written.1) written.2.usage.jobId → service.Truthful written.1 written.2.usage

/-- A lookup finds the final record of the job, or no report that contradicts it. -/
def ServiceEvent.LooksInOrder (service : Service) : ServiceEvent → Prop
  | .lookUp _ parentId up readable => ∀ log ∈ service.store.answering up readable,
    Landed (service.store.log log) parentId ∨
      ∀ entry ∈ lastRow (service.store.log log) parentId, service.Truthful log entry.usage
  | _ => True

instance (service : Service) : (event : ServiceEvent) → Decidable (event.Regular service)
  | .act (.submit submission _) => inferInstanceAs (Decidable (submission.job.id ∉ service.leader.history.used))
  | .act (.reconcile order workerId active now) =>
    Event.decidableReapsNone service.leader (.reconcile order workerId active now)
  | .act (.register ..) | .act (.endWriter ..) | .act (.disconnect ..) | .act (.schedule _) | .act (.preempt _) | .act (.jobStarted _)
  | .act (.jobDone ..) | .act (.mergeDone _) | .act (.finishDone ..) | .act (.jobError ..) | .act (.jobKilled ..)
  | .act (.cancel ..) | .act (.checkTimeouts ..) | .act (.prune ..) | .reportJobUsage .. | .recordJob .. | .drain
  | .retry _ | .rebuffer | .beginPass | .lookUp .. | .endPass .. => isTrue trivial

instance (service : Service) (event : ServiceEvent) : Decidable (event.WritesInOrder service) :=
  inferInstanceAs (Decidable (∀ written ∈ event.writes service, _ → _ → _))

instance (service : Service) : (event : ServiceEvent) → Decidable (event.LooksInOrder service)
  | .lookUp _ parentId up readable => inferInstanceAs (Decidable (∀ log ∈ service.store.answering up readable,
      Landed (service.store.log log) parentId ∨
        ∀ entry ∈ lastRow (service.store.log log) parentId, service.Truthful log entry.usage))
  | .act _ | .reportJobUsage .. | .recordJob .. | .drain | .retry _ | .rebuffer | .beginPass | .endPass .. =>
    isTrue trivial

def InOrder (service : Service) (event : ServiceEvent) : Prop :=
  event.Regular service ∧ event.WritesInOrder service ∧ event.LooksInOrder service

instance (service : Service) (event : ServiceEvent) : Decidable (InOrder service event) :=
  inferInstanceAs (Decidable (_ ∧ _ ∧ _))

def InOrderStep (service : Service) (event : ServiceEvent) (next : Service) : Prop :=
  InOrder service event ∧ service.apply event = some next

/-- The invariant of a service. A log that has the final record of a job answers with its
outcome, and so does the cache of every pass. -/
structure Judged (service : Service) : Prop where
  filed : Filed service.leader.history.used service.leader.ctx
  entries : ∀ entry, entry ∈ service.tasks ∨ entry ∈ service.store.entries → entry.final = true →
    entry.usage ∈ service.leader.ctx.recorded
  landed : ∀ log jobId entry, Landed (service.store.log log) jobId →
    lastRow (service.store.log log) jobId = some entry →
    ∀ final, service.leader.ctx.finalStatus jobId = some final →
      ¬ (service.store.readStatus log entry.usage).Misleads final
  looked : ∀ pass ∈ service.passes, ∀ parentId status, pass.dbCache.get? parentId = some status →
    status.terminal = true →
    ∃ final, service.leader.ctx.finalStatus parentId = some final ∧ ¬ status.Misleads final

section Steps

variable {service next : Service} {event : ServiceEvent}

variable {store : AccountingStore}

private theorem mem_entries_of_log {log : Log} {entry : Entry} (member : entry ∈ store.log log) :
    entry ∈ store.entries := by
  cases log <;>
  · simp only [AccountingStore.log] at member
    simp only [AccountingStore.entries, List.mem_append]
    tauto

/-- The final record of a job comes back with the outcome that was filed. -/
private theorem readStatus_final {log : Log} {job : JobInfo} (ended : job.status.terminal = true) :
    ¬ (store.readStatus log (jobToUsage job)).Misleads job.status := by
  rintro ⟨_, differs⟩
  refine differs ?_
  unfold AccountingStore.readStatus
  split
  · exact parseJobStatus_column ended
  · rfl

theorem Judged.moves (valid : Judged service) {leader : Leader} {tasks : List Entry} {more : List JobUsage}
    (filed : Filed leader.history.used leader.ctx)
    (grows : leader.ctx.recorded = service.leader.ctx.recorded ++ more)
    (new : ∀ entry ∈ tasks, entry.final = true → entry ∈ service.tasks ∨ entry.usage ∈ leader.ctx.recorded) :
    Judged { service with leader := leader, tasks := tasks } where
  filed := filed
  entries entry member final := by
    have old (before : entry ∈ service.tasks ∨ entry ∈ service.store.entries) :
        entry.usage ∈ leader.ctx.recorded := by
      rw [grows]
      exact List.mem_append_left _ (valid.entries entry before final)
    rcases member with task | stored
    · exact (new entry task final).elim (fun before => old (.inl before)) id
    · exact old (.inr stored)
  landed log jobId entry landed last final ended := by
    -- The final record of the job is stored, so it was filed before.
    obtain ⟨record, stored, isFinal, about⟩ := landed
    have before := valid.filed.finalStatus_eq (valid.entries record (.inr (mem_entries_of_log stored)) isFinal)
    rw [about] at before
    cases (finalStatus_grows grows before).symm.trans ended
    exact valid.landed log jobId entry ⟨record, stored, isFinal, about⟩ last _ before
  looked pass member parentId status cached decided := by
    obtain ⟨final, ended, agrees⟩ := valid.looked pass member parentId status cached decided
    exact ⟨final, finalStatus_grows grows ended, agrees⟩

private theorem act_filed {event : Event} {leader : Leader} (filed : Filed service.leader.history.used service.leader.ctx)
    (regular : (ServiceEvent.act event).Regular service) (applied : service.leader.apply event = some leader) :
    Filed leader.history.used leader.ctx ∧ ∃ more, leader.ctx.recorded = service.leader.ctx.recorded ++ more := by
  by_cases submits : ∃ submission nextJobId, event = .submit submission nextJobId
  · obtain ⟨submission, nextJobId, same⟩ := submits
    subst same
    cases applied
    exact ⟨filed.submit submission nextJobId regular, [], (List.append_nil _).symm⟩
  · have other : ∀ submission nextJobId, event ≠ .submit submission nextJobId :=
      fun submission nextJobId same => submits ⟨submission, nextJobId, same⟩
    have idle : event.ReapsNone service.leader := by
      cases event with
      | submit submission nextJobId => exact absurd rfl (other submission nextJobId)
      | _ => exact regular
    have used : leader.history.used = service.leader.history.used := by
      rw [apply_used applied]
      cases event with
      | submit submission nextJobId => exact absurd rfl (other submission nextJobId)
      | _ => rfl
    have closing : Closing False service.leader.ctx leader.ctx := apply_closing False.elim idle applied other
    exact ⟨used ▸ closing.filed filed, closing.grows⟩

theorem Judged.act {event : Event} (valid : Judged service) (regular : (ServiceEvent.act event).Regular service)
    (taken : service.act event = some next) : Judged next := by
  obtain ⟨leader, applied, same⟩ := Option.map_eq_some_iff.mp taken
  subst same
  obtain ⟨filed, more, grows⟩ := act_filed valid.filed regular applied
  refine valid.moves filed grows fun entry member _ => ?_
  rcases List.mem_append.mp member with old | new
  · exact .inl old
  · obtain ⟨usage, filed, same⟩ := List.mem_map.mp new
    subst same
    exact .inr (List.mem_of_mem_drop filed)

/-- A step of the store that writes in order. -/
theorem Judged.writes (valid : Judged service) {tasks : List Entry}
    {written : Option (Log × Entry)} (writes : Writes service.store store written (service.tasks ++ service.store.entries))
    (fewer : ∀ entry ∈ tasks, entry ∈ service.tasks)
    (ordered : ∀ row ∈ written, row.2.final = false → Landed (service.store.log row.1) row.2.usage.jobId →
      service.Truthful row.1 row.2.usage)
    (known : ∀ row ∈ written, row.2.final = true → row.2.usage ∈ service.leader.ctx.recorded) :
    Judged { service with store := store, tasks := tasks } := by
  have sameRead (log : Log) (usage : JobUsage) : store.readStatus log usage = service.store.readStatus log usage := by
    unfold AccountingStore.readStatus
    rw [writes.backend]
  refine ⟨valid.filed, ?_, ?_, valid.looked⟩
  · intro entry member final
    refine valid.entries entry ?_ final
    rcases member with task | stored
    · exact .inl (fewer entry task)
    · exact List.mem_append.mp (writes.entries entry stored)
  · intro log jobId entry landed last final ended
    rw [sameRead]
    dsimp only at landed last
    rw [writes.log log] at landed last
    have unchanged (none : written.toList.filter (·.1 = log) = []) :
        ¬ (service.store.readStatus log entry.usage).Misleads final := by
      rw [none, List.map_nil, List.append_nil] at landed last
      exact valid.landed log jobId entry landed last final ended
    cases written with
    | none => exact unchanged rfl
    | some row =>
      obtain ⟨target, added⟩ := row
      by_cases own : target = log
      · subst own
        have row : ((some (target, added)).toList.filter (·.1 = target)).map Prod.snd = [added] := by simp
        rw [row] at landed last
        rw [lastRow_append] at last
        obtain ⟨record, stored, isFinal, about⟩ := landed
        split at last
        · rename_i same
          cases last
          cases kind : entry.final with
          | true =>
            -- The row is the final record itself.
            have member := known _ rfl kind
            obtain ⟨job, usage, terminal⟩ := valid.filed.final entry.usage member
            have filed := valid.filed.finalStatus_eq member
            rw [same] at filed
            cases filed.symm.trans ended
            rw [usage]
            exact readStatus_final terminal
          | false =>
            have earlier : record ∈ service.store.log target := by
              refine (List.mem_append.mp stored).resolve_right fun new => ?_
              rw [List.mem_singleton.mp new, kind] at isFinal
              cases isFinal
            have truthful := ordered _ rfl kind ⟨record, earlier, isFinal, about.trans same.symm⟩
            rw [Service.Truthful, same, ended] at truthful
            exact truthful
        · rename_i different
          refine valid.landed target jobId entry ⟨record, ?_, isFinal, about⟩ last final ended
          refine (List.mem_append.mp stored).resolve_right fun new => ?_
          exact different (List.mem_singleton.mp new ▸ about)
      · refine unchanged ?_
        simp [own]

/-- What a lookup in order notes. -/
private theorem Judged.looksUp (valid : Judged service) {index : Nat} {parentId : JobId} {up readable : Bool}
    {pass : PassLookup}
    (found : service.passes[index]? = some pass)
    (ordered : (ServiceEvent.lookUp index parentId up readable).LooksInOrder service) :
    Judged { service with
      passes := service.passes.set index (pass.note parentId (service.store.lookUp up readable parentId)) } := by
  refine ⟨valid.filed, valid.entries, valid.landed, fun other member jobId status cached decided => ?_⟩
  rcases List.mem_or_eq_of_mem_set member with old | same
  · exact valid.looked other old jobId status cached decided
  subst same
  have before := valid.looked pass (List.mem_of_getElem? found) jobId status
  unfold PassLookup.note at cached
  cases answer : service.store.lookUp up readable parentId with
  | none =>
    rw [answer] at cached
    exact before cached decided
  | some seen =>
    rw [answer] at cached
    simp only [HashMap.get?_insert] at cached
    split at cached
    · rename_i same
      cases cached
      subst same
      rw [AccountingStore.lookUp_eq] at answer
      obtain ⟨log, answers, row⟩ := Option.bind_eq_some_iff.mp answer
      obtain ⟨entry, last, read⟩ := Option.map_eq_some_iff.mp row
      subst read
      rcases ordered log answers with landed | clear
      · obtain ⟨record, stored, isFinal, about⟩ := landed
        have filed := valid.filed.finalStatus_eq (valid.entries record (.inr (mem_entries_of_log stored)) isFinal)
        rw [about] at filed
        exact ⟨_, filed, valid.landed log jobId entry ⟨record, stored, isFinal, about⟩ last _ filed⟩
      · have truthful := clear entry last
        rw [Service.Truthful, lastRow_jobId last] at truthful
        cases ended : service.leader.ctx.finalStatus jobId with
        | none =>
          rw [ended] at truthful
          dsimp only at truthful
          rw [decided] at truthful
          cases truthful
        | some final =>
          rw [ended] at truthful
          exact ⟨final, rfl, truthful⟩
    · exact before cached decided

theorem Judged.passes (valid : Judged service) {passes : List PassLookup}
    (fewer : ∀ pass ∈ passes, pass ∈ service.passes ∨ pass.dbCache = ∅) : Judged { service with passes := passes } where
  filed := valid.filed
  entries := valid.entries
  landed := valid.landed
  looked pass member parentId status cached decided := by
    rcases fewer pass member with old | new
    · exact valid.looked pass old parentId status cached decided
    · rw [new] at cached
      cases cached

private theorem Judged.reportJobUsage (valid : Judged service) {workerId : WorkerId} {usage : JobUsage}
    (taken : service.apply (.reportJobUsage workerId usage) = some next) : Judged next := by
  cases taken
  have closing := closing_reportJobUsage service.leader.ctx workerId usage
  obtain ⟨more, grows⟩ := closing.grows
  refine valid.moves (closing.filed valid.filed) grows fun entry member final => ?_
  rcases List.mem_append.mp member with old | new
  · exact .inl old
  · rw [List.mem_singleton.mp new] at final
    cases final

private theorem Judged.recordJob (valid : Judged service) {index : Nat} {up writable : Bool}
    (ordered : (ServiceEvent.recordJob index up writable).WritesInOrder service)
    (taken : service.apply (.recordJob index up writable) = some next) : Judged next := by
  obtain ⟨entry, found, same⟩ := Option.map_eq_some_iff.mp taken
  subst same
  have waiting := List.mem_of_getElem? found
  have written := recordJob_writes service.store entry up writable
  refine valid.writes ⟨written.backend, written.log, fun other member => ?_⟩
    (fun _ member => List.mem_of_mem_eraseIdx member) ?_ ?_
  · rcases List.mem_cons.mp (written.entries other member) with same | stored
    · exact List.mem_append_left _ (same ▸ waiting)
    · exact List.mem_append_right _ stored
  · intro row member
    refine ordered row ?_
    rw [ServiceEvent.writes, found]
    exact member
  · intro row member final
    refine valid.entries row.2 (.inl ?_) final
    split at member
    · cases member
      exact waiting
    · split at member
      · cases member
        exact waiting
      · cases member

private theorem Judged.stores (valid : Judged service)
    (written : Writes service.store store none service.store.entries) : Judged { service with store := store } :=
  valid.writes ⟨written.backend, written.log, fun entry member => List.mem_append_right _ (written.entries entry member)⟩
    (fun _ => id) (fun _ member => by cases member) (fun _ member => by cases member)

private theorem Judged.retry (valid : Judged service) {up : Bool}
    (ordered : (ServiceEvent.retry up).WritesInOrder service) (taken : service.apply (.retry up) = some next) :
    Judged next := by
  obtain ⟨store, retried, same⟩ := Option.map_eq_some_iff.mp taken
  subst same
  have written := retry_writes retried
  refine valid.writes ⟨written.backend, written.log, fun entry member =>
    List.mem_append_right _ (written.entries entry member)⟩ (fun _ => id) ordered fun row member final => ?_
  refine valid.entries row.2 (.inr ?_) final
  split at member
  · obtain ⟨entry, first, same⟩ := Option.map_eq_some_iff.mp member
    subst same
    have waiting := List.mem_of_mem_head? first
    simp only [AccountingStore.entries, List.mem_append]
    exact .inl (.inr waiting)
  · cases member

private theorem Judged.beginPass (valid : Judged service) (taken : service.apply .beginPass = some next) :
    Judged next := by
  simp only [Service.apply] at taken
  split at taken
  · cases taken
    refine valid.passes fun pass member => ?_
    rcases List.mem_append.mp member with old | new
    · exact .inl old
    · rw [List.mem_singleton.mp new]
      exact .inr rfl
  · cases taken
    exact valid

private theorem Judged.endPass (valid : Judged service) {index : Nat} {input : PassInput}
    (taken : service.apply (.endPass index input) = some next) : Judged next := by
  obtain ⟨pass, found, ran⟩ := Option.bind_eq_some_iff.mp taken
  have fewer : Judged { service with passes := service.passes.eraseIdx index } :=
    valid.passes fun _ member => .inl (List.mem_of_mem_eraseIdx member)
  split at ran
  · split at ran
    · refine fewer.act ?_ ran
      exact trivial
    · cases ran
      exact fewer
  · cases ran

theorem Judged.apply (valid : Judged service) (ordered : InOrder service event)
    (taken : service.apply event = some next) : Judged next := by
  obtain ⟨regular, writes, looks⟩ := ordered
  cases event with
  | act event =>
    cases event with
    | schedule input => cases taken
    | _ => exact valid.act regular taken
  | reportJobUsage workerId usage => exact valid.reportJobUsage taken
  | recordJob index up writable => exact valid.recordJob writes taken
  | drain =>
    obtain ⟨store, drained, same⟩ := Option.map_eq_some_iff.mp taken
    subst same
    exact valid.stores (drain_writes drained)
  | retry up => exact valid.retry writes taken
  | rebuffer =>
    obtain ⟨store, rebuffered, same⟩ := Option.map_eq_some_iff.mp taken
    subst same
    exact valid.stores (rebuffer_writes rebuffered)
  | beginPass => exact valid.beginPass taken
  | lookUp index parentId up readable =>
    obtain ⟨pass, found, noted⟩ := Option.bind_eq_some_iff.mp taken
    split at noted
    · cases noted
      exact valid.looksUp found looks
    · cases noted
  | endPass index input => exact valid.endPass taken

end Steps

structure Service.Fresh (service : Service) : Prop where
  leader : service.leader.Fresh
  rows : service.store.entries = []
  tasks : service.tasks = []
  passes : service.passes = []

private theorem Service.Fresh.judged {service : Service} (fresh : service.Fresh) : Judged service := by
  have jobs (jobId : JobId) (job : JobInfo) : service.leader.ctx.state.jobs.get? jobId ≠ some job := by
    rw [fresh.leader.jobs]
    exact fun found => by cases found
  have recorded : service.leader.ctx.recorded = [] := fresh.leader.counters.2.2
  refine ⟨⟨?_, ?_, ?_, ?_, ?_, ?_⟩, ?_, ?_, ?_⟩
  · exact fun jobId job found => absurd found (jobs jobId job)
  · exact fun jobId job found => absurd found (jobs jobId job)
  · exact fun jobId job found => absurd found (jobs jobId job)
  · rw [recorded]
    exact List.nodup_nil
  · intro usage member
    rw [recorded] at member
    cases member
  · intro usage member
    rw [recorded] at member
    cases member
  · intro entry member
    rw [fresh.tasks, fresh.rows] at member
    exact member.elim List.not_mem_nil.elim List.not_mem_nil.elim
  · rintro log jobId entry ⟨record, stored, _⟩
    have member := mem_entries_of_log stored
    rw [fresh.rows] at member
    cases member
  · intro pass member
    rw [fresh.passes] at member
    cases member

private theorem judged_of_reach {service : Service} (reached : Reach Service.Fresh InOrderStep service) : Judged service :=
  reached.invariant Judged (fun _ => Service.Fresh.judged) fun _ _ _ valid taken => valid.apply taken.1 taken.2

/-- A job that a pass starts had all its requirements satisfied by the pass's cache. -/
private theorem schedule_ready {input : PassInput} {state final : GlobalState} {jobId : JobId} {job job' : JobInfo}
    (unfinished : ∀ other record, state.jobs.get? other = some record → record.status.terminal = false)
    (ran : scheduleJobs input state = some final) (found : state.jobs.get? jobId = some job)
    (pending : job.status = .pending) (found' : final.jobs.get? jobId = some job') (running : job'.status = .running)
    {condition : DependencyCondition} {parentId : JobId} (requires : job.Requires condition parentId) :
    ∃ status, input.dbCache.get? parentId = some status ∧ condition.evaluate parentId status = .ok true := by
  obtain ⟨pass, turns, same⟩ := Option.map_eq_some_iff.mp ran
  subst same
  let Inv (_ : List JobId) (pass : PassState) : Prop :=
    Stems state.jobs pass.state.jobs ∧ (∀ other, state.alive other → pass.state.alive other) ∧
      ∀ record, pass.state.jobs.get? jobId = some record → record.status = .running →
        ∃ status, input.dbCache.get? parentId = some status ∧ condition.evaluate parentId status = .ok true
  have ends : Inv [] pass := by
    refine passTurns_invariant Inv ?_ _ ⟨.refl _, fun _ => id, fun record stored runs => ?_⟩ turns
    · rintro turnOf rest pass next ⟨stems, lives, ready⟩ taken
      have outcome := passTurn_outcome taken
      refine ⟨stems.trans (turn_stems outcome), fun other alive => (turn_move outcome other).alive (lives other alive),
        fun record stored runs => ?_⟩
      have reworded {before after : GlobalState} (same : Reworded before after) {record : JobInfo}
          (stored : after.jobs.get? jobId = some record) (runs : record.status = .running) :
          ∃ old, before.jobs.get? jobId = some old ∧ old.status = .running := by
        obtain ⟨old, kept, equal⟩ := same.found_back stored
        have status := congrArg JobInfo.status equal
        exact ⟨old, kept, status.symm.trans runs⟩
      cases outcome with
      | skip _ _ => exact ready record stored runs
      | wait _ _ _ worded _ =>
        obtain ⟨old, kept, runs⟩ := reworded worded stored runs
        exact ready old kept runs
      | @start turnJob placement cleared started turnFound _ chosen worded placed starts =>
        by_cases own : jobId = turnOf
        · subst own
          obtain ⟨origin, kept, follows⟩ := stems jobId turnJob turnFound
          cases found.symm.trans kept
          have requires' : turnJob.Requires condition parentId := by
            exact (follows.keeps (fun job => job.Requires condition parentId) fun _ => rfl).mpr requires
          refine evaluateParent_cached (fun parent listed => ?_)
            (areDependenciesSatisfied_ok (turnPlacement_satisfied turnFound chosen) requires')
          obtain ⟨before, table, _⟩ := stems parentId parent listed
          obtain ⟨same, listed', waits⟩ := lives parentId ⟨before, table, unfinished parentId before table⟩
          cases listed.symm.trans listed'
          exact waits
        · rw [startJob_others starts own] at stored
          split at stored
          · obtain ⟨old, _, evicted⟩ := Option.map_eq_some_iff.mp stored
            exact absurd (evicted ▸ runs) (evicted_not_running old)
          · obtain ⟨old, kept, runs⟩ := reworded worded stored runs
            exact ready old kept runs
    · cases found.symm.trans stored
      rw [pending] at runs
      cases runs
  exact ends.2.2 job' found' running

private theorem service_grows {service next : Service} {event : ServiceEvent} (valid : Judged service)
    (regular : event.Regular service) (taken : service.apply event = some next) :
    ∃ more, next.leader.ctx.recorded = service.leader.ctx.recorded ++ more := by
  have same : ∃ more, service.leader.ctx.recorded = service.leader.ctx.recorded ++ more :=
    ⟨[], (List.append_nil _).symm⟩
  have acts {event : Event} {before next : Service} (leader : before.leader = service.leader)
      (regular : (ServiceEvent.act event).Regular service) (taken : before.act event = some next) :
      ∃ more, next.leader.ctx.recorded = service.leader.ctx.recorded ++ more := by
    obtain ⟨after, applied, same⟩ := Option.map_eq_some_iff.mp taken
    subst same
    exact (act_filed valid.filed regular (leader ▸ applied)).2
  cases event with
  | act event =>
    cases event with
    | schedule input => cases taken
    | _ => exact acts rfl regular taken
  | reportJobUsage workerId usage =>
    cases taken
    exact (closing_reportJobUsage service.leader.ctx workerId usage).grows
  | recordJob index up writable =>
    obtain ⟨entry, _, equal⟩ := Option.map_eq_some_iff.mp taken
    exact equal ▸ same
  | drain | rebuffer =>
    obtain ⟨store, _, equal⟩ := Option.map_eq_some_iff.mp taken
    exact equal ▸ same
  | retry up =>
    obtain ⟨store, _, equal⟩ := Option.map_eq_some_iff.mp taken
    exact equal ▸ same
  | beginPass =>
    simp only [Service.apply] at taken
    split at taken
    · cases taken
      exact same
    · cases taken
      exact same
  | lookUp index parentId up readable =>
    obtain ⟨pass, _, noted⟩ := Option.bind_eq_some_iff.mp taken
    split at noted
    · cases noted
      exact same
    · cases noted
  | endPass index input =>
    obtain ⟨pass, _, ran⟩ := Option.bind_eq_some_iff.mp taken
    split at ran
    · split at ran
      · refine acts ?_ ?_ ran
        · rfl
        · exact trivial
      · cases ran
        exact same
    · cases ran

private theorem finalStatus_of_reach {service later : Service} {jobId : JobId} {status : JobStatus}
    (reached : Reach Service.Fresh InOrderStep service) (onward : Reach (· = service) InOrderStep later)
    (ended : service.leader.ctx.finalStatus jobId = some status) :
    later.leader.ctx.finalStatus jobId = some status := by
  induction onward with
  | start same => exact same ▸ ended
  | step earlier taken before =>
    have valid := judged_of_reach (reached.append earlier)
    obtain ⟨more, grows⟩ := service_grows valid taken.1.1 taken.2
    exact finalStatus_grows grows before

/-- While rows are written and looked up in order, a pass starts a job with an afterok
dependency only if the parent has ended with exit code zero, and one with an afternotok
dependency only if it has ended otherwise. A job ends once, and so it stays. -/
theorem dependents_judged_on_final_status {service next later : Service} {index : Nat} {input : PassInput}
    (reached : Reach Service.Fresh InOrderStep service) (taken : service.apply (.endPass index input) = some next)
    (onward : Reach (· = next) InOrderStep later) {jobId parentId : JobId} {job job' : JobInfo}
    (found : service.leader.ctx.state.jobs.get? jobId = some job) (pending : job.status = .pending)
    (found' : next.leader.ctx.state.jobs.get? jobId = some job') (running : job'.status = .running) :
    (later.leader.ctx.recorded.map JobUsage.jobId).Nodup ∧
    (job.Requires .afterOk parentId → later.leader.ctx.finalStatus parentId = some (.completed 0)) ∧
    (job.Requires .afterNotOk parentId →
      ∃ status, later.leader.ctx.finalStatus parentId = some status ∧ status ≠ .completed 0) := by
  have valid := judged_of_reach reached
  have ordered : InOrder service (.endPass index input) := ⟨trivial, fun _ written => (by cases written), trivial⟩
  have reachedNext : Reach Service.Fresh InOrderStep next := .step reached ⟨ordered, taken⟩
  have once := (judged_of_reach (reachedNext.append onward)).filed.once
  obtain ⟨more, grows⟩ := service_grows valid ordered.1 taken
  have lasts {status : JobStatus} (ended : service.leader.ctx.finalStatus parentId = some status) :
      later.leader.ctx.finalStatus parentId = some status :=
    finalStatus_of_reach reachedNext onward (finalStatus_grows grows ended)
  obtain ⟨pass, member, ran⟩ := Option.bind_eq_some_iff.mp taken
  split at ran
  · split at ran
    · obtain ⟨leader, applied, same⟩ := Option.map_eq_some_iff.mp ran
      subst same
      obtain ⟨final, scheduled, same⟩ := Option.map_eq_some_iff.mp applied
      subst same
      have ready {condition : DependencyCondition} (requires : job.Requires condition parentId) :=
        schedule_ready valid.filed.unfinished scheduled found pending found' running requires
      have judged := valid.looked pass (List.mem_of_getElem? member) parentId
      refine ⟨once, fun requires => ?_, fun requires => ?_⟩
      · obtain ⟨status, cached, holds⟩ := ready requires
        have zero := evaluate_afterOk holds
        subst zero
        obtain ⟨status, ended, agrees⟩ := judged _ cached rfl
        have success : status = .completed 0 := by
          refine by_contra fun other => agrees ⟨rfl, fun both => other (both.mp rfl)⟩
        exact lasts (success ▸ ended)
      · obtain ⟨status, cached, holds⟩ := ready requires
        obtain ⟨decided, nonzero⟩ := evaluate_afterNotOk holds
        obtain ⟨final, ended, agrees⟩ := judged status cached decided
        refine ⟨final, lasts ended, fun zero => agrees ⟨decided, fun both => nonzero (both.mpr zero)⟩⟩
    · cases ran
      cases found.symm.trans found'
      rw [pending] at running
      cases running
  · cases ran

/-- A worker reports only on what it was sent. -/
def ServiceEvent.Genuine (service : Service) : ServiceEvent → Prop
  | .act event => event.Genuine service.leader
  | .reportJobUsage workerId usage =>
    workerId ∈ service.leader.history.sentTo usage.jobId (service.leader.history.dispatches usage.jobId)
  | _ => True

instance (service : Service) : (event : ServiceEvent) → Decidable (event.Genuine service)
  | .act event => inferInstanceAs (Decidable (event.Genuine service.leader))
  | .reportJobUsage workerId usage => inferInstanceAs (Decidable
      (workerId ∈ service.leader.history.sentTo usage.jobId (service.leader.history.dispatches usage.jobId)))
  | .recordJob .. | .drain | .retry _ | .rebuffer | .beginPass | .lookUp .. | .endPass .. => isTrue trivial

def sampleUsage (jobId : JobId) (status : JobStatus) : JobUsage :=
  jobToUsage { (sampleSubmission jobId .production 2 "sh").job with status := status }

def sampleDependent (jobId parentId : JobId) : Submission where
  job := { (sampleSubmission jobId .production 1 "sh").job with dependencies := some [parentId] }
  pending := rfl
  unassigned := rfl
  unallocated := ⟨rfl, rfl⟩
  unstarted := rfl

def newService : Service := { leader := { ctx := sampleLeader } }

private theorem newService_fresh : newService.Fresh := ⟨⟨rfl, rfl, rfl, rfl, ⟨rfl, rfl, rfl⟩, rfl, rfl⟩, rfl, rfl, rfl⟩

/-- A job runs on two workers and another one waits for it. -/
def parentRuns : List ServiceEvent :=
  [.act (.register (sampleRegistration "w1") 100), .act (.register (sampleRegistration "w2") 100),
    .act (.submit (sampleSubmission 1 .production 2 "sh") 2), .act (.submit (sampleDependent 2 1) 3),
    .beginPass, .endPass 0 { now := 100 }]

/-- Both workers report success, and the last pass finds the record of the finished job. -/
def parentSucceeds : List ServiceEvent :=
  [.reportJobUsage "w1" (sampleUsage 1 (.completed 0)), .act (.jobDone ⟨"w1", 1, 1⟩ 0), .recordJob 0 true true,
    .reportJobUsage "w2" (sampleUsage 1 (.completed 0)), .act (.jobDone ⟨"w2", 1, 1⟩ 0), .act (.mergeDone 0),
    .act (.finishDone 0 none none 200), .recordJob 0 true true, .recordJob 0 true true, .beginPass,
    .lookUp 0 1 true true]

theorem dependents_judged_on_final_status_success : ∃ service next job job',
    Reach Service.Fresh InOrderStep service ∧ service.apply (.endPass 0 { now := 300 }) = some next ∧
    service.leader.ctx.state.jobs.get? 2 = some job ∧ job.status = .pending ∧ job.Requires .afterOk 1 ∧
    next.leader.ctx.state.jobs.get? 2 = some job' ∧ job'.status = .running ∧
    next.leader.ctx.finalStatus 1 = some (.completed 0) := by
  obtain ⟨service, ran⟩ : ∃ service, runLabels Service.apply (parentRuns ++ parentSucceeds) newService = some service :=
    Option.isSome_iff_exists.mp (by decide +kernel)
  have allowed : AllowedRun InOrder Service.apply (parentRuns ++ parentSucceeds) newService := by decide +kernel
  have waits : (runLabels Service.apply (parentRuns ++ parentSucceeds) newService).bind (fun service =>
      (service.leader.ctx.state.jobs.get? 2).map fun job => (job.status, job.dependencies)) =
        some (.pending, some [1]) := by decide +kernel
  have starts : (runLabels Service.apply (parentRuns ++ parentSucceeds) newService).bind (fun service =>
      (service.apply (.endPass 0 { now := 300 })).bind fun next =>
        (next.leader.ctx.state.jobs.get? 2).map JobInfo.status) = some .running := by decide +kernel
  rw [ran, Option.bind_some] at waits starts
  obtain ⟨job, found, same⟩ := Option.map_eq_some_iff.mp waits
  obtain ⟨pending, dependencies⟩ := Prod.mk.inj same
  obtain ⟨next, taken, runs⟩ := Option.bind_eq_some_iff.mp starts
  obtain ⟨job', found', running⟩ := Option.map_eq_some_iff.mp runs
  have reached : Reach Service.Fresh InOrderStep service := runLabels_reach (.start newService_fresh) allowed ran
  have requires : job.Requires .afterOk 1 := .inl ⟨rfl, by rw [dependencies]; exact List.mem_cons_self⟩
  exact ⟨service, next, job, job', reached, taken, found, pending, requires, found', running,
    (dependents_judged_on_final_status reached taken (.start rfl) found pending found' running).2.1 requires⟩

/-- One worker has reported success, the other one fails, and the next pass comes before
the record of the failed job is written. -/
def parentFails : List ServiceEvent :=
  [.reportJobUsage "w1" (sampleUsage 1 (.completed 0)), .act (.jobDone ⟨"w1", 1, 1⟩ 0), .recordJob 0 true true,
    .act (.jobError ⟨"w2", 1, 1⟩ "node failure" 200), .beginPass, .lookUp 0 1 true true]

theorem failed_parent_starts_dependent : ∃ service next job job',
    Reach Service.Fresh (fun service event next =>
      (event.Genuine service ∧ event.Regular service) ∧ service.apply event = some next) service ∧
    service.apply (.endPass 0 { now := 300 }) = some next ∧
    service.leader.ctx.state.jobs.get? 2 = some job ∧ job.status = .pending ∧ job.dependencies = some [1] ∧
    job.dependencySpecs = none ∧ next.leader.ctx.state.jobs.get? 2 = some job' ∧ job'.status = .running ∧
    service.leader.ctx.finalStatus 1 = some (.failed "node failure") := by
  obtain ⟨service, ran⟩ : ∃ service, runLabels Service.apply (parentRuns ++ parentFails) newService = some service :=
    Option.isSome_iff_exists.mp (by decide +kernel)
  have allowed : AllowedRun (fun service event => ServiceEvent.Genuine service event ∧ event.Regular service)
      Service.apply (parentRuns ++ parentFails) newService := by decide +kernel
  have waits : (runLabels Service.apply (parentRuns ++ parentFails) newService).bind (fun service =>
      (service.leader.ctx.state.jobs.get? 2).map fun job => (job.status, job.dependencies, job.dependencySpecs)) =
        some (.pending, some [1], none) := by decide +kernel
  have ended : (runLabels Service.apply (parentRuns ++ parentFails) newService).bind (fun service =>
      service.leader.ctx.finalStatus 1) = some (.failed "node failure") := by decide +kernel
  have starts : (runLabels Service.apply (parentRuns ++ parentFails) newService).bind (fun service =>
      (service.apply (.endPass 0 { now := 300 })).bind fun next =>
        (next.leader.ctx.state.jobs.get? 2).map JobInfo.status) = some .running := by decide +kernel
  rw [ran, Option.bind_some] at waits starts ended
  obtain ⟨job, found, same⟩ := Option.map_eq_some_iff.mp waits
  rw [Prod.mk.injEq, Prod.mk.injEq] at same
  obtain ⟨next, taken, runs⟩ := Option.bind_eq_some_iff.mp starts
  obtain ⟨job', found', running⟩ := Option.map_eq_some_iff.mp runs
  exact ⟨service, next, job, job', runLabels_reach (.start newService_fresh) allowed ran, taken, found, same.1,
    same.2.1, same.2.2, found', running, ended⟩

end Veloce
