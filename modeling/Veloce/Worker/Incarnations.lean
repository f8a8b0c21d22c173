import Veloce.Collections.HashMap
import Veloce.Worker.Recovery

/-! Incarnations of a job on one connection of a worker. Every RunJob starts a task; the tasks of
one job share its entries in the table of kill senders, in the table of process ids and in the
file of persisted jobs. An incarnation is known by its number among all tasks. -/

namespace Veloce

open Collections

/-- How far the task of an incarnation has come: its process has been started and registered, its
record is in the file, its process is over, its record is removed, its sender is removed, and
its process id is removed. -/
inductive TaskPhase where
  | preparing
  | registered
  | waiting
  | exited
  | unrecorded
  | unregistered
  | gone
deriving DecidableEq

def TaskPhase.live : TaskPhase → Bool
  | .preparing | .registered | .waiting => true
  | .exited | .unrecorded | .unregistered | .gone => false

structure JobTask where
  jobId : JobId
  phase : TaskPhase := .preparing

/-- Why a receiver for the kill signal is ready. -/
inductive KillCause where
  | ordered (signal : KillSignal)
  /-- The sender is gone, which is read as a cancellation. -/
  | dropped
deriving DecidableEq

/-- The tables of a connection. `newest` is the last incarnation of each job. -/
structure JobTables where
  tasks : List JobTask := []
  newest : HashMap JobId Nat := ∅
  runningJobs : HashMap JobId Nat := ∅
  runningPids : HashMap JobId Nat := ∅
  records : List (JobId × Nat) := []
  signals : List (Nat × KillCause) := []

inductive TaskEvent where
  | runJob (jobId : JobId)
  /-- TerminateJob or PreemptJob. -/
  | order (jobId : JobId) (signal : KillSignal)
  /-- The job cannot be started, or the log files of its process cannot be created. -/
  | fail (index : Nat)
  | registerPid (index : Nat)
  | persist (index : Nat)
  | exit (index : Nat)
  /-- The process is killed because the receiver is ready. -/
  | kill (index : Nat)
  | unrecord (index : Nat)
  | unregister (index : Nat)
  | untrack (index : Nat)

namespace JobTables

/-- Take the sender of a job out of the table; its receiver learns it. -/
def dropSender (site : JobTables) (jobId : JobId) (cause : KillCause) : JobTables :=
  match site.runningJobs.get? jobId with
  | some holder =>
    { site with runningJobs := site.runningJobs.remove jobId, signals := site.signals ++ [(holder, cause)] }
  | none => site

def advance (site : JobTables) (index : Nat) (before after : TaskPhase) (act : JobId → JobTables → JobTables) :
    Option JobTables :=
  site.tasks[index]?.bind fun task =>
    if task.phase = before then
      some (act task.jobId { site with tasks := site.tasks.set index { task with phase := after } })
    else none

def apply (event : TaskEvent) (site : JobTables) : Option JobTables :=
  match event with
  | .runJob jobId =>
    let index := site.tasks.length
    let replaced := site.dropSender jobId .dropped
    some { replaced with
      tasks := site.tasks ++ [{ jobId := jobId }]
      newest := site.newest.insert jobId index
      runningJobs := replaced.runningJobs.insert jobId index }
  | .order jobId signal => some (site.dropSender jobId (.ordered signal))
  | .fail index =>
    (site.advance index .preparing .unrecorded fun _ site => site).or
      (site.advance index .registered .unrecorded fun _ site => site)
  | .registerPid index => site.advance index .preparing .registered fun jobId site =>
      { site with runningPids := site.runningPids.insert jobId index }
  | .persist index => site.advance index .registered .waiting fun jobId site =>
      { site with records := site.records ++ [(jobId, index)] }
  | .exit index => site.advance index .waiting .exited fun _ site => site
  | .kill index =>
    if ∃ signal ∈ site.signals, signal.1 = index then site.advance index .waiting .exited fun _ site => site else none
  | .unrecord index => site.advance index .exited .unrecorded fun jobId site =>
      { site with records := site.records.filter (·.1 ≠ jobId) }
  | .unregister index => site.advance index .unrecorded .unregistered fun jobId site => site.dropSender jobId .dropped
  | .untrack index => site.advance index .unregistered .gone fun jobId site =>
      { site with runningPids := site.runningPids.remove jobId }

/-- The newest incarnation of a job, while it lives. -/
def Current (site : JobTables) (jobId : JobId) (index : Nat) : Prop :=
  site.newest.get? jobId = some index ∧ ∃ task ∈ site.tasks[index]?, task.phase.live = true

instance (site : JobTables) (jobId : JobId) (index : Nat) : Decidable (site.Current jobId index) :=
  inferInstanceAs (Decidable (_ ∧ ∃ task ∈ _, _))

/-- Another task of the job is its newest incarnation. -/
def Outlived (site : JobTables) (index : Nat) (held : JobId → Nat → Prop) : Prop :=
  ∀ task ∈ site.tasks[index]?, ∀ other ∈ site.newest.get? task.jobId, other ≠ index → site.Current task.jobId other →
    ¬ held task.jobId other

/-- An old task changes an entry of its job only when it is not that of the newest incarnation. -/
def Careful (site : JobTables) : TaskEvent → Prop
  | .registerPid index | .untrack index => site.Outlived index fun jobId other => site.runningPids.get? jobId = some other
  | .unrecord index => site.Outlived index fun jobId other => (jobId, other) ∈ site.records
  | .unregister index => site.Outlived index fun jobId other => site.runningJobs.get? jobId = some other
  | _ => True

/-- The newest incarnation has its kill channel until it gets a signal, its process id and its
record as soon as it has put them in, and no cleanup has dropped its sender. -/
structure Undisturbed (site : JobTables) (jobId : JobId) (index : Nat) (task : JobTask) : Prop where
  killable : (∀ signal, (index, .ordered signal) ∉ site.signals) → site.runningJobs.get? jobId = some index
  unharmed : (index, .dropped) ∉ site.signals
  tracked : task.phase ≠ .preparing → site.runningPids.get? jobId = some index
  recorded : task.phase = .waiting → (jobId, index) ∈ site.records

def Start (site : JobTables) : Prop := site = {}

def CarefulStep (site : JobTables) (event : TaskEvent) (next : JobTables) : Prop :=
  site.Careful event ∧ site.apply event = some next

variable {site next : JobTables} {jobId : JobId} {index : Nat}

/-- The numbers in the tables are those of tasks of the job, and every newest incarnation that
lives is undisturbed. -/
structure Sound (site : JobTables) : Prop where
  newest : ∀ jobId index, site.newest.get? jobId = some index → ∃ task, site.tasks[index]? = some task ∧ task.jobId = jobId
  holders : ∀ jobId index, site.runningJobs.get? jobId = some index →
    ∃ task, site.tasks[index]? = some task ∧ task.jobId = jobId
  numbers : ∀ signal ∈ site.signals, signal.1 < site.tasks.length
  undisturbed : ∀ jobId index task, site.newest.get? jobId = some index → site.tasks[index]? = some task →
    task.phase.live = true → site.Undisturbed jobId index task

theorem Start.sound (start : site.Start) : site.Sound := by
  subst start
  refine ⟨fun _ _ none => ?_, fun _ _ none => ?_, fun _ none => ?_, fun _ _ _ none => ?_⟩
  · cases none
  · cases none
  · cases none
  · cases none

theorem dropSender_cases (site : JobTables) (jobId : JobId) (cause : KillCause) :
    site.runningJobs.get? jobId = none ∧ site.dropSender jobId cause = site ∨
    ∃ holder, site.runningJobs.get? jobId = some holder ∧ site.dropSender jobId cause =
      { site with runningJobs := site.runningJobs.remove jobId, signals := site.signals ++ [(holder, cause)] } := by
  unfold dropSender
  cases found : site.runningJobs.get? jobId with
  | none => exact .inl ⟨rfl, rfl⟩
  | some holder => exact .inr ⟨holder, rfl, rfl⟩

theorem dropSender_tasks (site : JobTables) (jobId : JobId) (cause : KillCause) :
    (site.dropSender jobId cause).tasks = site.tasks ∧ (site.dropSender jobId cause).newest = site.newest ∧
      (site.dropSender jobId cause).runningPids = site.runningPids ∧
      (site.dropSender jobId cause).records = site.records := by
  obtain ⟨_, same⟩ | ⟨holder, _, same⟩ := site.dropSender_cases jobId cause
  · rw [same]
    exact ⟨rfl, rfl, rfl, rfl⟩
  · rw [same]
    exact ⟨rfl, rfl, rfl, rfl⟩

theorem get?_dropSender {cause : KillCause} {other : JobId} :
    (site.dropSender jobId cause).runningJobs.get? other = if other = jobId then none else site.runningJobs.get? other := by
  obtain ⟨none, same⟩ | ⟨holder, _, same⟩ := site.dropSender_cases jobId cause
  · rw [same]
    split
    · rename_i own
      rw [own, none]
    · rfl
  · rw [same, HashMap.get?_remove]

theorem mem_dropSender {cause : KillCause} {signal : Nat × KillCause} :
    signal ∈ (site.dropSender jobId cause).signals ↔
      signal ∈ site.signals ∨ site.runningJobs.get? jobId = some signal.1 ∧ signal.2 = cause := by
  obtain ⟨none, same⟩ | ⟨holder, found, same⟩ := site.dropSender_cases jobId cause
  · rw [same, none]
    simp
  · rw [same, found, List.mem_append, List.mem_singleton, Option.some.injEq, Prod.ext_iff]
    exact or_congr_right (and_congr_left fun _ => eq_comm)

namespace Sound

theorem dropSender (sound : site.Sound) (jobId : JobId) (cause : KillCause) :
    (∀ other index, (site.dropSender jobId cause).runningJobs.get? other = some index →
      ∃ task, site.tasks[index]? = some task ∧ task.jobId = other) ∧
    ∀ signal ∈ (site.dropSender jobId cause).signals, signal.1 < site.tasks.length := by
  refine ⟨fun other index found => ?_, fun signal member => ?_⟩
  · rw [get?_dropSender] at found
    split at found
    · cases found
    · exact sound.holders other index found
  · rcases mem_dropSender.mp member with before | ⟨held, _⟩
    · exact sound.numbers signal before
    · obtain ⟨task, found, _⟩ := sound.holders jobId signal.1 held
      exact (List.getElem?_eq_some_iff.mp found).1

/-- The sender of another job has another holder. -/
theorem holder_ne (sound : site.Sound) {other : JobId} {holder : Nat} (newest : site.newest.get? jobId = some index)
    (held : site.runningJobs.get? other = some holder) (different : jobId ≠ other) : holder ≠ index := by
  rintro rfl
  obtain ⟨task, found, own⟩ := sound.newest jobId holder newest
  obtain ⟨task', found', own'⟩ := sound.holders other holder held
  rw [found, Option.some.injEq] at found'
  exact different (own.symm.trans (found' ▸ own'))

end Sound

theorem Undisturbed.congr {task : JobTask} (valid : site.Undisturbed jobId index task)
    (jobs : next.runningJobs.get? jobId = site.runningJobs.get? jobId)
    (pids : next.runningPids.get? jobId = site.runningPids.get? jobId)
    (records : (jobId, index) ∈ site.records → (jobId, index) ∈ next.records)
    (signals : ∀ cause, (index, cause) ∈ next.signals ↔ (index, cause) ∈ site.signals) :
    next.Undisturbed jobId index task := by
  refine ⟨fun unordered => ?_, fun dropped => ?_, fun begun => ?_, fun waiting => records (valid.recorded waiting)⟩
  · rw [jobs]
    exact valid.killable fun signal member => unordered signal ((signals _).mpr member)
  · exact valid.unharmed ((signals _).mp dropped)
  · rw [pids]
    exact valid.tracked begun

/-- A sender is taken out that is not that of the incarnation. -/
theorem Undisturbed.dropSender {task : JobTask} (valid : site.Undisturbed jobId index task) {other : JobId}
    {cause : KillCause} (foreign : site.runningJobs.get? other ≠ some index ∨ ∃ signal, cause = .ordered signal) :
    (site.dropSender other cause).Undisturbed jobId index task := by
  obtain ⟨_, _, pids, records⟩ := site.dropSender_tasks other cause
  refine ⟨fun unordered => ?_, fun dropped => ?_, fun begun => ?_, fun waiting => ?_⟩
  · have before : ∀ signal, (index, .ordered signal) ∉ site.signals :=
      fun signal member => unordered signal (mem_dropSender.mpr (.inl member))
    have held := valid.killable before
    rw [get?_dropSender, if_neg fun same => ?_, held]
    -- The sender of the incarnation is taken out only by an order.
    subst same
    rcases foreign with foreign | ⟨signal, ordered⟩
    · exact foreign held
    · exact unordered signal (mem_dropSender.mpr (.inr ⟨held, ordered.symm⟩))
  · rcases mem_dropSender.mp dropped with before | ⟨held, same⟩
    · exact valid.unharmed before
    · rcases foreign with foreign | ⟨signal, ordered⟩
      · exact foreign held
      · rw [ordered] at same
        cases same
  · rw [pids]
    exact valid.tracked begun
  · rw [records]
    exact valid.recorded waiting

namespace Sound

theorem order (sound : site.Sound) (jobId : JobId) (signal : KillSignal) :
    (site.dropSender jobId (.ordered signal)).Sound := by
  obtain ⟨tasks, newest, _, _⟩ := site.dropSender_tasks jobId (.ordered signal)
  obtain ⟨holders, numbers⟩ := sound.dropSender jobId (.ordered signal)
  refine ⟨?_, ?_, ?_, fun other index task current found live => ?_⟩
  · rw [newest, tasks]
    exact sound.newest
  · rw [tasks]
    exact holders
  · rw [tasks]
    exact numbers
  · rw [newest] at current
    rw [tasks] at found
    exact (sound.undisturbed other index task current found live).dropSender (.inr ⟨signal, rfl⟩)

theorem runJob (sound : site.Sound) (taken : site.apply (.runJob jobId) = some next) : next.Sound := by
  cases taken
  obtain ⟨holders, numbers⟩ := sound.dropSender jobId .dropped
  obtain ⟨_, _, pids, records⟩ := site.dropSender_tasks jobId .dropped
  have last : (site.tasks ++ [{ jobId := jobId }])[site.tasks.length]? = some { jobId := jobId } := by simp
  have earlier {index : Nat} {task : JobTask} (found : site.tasks[index]? = some task) :
      (site.tasks ++ [{ jobId := jobId }])[index]? = some task := by
    rw [List.getElem?_append_left (List.getElem?_eq_some_iff.mp found).1, found]
  refine ⟨fun other index found => ?_, fun other index found => ?_, fun signal member => ?_,
    fun other index task found present live => ?_⟩
  · rw [HashMap.get?_insert] at found
    split at found
    · rename_i own
      cases found
      exact ⟨_, last, own.symm⟩
    · obtain ⟨task, present, own⟩ := sound.newest other index found
      exact ⟨task, earlier present, own⟩
  · rw [HashMap.get?_insert] at found
    split at found
    · rename_i own
      cases found
      exact ⟨_, last, own.symm⟩
    · obtain ⟨task, present, own⟩ := holders other index found
      exact ⟨task, earlier present, own⟩
  · rw [List.length_append]
    exact Nat.lt_add_right _ (numbers signal member)
  · rw [HashMap.get?_insert] at found
    split at found
    · rename_i own
      cases found
      rw [last, Option.some.injEq] at present
      subst present own
      refine ⟨fun _ => HashMap.get?_insert_self .., fun dropped => ?_, fun begun => absurd rfl begun, fun waiting => ?_⟩
      · exact absurd (numbers _ dropped) (Nat.lt_irrefl _)
      · cases waiting
    · rename_i different
      obtain ⟨old, before, _⟩ := sound.newest other index found
      rw [earlier before, Option.some.injEq] at present
      subst present
      have valid : (site.dropSender jobId .dropped).Undisturbed other index old :=
        (sound.undisturbed other index old found before live).dropSender
          (.inl fun held => sound.holder_ne found held different rfl)
      refine valid.congr ?_ rfl id fun _ => .rfl
      rw [HashMap.get?_insert, if_neg different]

theorem moved (sound : site.Sound) {task : JobTask} {after : TaskPhase} (found : site.tasks[index]? = some task)
    (tasks : next.tasks = site.tasks.set index { task with phase := after }) (newest : next.newest = site.newest)
    (holders : ∀ jobId holder, next.runningJobs.get? jobId = some holder → site.runningJobs.get? jobId = some holder)
    (numbers : ∀ signal ∈ next.signals, signal.1 < site.tasks.length)
    (others : ∀ jobId other task', site.newest.get? jobId = some other → other ≠ index → site.tasks[other]? = some task' →
      site.Current jobId other → site.Undisturbed jobId other task' → next.Undisturbed jobId other task')
    (own : after.live = true → site.newest.get? task.jobId = some index →
      next.Undisturbed task.jobId index { task with phase := after }) : next.Sound := by
  have bound := (List.getElem?_eq_some_iff.mp found).1
  have here : (site.tasks.set index { task with phase := after })[index]? = some { task with phase := after } := by
    simp [bound]
  have elsewhere {other : Nat} (different : other ≠ index) :
      (site.tasks.set index { task with phase := after })[other]? = site.tasks[other]? :=
    List.getElem?_set_ne (Ne.symm different)
  have owner {jobId : JobId} {other : Nat} (present : ∃ task', site.tasks[other]? = some task' ∧ task'.jobId = jobId) :
      ∃ task', next.tasks[other]? = some task' ∧ task'.jobId = jobId := by
    obtain ⟨task', present, same⟩ := present
    rw [tasks]
    by_cases this : other = index
    · subst this
      rw [found, Option.some.injEq] at present
      exact ⟨_, here, present ▸ same⟩
    · exact ⟨task', by rw [elsewhere this, present], same⟩
  refine ⟨fun jobId other current => ?_, fun jobId other held => owner (sound.holders jobId other (holders jobId other held)),
    fun signal member => ?_, fun jobId other task' current present live => ?_⟩
  · rw [newest] at current
    exact owner (sound.newest jobId other current)
  · rw [tasks, List.length_set]
    exact numbers signal member
  · rw [newest] at current
    rw [tasks] at present
    by_cases this : other = index
    · subst this
      rw [here, Option.some.injEq] at present
      subst present
      obtain ⟨task', present, same⟩ := sound.newest jobId other current
      rw [found, Option.some.injEq] at present
      subst present same
      exact own live current
    · rw [elsewhere this] at present
      exact others jobId other task' current this present ⟨current, task', present, live⟩
        (sound.undisturbed jobId other task' current present live)

end Sound

theorem advance_cases {before after : TaskPhase} {act : JobId → JobTables → JobTables}
    (taken : site.advance index before after act = some next) :
    ∃ task, site.tasks[index]? = some task ∧ task.phase = before ∧
      next = act task.jobId { site with tasks := site.tasks.set index { task with phase := after } } := by
  obtain ⟨task, found, taken⟩ := Option.bind_eq_some_iff.mp taken
  obtain ⟨phase, same⟩ := Option.ite_none_right_eq_some.mp taken
  exact ⟨task, found, phase, (Option.some.inj same).symm⟩

namespace Sound

theorem quiet (sound : site.Sound) {before after : TaskPhase} (ended : after.live = false)
    (taken : site.advance index before after (fun _ site => site) = some next) : next.Sound := by
  obtain ⟨task, found, _, rfl⟩ := advance_cases taken
  refine sound.moved found rfl rfl (fun _ _ held => held) sound.numbers (fun _ _ _ _ _ _ _ valid => ?_) fun live => ?_
  · exact valid.congr rfl rfl id fun _ => .rfl
  · rw [ended] at live
    cases live

theorem changePid (sound : site.Sound) {before after : TaskPhase} (change : JobId → HashMap JobId Nat → HashMap JobId Nat)
    (careful : site.Outlived index fun jobId other => site.runningPids.get? jobId = some other)
    (elsewhere : ∀ jobId other table, other ≠ jobId → (change jobId table).get? other = table.get? other)
    (own : ∀ task, site.tasks[index]? = some task → after.live = true → site.newest.get? task.jobId = some index →
      before = .preparing ∧ after = .registered ∧ (change task.jobId site.runningPids).get? task.jobId = some index)
    (taken : site.advance index before after (fun jobId site => { site with runningPids := change jobId site.runningPids }) =
      some next) : next.Sound := by
  obtain ⟨task, found, phase, rfl⟩ := advance_cases taken
  refine sound.moved found rfl rfl (fun _ _ held => held) sound.numbers
    (fun jobId other task' newest different present current valid => ?_) fun live newest => ?_
  · by_cases same : jobId = task.jobId
    · subst same
      have begun : task'.phase = .preparing := by
        by_contra begun
        exact careful task found other newest different current (valid.tracked begun)
      refine ⟨valid.killable, valid.unharmed, fun other => absurd begun other, fun waiting => ?_⟩
      rw [begun] at waiting
      cases waiting
    · exact valid.congr rfl (elsewhere _ _ _ same) id fun _ => .rfl
  · obtain ⟨started, registered, inserted⟩ := own task found live newest
    have valid := sound.undisturbed task.jobId index task newest found (by rw [phase, started]; rfl)
    subst registered
    refine ⟨valid.killable, valid.unharmed, fun _ => inserted, fun waiting => ?_⟩
    cases waiting

theorem persist (sound : site.Sound) (taken : site.apply (.persist index) = some next) : next.Sound := by
  rw [apply] at taken
  obtain ⟨task, found, phase, rfl⟩ := advance_cases taken
  refine sound.moved found rfl rfl (fun _ _ held => held) sound.numbers (fun _ _ _ _ _ _ _ valid => ?_) fun _ newest => ?_
  · exact valid.congr rfl rfl (List.mem_append_left _) fun _ => .rfl
  · have valid := sound.undisturbed task.jobId index task newest found (by rw [phase]; rfl)
    refine ⟨valid.killable, valid.unharmed, fun _ => valid.tracked (by simp [phase]), fun _ => ?_⟩
    exact List.mem_append_right _ List.mem_cons_self

theorem unrecord (sound : site.Sound) (careful : site.Careful (.unrecord index))
    (taken : site.apply (.unrecord index) = some next) : next.Sound := by
  rw [apply] at taken
  obtain ⟨task, found, _, rfl⟩ := advance_cases taken
  refine sound.moved found rfl rfl (fun _ _ held => held) sound.numbers
    (fun jobId other task' newest different present current valid => ?_) fun live => (by cases live)
  refine ⟨valid.killable, valid.unharmed, valid.tracked, fun waiting => ?_⟩
  have recorded := valid.recorded waiting
  refine List.mem_filter.mpr ⟨recorded, decide_eq_true fun same => ?_⟩
  subst same
  exact careful task found other newest different current recorded

theorem unregister (sound : site.Sound) (careful : site.Careful (.unregister index))
    (taken : site.apply (.unregister index) = some next) : next.Sound := by
  rw [apply] at taken
  obtain ⟨task, found, _, rfl⟩ := advance_cases taken
  let moved : JobTables := { site with tasks := site.tasks.set index { task with phase := .unregistered } }
  obtain ⟨tasks, newest, _, _⟩ := moved.dropSender_tasks task.jobId .dropped
  refine sound.moved found tasks newest (fun jobId holder held => ?_) (fun signal member => ?_)
    (fun jobId other task' newest different present current valid => ?_) fun live => (by cases live)
  · rw [get?_dropSender] at held
    split at held
    · cases held
    · exact held
  · rcases mem_dropSender.mp member with before | ⟨held, _⟩
    · exact sound.numbers signal before
    · obtain ⟨holder, present, _⟩ := sound.holders task.jobId signal.1 held
      exact (List.getElem?_eq_some_iff.mp present).1
  · have kept : moved.Undisturbed jobId other task' := valid.congr rfl rfl id fun _ => .rfl
    refine kept.dropSender (.inl fun held => ?_)
    by_cases same : jobId = task.jobId
    · subst same
      exact careful task found other newest different current held
    · exact sound.holder_ne newest held same rfl

theorem step {event : TaskEvent} (sound : site.Sound) (taken : site.CarefulStep event next) : next.Sound := by
  obtain ⟨careful, taken⟩ := taken
  cases event with
  | runJob jobId => exact sound.runJob taken
  | order jobId signal =>
    cases taken
    exact sound.order jobId signal
  | fail index =>
    rw [apply, Option.or_eq_some_iff] at taken
    rcases taken with unstarted | ⟨_, unlogged⟩
    · exact sound.quiet rfl unstarted
    · exact sound.quiet rfl unlogged
  | registerPid index =>
    rw [apply] at taken
    refine sound.changePid (fun jobId table => table.insert jobId index) careful
      (fun jobId other table different => ?_) (fun task _ _ _ => ⟨rfl, rfl, HashMap.get?_insert_self ..⟩) taken
    rw [HashMap.get?_insert, if_neg different]
  | persist index => exact sound.persist taken
  | exit index =>
    rw [apply] at taken
    exact sound.quiet rfl taken
  | kill index =>
    obtain ⟨_, taken⟩ := Option.ite_none_right_eq_some.mp taken
    exact sound.quiet rfl taken
  | unrecord index => exact sound.unrecord careful taken
  | unregister index => exact sound.unregister careful taken
  | untrack index =>
    rw [apply] at taken
    refine sound.changePid (fun jobId table => table.remove jobId) careful
      (fun jobId other table different => ?_) (fun _ _ live => by cases live) taken
    rw [HashMap.get?_remove, if_neg different]

end Sound

end JobTables

/-- If old tasks change the entries of a job only when they are not those of its newest
incarnation, the newest incarnation keeps its kill channel, its process id and its record until it
ends, and is not killed by the end of another one. -/
theorem incarnation_undisturbed {site : JobTables} (reached : Reach JobTables.Start JobTables.CarefulStep site)
    {jobId : JobId} {index : Nat} {task : JobTask} (newest : site.newest.get? jobId = some index)
    (found : site.tasks[index]? = some task) (live : task.phase.live = true) : site.Undisturbed jobId index task := by
  have sound : site.Sound :=
    reached.invariant JobTables.Sound (fun _ start => start.sound) fun _ _ _ sound taken => sound.step taken
  exact sound.undisturbed jobId index task newest found live

namespace JobTables

instance (site : JobTables) (index : Nat) (held : JobId → Nat → Prop) [∀ jobId other, Decidable (held jobId other)] :
    Decidable (site.Outlived index held) :=
  inferInstanceAs (Decidable (∀ task ∈ _, ∀ other ∈ _, _ → _ → ¬ _))

instance (site : JobTables) : (event : TaskEvent) → Decidable (site.Careful event)
  | .registerPid index | .untrack index =>
    inferInstanceAs (Decidable (site.Outlived index fun jobId other => site.runningPids.get? jobId = some other))
  | .unrecord index => inferInstanceAs (Decidable (site.Outlived index fun jobId other => (jobId, other) ∈ site.records))
  | .unregister index =>
    inferInstanceAs (Decidable (site.Outlived index fun jobId other => site.runningJobs.get? jobId = some other))
  | .runJob _ | .order _ _ | .fail _ | .persist _ | .exit _ | .kill _ => isTrue trivial

/-- A job is preempted and comes back while its old process is in its grace period. -/
def comesBack : List TaskEvent :=
  [.runJob 1, .registerPid 0, .persist 0, .order 1 .preempt, .runJob 1, .registerPid 1, .persist 1]

end JobTables

theorem incarnation_undisturbed_in_grace_period : ∃ (site : JobTables) (task : JobTask),
    Reach JobTables.Start JobTables.CarefulStep site ∧ runLabels JobTables.apply JobTables.comesBack {} = some site ∧
    site.tasks[1]? = some task ∧ task.phase = .waiting ∧ site.Undisturbed 1 1 task := by
  have careful : AllowedRun JobTables.Careful JobTables.apply JobTables.comesBack {} := by decide +kernel
  have facts : (runLabels JobTables.apply JobTables.comesBack {}).map (fun site =>
      decide (site.newest.get? 1 = some 1 ∧ ∃ task ∈ site.tasks[1]?, task.phase = .waiting)) = some true := by decide +kernel
  obtain ⟨site, ran, holds⟩ := Option.map_eq_some_iff.mp facts
  obtain ⟨newest, task, found, phase⟩ := of_decide_eq_true holds
  have reached : Reach JobTables.Start JobTables.CarefulStep site := runLabels_reach (.start rfl) careful ran
  exact ⟨site, task, reached, ran, found, phase, incarnation_undisturbed reached newest found (by rw [phase]; rfl)⟩

/-- The old task ends: the new incarnation loses its record, its sender and its process id, and
is killed. -/
theorem old_task_disturbs_incarnation : ∃ site next : JobTables,
    runLabels JobTables.apply (JobTables.comesBack ++ [.kill 0, .unrecord 0, .unregister 0, .untrack 0]) {} = some site ∧
    site.Current 1 1 ∧ site.runningJobs.get? 1 = none ∧ site.runningPids.get? 1 = none ∧ site.records = [] ∧
    (∀ signal, (1, .ordered signal) ∉ site.signals) ∧ (1, .dropped) ∈ site.signals ∧
    site.apply (.kill 1) = some next ∧ ¬ next.Current 1 1 := by
  let events := JobTables.comesBack ++ [.kill 0, .unrecord 0, .unregister 0, .untrack 0]
  have facts : (runLabels JobTables.apply events {}).bind (fun site => (site.apply (.kill 1)).map fun next =>
      decide (site.Current 1 1 ∧ site.runningJobs.get? 1 = none ∧ site.runningPids.get? 1 = none ∧ site.records = [] ∧
        site.signals = [(0, .ordered .preempt), (1, .dropped)] ∧ ¬ next.Current 1 1)) = some true := by decide +kernel
  obtain ⟨site, ran, facts⟩ := Option.bind_eq_some_iff.mp facts
  obtain ⟨next, killed, holds⟩ := Option.map_eq_some_iff.mp facts
  obtain ⟨current, sender, pid, records, signals, ended⟩ := of_decide_eq_true holds
  refine ⟨site, next, ran, current, sender, pid, records, ?_, ?_, killed, ended⟩
  · simp [signals]
  · simp [signals]

end Veloce
