import Veloce.Collections.Frames
import Veloce.Collections.Run
import Veloce.Common.Types

/-! The file of a worker's running jobs. -/

namespace Veloce

open Collections

/-- What a worker keeps of a running job. -/
structure PersistedJob where
  jobId : JobId
  pid : Nat
  pgid : Nat
  binary : String
  args : List String
  walltime : Nat
  submissionTime : Nat
deriving DecidableEq

/-- The binary encoding of these records, a library. -/
structure PersistedJobCodec where
  serialize : PersistedJob → List UInt8
  deserialize : List UInt8 → Option PersistedJob

namespace PersistedJobCodec

/-- A job is encoded in some bytes, and read back from them. -/
structure Faithful (codec : PersistedJobCodec) (job : PersistedJob) : Prop where
  roundTrip : codec.deserialize (codec.serialize job) = some job
  nonempty : codec.serialize job ≠ []
  sized : (codec.serialize job).length < 256 ^ 8

variable (codec : PersistedJobCodec)

def record (job : PersistedJob) : List UInt8 := frame (codec.serialize job)

/-- A file of whole records. -/
def written (jobs : List PersistedJob) : List UInt8 := jobs.flatMap codec.record

/-- Read record after record. A length that no file has ends the worker; here it is the error. -/
def readJobs : (fuel : Nat) → List UInt8 → Except String (List PersistedJob)
  | 0, _ => .ok []
  | fuel + 1, bytes =>
    if bytes.length < 8 then .ok []
    else
      let len := fromLeBytes (bytes.take 8)
      let rest := bytes.drop 8
      if len = 0 then .ok []
      else if rest.length < len then .error "Failed to read job data from persistence file"
      else
        match codec.deserialize (rest.take len) with
        | some job => (readJobs fuel (rest.drop len)).map (job :: ·)
        | none => .ok []

/-- Every record takes at least eight bytes. -/
def loadPersistedJobStates (file : List UInt8) : Except String (List PersistedJob) := codec.readJobs (file.length + 1) file

def persistJobState (file : List UInt8) (job : PersistedJob) : List UInt8 := file ++ codec.record job

/-- The new file is written beside the old one and takes its place at once. -/
def removePersistedJobState (file : List UInt8) (jobId : JobId) : Except String (List UInt8) :=
  match codec.loadPersistedJobStates file with
  | .error error => .error error
  | .ok jobs =>
    let kept := jobs.filter (·.jobId ≠ jobId)
    if kept.length = jobs.length then .ok file else .ok (codec.written kept)

variable {codec}

section Reading

variable {job : PersistedJob} {jobs : List PersistedJob} {rest : List UInt8}

theorem readJobs_fuel : ∀ (fuel fuel' : Nat) (bytes : List UInt8), bytes.length < fuel → bytes.length < fuel' →
    codec.readJobs fuel bytes = codec.readJobs fuel' bytes := by
  intro fuel
  induction fuel with
  | zero => intro fuel' bytes enough; exact absurd enough (Nat.not_lt_zero _)
  | succ fuel ih =>
    intro fuel' bytes enough enough'
    cases fuel' with
    | zero => exact absurd enough' (Nat.not_lt_zero _)
    | succ fuel' =>
      simp only [readJobs]
      split
      · rfl
      · rename_i long
        have shorter : ((bytes.drop 8).drop (fromLeBytes (bytes.take 8))).length < bytes.length := by
          rw [List.length_drop, List.length_drop]
          omega
        rw [ih fuel' _ (by omega) (by omega)]

theorem load_record (faithful : codec.Faithful job) :
    codec.loadPersistedJobStates (codec.record job ++ rest) = (codec.loadPersistedJobStates rest).map (job :: ·) := by
  obtain ⟨size, body⟩ := @frame_head (codec.serialize job) rest faithful.sized
  have whole : ¬ (codec.record job ++ rest).length < 8 := by
    rw [record, List.length_append, length_frame]
    omega
  have positive : (codec.serialize job).length ≠ 0 := mt List.length_eq_zero_iff.mp faithful.nonempty
  have inside : ¬ (codec.serialize job ++ rest).length < (codec.serialize job).length := by
    rw [List.length_append]
    omega
  rw [loadPersistedJobStates, readJobs, if_neg whole]
  simp only [record, size, body, positive, inside, if_false, List.take_left, List.drop_left, faithful.roundTrip]
  rw [loadPersistedJobStates, readJobs_fuel _ (rest.length + 1)]
  · rw [List.length_append, length_frame]
    omega
  · omega

theorem load_tail (short : rest.length < 8) : codec.loadPersistedJobStates rest = .ok [] := by
  rw [loadPersistedJobStates, readJobs, if_pos short]

theorem load_written (faithful : ∀ job ∈ jobs, codec.Faithful job) (short : rest.length < 8) :
    codec.loadPersistedJobStates (codec.written jobs ++ rest) = .ok jobs := by
  induction jobs with
  | nil => exact load_tail short
  | cons job others ih =>
    rw [written, List.flatMap_cons, List.append_assoc, load_record (faithful job List.mem_cons_self)]
    rw [written] at ih
    rw [ih fun other member => faithful other (List.mem_cons_of_mem _ member)]
    rfl

/-- A job is taken out of whole records with a short tail; the tail goes with the rewrite. -/
theorem remove_written (faithful : ∀ job ∈ jobs, codec.Faithful job) (short : rest.length < 8) (jobId : JobId) :
    ∃ rest' : List UInt8, rest'.length ≤ rest.length ∧ codec.removePersistedJobState (codec.written jobs ++ rest) jobId =
      .ok (codec.written (jobs.filter (·.jobId ≠ jobId)) ++ rest') := by
  rw [removePersistedJobState, load_written faithful short]
  by_cases all : (jobs.filter (·.jobId ≠ jobId)).length = jobs.length
  · refine ⟨rest, Nat.le_refl _, ?_⟩
    simp only [all, if_true]
    rw [List.filter_sublist.eq_of_length all]
  · refine ⟨[], Nat.zero_le _, ?_⟩
    simp only [all, if_false, List.append_nil]

/-- A record that was cut after its length makes the whole file unreadable. -/
theorem load_torn_record (faithful : ∀ job ∈ jobs, codec.Faithful job) (own : codec.Faithful job) {bytes : Nat}
    (long : 8 ≤ bytes) (cut : bytes < (codec.record job).length) :
    codec.loadPersistedJobStates (codec.written jobs ++ (codec.record job).take bytes) =
      .error "Failed to read job data from persistence file" := by
  induction jobs with
  | nil =>
    have width : (toLeBytes 8 (codec.serialize job).length).length = 8 := length_toLeBytes _ _
    have torn : (codec.record job).take bytes =
        toLeBytes 8 (codec.serialize job).length ++ (codec.serialize job).take (bytes - 8) := by
      rw [record, frame, List.take_append, List.take_of_length_le (width ▸ long), width]
    rw [record, length_frame] at cut
    have short : ((codec.serialize job).take (bytes - 8)).length < (codec.serialize job).length := by
      rw [List.length_take]
      omega
    have positive : (codec.serialize job).length ≠ 0 := by omega
    rw [written, List.flatMap_nil, List.nil_append, torn, loadPersistedJobStates, readJobs,
      if_neg (by rw [List.length_append, width]; omega)]
    simp only [List.take_left' width, List.drop_left' width, fromLeBytes_toLeBytes own.sized, positive, short, if_false,
      if_true]
  | cons first others ih =>
    rw [written, List.flatMap_cons, List.append_assoc, load_record (faithful first List.mem_cons_self)]
    rw [written] at ih
    rw [ih fun other member => faithful other (List.mem_cons_of_mem _ member)]
    rfl

end Reading

end PersistedJobCodec

structure JobFile where
  file : List UInt8 := []
  jobs : List PersistedJob := []
deriving DecidableEq

inductive JobFileEvent where
  | persist (job : PersistedJob)
  /-- An append that is cut after some of its bytes. -/
  | tear (job : PersistedJob) (bytes : Nat)
  | remove (jobId : JobId)

namespace JobFile

variable (codec : PersistedJobCodec)

/-- A call that fails leaves the file as it was. -/
def apply (event : JobFileEvent) (site : JobFile) : Option JobFile :=
  match event with
  | .persist job => some { file := codec.persistJobState site.file job, jobs := site.jobs ++ [job] }
  | .tear job bytes =>
    if bytes < (codec.record job).length then some { site with file := site.file ++ (codec.record job).take bytes } else none
  | .remove jobId =>
    let jobs := site.jobs.filter (·.jobId ≠ jobId)
    match codec.removePersistedJobState site.file jobId with
    | .ok file => some { file, jobs }
    | .error _ => some { site with jobs }

def Genuine : JobFileEvent → Prop
  | .persist job | .tear job _ => codec.Faithful job
  | .remove _ => True

/-- What is cut leaves less than a length behind the last whole record, and nothing is appended
behind what was left. -/
def Careful (site : JobFile) : JobFileEvent → Prop
  | .persist _ => site.file = codec.written site.jobs
  | .tear _ bytes => site.file.length + bytes < (codec.written site.jobs).length + 8
  | .remove _ => True

def Start (site : JobFile) : Prop := site.file = [] ∧ site.jobs = []

def CarefulStep (site : JobFile) (event : JobFileEvent) (next : JobFile) : Prop :=
  Genuine codec event ∧ site.Careful codec event ∧ site.apply codec event = some next

/-- Whole records with a short tail. -/
structure Readable (site : JobFile) : Prop where
  faithful : ∀ job ∈ site.jobs, codec.Faithful job
  records : ∃ tail, site.file = codec.written site.jobs ++ tail ∧ tail.length < 8

variable {codec} {site next : JobFile} {event : JobFileEvent}

theorem Start.readable (start : site.Start) : site.Readable codec := by
  obtain ⟨file, jobs⟩ := start
  refine ⟨by simp [jobs], [], ?_, by decide⟩
  rw [file, jobs]
  rfl

theorem Readable.step (readable : site.Readable codec) (taken : site.CarefulStep codec event next) :
    next.Readable codec := by
  obtain ⟨genuine, careful, taken⟩ := taken
  obtain ⟨tail, split, short⟩ := readable.records
  cases event with
  | persist job =>
    cases taken
    refine ⟨fun other member => ?_, [], ?_, by decide⟩
    · rcases List.mem_append.mp member with before | new
      · exact readable.faithful other before
      · exact List.mem_singleton.mp new ▸ genuine
    · rw [PersistedJobCodec.persistJobState, careful]
      simp [PersistedJobCodec.written]
  | tear job bytes =>
    obtain ⟨_, same⟩ := Option.ite_none_right_eq_some.mp taken
    cases same
    refine ⟨readable.faithful, tail ++ (codec.record job).take bytes, ?_, ?_⟩
    · rw [split, List.append_assoc]
    · simp only [Careful, split, List.length_append] at careful
      rw [List.length_append, List.length_take]
      omega
  | remove jobId =>
    obtain ⟨tail', shorter, removed⟩ := PersistedJobCodec.remove_written readable.faithful short jobId
    simp only [apply, split, removed] at taken
    cases taken
    exact ⟨fun job member => readable.faithful job (List.mem_of_mem_filter member), tail', rfl, by omega⟩

end JobFile

/-- If what a cut append leaves is shorter than a length, and nothing is appended before a rewrite
has taken it away, the file can be read at any time and gives the jobs that were persisted and not
removed, and a job is removed from it without the others. An append to such a file may be cut
before the end of its length, and nowhere else. -/
theorem job_file_survives_torn_append {codec : PersistedJobCodec} {site : JobFile}
    (reached : Reach JobFile.Start (JobFile.CarefulStep codec) site) :
    codec.loadPersistedJobStates site.file = .ok site.jobs ∧
    (∀ jobId, ∃ file, codec.removePersistedJobState site.file jobId = .ok file ∧
      codec.loadPersistedJobStates file = .ok (site.jobs.filter (·.jobId ≠ jobId))) ∧
    ∀ job bytes, codec.Faithful job → bytes < (codec.record job).length → site.file = codec.written site.jobs →
      (codec.loadPersistedJobStates (site.file ++ (codec.record job).take bytes) = .ok site.jobs ↔ bytes < 8) := by
  have readable : site.Readable codec :=
    reached.invariant (JobFile.Readable codec) (fun _ start => start.readable) fun _ _ _ readable taken => readable.step taken
  obtain ⟨tail, split, short⟩ := readable.records
  refine ⟨?_, fun jobId => ?_, fun job bytes faithful cut whole => ⟨fun loaded => ?_, fun few => ?_⟩⟩
  · rw [split]
    exact PersistedJobCodec.load_written readable.faithful short
  · rw [split]
    obtain ⟨tail', shorter, removed⟩ := PersistedJobCodec.remove_written readable.faithful short jobId
    refine ⟨_, removed, PersistedJobCodec.load_written (fun job member => ?_) (by omega)⟩
    exact readable.faithful job (List.mem_of_mem_filter member)
  · by_contra many
    rw [whole, PersistedJobCodec.load_torn_record readable.faithful faithful (Nat.not_lt.mp many) cut] at loaded
    cases loaded
  · rw [whole]
    refine PersistedJobCodec.load_written readable.faithful ?_
    rw [List.length_take]
    omega

def samplePersisted (jobId : JobId) : PersistedJob :=
  { jobId, pid := 100, pgid := 100, binary := "sh", args := [], walltime := 0, submissionTime := 0 }

def persistedTail : List UInt8 :=
  let zeros (count : Nat) : List UInt8 := List.replicate count 0
  zeros 7 ++ 100 :: zeros 3 ++ 100 :: zeros 3 ++ 2 :: zeros 7 ++ [115, 104] ++ zeros 8 ++ zeros 8 ++ 1 :: zeros 7 ++ [47] ++
    zeros 4 ++ zeros 8 ++ 4 :: zeros 7 ++ [117, 115, 101, 114] ++ zeros 8 ++ zeros 8 ++ zeros 2 ++ zeros 8 ++ zeros 8 ++
    zeros 5 ++ 2 :: zeros 3 ++ zeros 4 ++ zeros 8

def samplePersistedCodec : PersistedJobCodec where
  serialize job := UInt8.ofNat job.jobId :: persistedTail
  deserialize
    | [] => none
    | byte :: rest => if rest = persistedTail then some (samplePersisted byte.toNat) else none

theorem samplePersistedCodec_faithful {jobId : JobId} (small : jobId < 256) :
    samplePersistedCodec.Faithful (samplePersisted jobId) := by
  have first : (UInt8.ofNat jobId).toNat = jobId := by
    rw [UInt8.toNat_ofNat']
    exact Nat.mod_eq_of_lt small
  refine ⟨?_, by simp [samplePersistedCodec], ?_⟩
  · change (if persistedTail = persistedTail then some (samplePersisted (UInt8.ofNat jobId).toNat) else none) = _
    rw [if_pos rfl, first]
  · have length : persistedTail.length = 129 := by decide +kernel
    simp only [samplePersistedCodec, List.length_cons, length]
    decide

instance (codec : PersistedJobCodec) (site : JobFile) : (event : JobFileEvent) → Decidable (site.Careful codec event)
  | .persist _ => inferInstanceAs (Decidable (_ = _))
  | .tear _ _ => inferInstanceAs (Decidable (_ < _))
  | .remove _ => isTrue trivial

/-- A cut append is overlooked, and the next rewrite takes it away. -/
theorem job_file_survives_torn_append_rewritten :
    ∃ site : JobFile, Reach JobFile.Start (JobFile.CarefulStep samplePersistedCodec) site ∧
      site.jobs = [samplePersisted 2, samplePersisted 3] ∧
      samplePersistedCodec.loadPersistedJobStates site.file = .ok site.jobs := by
  let events : List JobFileEvent := [.persist (samplePersisted 1), .persist (samplePersisted 2), .tear (samplePersisted 3) 5,
    .remove 1, .persist (samplePersisted 3)]
  have careful : AllowedRun (JobFile.Careful samplePersistedCodec) (JobFile.apply samplePersistedCodec) events {} := by
    decide +kernel
  have genuine : ∀ event ∈ events, JobFile.Genuine samplePersistedCodec event := by
    intro event member
    simp only [events, List.mem_cons, List.not_mem_nil, or_false] at member
    rcases member with rfl | rfl | rfl | rfl | rfl
    · exact samplePersistedCodec_faithful (by decide)
    · exact samplePersistedCodec_faithful (by decide)
    · exact samplePersistedCodec_faithful (by decide)
    · exact trivial
    · exact samplePersistedCodec_faithful (by decide)
  have facts : (runLabels (JobFile.apply samplePersistedCodec) events {}).map JobFile.jobs =
      some [samplePersisted 2, samplePersisted 3] := by decide +kernel
  obtain ⟨site, ran, jobs⟩ := Option.map_eq_some_iff.mp facts
  have reached : Reach JobFile.Start (JobFile.CarefulStep samplePersistedCodec) site :=
    (runLabels_reach (.start ⟨rfl, rfl⟩) (careful.and_labels genuine) ran).mono
      fun _ _ _ step => ⟨step.1.1, step.1.2, step.2⟩
  exact ⟨site, reached, jobs, (job_file_survives_torn_append reached).1⟩

/-- The file cannot be read after an append was cut behind its length. After a shorter cut it
cannot be read once another job is persisted. -/
theorem torn_append_blocks_job_file : ∃ codec : PersistedJobCodec,
    (∀ jobId < 256, codec.Faithful (samplePersisted jobId)) ∧
    (∃ site : JobFile,
      runLabels (JobFile.apply codec) [.persist (samplePersisted 1), .tear (samplePersisted 2) 8] {} = some site ∧
      site.jobs = [samplePersisted 1] ∧ codec.loadPersistedJobStates site.file ≠ .ok site.jobs) ∧
    ∃ site : JobFile, runLabels (JobFile.apply codec)
      [.persist (samplePersisted 1), .tear (samplePersisted 2) 1, .persist (samplePersisted 3)] {} = some site ∧
      site.jobs = [samplePersisted 1, samplePersisted 3] ∧ codec.loadPersistedJobStates site.file ≠ .ok site.jobs := by
  have unread {events : List JobFileEvent} {jobs : List PersistedJob}
      (fails : (runLabels (JobFile.apply samplePersistedCodec) events {}).map (fun site =>
        (site.jobs, (samplePersistedCodec.loadPersistedJobStates site.file).toOption)) = some (jobs, none)) :
      ∃ site : JobFile, runLabels (JobFile.apply samplePersistedCodec) events {} = some site ∧ site.jobs = jobs ∧
        samplePersistedCodec.loadPersistedJobStates site.file ≠ .ok site.jobs := by
    obtain ⟨site, ran, same⟩ := Option.map_eq_some_iff.mp fails
    rw [Prod.mk.injEq] at same
    refine ⟨site, ran, same.1, fun loaded => ?_⟩
    rw [loaded] at same
    cases same.2
  refine ⟨samplePersistedCodec, fun jobId small => samplePersistedCodec_faithful small, ?_, ?_⟩
  · exact unread (by decide +kernel)
  · exact unread (by decide +kernel)

end Veloce
