import Veloce.Collections.HashMap
import Veloce.Collections.Run
import Veloce.Collections.Slices
import Veloce.Collections.Utf8Lossy
import Veloce.Common.Types

/-! What a running job prints is kept for the controller to parse, up to a number of bytes. -/

namespace Veloce

open Collections Collections.Slices

structure JobOutput where
  jobId : JobId
  data : List UInt8

def outputLimit : Nat := 10240

/-- `none` is the panic of a `drain` that ends inside a character. -/
def trimOutput (buffer : List Char) : Option (List Char) :=
  if size Char.utf8Size buffer > outputLimit then
    (cutAt Char.utf8Size (size Char.utf8Size buffer - outputLimit) buffer).map Prod.snd
  else some buffer

def handleJobOutput (message : JobOutput) (jobOutputBuffers : HashMap JobId (List Char)) :
    Option (HashMap JobId (List Char)) :=
  match Utf8.strict message.data with
  | some s =>
    (trimOutput (jobOutputBuffers.getD message.jobId [] ++ s)).map fun buffer => jobOutputBuffers.insert message.jobId buffer
  | none => some jobOutputBuffers

def JobOutput.text (message : JobOutput) (jobId : JobId) : List Char :=
  if message.jobId = jobId then (Utf8.strict message.data).getD [] else []

def printed (messages : List JobOutput) (jobId : JobId) : List Char := messages.flatMap fun message => message.text jobId

/-- The handler takes all messages, and the buffer of every job is the end of what it printed. -/
def BufferedWell (messages : List JobOutput) : Prop :=
  ∃ buffers, runLabels handleJobOutput messages ∅ = some buffers ∧ ∀ jobId,
    buffers.getD jobId [] <:+ printed messages jobId ∧ size Char.utf8Size (buffers.getD jobId []) ≤ outputLimit

section Trimming

variable {text buffer : List Char}

theorem trimOutput_eq (text : List Char) :
    trimOutput text = (cutAt Char.utf8Size (size Char.utf8Size text - outputLimit) text).map Prod.snd := by
  rw [trimOutput]
  split
  · rfl
  · rename_i short
    rw [Nat.sub_eq_zero_of_le (Nat.le_of_not_lt short), cutAt]
    rfl

theorem trimOutput_eq_some_iff : trimOutput text = some buffer ↔
    ∃ front, text = front ++ buffer ∧ size Char.utf8Size front = size Char.utf8Size text - outputLimit := by
  rw [trimOutput_eq, Option.map_eq_some_iff]
  constructor
  · rintro ⟨⟨front, back⟩, cut, rfl⟩
    exact ⟨front, (cutAt_eq_some_iff Char.utf8Size_pos).mp cut⟩
  · rintro ⟨front, cut⟩
    exact ⟨(front, buffer), (cutAt_eq_some_iff Char.utf8Size_pos).mpr cut, rfl⟩

theorem trimOutput_isSome_iff : (trimOutput text).isSome ↔
    Boundary Char.utf8Size text (size Char.utf8Size text - outputLimit) := by
  rw [trimOutput_eq, Option.isSome_map, boundary_iff Char.utf8Size_pos]

theorem trimOutput_suffix (trimmed : trimOutput text = some buffer) :
    buffer <:+ text ∧ size Char.utf8Size buffer ≤ outputLimit := by
  obtain ⟨front, rfl, measured⟩ := trimOutput_eq_some_iff.mp trimmed
  rw [size_append] at measured
  exact ⟨List.suffix_append .., by omega⟩

theorem trimOutput_append (trimmed : trimOutput text = some buffer) (s : List Char) :
    trimOutput (buffer ++ s) = trimOutput (text ++ s) := by
  obtain ⟨front, rfl, measured⟩ := trimOutput_eq_some_iff.mp trimmed
  rw [size_append] at measured
  have position : size Char.utf8Size (front ++ buffer ++ s) - outputLimit =
      size Char.utf8Size front + (size Char.utf8Size (buffer ++ s) - outputLimit) := by
    simp only [size_append]
    omega
  rw [trimOutput_eq, trimOutput_eq, position, List.append_assoc, cutAt_append Char.utf8Size_pos, Option.map_map]
  rfl

end Trimming

section Messages

variable {messages : List JobOutput} {message : JobOutput} {jobId : JobId} {buffers buffers' : HashMap JobId (List Char)}

theorem printed_concat (messages : List JobOutput) (message : JobOutput) (jobId : JobId) :
    printed (messages ++ [message]) jobId = printed messages jobId ++ message.text jobId := by
  simp [printed]

/-- Every buffer is what the trimming of all that the job printed leaves. -/
def Trimmed (messages : List JobOutput) (buffers : HashMap JobId (List Char)) : Prop :=
  ∀ jobId, trimOutput (printed messages jobId) = some (buffers.getD jobId [])

theorem handleJobOutput_trimmed (trimmed : Trimmed messages buffers) (taken : handleJobOutput message buffers = some buffers') :
    Trimmed (messages ++ [message]) buffers' := by
  intro jobId
  rw [printed_concat]
  cases read : Utf8.strict message.data with
  | none =>
    simp only [handleJobOutput, read] at taken
    cases taken
    simpa [JobOutput.text, read] using trimmed jobId
  | some s =>
    simp only [handleJobOutput, read] at taken
    obtain ⟨buffer, cut, rfl⟩ := Option.map_eq_some_iff.mp taken
    by_cases same : message.jobId = jobId
    · subst same
      rw [JobOutput.text, if_pos rfl, read, Option.getD_some, ← trimOutput_append (trimmed _), cut]
      simp [HashMap.getD]
    · rw [JobOutput.text, if_neg same, List.append_nil, trimmed jobId, HashMap.getD, HashMap.getD, HashMap.get?_insert,
        if_neg (Ne.symm same)]

theorem handleJobOutput_isSome_iff (trimmed : Trimmed messages buffers) : (handleJobOutput message buffers).isSome ↔
    ∀ jobId, (trimOutput (printed (messages ++ [message]) jobId)).isSome := by
  constructor
  · intro taken jobId
    obtain ⟨buffers', taken⟩ := Option.isSome_iff_exists.mp taken
    rw [handleJobOutput_trimmed trimmed taken jobId]
    rfl
  · intro fits
    have cut := fits message.jobId
    rw [printed_concat, JobOutput.text, if_pos rfl, ← trimOutput_append (trimmed _)] at cut
    rw [handleJobOutput]
    split
    · rename_i s read
      rw [read] at cut
      rwa [Option.isSome_map]
    · rfl

theorem run_trimmed (ran : runLabels handleJobOutput messages ∅ = some buffers) : Trimmed messages buffers := by
  induction messages using List.reverseRecOn generalizing buffers with
  | nil =>
    cases ran
    intro jobId
    rfl
  | append_singleton earlier message ih =>
    rw [runLabels_append] at ran
    obtain ⟨before, ran, last⟩ := Option.bind_eq_some_iff.mp ran
    rw [runLabels_cons] at last
    obtain ⟨after, taken, same⟩ := Option.bind_eq_some_iff.mp last
    cases same
    exact handleJobOutput_trimmed (ih ran) taken

theorem run_isSome_iff (messages : List JobOutput) : (runLabels handleJobOutput messages ∅).isSome ↔
    ∀ before, before <+: messages → ∀ jobId, (trimOutput (printed before jobId)).isSome := by
  induction messages using List.reverseRecOn with
  | nil =>
    refine ⟨fun _ before within jobId => ?_, fun _ => rfl⟩
    rw [List.prefix_nil.mp within]
    rfl
  | append_singleton earlier message ih =>
    have last : (runLabels handleJobOutput (earlier ++ [message]) ∅).isSome ↔
        (runLabels handleJobOutput earlier ∅).isSome ∧ ∀ jobId, (trimOutput (printed (earlier ++ [message]) jobId)).isSome := by
      rw [runLabels_append]
      cases ran : runLabels handleJobOutput earlier ∅ with
      | none => simp
      | some buffers =>
        rw [Option.bind_some, runLabels_cons, ← handleJobOutput_isSome_iff (run_trimmed ran)]
        cases handleJobOutput message buffers with
        | none => simp
        | some after => simp [runLabels]
    rw [last, ih]
    constructor
    · rintro ⟨fits, whole⟩ before within jobId
      rcases List.prefix_concat_iff.mp within with rfl | shorter
      · exact whole jobId
      · exact fits before shorter jobId
    · intro fits
      exact ⟨fun before within => fits before (within.trans (List.prefix_append ..)), fits _ (List.prefix_refl _)⟩

/-- The output is buffered well if and only if, whenever a job has printed more than the
limit, a character begins the limit before the end. -/
theorem bufferedWell_iff (messages : List JobOutput) : BufferedWell messages ↔ ∀ before, before <+: messages →
    ∀ jobId, Boundary Char.utf8Size (printed before jobId) (size Char.utf8Size (printed before jobId) - outputLimit) := by
  simp only [← trimOutput_isSome_iff]
  rw [← run_isSome_iff, Option.isSome_iff_exists]
  constructor
  · rintro ⟨buffers, ran, _⟩
    exact ⟨buffers, ran⟩
  · rintro ⟨buffers, ran⟩
    exact ⟨buffers, ran, fun jobId => trimOutput_suffix (run_trimmed ran jobId)⟩

def JobOutput.encode (jobId : JobId) (text : List Char) : JobOutput := ⟨jobId, text.flatMap String.utf8EncodeChar⟩

theorem JobOutput.text_encode (jobId : JobId) (text : List Char) : (JobOutput.encode jobId text).text jobId = text := by
  rw [JobOutput.text, if_pos (by rfl), JobOutput.encode, Utf8.strict_encode, Option.getD_some]

/-- As many letters of two bytes as fit, and one more letter. -/
def accentedOutput : List JobOutput := [.encode 1 (List.replicate 5120 'é'), .encode 1 ['a']]

/-- The last of these messages has the buffer cut inside its first letter. -/
theorem accented_output_panics : ¬ BufferedWell accentedOutput := by
  intro ⟨buffers, ran, _⟩
  have fits := (run_isSome_iff accentedOutput).mp (by rw [ran]; rfl) _ (List.prefix_refl _) 1
  have text : printed accentedOutput 1 = List.replicate 5120 'é' ++ ['a'] := by
    rw [printed, accentedOutput, List.flatMap_cons, List.flatMap_singleton, JobOutput.text_encode, JobOutput.text_encode]
  have room : size Char.utf8Size (List.replicate 5120 'é' ++ ['a']) - outputLimit = 1 := by
    have letter : 'é'.utf8Size = 2 := by decide
    have last : 'a'.utf8Size = 1 := by decide
    rw [size_append, size, List.map_replicate, List.sum_replicate, letter, size_cons, last]
    rfl
  rw [text, trimOutput_eq, room, List.replicate_succ, List.cons_append, cutAt, if_neg (by decide)] at fits
  cases fits

end Messages

end Veloce
