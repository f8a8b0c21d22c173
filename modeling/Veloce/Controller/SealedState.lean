import Veloce.Controller.JobSecrets
import Veloce.Ha.Peer
import Veloce.Scheduler.Steps

/-! Job secrets in the state file. -/

namespace Veloce

open Collections

/-- The state file with the fields of the steps. -/
structure StateFile extends PersistedState where
  steps : HashMap StepKey StepInfo := ∅
  nextStepId : StepId := 1

namespace JobSecretsCipher

/-- The cipher of a controller that was started with or without the key. -/
def configured (cipher : Aes256Gcm) (keyed : Bool) : JobSecretsCipher := ⟨if keyed then some cipher else none⟩

def sealJobSecret (secrets : JobSecretsCipher) (nonce : Nat) (job : JobInfo) : JobInfo :=
  { job with secret := secrets.sealSecret nonce job.secret }

def openJobSecret (secrets : JobSecretsCipher) (job : JobInfo) : JobInfo :=
  { job with secret := secrets.openSecret job.secret }

def preparePersistedStateForDisk (secrets : JobSecretsCipher) (nonces : JobId → Nat) (state : StateFile) : StateFile :=
  { state with jobs := state.jobs.mapValues fun jobId => secrets.sealJobSecret (nonces jobId) }

def restorePersistedState (secrets : JobSecretsCipher) (state : StateFile) : StateFile :=
  { state with jobs := state.jobs.mapValues fun _ => secrets.openJobSecret }

end JobSecretsCipher

/-- A step in the life of the state, with the key or without it. -/
inductive SealingStep where
  | prepare (keyed : Bool) (nonces : JobId → Nat)
  | restore (keyed : Bool)

namespace SealingStep

def apply (cipher : Aes256Gcm) (state : StateFile) : SealingStep → StateFile
  | .prepare keyed nonces => (JobSecretsCipher.configured cipher keyed).preparePersistedStateForDisk nonces state
  | .restore keyed => (JobSecretsCipher.configured cipher keyed).restorePersistedState state

/-- What the step makes of the secret of a job. -/
def rewrite (cipher : Aes256Gcm) (step : SealingStep) (jobId : JobId) (secret : String) : String :=
  match step with
  | .prepare keyed nonces => (JobSecretsCipher.configured cipher keyed).sealSecret (nonces jobId) secret
  | .restore keyed => (JobSecretsCipher.configured cipher keyed).openSecret secret

def run (cipher : Aes256Gcm) (steps : List SealingStep) (state : StateFile) : StateFile :=
  steps.foldl (apply cipher) state

end SealingStep

def StateFile.withSecrets (state : StateFile) (secrets : JobId → String) : StateFile :=
  { state with jobs := state.jobs.mapValues fun jobId job => { job with secret := secrets jobId } }

/-- A ciphertext of the secret that the key opens. -/
structure SealedUnder (cipher : Aes256Gcm) (secret stored : String) : Prop where
  encrypted : ∃ nonce, (JobSecretsCipher.configured cipher true).encrypt nonce secret = some stored
  marked : JobSecretsCipher.isEncrypted stored = true
  opens : (JobSecretsCipher.configured cipher true).decrypt stored = some secret

/-- The secret itself or a ciphertext of it. -/
def Recoverable (cipher : Aes256Gcm) (secret stored : String) : Prop := stored = secret ∨ SealedUnder cipher secret stored

section Secret

variable {cipher : Aes256Gcm} {secret stored : String}

/-- Sealing neither seals twice nor loses a secret. -/
theorem Recoverable.sealSecret (recoverable : Recoverable cipher secret stored) (keyed : Bool) (nonce : Nat) :
    Recoverable cipher secret ((JobSecretsCipher.configured cipher keyed).sealSecret nonce stored) := by
  rw [JobSecretsCipher.sealSecret]
  split
  · exact recoverable
  · rename_i open'
    rw [not_or] at open'
    rcases recoverable with rfl | sealed
    · cases encrypted : (JobSecretsCipher.configured cipher keyed).encrypt nonce stored with
      | none => exact .inl rfl
      | some enc =>
        obtain ⟨_, marked, opens⟩ := JobSecretsCipher.decrypt_encrypt open'.1 encrypted
        cases keyed with
        | true => exact .inr ⟨⟨nonce, encrypted⟩, marked, opens⟩
        | false =>
          rw [JobSecretsCipher.encrypt, if_neg open'.1] at encrypted
          cases encrypted
    · exact absurd sealed.marked open'.2

/-- Without the key the column for the plain text is written. -/
private theorem JobSecretsCipher.encodeForStorage_unkeyed (nonce : Nat) (secret : String) :
    (JobSecretsCipher.configured cipher false).encodeForStorage nonce secret = ⟨secret, none⟩ := by
  rw [JobSecretsCipher.encodeForStorage]
  split
  · rename_i empty
    rw [empty]
  · rfl

private theorem JobSecretsCipher.decodeAtRest_legacy {secrets : JobSecretsCipher}
    (plain : JobSecretsCipher.isEncrypted secret = false) : secrets.decodeAtRest none secret = secret := by
  simp [JobSecretsCipher.decodeAtRest, plain]

theorem SealedUnder.nonempty (sealed : SealedUnder cipher secret stored) : stored ≠ "" := by
  rintro rfl
  exact absurd sealed.marked (by decide)

theorem Recoverable.openSecret (recoverable : Recoverable cipher secret stored)
    (plain : JobSecretsCipher.isEncrypted secret = false) (keyed : Bool) :
    Recoverable cipher secret ((JobSecretsCipher.configured cipher keyed).openSecret stored) := by
  rw [JobSecretsCipher.openSecret]
  split
  · exact recoverable
  · rcases recoverable with rfl | sealed
    · rw [plain]
      exact .inl rfl
    · rw [if_pos sealed.marked]
      cases keyed with
      | true =>
        rw [sealed.opens]
        exact .inl rfl
      | false =>
        have closed : (JobSecretsCipher.configured cipher false).decrypt stored = none := by
          rw [JobSecretsCipher.decrypt, if_neg sealed.nonempty, sealed.marked]
          rfl
        rw [closed]
        exact .inr sealed

private theorem Recoverable.open_keyed (recoverable : Recoverable cipher secret stored)
    (plain : JobSecretsCipher.isEncrypted secret = false) :
    (JobSecretsCipher.configured cipher true).openSecret stored = secret := by
  rw [JobSecretsCipher.openSecret]
  rcases recoverable with rfl | sealed
  · rw [plain]
    exact ite_self _
  · rw [if_neg sealed.nonempty, if_pos sealed.marked, sealed.opens]
    rfl

private theorem Recoverable.seal_keyed (recoverable : Recoverable cipher secret stored) (filled : secret ≠ "")
    (plain : JobSecretsCipher.isEncrypted secret = false) (nonce : Nat)
    (encrypts : (cipher.encrypt (generateNonce nonce) (asBytes secret)).isSome = true) :
    SealedUnder cipher secret ((JobSecretsCipher.configured cipher true).sealSecret nonce stored) := by
  rw [JobSecretsCipher.sealSecret]
  rcases recoverable with rfl | sealed
  · obtain ⟨ciphertext, encrypted⟩ := Option.isSome_iff_exists.mp encrypts
    have whole : (JobSecretsCipher.configured cipher true).encrypt nonce stored =
        some ("v1:" ++ String.ofList (Base64.encode (generateNonce nonce ++ ciphertext))) := by
      rw [JobSecretsCipher.encrypt, if_neg filled, JobSecretsCipher.configured, if_pos rfl, Option.bind_some, encrypted,
        Option.map_some]
    obtain ⟨_, marked, opens⟩ := JobSecretsCipher.decrypt_encrypt filled whole
    rw [if_neg (by simp [filled, plain]), whole]
    exact ⟨⟨nonce, whole⟩, marked, opens⟩
  · rw [if_pos (.inr sealed.marked)]
    exact sealed

end Secret

section Run

variable {cipher : Aes256Gcm} {state : StateFile} {secrets : JobId → String}

/-- A step touches nothing but the secrets. -/
private theorem SealingStep.apply_withSecrets (step : SealingStep) :
    step.apply cipher (state.withSecrets secrets) = state.withSecrets fun jobId => step.rewrite cipher jobId (secrets jobId) := by
  cases step with
  | prepare keyed nonces =>
    simp only [SealingStep.apply, JobSecretsCipher.preparePersistedStateForDisk, StateFile.withSecrets,
      HashMap.mapValues_mapValues]
    rfl
  | restore keyed =>
    simp only [SealingStep.apply, JobSecretsCipher.restorePersistedState, StateFile.withSecrets,
      HashMap.mapValues_mapValues]
    rfl

private theorem SealingStep.rewrite_recoverable {secret stored : String} (step : SealingStep) (jobId : JobId)
    (plain : JobSecretsCipher.isEncrypted secret = false) (recoverable : Recoverable cipher secret stored) :
    Recoverable cipher secret (step.rewrite cipher jobId stored) := by
  cases step with
  | prepare keyed nonces => exact recoverable.sealSecret keyed (nonces jobId)
  | restore keyed => exact recoverable.openSecret plain keyed

private theorem StateFile.withSecrets_congr {secrets' : JobId → String} (same : ∀ jobId job, state.jobs.get? jobId = some job →
    secrets jobId = secrets' jobId) : state.withSecrets secrets = state.withSecrets secrets' := by
  have jobs : (state.jobs.mapValues fun jobId job => { job with secret := secrets jobId }) =
      state.jobs.mapValues fun jobId job => { job with secret := secrets' jobId } :=
    HashMap.mapValues_congr fun jobId job stored => by rw [same jobId job stored]
  rw [StateFile.withSecrets, jobs, StateFile.withSecrets]

def StateFile.jobSecrets (state : StateFile) (jobId : JobId) : String := ((state.jobs.get? jobId).map JobInfo.secret).getD ""

private theorem StateFile.jobSecrets_of_get? {jobId : JobId} {job : JobInfo} (stored : state.jobs.get? jobId = some job) :
    state.jobSecrets jobId = job.secret := by
  rw [StateFile.jobSecrets, stored]
  rfl

private theorem StateFile.withSecrets_own : state.withSecrets state.jobSecrets = state := by
  have jobs : (state.jobs.mapValues fun jobId job => { job with secret := state.jobSecrets jobId }) = state.jobs := by
    refine (HashMap.mapValues_congr fun jobId job stored => ?_).trans (HashMap.mapValues_self _)
    rw [state.jobSecrets_of_get? stored]
  rw [StateFile.withSecrets, jobs]

private theorem StateFile.get?_withSecrets {jobId : JobId} {job : JobInfo} (stored : state.jobs.get? jobId = some job) :
    (state.withSecrets secrets).jobs.get? jobId = some { job with secret := secrets jobId } := by
  rw [StateFile.withSecrets, HashMap.get?_mapValues, stored]
  rfl

/-- Any history of steps changes only the secrets, and each stays recoverable. -/
private theorem SealingStep.run_withSecrets (plain : ∀ jobId job, state.jobs.get? jobId = some job →
      JobSecretsCipher.isEncrypted job.secret = false) (steps : List SealingStep) :
    ∃ secrets, SealingStep.run cipher steps state = state.withSecrets secrets ∧
      ∀ jobId job, state.jobs.get? jobId = some job → Recoverable cipher job.secret (secrets jobId) := by
  induction steps using List.reverseRecOn with
  | nil =>
    refine ⟨state.jobSecrets, state.withSecrets_own.symm, fun jobId job stored => ?_⟩
    exact .inl (state.jobSecrets_of_get? stored)
  | append_singleton steps step ih =>
    obtain ⟨secrets, ran, recoverable⟩ := ih
    refine ⟨fun jobId => step.rewrite cipher jobId (secrets jobId), ?_, fun jobId job stored => ?_⟩
    · rw [SealingStep.run, List.foldl_append, List.foldl_cons, List.foldl_nil, ← step.apply_withSecrets, ← ran]
      rfl
    · exact step.rewrite_recoverable jobId (plain jobId job stored) (recoverable jobId job stored)

/-- In every history each job's secret is the original or a ciphertext of it that the key
opens and nothing else changes; a prepare with the key seals what the cipher encrypts, and a
restore with the key brings back the whole state. A column is read back with the key
whatever it was written with. -/
theorem secrets_survive_sealing (cipher : Aes256Gcm) (state : StateFile)
    (plain : ∀ jobId job, state.jobs.get? jobId = some job → JobSecretsCipher.isEncrypted job.secret = false)
    (steps : List SealingStep) :
    (∃ secrets, SealingStep.run cipher steps state = state.withSecrets secrets ∧
      ∀ jobId job, state.jobs.get? jobId = some job → Recoverable cipher job.secret (secrets jobId)) ∧
    (∀ nonces jobId job, state.jobs.get? jobId = some job → job.secret ≠ "" →
      (cipher.encrypt (generateNonce (nonces jobId)) (asBytes job.secret)).isSome = true →
      ∃ job', (SealingStep.run cipher (steps ++ [.prepare true nonces]) state).jobs.get? jobId = some job' ∧
        SealedUnder cipher job.secret job'.secret) ∧
    SealingStep.run cipher (steps ++ [.restore true]) state = state ∧
    (∀ keyed nonce secret, JobSecretsCipher.isEncrypted secret = false →
      (JobSecretsCipher.configured cipher true).decodeAtRest
        ((JobSecretsCipher.configured cipher keyed).encodeForStorage nonce secret).secretEnc
        ((JobSecretsCipher.configured cipher keyed).encodeForStorage nonce secret).secretColumn = secret) := by
  have history := @SealingStep.run_withSecrets cipher _ plain steps
  refine ⟨history, fun nonces jobId job stored filled encrypts => ?_, ?_, fun keyed nonce secret unmarked => ?_⟩
  · obtain ⟨secrets, ran, recoverable⟩ := history
    have last : SealingStep.run cipher (steps ++ [.prepare true nonces]) state =
        SealingStep.apply cipher (state.withSecrets secrets) (.prepare true nonces) := by
      rw [← ran, SealingStep.run, List.foldl_append]
      rfl
    have sealed := (recoverable jobId job stored).seal_keyed filled (plain jobId job stored) (nonces jobId) encrypts
    refine ⟨{ job with secret := _ }, ?_, sealed⟩
    rw [last, SealingStep.apply_withSecrets]
    exact state.get?_withSecrets stored
  · obtain ⟨secrets, ran, recoverable⟩ := history
    have last : SealingStep.run cipher (steps ++ [.restore true]) state =
        SealingStep.apply cipher (state.withSecrets secrets) (.restore true) := by
      rw [← ran, SealingStep.run, List.foldl_append]
      rfl
    rw [last, SealingStep.apply_withSecrets]
    refine Eq.trans (StateFile.withSecrets_congr fun jobId job stored => ?_) state.withSecrets_own
    rw [state.jobSecrets_of_get? stored]
    exact (recoverable jobId job stored).open_keyed (plain jobId job stored)
  · cases keyed with
    | true => rw [JobSecretsCipher.decode_encode, if_neg (by simp [unmarked])]
    | false => rw [JobSecretsCipher.encodeForStorage_unkeyed, JobSecretsCipher.decodeAtRest_legacy unmarked]

/-- The key stream of AES-256-GCM under the key of 32 bytes 7 with the nonce of 12 bytes 0. -/
def sevensKeyStream : List UInt8 := [97, 216, 164, 178, 251, 146, 11, 232, 225, 7, 143, 100, 196, 123, 75, 174]

def sevensTag : List UInt8 := [219, 114, 72, 126, 110, 67, 58, 165, 139, 158, 61, 246, 199, 213, 83, 140]

def masked (text : List UInt8) : List UInt8 := text.mapIdx fun index byte => byte ^^^ sevensKeyStream.getD (index % 16) 0

private theorem masked_masked (text : List UInt8) : masked (masked text) = text := by
  refine List.ext_getElem (by simp [masked]) fun index _ _ => ?_
  simp only [masked, List.getElem_mapIdx, UInt8.xor_assoc, UInt8.xor_self, UInt8.xor_zero]

/-- A cipher that has this key stream over and over, and this tag on every text. -/
def sevensCipher : Aes256Gcm where
  encrypt _ plaintext := some (masked plaintext ++ sevensTag)
  decrypt _ ciphertext := some (masked (ciphertext.take (ciphertext.length - 16)))
  opens nonce plaintext ciphertext encrypted := by
    cases encrypted
    have width : sevensTag.length = 16 := rfl
    simp [width, masked_masked]
  tagged nonce plaintext ciphertext encrypted := by
    cases encrypted
    have width : sevensTag.length = 16 := rfl
    simp [masked, width]

def launchedState : StateFile where
  jobs := HashMap.insert ∅ 1 { id := 1, binary := "test", reqNodes := 1, reqCores := 1, reqMemory := 100, userId := "alice", secret := "launch-token-42" }

/-- A state that is written with the key and loaded first without it and then with it. -/
theorem launched_secret_survives :
    (JobSecretsCipher.configured sevensCipher true).encrypt 0 "launch-token-42" =
      some "v1:AAAAAAAAAAAAAAAADbnR3Jj6JpyObOoK6U9523JIfm5DOqWLnj32x9VTjA==" ∧
    SealingStep.run sevensCipher ([.prepare true fun _ => 0, .restore false] ++ [.restore true]) launchedState = launchedState := by
  refine ⟨by decide +kernel, ?_⟩
  refine (secrets_survive_sealing sevensCipher launchedState (fun jobId job stored => ?_) _).2.2.1
  rw [launchedState, HashMap.get?_insert] at stored
  split at stored
  · cases stored
    decide
  · cases stored

end Run

end Veloce
