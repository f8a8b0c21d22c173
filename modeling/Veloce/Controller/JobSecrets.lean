import Veloce.Collections.Base64
import Veloce.Collections.Frames
import Veloce.Common.JobPolicy

/-! Job secrets at rest. -/

namespace Veloce

open Collections

/-- AES-256-GCM under one key. A ciphertext ends with a tag of 16 bytes. -/
structure Aes256Gcm where
  encrypt : (nonce plaintext : List UInt8) → Option (List UInt8)
  decrypt : (nonce ciphertext : List UInt8) → Option (List UInt8)
  opens : ∀ nonce plaintext ciphertext, encrypt nonce plaintext = some ciphertext → decrypt nonce ciphertext = some plaintext
  tagged : ∀ nonce plaintext ciphertext, encrypt nonce plaintext = some ciphertext → ciphertext.length = plaintext.length + 16

def nonceLen : Nat := 12

def generateNonce (random : Nat) : List UInt8 := toBeBytes nonceLen random

def asBytes (text : String) : List UInt8 := text.toByteArray.data.toList

def fromUtf8 (bytes : List UInt8) : Option String := String.fromUTF8? ⟨bytes.toArray⟩

private theorem fromUtf8_asBytes (text : String) : fromUtf8 (asBytes text) = some text := by
  simp [fromUtf8, asBytes, String.fromUTF8?, text.isValidUTF8, String.fromUTF8]

/-- Without a master key there is no cipher. -/
structure JobSecretsCipher where
  cipher : Option Aes256Gcm := none

structure SecretAtRest where
  secretColumn : String
  secretEnc : Option String

namespace JobSecretsCipher

def enabled (secrets : JobSecretsCipher) : Bool := secrets.cipher.isSome

def isEncrypted (stored : String) : Bool := beginsWith stored "v1:"

def encrypt (secrets : JobSecretsCipher) (nonce : Nat) (plaintext : String) : Option String :=
  if plaintext = "" then some ""
  else secrets.cipher.bind fun cipher =>
    (cipher.encrypt (generateNonce nonce) (asBytes plaintext)).map fun ciphertext =>
      "v1:" ++ String.ofList (Base64.encode (generateNonce nonce ++ ciphertext))

def decrypt (secrets : JobSecretsCipher) (stored : String) : Option String :=
  if stored = "" then some ""
  else if !isEncrypted stored then some stored
  else secrets.cipher.bind fun cipher =>
    (Base64.decode (trimStartMatches stored "v1:").toList).bind fun blob =>
      if blob.length ≤ nonceLen then none
      else (cipher.decrypt (blob.take nonceLen) (blob.drop nonceLen)).bind fromUtf8

/-- What the database stores; a secret that cannot be encrypted is stored as it is. -/
def encodeForStorage (secrets : JobSecretsCipher) (nonce : Nat) (plaintext : String) : SecretAtRest :=
  if plaintext = "" then ⟨"", none⟩
  else if !secrets.enabled then ⟨plaintext, none⟩
  else
    match secrets.encrypt nonce plaintext with
    | some enc => ⟨"", some enc⟩
    | none => ⟨plaintext, none⟩

def decodeAtRest (secrets : JobSecretsCipher) (secretEnc : Option String) (secretLegacy : String) : String :=
  ((secretEnc.filter (· ≠ "")).bind secrets.decrypt).getD
    (if isEncrypted secretLegacy then (secrets.decrypt secretLegacy).getD "" else secretLegacy)

/-- What the file store writes in the place of the secret. -/
def sealSecret (secrets : JobSecretsCipher) (nonce : Nat) (secret : String) : String :=
  if secret = "" ∨ isEncrypted secret then secret else (secrets.encrypt nonce secret).getD secret

def openSecret (secrets : JobSecretsCipher) (secret : String) : String :=
  if secret = "" then secret
  else if isEncrypted secret then (secrets.decrypt secret).getD secret
  else secret

def sealUsageSecret (secrets : JobSecretsCipher) (nonce : Nat) (usage : JobUsage) : JobUsage :=
  { usage with secret := secrets.sealSecret nonce usage.secret }

def openUsageSecret (secrets : JobSecretsCipher) (usage : JobUsage) : JobUsage :=
  { usage with secret := secrets.openSecret usage.secret }

end JobSecretsCipher

namespace JobSecretsCipher

variable (secrets : JobSecretsCipher)

private theorem isEncrypted_prefixed (blob : String) : isEncrypted ("v1:" ++ blob) = true := by
  simp [isEncrypted, beginsWith, String.toList_append]

/-- A nonce and a ciphertext behind the prefix are taken apart again. -/
private theorem decrypt_framed {cipher : Aes256Gcm} {nonce ciphertext : List UInt8} (key : secrets.cipher = some cipher)
    (width : nonce.length = nonceLen) (filled : ciphertext ≠ []) :
    secrets.decrypt ("v1:" ++ String.ofList (Base64.encode (nonce ++ ciphertext))) =
      (cipher.decrypt nonce ciphertext).bind fromUtf8 := by
  have nonempty : "v1:" ++ String.ofList (Base64.encode (nonce ++ ciphertext)) ≠ "" := by
    intro empty
    have chars := congrArg String.toList empty
    simp [String.toList_append] at chars
  have plain : beginsWith (String.ofList (Base64.encode (nonce ++ ciphertext))) "v1:" = false := by
    rw [Bool.eq_false_iff]
    intro starts
    obtain ⟨rest, same⟩ := beginsWith_iff.mp starts
    refine Base64.colon_notMem_encode (nonce ++ ciphertext) ?_
    rw [← String.toList_ofList (l := Base64.encode (nonce ++ ciphertext)), ← same]
    simp
  have long : ¬ (nonce ++ ciphertext).length ≤ nonceLen := by
    have positive := List.length_pos_iff.mpr filled
    rw [List.length_append, width]
    omega
  rw [decrypt, if_neg nonempty, isEncrypted_prefixed, if_neg (by decide), key, Option.bind_some,
    trimStartMatches_append (by decide) plain, String.toList_ofList, Base64.decode_encode, Option.bind_some, if_neg long,
    List.take_left' width, List.drop_left' width]

theorem decrypt_encrypt {secrets : JobSecretsCipher} {nonce : Nat} {plaintext enc : String} (nonempty : plaintext ≠ "")
    (encrypted : secrets.encrypt nonce plaintext = some enc) :
    enc ≠ "" ∧ isEncrypted enc = true ∧ secrets.decrypt enc = some plaintext := by
  rw [encrypt, if_neg nonempty] at encrypted
  obtain ⟨cipher, key, written⟩ := Option.bind_eq_some_iff.mp encrypted
  obtain ⟨ciphertext, sealed, rfl⟩ := Option.map_eq_some_iff.mp written
  have width : (generateNonce nonce).length = nonceLen := length_toBeBytes _ _
  have filled : ciphertext ≠ [] := by
    have tagged := cipher.tagged _ _ _ sealed
    exact List.ne_nil_of_length_pos (by omega)
  refine ⟨fun empty => ?_, isEncrypted_prefixed _, ?_⟩
  · have chars := congrArg String.toList empty
    simp [String.toList_append] at chars
  · rw [decrypt_framed secrets key width filled, cipher.opens _ _ _ sealed]
    exact fromUtf8_asBytes plaintext

/-- The secret as the database returns it: one that looks encrypted and was stored as it is
is taken for a ciphertext. -/
theorem decode_encode (nonce : Nat) (secret : String) :
    secrets.decodeAtRest (secrets.encodeForStorage nonce secret).secretEnc
        (secrets.encodeForStorage nonce secret).secretColumn =
      if isEncrypted secret = true ∧ secrets.encrypt nonce secret = none then (secrets.decrypt secret).getD ""
      else secret := by
  by_cases empty : secret = ""
  · subst empty
    rfl
  unfold encodeForStorage
  rw [if_neg empty]
  cases enabled : secrets.enabled with
  | false =>
    have off : secrets.encrypt nonce secret = none := by
      have none : secrets.cipher = none := by simpa [JobSecretsCipher.enabled] using enabled
      rw [encrypt, if_neg empty, none]
      rfl
    cases looks : isEncrypted secret <;> simp [decodeAtRest, off, looks]
  | true =>
    cases encrypted : secrets.encrypt nonce secret with
    | none => cases looks : isEncrypted secret <;> simp [decodeAtRest, looks]
    | some enc =>
      obtain ⟨filled, _, opens⟩ := decrypt_encrypt empty encrypted
      simp [decodeAtRest, Option.filter_some, filled, opens]

/-- The secret as the file returns it: one that looks encrypted was written as it is. -/
theorem open_seal (nonce : Nat) (secret : String) :
    secrets.openSecret (secrets.sealSecret nonce secret) =
      if isEncrypted secret then (secrets.decrypt secret).getD secret else secret := by
  by_cases empty : secret = ""
  · subst empty
    rfl
  unfold sealSecret
  cases looks : isEncrypted secret with
  | true => simp [openSecret, empty, looks]
  | false =>
    rw [if_neg (by simp [empty])]
    cases encrypted : secrets.encrypt nonce secret with
    | none => simp [openSecret, looks]
    | some enc =>
      obtain ⟨filled, sealed, opens⟩ := decrypt_encrypt empty encrypted
      simp [openSecret, filled, sealed, opens]

end JobSecretsCipher

end Veloce
