import Veloce.Fileserver.S3Locations

/-! The files of the local store mirror its holdings, and the operations on the holdings are
changes of a file, or of a directory, that keep it so. -/

namespace Veloce

open Collections Path

/-- A path of a file in a bucket. -/
inductive StoreFile : List String → Prop where
  | object {key : String} (own : OwnKey key) : StoreFile (pieces key)
  | headers {key : String} (own : OwnKey key) : StoreFile (pieces (S3Site.metaPath key))
  | part (uploadId : String) (partNumber : Nat) : StoreFile [".veloce_multipart", uploadId, toString partNumber]

namespace S3Site

variable (site : S3Site)

/-- An object in the store, whose headers can be read. -/
structure Kept (bucket key : String) (object : S3Object) : Prop where
  bucketName : IsName bucket
  other : bucket ≠ "legacy"
  ownKey : OwnKey key
  shown : '\\' ∉ key.toList
  amz : metaOf object.headers = object.headers
  readable : Readable object.headers
  readsBack : object.headers ≠ [] → site.ReadsBack object.headers

/-- What is in the second file of an object, if it has one. -/
def headersFile (object : S3Object) : Option Bytes :=
  if object.headers = [] then none else some (site.toJson (amzMeta object.headers))

structure Mirrors (tree : FileTree String Bytes) (holdings : Holdings) : Prop where
  rooted : tree.Rooted
  objects : ∀ bucket key, OwnKey key →
    tree.read? (site.inBucket bucket (pieces key)) = (holdings.objects.get? (bucket, key)).map S3Object.bytes
  headers : ∀ bucket key, OwnKey key →
    tree.read? (site.inBucket bucket (pieces (metaPath key))) = (holdings.objects.get? (bucket, key)).bind site.headersFile
  parts : ∀ bucket uploadId partNumber, tree.read? (site.inBucket bucket [".veloce_multipart", uploadId, toString partNumber]) =
    holdings.parts.get? (bucket, uploadId, partNumber)
  files : ∀ bucket path bytes, tree.read? (site.inBucket bucket path) = some bytes → StoreFile path
  kept : ∀ bucket key object, holdings.objects.get? (bucket, key) = some object → site.Kept bucket key object

end S3Site

section Mirrors

variable {site : S3Site} {tree tree' : FileTree String Bytes} {holdings : Holdings} {bucket key uploadId : String}
variable {object : S3Object} {partNumber : Nat} {bytes : Bytes}

theorem S3Site.Mirrors.of_read? (mirrors : site.Mirrors tree holdings) (rooted : tree'.Rooted)
    (same : ∀ path, tree'.read? path = tree.read? path) : site.Mirrors tree' holdings where
  rooted := rooted
  objects bucket key own := (same _).trans (mirrors.objects bucket key own)
  headers bucket key own := (same _).trans (mirrors.headers bucket key own)
  parts bucket uploadId partNumber := (same _).trans (mirrors.parts bucket uploadId partNumber)
  files bucket path bytes found := mirrors.files bucket path bytes ((same _).symm.trans found)
  kept := mirrors.kept

theorem S3Site.Mirrors.put (mirrors : site.Mirrors tree holdings) (kept : site.Kept bucket key object)
    (rooted : tree'.Rooted)
    (written : ∀ path, tree'.read? path =
      if path = site.inBucket bucket (pieces key) then some object.bytes
      else if path = site.inBucket bucket (pieces (S3Site.metaPath key)) then site.headersFile object
      else tree.read? path) :
    site.Mirrors tree' (holdings.put bucket key object) := by
  have stored (bucket' key' : String) : (holdings.put bucket key object).objects.get? (bucket', key') =
      if bucket' = bucket ∧ key' = key then some object else holdings.objects.get? (bucket', key') := by
    rw [Holdings.put, HashMap.get?_insert]
    exact if_congr Prod.mk_inj rfl rfl
  refine ⟨rooted, fun bucket' key' own => ?_, fun bucket' key' own => ?_, fun bucket' uploadId partNumber => ?_,
    fun bucket' path bytes found => ?_, fun bucket' key' object' found => ?_⟩
  · simp only [written, stored, inBucket_inj, pieces_inj, own.ne_metaPath key, and_false, if_false]
    split
    · rfl
    · exact mirrors.objects bucket' key' own
  · have apart := (kept.ownKey.ne_metaPath key').symm
    simp only [written, stored, inBucket_inj, apart, and_false, if_false, pieces_inj, metaPath_inj]
    split
    · rfl
    · exact mirrors.headers bucket' key' own
  · have apart := (kept.ownKey.ne_part [uploadId, toString partNumber]).symm
    have apart' := (kept.ownKey.metaPath_ne_part [uploadId, toString partNumber]).symm
    simp only [written, inBucket_inj, apart, apart', and_false, if_false]
    exact mirrors.parts bucket' uploadId partNumber
  · simp only [written, inBucket_inj] at found
    split at found
    · rename_i same
      exact same.2 ▸ .object kept.ownKey
    · split at found
      · rename_i same
        exact same.2 ▸ .headers kept.ownKey
      · exact mirrors.files bucket' path bytes found
  · rw [stored] at found
    split at found
    · rename_i same
      cases found
      rw [same.1, same.2]
      exact kept
    · exact mirrors.kept bucket' key' object' found

theorem S3Site.Mirrors.delete (mirrors : site.Mirrors tree holdings) (own : OwnKey key) (rooted : tree'.Rooted)
    (removed : ∀ path, tree'.read? path =
      if path = site.inBucket bucket (pieces key) ∨ path = site.inBucket bucket (pieces (S3Site.metaPath key)) then none
      else tree.read? path) :
    site.Mirrors tree' (holdings.delete bucket key) := by
  have stored (bucket' key' : String) : (holdings.delete bucket key).objects.get? (bucket', key') =
      if bucket' = bucket ∧ key' = key then none else holdings.objects.get? (bucket', key') := by
    rw [Holdings.delete, HashMap.get?_remove]
    exact if_congr Prod.mk_inj rfl rfl
  refine ⟨rooted, fun bucket' key' own' => ?_, fun bucket' key' own' => ?_, fun bucket' uploadId partNumber => ?_,
    fun bucket' path bytes found => ?_, fun bucket' key' object' found => ?_⟩
  · simp only [removed, stored, inBucket_inj, pieces_inj, own'.ne_metaPath key, and_false, or_false]
    split
    · rfl
    · exact mirrors.objects bucket' key' own'
  · have apart := (own.ne_metaPath key').symm
    simp only [removed, stored, inBucket_inj, apart, and_false, false_or, pieces_inj, metaPath_inj]
    split
    · rfl
    · exact mirrors.headers bucket' key' own'
  · have apart := (own.ne_part [uploadId, toString partNumber]).symm
    have apart' := (own.metaPath_ne_part [uploadId, toString partNumber]).symm
    simp only [removed, inBucket_inj, apart, apart', and_false, or_false, if_false]
    exact mirrors.parts bucket' uploadId partNumber
  · rw [removed] at found
    split at found
    · cases found
    · exact mirrors.files bucket' path bytes found
  · rw [stored] at found
    split at found
    · cases found
    · exact mirrors.kept bucket' key' object' found

theorem part_inj {uploadId' : String} {partNumber' : Nat} :
    [".veloce_multipart", uploadId', toString partNumber'] = [".veloce_multipart", uploadId, toString partNumber] ↔
      uploadId' = uploadId ∧ partNumber' = partNumber := by
  rw [List.cons.injEq, List.cons.injEq, List.cons.injEq, toString_inj]
  simp

theorem S3Site.Mirrors.upload (mirrors : site.Mirrors tree holdings) (rooted : tree'.Rooted)
    (written : ∀ path, tree'.read? path =
      if path = site.inBucket bucket [".veloce_multipart", uploadId, toString partNumber] then some bytes
      else tree.read? path) :
    site.Mirrors tree' (holdings.upload bucket uploadId partNumber bytes) := by
  refine ⟨rooted, fun bucket' key' own => ?_, fun bucket' key' own => ?_, fun bucket' uploadId' partNumber' => ?_,
    fun bucket' path bytes found => ?_, mirrors.kept⟩
  · simp only [written, inBucket_inj, own.ne_part, and_false, if_false]
    exact mirrors.objects bucket' key' own
  · simp only [written, inBucket_inj, own.metaPath_ne_part, and_false, if_false]
    exact mirrors.headers bucket' key' own
  · simp only [written, inBucket_inj, part_inj, Holdings.upload, HashMap.get?_insert, Prod.mk_inj]
    split
    · rfl
    · exact mirrors.parts bucket' uploadId' partNumber'
  · simp only [written, inBucket_inj] at found
    split at found
    · rename_i same
      exact same.2 ▸ .part uploadId partNumber
    · exact mirrors.files bucket' path bytes found

theorem inBucket_prefix {bucket' : String} {path path' : List String} :
    site.inBucket bucket path <+: site.inBucket bucket' path' ↔ bucket = bucket' ∧ path <+: path' := by
  rw [S3Site.inBucket, S3Site.inBucket, List.prefix_append_right_inj, List.cons_prefix_cons, List.cons_prefix_cons]
  exact and_iff_right rfl

theorem S3Site.Mirrors.abort (mirrors : site.Mirrors tree holdings) (rooted : tree'.Rooted)
    (removed : ∀ path, tree'.read? path =
      if site.inBucket bucket [".veloce_multipart", uploadId] <+: path then none else tree.read? path) :
    site.Mirrors tree' (holdings.abort bucket uploadId) := by
  refine ⟨rooted, fun bucket' key' own => ?_, fun bucket' key' own => ?_, fun bucket' uploadId' partNumber' => ?_,
    fun bucket' path bytes found => ?_, mirrors.kept⟩
  · have apart : ¬ [".veloce_multipart", uploadId] <+: pieces key' := fun ⟨rest, same⟩ => own.ne_part _ same.symm
    simp only [removed, inBucket_prefix, apart, and_false, if_false]
    exact mirrors.objects bucket' key' own
  · have apart : ¬ [".veloce_multipart", uploadId] <+: pieces (S3Site.metaPath key') :=
      fun ⟨rest, same⟩ => own.metaPath_ne_part _ same.symm
    simp only [removed, inBucket_prefix, apart, and_false, if_false]
    exact mirrors.headers bucket' key' own
  · have below : [".veloce_multipart", uploadId] <+: [".veloce_multipart", uploadId', toString partNumber'] ↔
        uploadId = uploadId' := by
      rw [List.cons_prefix_cons, List.cons_prefix_cons]
      simp
    simp only [removed, inBucket_prefix, below, Holdings.abort, HashMap.get?_retain, mirrors.parts]
    by_cases same : bucket = bucket' ∧ uploadId = uploadId'
    · rw [if_pos same, same.1, same.2]
      cases holdings.parts.get? (bucket', uploadId', partNumber') with
      | none => rfl
      | some bytes => simp
    · rw [if_neg same]
      have kept : ¬ (bucket' = bucket ∧ uploadId' = uploadId) := fun other => same ⟨other.1.symm, other.2.symm⟩
      cases holdings.parts.get? (bucket', uploadId', partNumber') with
      | none => rfl
      | some bytes => simp [kept, Option.filter]
  · rw [removed] at found
    split at found
    · cases found
    · exact mirrors.files bucket' path bytes found

end Mirrors

end Veloce
