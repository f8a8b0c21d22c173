import Veloce.Fileserver.S3Containment
import Veloce.Fileserver.S3Holdings

/-! Where the local store has its files: an object at its key, the headers of the object
beside it, and the parts of an upload in the directory of the upload. -/

namespace Veloce

open Collections Path

def S3Site.inBucket (site : S3Site) (bucket : String) (path : List String) : List String :=
  site.resolve site.stagingDir ++ "s3" :: bucket :: path

section Locations

variable {site : S3Site} {bucket bucket' key key' uploadId : String} {path path' : List String}

theorem inBucket_inj : site.inBucket bucket path = site.inBucket bucket' path' ↔ bucket = bucket' ∧ path = path' := by
  rw [S3Site.inBucket, S3Site.inBucket, List.append_cancel_left_eq, List.cons.injEq, List.cons.injEq]
  exact and_iff_right rfl

theorem inBucket_append (rest : List String) : site.inBucket bucket (path ++ rest) = site.inBucket bucket path ++ rest := by
  rw [S3Site.inBucket, S3Site.inBucket, List.append_assoc]
  rfl

theorem bucketRoot_eq (proper : IsName bucket) (other : bucket ≠ "legacy") :
    site.bucketRoot bucket = site.inBucket bucket [] := by
  rw [S3Site.bucketRoot, if_neg other, pieces_of_unslashed proper.unslashed]
  rfl

theorem namesOnly_of_isName (proper : IsName bucket) : NamesOnly bucket := by
  intro name member
  rw [pieces_of_unslashed proper.unslashed] at member
  exact List.mem_singleton.mp member ▸ proper

theorem resolve_bucket (site : S3Site) (proper : IsName bucket) (other : bucket ≠ "legacy") :
    site.resolve (site.getS3BucketDir bucket) = site.inBucket bucket [] := by
  rw [resolve_bucketDir (namesOnly_of_isName proper), bucketRoot_eq proper other]

theorem trimKey_of_relative (relative : isAbsolute key = false) : S3Site.trimKey key = key := by
  have apart : ['/'].isPrefixOf key.toList = false := by
    rw [isAbsolute, decide_eq_false_iff_not] at relative
    cases chars : key.toList with
    | nil => rfl
    | cons first rest =>
      rw [chars, List.head?_cons, Option.some.injEq] at relative
      simp [List.isPrefixOf, Ne.symm relative]
  rw [S3Site.trimKey, trimStartMatches, show "/".toList = ['/'] from rfl, trimStart_of_not_prefix apart, String.ofList_toList]

/-- The last name of a key is longer in the key of its headers. -/
theorem pieces_metaPath (key : String) :
    ∃ front last, pieces key = front ++ [last] ∧ pieces (S3Site.metaPath key) = front ++ [last ++ ".meta.json"] :=
  pieces_append_unslashed key (by decide)

theorem length_pieces_metaPath (key : String) : (pieces (S3Site.metaPath key)).length = (pieces key).length := by
  obtain ⟨front, last, whole, longer⟩ := pieces_metaPath key
  rw [whole, longer, List.length_append, List.length_append]
  rfl

theorem dropLast_pieces_metaPath (key : String) : (pieces (S3Site.metaPath key)).dropLast = (pieces key).dropLast := by
  obtain ⟨front, last, whole, longer⟩ := pieces_metaPath key
  rw [whole, longer, List.dropLast_concat, List.dropLast_concat]

theorem metaPath_inj : S3Site.metaPath key = S3Site.metaPath key' ↔ key = key' := by
  refine ⟨fun same => ?_, congrArg _⟩
  have chars := congrArg String.toList same
  rw [S3Site.metaPath, S3Site.metaPath, String.toList_append, String.toList_append] at chars
  exact String.toList_inj.mp (List.append_cancel_right chars)

theorem metaPath_ne : S3Site.metaPath key ≠ key := by
  intro same
  have longer := congrArg String.length same
  rw [S3Site.metaPath, String.length_append, show ".meta.json".length = 10 from rfl] at longer
  omega

theorem namesOnly_metaPath (named : NamesOnly key) : NamesOnly (S3Site.metaPath key) := by
  obtain ⟨front, last, whole, longer⟩ := pieces_metaPath key
  intro name member
  rw [longer] at member
  rcases List.mem_append.mp member with member | member
  · exact named name (whole ▸ List.mem_append_left _ member)
  · rw [List.mem_singleton.mp member]
    have unslashed := (named last (whole ▸ List.mem_append_right _ List.mem_cons_self)).unslashed
    exact isName_append_suffix unslashed (by decide) (by decide)

theorem resolve_object (site : S3Site) (proper : IsName bucket) (other : bucket ≠ "legacy") (named : NamesOnly key) :
    site.resolve (site.getS3FilePath bucket key) = site.inBucket bucket (pieces key) := by
  rw [resolve_filePath (namesOnly_of_isName proper), trimKey_of_relative (isAbsolute_of_named named), walk_names named,
    bucketRoot_eq proper other, ← inBucket_append, List.nil_append]

theorem metaPath_filePath (other : bucket ≠ "legacy") (named : NamesOnly key) :
    S3Site.metaPath (site.getS3FilePath bucket key) = site.getS3FilePath bucket (S3Site.metaPath key) := by
  have relative := isAbsolute_of_named named
  have relative' := isAbsolute_of_named (namesOnly_metaPath named)
  rw [S3Site.getS3FilePath, S3Site.getS3FilePath, if_neg other, if_neg other, trimKey_of_relative relative,
    trimKey_of_relative relative', join_of_relative _ relative, join_of_relative _ relative', S3Site.metaPath, S3Site.metaPath]
  split
  · rw [String.append_assoc]
  · rw [String.append_assoc]

theorem resolve_headers (site : S3Site) (proper : IsName bucket) (other : bucket ≠ "legacy") (named : NamesOnly key) :
    site.resolve (S3Site.metaPath (site.getS3FilePath bucket key)) = site.inBucket bucket (pieces (S3Site.metaPath key)) := by
  rw [metaPath_filePath other named, resolve_object site proper other (namesOnly_metaPath named)]

theorem resolve_upload (site : S3Site) (proper : IsName bucket) (other : bucket ≠ "legacy") (id : IsName uploadId) :
    site.resolve (site.uploadDir bucket uploadId) = site.inBucket bucket [".veloce_multipart", uploadId] := by
  have names : ∀ name ∈ [".veloce_multipart", uploadId], IsName name := by
    intro name member
    rcases List.mem_pair.mp member with rfl | rfl
    · decide
    · exact id
  rw [resolve_uploadDir (namesOnly_of_isName proper), if_neg (Bool.eq_false_iff.mp (isAbsolute_of_isName id)),
    pieces_of_unslashed id.unslashed, walk_names names, bucketRoot_eq proper other, ← inBucket_append]
  rfl

theorem resolve_part (site : S3Site) (proper : IsName bucket) (other : bucket ≠ "legacy") (id : IsName uploadId)
    (partNumber : Nat) :
    site.resolve (join (site.uploadDir bucket uploadId) (toString partNumber)) =
      site.inBucket bucket [".veloce_multipart", uploadId, toString partNumber] := by
  rw [resolve_join_name (isName_toString partNumber), resolve_upload site proper other id, ← inBucket_append]
  rfl

theorem straight_object (site : S3Site) (proper : IsName bucket) (other : bucket ≠ "legacy") (named : NamesOnly key) :
    FileTree.Straight (site.getS3FilePath bucket key) := by
  have relative := isAbsolute_of_named named
  have base := (straight_bucketDir site other (namesOnly_of_isName proper)).onward
  rw [S3Site.getS3BucketDir, if_neg other] at base
  rw [S3Site.getS3FilePath, if_neg other, trimKey_of_relative relative]
  exact FileTree.straight_join base relative named

theorem straight_headers (site : S3Site) (proper : IsName bucket) (other : bucket ≠ "legacy") (named : NamesOnly key) :
    FileTree.Straight (S3Site.metaPath (site.getS3FilePath bucket key)) := by
  rw [metaPath_filePath other named]
  exact straight_object site proper other (namesOnly_metaPath named)

theorem straight_upload (site : S3Site) (proper : IsName bucket) (id : IsName uploadId) :
    FileTree.Straight (site.uploadDir bucket uploadId) := by
  have base := onward_bucketDir site (namesOnly_of_isName proper)
  exact FileTree.straight_join (onward_join base rfl (by decide)) (isAbsolute_of_isName id) (namesOnly_of_isName id)

/-- The file of a key is not one for headers. -/
theorem OwnKey.ne_metaPath (own : OwnKey key) (other : String) : pieces key ≠ pieces (S3Site.metaPath other) := by
  obtain ⟨front, last, _, longer⟩ := pieces_metaPath other
  intro same
  have ends := own.notHeaders
  rw [same, longer, List.getLastD_concat, endsWith, String.toList_append, List.isSuffixOf_iff_suffix.mpr (List.suffix_append ..)] at ends
  cases ends

theorem OwnKey.ne_part (own : OwnKey key) (rest : List String) : pieces key ≠ ".veloce_multipart" :: rest :=
  fun same => own.notPart (by rw [same]; rfl)

theorem OwnKey.metaPath_ne_part (own : OwnKey key) (rest : List String) :
    pieces (S3Site.metaPath key) ≠ ".veloce_multipart" :: rest := by
  obtain ⟨front, last, whole, longer⟩ := pieces_metaPath key
  intro same
  rw [longer] at same
  cases front with
  | nil =>
    have ends : ".meta.json".toList.isSuffixOf (last ++ ".meta.json").toList = true := by
      rw [String.toList_append]
      exact List.isSuffixOf_iff_suffix.mpr (List.suffix_append ..)
    rw [(List.cons.inj same).1] at ends
    exact absurd ends (by decide)
  | cons first others =>
    refine own.ne_part (others ++ [last]) ?_
    rw [whole, ← (List.cons.inj same).1]
    rfl

end Locations

end Veloce
