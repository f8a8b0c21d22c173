import Veloce.Fileserver.S3

/-! Where the paths of the S3 handlers lead. -/

namespace Veloce

open Collections Path

def S3Request.bucket : S3Request → String
  | .put bucket .. => bucket
  | .get bucket _ => bucket
  | .head bucket _ => bucket
  | .delete bucket .. => bucket
  | .list bucket _ => bucket
  | .post bucket .. => bucket

/-- A name, or names with a slash between them. -/
def NamesOnly (path : String) : Prop := ∀ name ∈ pieces path, IsName name

instance (path : String) : Decidable (NamesOnly path) := inferInstanceAs (Decidable (∀ name ∈ pieces path, IsName name))

/-- On the way to the root, or below it. -/
def Along (root location : List String) : Prop := location <+: root ∨ root <+: location

namespace S3Site

variable (site : S3Site)

def bucketRoot (bucket : String) : List String :=
  if bucket = "legacy" then site.resolve site.stagingDir else site.resolve site.stagingDir ++ "s3" :: pieces bucket

/-- The call stays in the bucket: strictly below its directory, which itself is only
created and listed. A directory on the way to it may be made, too. -/
def Stays (root : List String) (touch : Touch) : Prop :=
  match touch.call with
  | .makeDir => Along root touch.location
  | .statDir | .listDir | .createDirAll => Under root touch.location
  | .stat | .openFile | .createFile | .removeFile | .removeDirAll => Inside root touch.location

def AllStay (root : List String) (disk : Disk) : Prop := ∀ touch ∈ disk.touched, Stays root touch

/-- Whatever files there are, every call for the request stays in its bucket. -/
def Contained (request : S3Request) : Prop :=
  ∀ tree, AllStay (site.bucketRoot request.bucket) (site.serve request { tree }).1

def KeyBelow (bucket key : String) : Prop :=
  NamesOnly bucket ∧ Below (site.bucketRoot bucket) (pieces (trimKey key))

/-- The upload id leads below the directory of its bucket, an absolute one from the root. -/
def UploadBelow (bucket uploadId : String) : Prop :=
  NamesOnly bucket ∧
    if isAbsolute uploadId then Inside (site.bucketRoot bucket) (reduce (pieces uploadId)).2
    else Below (site.bucketRoot bucket) (".veloce_multipart" :: pieces uploadId)

/-- The path of the key's directory goes nowhere else than along the bucket's, but for places that
are there. -/
def WayAlong (bucket key : String) (There : List String → Prop) : Prop :=
  ∀ above, parent (site.getS3FilePath bucket key) = some above → ∀ front, front <+: pieces above →
    Along (site.bucketRoot bucket) (walk (site.start above) front) ∨ There (walk (site.start above) front)

/-- The path of the upload's directory goes on from the place. -/
def Passes (bucket uploadId : String) (location : List String) : Prop :=
  ∃ front piece rest, pieces (site.uploadDir bucket uploadId) = front ++ piece :: rest ∧
    location = walk (site.start (site.uploadDir bucket uploadId)) front

/-- The names in the request keep it in its bucket. -/
def NamesBelow : S3Request → Prop
  | .put bucket key query _ _ => bucket = "legacy" ∨
    match query.partNumber, query.uploadId with
    | some _, some uploadId => site.UploadBelow bucket uploadId
    | _, _ => site.KeyBelow bucket key ∧ site.WayAlong bucket key fun _ => False
  | .get bucket key => site.KeyBelow bucket key
  | .head bucket key => site.KeyBelow bucket key
  | .delete bucket key query => bucket = "legacy" ∨
    match query.uploadId with
    | some uploadId => site.UploadBelow bucket uploadId
    | none => site.KeyBelow bucket key
  | .list bucket query => query.listType = some 2 → NamesOnly bucket
  | .post bucket key query _ _ payload => bucket = "legacy" ∨
    if query.uploads.isSome then NamesOnly bucket
    else
      match query.uploadId with
      | some uploadId => site.UploadBelow bucket uploadId ∧
          (payload.isOk → site.KeyBelow bucket key ∧ site.WayAlong bucket key (site.Passes bucket uploadId))
      | none => True

end S3Site

section Paths

variable {site : S3Site} {bucket key uploadId : String}

private theorem trimStart_slash (text : List Char) {fuel : Nat} (enough : text.length ≤ fuel) :
    trimStart ['/'] fuel text = text.dropWhile (· = '/') := by
  induction text generalizing fuel with
  | nil =>
    cases fuel with
    | zero => rfl
    | succ fuel => rfl
  | cons head tail ih =>
    obtain ⟨fuel, rfl⟩ : ∃ rest, fuel = rest + 1 := Nat.exists_eq_add_one.mpr (Nat.lt_of_lt_of_le (Nat.succ_pos _) enough)
    by_cases slash : head = '/'
    · subst slash
      have step := trimStart_append ['/'] tail fuel (List.cons_ne_nil _ _)
      exact step.trans (ih (Nat.le_of_succ_le_succ enough))
    · have apart : ['/'].isPrefixOf (head :: tail) = false := by simp [List.isPrefixOf, Ne.symm slash]
      rw [ trimStart_of_not_prefix apart, List.dropWhile_cons_of_neg (by simpa using slash)]

/-- A trimmed key never begins at the root. -/
private theorem isAbsolute_trimKey (key : String) : isAbsolute (S3Site.trimKey key) = false := by
  have trimmed : (S3Site.trimKey key).toList = key.toList.dropWhile (· = '/') := by
    rw [S3Site.trimKey, trimStartMatches, String.toList_ofList]
    exact trimStart_slash _ (Nat.le_of_eq String.length_toList)
  rw [isAbsolute, trimmed]
  refine decide_eq_false fun slash => ?_
  have stops := List.head?_dropWhile_not (fun char : Char => decide (char = '/')) key.toList
  rw [slash] at stops
  exact absurd stops (by decide)

theorem isAbsolute_of_isName {name : String} (proper : IsName name) : isAbsolute name = false := by
  rw [isAbsolute]
  exact decide_eq_false fun slash => proper.unslashed (List.mem_of_mem_head? slash)

theorem isAbsolute_of_named (named : NamesOnly bucket) : isAbsolute bucket = false := by
  refine Bool.eq_false_iff.mpr fun absolute => ?_
  obtain ⟨rest, _, split⟩ := isAbsolute_iff_pieces.mp absolute
  exact (named "" (split ▸ List.mem_cons_self)).nonempty rfl

theorem resolve_join_name {base name : String} (proper : IsName name) :
    site.resolve (join base name) = site.resolve base ++ [name] := by
  rw [S3Site.resolve, resolve_join _ _ (isAbsolute_of_isName proper), pieces_of_unslashed proper.unslashed]
  exact advance_name proper

private theorem not_up_of_named (named : NamesOnly bucket) : ".." ∉ pieces bucket := fun up => (named ".." up).notAbove rfl

theorem onward_bucketDir (site : S3Site) (named : NamesOnly bucket) : ".." ∉ pieces (site.getS3BucketDir bucket) := by
  rw [S3Site.getS3BucketDir]
  split
  · exact site.onward
  · exact onward_join (onward_join site.onward rfl (by decide)) (isAbsolute_of_named named) (not_up_of_named named)

theorem onward_uploadDir (named : NamesOnly bucket) (id : NewUploadId) : ".." ∉ pieces (site.uploadDir bucket id.text) := by
  refine onward_join (onward_join (onward_bucketDir site named) rfl (by decide)) (isAbsolute_of_isName id.proper) ?_
  rw [pieces_of_unslashed id.proper.unslashed, List.mem_singleton]
  exact id.proper.notAbove.symm

theorem straight_bucketDir (site : S3Site) (other : bucket ≠ "legacy") (named : NamesOnly bucket) :
    FileTree.Straight (site.getS3BucketDir bucket) := by
  rw [S3Site.getS3BucketDir, if_neg other]
  exact FileTree.straight_join (onward_join site.onward rfl (by decide)) (isAbsolute_of_named named) named

theorem start_bucketDir (named : NamesOnly bucket) : site.start (site.getS3BucketDir bucket) = site.start site.stagingDir := by
  rw [S3Site.getS3BucketDir]
  split
  · rfl
  · rw [S3Site.start, isAbsolute_join _ (isAbsolute_of_named named), isAbsolute_join _ rfl]
    rfl

theorem start_parent (named : NamesOnly bucket) {above : String} (found : parent (site.getS3FilePath bucket key) = some above) :
    site.start above = site.start site.stagingDir := by
  rw [S3Site.start, isAbsolute_parent found, S3Site.getS3FilePath]
  split
  · rw [isAbsolute_join _ (isAbsolute_trimKey key)]
    rfl
  · rw [isAbsolute_join _ (isAbsolute_trimKey key), isAbsolute_join _ (isAbsolute_of_named named), isAbsolute_join _ rfl]
    rfl

theorem start_uploadDir (named : NamesOnly bucket) :
    site.start (site.uploadDir bucket uploadId) = if isAbsolute uploadId then [] else site.start site.stagingDir := by
  rw [← start_bucketDir named, S3Site.start, S3Site.uploadDir]
  by_cases absolute : isAbsolute uploadId = true
  · rw [join, if_pos absolute, if_pos absolute, if_pos absolute]
  · rw [if_neg absolute, isAbsolute_join _ (Bool.eq_false_iff.mpr absolute), isAbsolute_join _ rfl]
    rfl

theorem resolve_bucketDir (named : NamesOnly bucket) : site.resolve (site.getS3BucketDir bucket) = site.bucketRoot bucket := by
  rw [S3Site.getS3BucketDir, S3Site.bucketRoot]
  split
  · rfl
  · rw [S3Site.resolve, resolve_join _ _ (isAbsolute_of_named named), walk_names named, ← S3Site.resolve,
      resolve_join_name (by decide), List.append_assoc]
    rfl

theorem resolve_filePath (named : NamesOnly bucket) (key : String) :
    site.resolve (site.getS3FilePath bucket key) = walk (site.bucketRoot bucket) (pieces (S3Site.trimKey key)) := by
  have joined : site.getS3FilePath bucket key = join (site.getS3BucketDir bucket) (S3Site.trimKey key) := by
    rw [S3Site.getS3FilePath, S3Site.getS3BucketDir]
    split
    · rfl
    · rfl
  rw [joined, S3Site.resolve, resolve_join _ _ (isAbsolute_trimKey key), ← S3Site.resolve, resolve_bucketDir named]

theorem resolve_uploadDir (named : NamesOnly bucket) (uploadId : String) :
    site.resolve (site.uploadDir bucket uploadId) =
      if isAbsolute uploadId then (reduce (pieces uploadId)).2
      else walk (site.bucketRoot bucket) (".veloce_multipart" :: pieces uploadId) := by
  have above : site.resolve (join (site.getS3BucketDir bucket) ".veloce_multipart") =
      walk (site.bucketRoot bucket) [".veloce_multipart"] := by
    rw [resolve_join_name (by decide), resolve_bucketDir named]
    rfl
  rw [S3Site.uploadDir]
  split
  · rename_i absolute
    rw [join, if_pos absolute, S3Site.resolve, Path.resolve, if_pos absolute, walk_eq_reduce, List.take_nil, List.nil_append]
  · rename_i relative
    rw [S3Site.resolve, resolve_join _ _ (Bool.eq_false_iff.mpr relative), ← S3Site.resolve, above, ← walk_append]
    rfl

/-- Only a bucket made of names has a location below which something can be. -/
theorem named_of_under {path : String} (under : Under (site.bucketRoot bucket) (site.resolve path)) : NamesOnly bucket := by
  by_cases legacy : bucket = "legacy"
  · rw [legacy]
    decide
  · intro name member
    refine isName_of_mem_resolve site.cwd.proper name (under.subset ?_)
    rw [S3Site.bucketRoot, if_neg legacy]
    exact List.mem_append_right _ (List.mem_cons_of_mem _ member)

theorem keyBelow_iff : site.KeyBelow bucket key ↔
    Inside (site.bucketRoot bucket) (site.resolve (site.getS3FilePath bucket key)) := by
  constructor
  · intro below
    rw [resolve_filePath below.1]
    exact (inside_walk_iff _).mpr below.2
  · intro inside
    have named := named_of_under inside.under
    rw [resolve_filePath named] at inside
    exact ⟨named, (inside_walk_iff _).mp inside⟩

theorem uploadBelow_iff : site.UploadBelow bucket uploadId ↔
    Inside (site.bucketRoot bucket) (site.resolve (site.uploadDir bucket uploadId)) := by
  have leads (named : NamesOnly bucket) : Inside (site.bucketRoot bucket) (site.resolve (site.uploadDir bucket uploadId)) ↔
      if isAbsolute uploadId then Inside (site.bucketRoot bucket) (reduce (pieces uploadId)).2
      else Below (site.bucketRoot bucket) (".veloce_multipart" :: pieces uploadId) := by
    rw [resolve_uploadDir named]
    split
    · rfl
    · exact inside_walk_iff _
  exact ⟨fun below => (leads below.1).mpr below.2, fun inside =>
    ⟨named_of_under inside.under, (leads (named_of_under inside.under)).mp inside⟩⟩

theorem namesOnly_iff : NamesOnly bucket ↔
    Under (site.bucketRoot bucket) (site.resolve (site.getS3BucketDir bucket)) :=
  ⟨fun named => resolve_bucketDir named ▸ List.prefix_rfl, named_of_under⟩

end Paths

end Veloce
