import Veloce.Fileserver.S3Mirror

/-! What the S3 handlers do to the files when they succeed. -/

namespace Veloce

open Collections Path

section Calls

variable {site : S3Site} {disk disk' : Disk} {call : FsCall} {path : String} {content : Bytes} {other : List String}

theorem resolve_of_locate {tree : FileTree String Bytes} {location : List String} (leads : site.locate path tree = some location) :
    location = site.resolve path := (FileTree.locate_eq_some_iff.mp leads).1

theorem node?_of_look {node : Node Bytes} (ran : site.look call path disk = (disk', some node)) :
    disk.tree.node? (site.resolve path) = some node := by
  obtain ⟨location, leads, there⟩ := Option.bind_eq_some_iff.mp (of_look ran).2
  rwa [← resolve_of_locate leads]

theorem look_straight (site : S3Site) (call : FsCall) (rooted : disk.tree.Rooted) (straight : FileTree.Straight path) :
    (site.look call path disk).2 = disk.tree.node? (site.resolve path) := by
  refine FileTree.bind_locate rooted straight fun location there => ?_
  rcases eq_or_ne location [] with rfl | filled
  · exact FileTree.isDir_iff.mpr (if_pos rfl)
  · exact rooted location filled (Option.isSome_iff_ne_none.mp there)

private theorem change_straight {operation : FileTree String Bytes → List String → Option (FileTree String Bytes)}
    (rooted : disk.tree.Rooted) (straight : FileTree.Straight path)
    (needs : ∀ location, (operation disk.tree location).isSome → disk.tree.isDir location.dropLast = true) :
    (site.change call path disk operation).1.tree = (operation disk.tree (site.resolve path)).getD disk.tree := by
  have same : (site.locate path disk.tree).bind (operation disk.tree) = operation disk.tree (site.resolve path) :=
    FileTree.bind_locate rooted straight needs
  rw [S3Site.change, same]

private theorem tree_createFile (site : S3Site) (rooted : disk.tree.Rooted) (straight : FileTree.Straight path) :
    (site.createFile path content disk).1.tree = (disk.tree.writeFile (site.resolve path) content).getD disk.tree :=
  change_straight rooted straight fun _ made => (FileTree.writeFile_isSome_iff.mp made).2.2

private theorem tree_removeFile (site : S3Site) (rooted : disk.tree.Rooted) (straight : FileTree.Straight path) :
    (site.removeFile path disk).1.tree = (disk.tree.removeFile (site.resolve path)).getD disk.tree :=
  change_straight rooted straight fun _ removed => rooted.above_removeFile removed

private theorem tree_removeDirAll (site : S3Site) (rooted : disk.tree.Rooted) (straight : FileTree.Straight path) :
    (site.removeDirAll path disk).1.tree = (disk.tree.removeDirAll (site.resolve path)).getD disk.tree := by
  rw [← straight.removeAll]
  refine change_straight rooted straight fun _ removed => rooted.above_removeDirAll ?_
  rwa [straight.removeAll] at removed

private theorem grown_mkdir (site : S3Site) (path : String) (disk : Disk) :
    disk.tree.Grown (site.createDirAll path disk).1.tree := (FileTree.createDirAll_along _ _ _).grown

theorem node?_mkdir (onward : ".." ∉ pieces path) (apart : ¬ other <+: site.resolve path) :
    (site.createDirAll path disk).1.tree.node? other = disk.tree.node? other := by
  have made := FileTree.createDirAll_along disk.tree (site.start path) (pieces path)
  rw [S3Site.createDirAll, made.node, if_neg]
  intro new
  obtain ⟨front, ⟨back, whole⟩, same⟩ := made.along other new
  rw [same, S3Site.resolve, Path.resolve, ← whole, walk_append] at apart
  exact apart (walk_onward fun up => onward (whole ▸ List.mem_append_right front up))

theorem tree_refill (site : S3Site) (path : String) (content : Bytes) (disk : Disk) :
    (site.refill path content disk).tree = (disk.tree.writeFile (site.resolve path) content).getD disk.tree := rfl

theorem writeFile_of_createFile (ran : site.createFile path content disk = (disk', true)) :
    disk.tree.writeFile (site.resolve path) content = some disk'.tree := by
  rw [S3Site.createFile, S3Site.change, Prod.mk.injEq] at ran
  obtain ⟨tree, done⟩ := Option.isSome_iff_exists.mp ran.2
  obtain ⟨location, leads, written⟩ := Option.bind_eq_some_iff.mp done
  rw [← ran.1, done, ← resolve_of_locate leads, written]
  rfl

theorem grown_parent (site : S3Site) (path : String) (disk : Disk) :
    disk.tree.Grown ((Path.parent path).elim disk fun parent => (site.createDirAll parent disk).1).tree := by
  cases Path.parent path with
  | none => exact .refl _
  | some above => exact grown_mkdir site above disk

/-- The directory of a file is not made in place of one that is as deep. -/
private theorem node?_parent (onward : ".." ∉ pieces path) (apart : other ≠ site.resolve path)
    (long : other.length = (site.resolve path).length) :
    ((Path.parent path).elim disk fun parent => (site.createDirAll parent disk).1).tree.node? other =
      disk.tree.node? other := by
  cases found : Path.parent path with
  | none => rfl
  | some above => exact node?_mkdir (onward_parent found onward) (not_prefix_parent site.cwd.names found apart long)

end Calls

section Put

variable {site : S3Site} {bucket key : String} {disk : Disk} {answer : S3Answer}

private theorem length_inBucket_metaPath (bucket key : String) :
    (site.inBucket bucket (pieces (S3Site.metaPath key))).length = (site.inBucket bucket (pieces key)).length := by
  rw [S3Site.inBucket, S3Site.inBucket, List.length_append, List.length_append, List.length_cons, List.length_cons,
    List.length_cons, List.length_cons, length_pieces_metaPath]

private theorem dropLast_inBucket_metaPath (bucket key : String) :
    (site.inBucket bucket (pieces (S3Site.metaPath key))).dropLast = (site.inBucket bucket (pieces key)).dropLast := by
  have filled (key : String) : (site.inBucket bucket (pieces key)).dropLast = site.inBucket bucket (pieces key).dropLast := by
    rw [← List.nil_append (pieces key), inBucket_append, List.dropLast_append_of_ne_nil pieces_ne_nil, ← inBucket_append,
      List.nil_append, List.nil_append]
  rw [filled, filled, dropLast_pieces_metaPath]

/-- A file that takes the place of none and has the same directory as one that can be
written can be written, too. -/
private theorem writeFile_sibling {tree : FileTree String Bytes} {path path' : List String} {content content' : Bytes}
    (written : (tree.writeFile path content).isSome) (filled : path' ≠ []) (free : tree.node? path' ≠ some .dir)
    (siblings : path'.dropLast = path.dropLast) : (tree.writeFile path' content').isSome := by
  refine FileTree.writeFile_isSome_iff.mpr ⟨filled, Bool.eq_false_iff.mpr fun dir => free (FileTree.isDir_iff.mp dir), ?_⟩
  rw [siblings]
  exact (FileTree.writeFile_isSome_iff.mp written).2.2

/-- The file of an object and, if there are headers, the one of the headers. -/
private theorem files_written {disk' : Disk} {filePath : String} {metaHeaders : HashMap String String} {content : Bytes}
    (rooted : disk.tree.Rooted) (straight : FileTree.Straight (S3Site.metaPath filePath))
    (filled : site.resolve (S3Site.metaPath filePath) ≠ [])
    (siblings : (site.resolve (S3Site.metaPath filePath)).dropLast = (site.resolve filePath).dropLast)
    (free : metaHeaders.isEmpty = false → disk.tree.node? (site.resolve (S3Site.metaPath filePath)) ≠ some .dir)
    (ran : site.createFile filePath content (if metaHeaders.isEmpty then disk
      else (site.createFile (S3Site.metaPath filePath) (site.toJson metaHeaders) disk).1) = (disk', true)) :
    disk'.tree.Rooted ∧ ∀ path, disk'.tree.read? path =
      if path = site.resolve filePath then some content
      else if path = site.resolve (S3Site.metaPath filePath) ∧ metaHeaders.isEmpty = false then some (site.toJson metaHeaders)
      else disk.tree.read? path := by
  have made := writeFile_of_createFile ran
  cases empty : metaHeaders.isEmpty with
  | true =>
    rw [if_pos empty] at made
    refine ⟨rooted.writeFile made, fun path => ?_⟩
    rw [FileTree.read?_writeFile made]
    simp
  | false =>
    rw [if_neg (by rw [empty]; exact Bool.false_ne_true), tree_createFile site rooted straight] at made
    cases headers : disk.tree.writeFile (site.resolve (S3Site.metaPath filePath)) (site.toJson metaHeaders) with
    | none =>
      -- The file would not have been written either.
      rw [headers, Option.getD_none] at made
      have written : (disk.tree.writeFile (site.resolve (S3Site.metaPath filePath)) (site.toJson metaHeaders)).isSome :=
        writeFile_sibling (Option.isSome_iff_exists.mpr ⟨_, made⟩) filled (free empty) siblings
      rw [headers] at written
      cases written
    | some tree =>
      rw [headers, Option.getD_some] at made
      refine ⟨(rooted.writeFile headers).writeFile made, fun path => ?_⟩
      rw [FileTree.read?_writeFile made, FileTree.read?_writeFile headers]
      simp

theorem put_files {disk' : Disk} {headers : S3Headers} {body : Body} (proper : IsName bucket) (other : bucket ≠ "legacy")
    (named : NamesOnly key) (start : disk.tree.Rooted)
    (free : (amzMeta headers).isEmpty = false → disk.tree.node? (site.inBucket bucket (pieces (S3Site.metaPath key))) ≠ some .dir)
    (ran : site.s3PutObject bucket key headers body disk = (disk', .ok answer)) :
    disk'.tree.Rooted ∧ ∀ path, disk'.tree.read? path =
      if path = site.inBucket bucket (pieces key) then some (received body).1
      else if path = site.inBucket bucket (pieces (S3Site.metaPath key)) ∧ (amzMeta headers).isEmpty = false then
        some (site.toJson (amzMeta headers))
      else disk.tree.read? path := by
  rw [S3Site.s3PutObject, if_neg other] at ran
  split at ran
  · cases ran
  · rename_i opened made
    obtain rfl : (site.createDirAll (site.getS3BucketDir bucket) disk).1 = opened := congrArg Prod.fst made
    dsimp only at ran
    split at ran
    · cases ran
    · cases ran
    · rename_i created _
      cases ran
      have file := resolve_object site proper other named
      have second := resolve_headers site proper other named
      have root := resolve_bucket site proper other
      have above : ¬ site.inBucket bucket (pieces (S3Site.metaPath key)) <+: site.resolve (site.getS3BucketDir bucket) := by
        rw [root, inBucket_prefix]
        exact fun under => pieces_ne_nil (List.prefix_nil.mp under.2)
      have apart : site.inBucket bucket (pieces (S3Site.metaPath key)) ≠ site.resolve (site.getS3FilePath bucket key) := by
        rw [file, ne_eq, inBucket_inj, pieces_inj]
        exact fun same => metaPath_ne same.2
      have long : (site.inBucket bucket (pieces (S3Site.metaPath key))).length =
          (site.resolve (site.getS3FilePath bucket key)).length := by
        rw [file, length_inBucket_metaPath]
      have siblings : (site.resolve (S3Site.metaPath (site.getS3FilePath bucket key))).dropLast =
          (site.resolve (site.getS3FilePath bucket key)).dropLast := by
        rw [file, second, dropLast_inBucket_metaPath]
      have filled : site.resolve (S3Site.metaPath (site.getS3FilePath bucket key)) ≠ [] := by
        rw [second, S3Site.inBucket]
        exact List.append_ne_nil_of_right_ne_nil _ (List.cons_ne_nil _ _)
      have ready := (grown_mkdir site (site.getS3BucketDir bucket) disk).trans (grown_parent site (site.getS3FilePath bucket key) _)
      have onward := (straight_object site proper other named).onward
      have onward' := onward_bucketDir site (namesOnly_of_isName proper)
      obtain ⟨rooted, read⟩ := files_written (ready.rooted start) (straight_headers site proper other named) filled siblings
        (fun filled => by rw [second, node?_parent onward apart long, node?_mkdir onward' above]; exact free filled) created
      refine ⟨rooted, fun path => ?_⟩
      rw [read, file, second, ready.read]

end Put

section Others

variable {site : S3Site} {bucket key uploadId : String} {disk disk' : Disk} {answer : S3Answer}

theorem delete_files (proper : IsName bucket) (other : bucket ≠ "legacy") (named : NamesOnly key) (start : disk.tree.Rooted)
    (ran : site.s3DeleteObject bucket key disk = (disk', .ok answer)) :
    disk'.tree.Rooted ∧ ∀ path, disk'.tree.read? path =
      if path = site.inBucket bucket (pieces key) ∨ path = site.inBucket bucket (pieces (S3Site.metaPath key)) then none
      else disk.tree.read? path := by
  rw [S3Site.s3DeleteObject, if_neg other] at ran
  dsimp only at ran
  split at ran
  · cases ran
  · rename_i looked _ found
    have same := (of_look found).1
    split at ran
    · rename_i removed gone
      cases ran
      obtain rfl : (site.removeFile (site.getS3FilePath bucket key) _).1 = disk' := congrArg Prod.fst gone
      have headers := tree_removeFile site (same ▸ start : looked.tree.Rooted) (straight_headers site proper other named)
      rw [same, resolve_headers site proper other named] at headers
      have rooted := start.getD_removeFile (site.inBucket bucket (pieces (S3Site.metaPath key)))
      rw [tree_removeFile site (headers ▸ rooted) (straight_object site proper other named), headers, resolve_object site proper other named]
      refine ⟨rooted.getD_removeFile _, fun path => ?_⟩
      rw [FileTree.read?_getD_removeFile]
      by_cases file : path = site.inBucket bucket (pieces key)
      · rw [if_pos file, if_pos (.inl file)]
      · rw [if_neg file, FileTree.read?_getD_removeFile]
        exact if_congr (or_iff_right file).symm rfl rfl
    · cases ran

theorem initiate_files {id : NewUploadId} (ran : site.s3InitiateMultipart bucket id disk = (disk', .ok answer)) :
    disk.tree.Grown disk'.tree := by
  rw [S3Site.s3InitiateMultipart] at ran
  split at ran
  · cases ran
  · split at ran
    · cases ran
    · rename_i made
      cases ran
      obtain rfl : (site.createDirAll (site.uploadDir bucket id.text) disk).1 = disk' := congrArg Prod.fst made
      exact grown_mkdir site _ disk

theorem upload_files {partNumber : Nat} {body : Body} (proper : IsName bucket) (other : bucket ≠ "legacy")
    (id : IsName uploadId) (ran : site.s3UploadPart bucket uploadId partNumber body disk = (disk', .ok answer)) :
    (disk.tree.Rooted → disk'.tree.Rooted) ∧ ∀ path, disk'.tree.read? path =
      if path = site.inBucket bucket [".veloce_multipart", uploadId, toString partNumber] then some (received body).1
      else disk.tree.read? path := by
  rw [S3Site.s3UploadPart, if_neg other] at ran
  dsimp only at ran
  split at ran
  · cases ran
  · rename_i looked _ found
    obtain rfl : (site.look .stat (site.uploadDir bucket uploadId) disk).1 = looked := congrArg Prod.fst found
    split at ran
    · cases ran
    · cases ran
    · rename_i created _
      cases ran
      have made := writeFile_of_createFile created
      rw [resolve_part site proper other id] at made
      exact ⟨fun rooted => rooted.writeFile made, FileTree.read?_writeFile made⟩

theorem abort_files (proper : IsName bucket) (other : bucket ≠ "legacy") (id : IsName uploadId) (rooted : disk.tree.Rooted) :
    (site.s3AbortMultipart bucket uploadId disk).1.tree =
      (disk.tree.removeDirAll (site.inBucket bucket [".veloce_multipart", uploadId])).getD disk.tree := by
  rw [S3Site.s3AbortMultipart, if_neg other, ← resolve_upload site proper other id]
  exact tree_removeDirAll site rooted (straight_upload site proper id)

/-- The loop has put the parts together in the file. -/
private theorem combineParts_files {filePath tempDir : String} {parts : List MultipartPart} {content all : Bytes}
    (apart : ∀ number : Nat, site.resolve (join tempDir (toString number)) ≠ site.resolve filePath)
    (rooted : disk.tree.Rooted) (file : disk.tree.read? (site.resolve filePath) = some content)
    (ran : site.combineParts filePath tempDir parts content disk = (disk', .ok all)) :
    disk'.tree.Rooted ∧
      all = content ++ parts.flatMap (fun part =>
        (disk.tree.read? (site.resolve (join tempDir (toString part.partNumber)))).getD []) ∧
      ∀ path, disk'.tree.read? path = if path = site.resolve filePath then some all else disk.tree.read? path := by
  induction parts generalizing content disk with
  | nil =>
    cases ran
    refine ⟨rooted, (List.append_nil _).symm, fun path => ?_⟩
    split
    · rename_i same
      rw [same, file]
    · rfl
  | cons part rest ih =>
    rw [S3Site.combineParts] at ran
    split at ran
    · rename_i looked data found
      have same := (of_look found).1
      dsimp only at ran
      split at ran
      · cases ran
      · obtain ⟨tree, written⟩ := Option.isSome_iff_exists.mp (rooted.writeFile_isSome file (content ++ data))
        have refilled : (site.refill filePath (content ++ data) looked).tree = tree := by
          rw [tree_refill, same, written]
          rfl
        have read := FileTree.read?_writeFile written
        obtain ⟨rooted', combined, files⟩ := ih (refilled ▸ rooted.writeFile written)
          (by rw [refilled, read, if_pos rfl]) ran
        refine ⟨rooted', ?_, fun path => ?_⟩
        · have kept (other : MultipartPart) : tree.read? (site.resolve (join tempDir (toString other.partNumber))) =
              disk.tree.read? (site.resolve (join tempDir (toString other.partNumber))) := by
            rw [read, if_neg (apart other.partNumber)]
          rw [combined, refilled, List.flatMap_cons, FileTree.read?_eq_some_iff.mpr (node?_of_look found),
            Option.getD_some, List.append_assoc]
          simp only [kept]
        · rw [files, refilled, read]
          split
          · rfl
          · rfl
    · cases ran

theorem complete_files {parts : List MultipartPart} (proper : IsName bucket) (other : bucket ≠ "legacy") (own : OwnKey key)
    (id : IsName uploadId) (rooted : disk.tree.Rooted)
    (ran : site.s3CompleteMultipart bucket key uploadId (.ok parts) disk = (disk', .ok answer)) :
    ∃ tree : FileTree String Bytes, tree.Rooted ∧
      disk'.tree = (tree.removeDirAll (site.inBucket bucket [".veloce_multipart", uploadId])).getD tree ∧
      ∀ path, tree.read? path =
        if path = site.inBucket bucket (pieces key) then
          some (parts.flatMap fun part => (disk.tree.read?
            (site.inBucket bucket [".veloce_multipart", uploadId, toString part.partNumber])).getD [])
        else disk.tree.read? path := by
  rw [S3Site.s3CompleteMultipart, if_neg other] at ran
  dsimp only at ran
  split at ran
  · cases ran
  · rename_i looked _ found
    obtain ⟨same, _⟩ := of_look found
    split at ran
    · cases ran
    · rename_i opened created
      split at ran
      · cases ran
      · rename_i combined all done
        cases ran
        have ready := grown_parent site (site.getS3FilePath bucket key) looked
        have made := writeFile_of_createFile created
        have file := resolve_object site proper other own.named
        have part := resolve_part site proper other id
        have apart (number : Nat) : site.resolve (join (site.uploadDir bucket uploadId) (toString number)) ≠
            site.resolve (site.getS3FilePath bucket key) := by
          rw [file, part, ne_eq, inBucket_inj]
          exact fun both => own.ne_part _ both.2.symm
        have read := FileTree.read?_writeFile made
        obtain ⟨rooted', text, files⟩ := combineParts_files apart ((ready.rooted (same ▸ rooted)).writeFile made)
          (by rw [read, if_pos rfl]) done
        refine ⟨combined.tree, rooted', ?_, fun path => ?_⟩
        · rw [tree_removeDirAll site rooted' (straight_upload site proper id), resolve_upload site proper other id]
        · rw [files, text, read, ready.read, same, file]
          split
          · have kept (number : Nat) : opened.tree.read? (site.inBucket bucket [".veloce_multipart", uploadId, toString number]) =
                disk.tree.read? (site.inBucket bucket [".veloce_multipart", uploadId, toString number]) := by
              rw [read, ← part, if_neg (apart number), ready.read, same]
            rw [List.nil_append]
            simp only [part, kept]
          · rfl

end Others

end Veloce
