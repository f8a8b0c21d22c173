import Veloce.Fileserver.S3Steps

/-! A read of the local store says what its holdings say, in every run of fitting requests. -/

namespace Veloce

open Collections Path

section Headers

variable {headers : S3Headers}

def textsOf (headers : S3Headers) : List (String × String) := headers.map fun header => (header.1, header.2.getD "")

private theorem amzMeta_metaOf (headers : S3Headers) : amzMeta (metaOf headers) = amzMeta headers := by
  rw [amzMeta, metaOf, List.foldl_filter, amzMeta]
  congr 1
  funext found header
  split
  · rfl
  · rename_i other
    exact (if_neg other).symm

private theorem metaOf_metaOf (headers : S3Headers) : metaOf (metaOf headers) = metaOf headers := by
  rw [metaOf, metaOf, List.filter_filter]
  simp

private theorem amzMeta_eq_extend (amz : metaOf headers = headers) (readable : Readable headers) :
    amzMeta headers = (∅ : HashMap String String).extend (textsOf headers) := by
  have each (header : String × Option String) (member : header ∈ headers) :
      beginsWith header.1 "x-amz-meta-" = true ∧ header.2 = some (header.2.getD "") := by
    refine ⟨(List.mem_filter.mp (amz.symm ▸ member : header ∈ metaOf headers)).2, ?_⟩
    obtain ⟨text, found⟩ := Option.isSome_iff_exists.mp (readable.texts header member)
    rw [found]
    rfl
  rw [amzMeta, HashMap.extend, textsOf, List.foldl_map]
  refine List.foldl_ext _ _ _ fun found header member => ?_
  obtain ⟨begins, text⟩ := each header member
  refine (if_pos begins).trans ?_
  rw [text]
  rfl

private theorem perm_amzMeta (amz : metaOf headers = headers) (readable : Readable headers) :
    (amzMeta headers).toList.Perm (textsOf headers) := by
  rw [amzMeta_eq_extend amz readable]
  refine HashMap.perm_toList_extend ?_
  rw [textsOf, List.map_map]
  exact readable.distinct

private theorem isEmpty_amzMeta (amz : metaOf headers = headers) (readable : Readable headers) :
    (amzMeta headers).isEmpty = true ↔ headers = [] := by
  have length := (perm_amzMeta amz readable).length_eq
  rw [textsOf, List.length_map] at length
  rw [HashMap.isEmpty, ← HashMap.toList_keys, List.isEmpty_iff, List.map_eq_nil_iff, ← List.length_eq_zero_iff, length,
    List.length_eq_zero_iff]

/-- The texts are the headers again. -/
private theorem sameHeaders_of_perm {answered : HashMap String String} (readable : Readable headers)
    (perm : answered.toList.Perm (textsOf headers)) : SameHeaders answered headers := by
  refine (perm.map _).trans (List.Perm.of_eq ?_)
  rw [textsOf, List.map_map]
  refine (List.map_congr_left fun header member => ?_).trans (List.map_id _)
  obtain ⟨text, found⟩ := Option.isSome_iff_exists.mp (readable.texts header member)
  obtain ⟨name, value⟩ := header
  cases found
  rfl

end Headers

section Reads

variable {site : S3Site} {disk : Disk} {holdings : Holdings} {bucket key : String} {object : S3Object}

private theorem loadMetaHeaders_snd {filePath : String} (rooted : disk.tree.Rooted)
    (straight : FileTree.Straight (S3Site.metaPath filePath)) : (site.loadMetaHeaders filePath disk).2 =
    ((disk.tree.read? (site.resolve (S3Site.metaPath filePath))).map fun json =>
      ((site.fromJson json).getD ∅).toList.foldl (fun headers entry =>
        (site.header entry).elim headers fun field => headers.insert field.1 field.2) ∅).getD ∅ := by
  have looked := look_straight site .openFile rooted straight
  unfold S3Site.loadMetaHeaders FileTree.read?
  rw [← looked]
  dsimp only
  cases (site.look .openFile (S3Site.metaPath filePath) disk).2 with
  | none => rfl
  | some node =>
    cases node with
    | dir => rfl
    | file json =>
      refine List.foldl_ext _ _ _ fun headers entry _ => ?_
      cases site.header entry <;> rfl

/-- The headers of an object are read from the file that they were written to. -/
private theorem sameHeaders_load (kept : site.Kept bucket key object) (rooted : disk.tree.Rooted)
    (read : disk.tree.read? (site.resolve (S3Site.metaPath (site.getS3FilePath bucket key))) = site.headersFile object) :
    SameHeaders (site.loadMetaHeaders (site.getS3FilePath bucket key) disk).2 object.headers := by
  rw [loadMetaHeaders_snd rooted (straight_headers site kept.bucketName kept.other kept.ownKey.named)]
  by_cases empty : object.headers = []
  · rw [S3Site.headersFile, if_pos empty] at read
    rw [read, empty]
    exact .nil
  · rw [S3Site.headersFile, if_neg empty] at read
    have back := kept.readsBack empty
    rw [read, Option.map_some, Option.getD_some, back.json, Option.getD_some]
    have folded : (amzMeta object.headers).toList.foldl (fun headers entry =>
        (site.header entry).elim headers fun field => headers.insert field.1 field.2) ∅ =
        (∅ : HashMap String String).extend (amzMeta object.headers).toList := by
      refine List.foldl_ext _ _ _ fun found entry member => ?_
      rw [back.header entry member, Option.elim_some]
    rw [folded]
    refine sameHeaders_of_perm kept.readable ?_
    exact (HashMap.perm_toList_extend (amzMeta object.headers).toList_keys_nodup).trans (perm_amzMeta kept.amz kept.readable)

private theorem loadMetaHeaders_congr {disk' : Disk} {filePath : String} (same : disk'.tree = disk.tree) :
    (site.loadMetaHeaders filePath disk').2 = (site.loadMetaHeaders filePath disk).2 := by
  obtain ⟨tree, touched⟩ := disk'
  cases same
  rfl

private theorem S3Site.Mirrors.node?_object (mirrors : site.Mirrors disk.tree holdings)
    (found : holdings.objects.get? (bucket, key) = some object) :
    disk.tree.node? (site.resolve (site.getS3FilePath bucket key)) = some (.file object.bytes) := by
  have kept := mirrors.kept bucket key object found
  have read := mirrors.objects bucket key kept.ownKey
  rw [found, ← resolve_object site kept.bucketName kept.other kept.ownKey.named] at read
  exact FileTree.read?_eq_some_iff.mp read

theorem S3Site.Mirrors.absent (mirrors : site.Mirrors disk.tree holdings) {looked : Disk} {call : FsCall}
    (ran : site.look call (site.getS3FilePath bucket key) disk = (looked, none)) :
    holdings.objects.get? (bucket, key) = none := by
  refine Option.eq_none_iff_forall_ne_some.mpr fun object found => ?_
  have kept := mirrors.kept bucket key object found
  have nothing := look_straight site call mirrors.rooted (straight_object site kept.bucketName kept.other kept.ownKey.named)
  rw [ran, mirrors.node?_object found] at nothing
  cases nothing

/-- What is read at a key is an object, and its headers are read with it. -/
theorem S3Site.Mirrors.present (mirrors : site.Mirrors disk.tree holdings) {looked : Disk} {node : Node Bytes} {call : FsCall}
    (reads : site.Reads bucket key disk) (ran : site.look call (site.getS3FilePath bucket key) disk = (looked, some node)) :
    ∃ object, holdings.objects.get? (bucket, key) = some object ∧ node = .file object.bytes ∧
      SameHeaders (site.loadMetaHeaders (site.getS3FilePath bucket key) looked).2 object.headers := by
  have same := (of_look ran).1
  have found := node?_of_look ran
  rcases reads with nothing | ⟨proper, other, own, notDir⟩
  · rw [nothing] at found
    cases found
  · cases node with
    | dir => exact absurd found notDir
    | file content =>
      have read := FileTree.read?_eq_some_iff.mpr found
      rw [resolve_object site proper other own.named, mirrors.objects bucket key own] at read
      obtain ⟨object, stored, same'⟩ := Option.map_eq_some_iff.mp read
      have headers := mirrors.headers bucket key own
      rw [stored, ← resolve_headers site proper other own.named] at headers
      refine ⟨object, stored, same' ▸ rfl, ?_⟩
      rw [loadMetaHeaders_congr same]
      exact sameHeaders_load (mirrors.kept bucket key object stored) mirrors.rooted headers

theorem S3Site.Mirrors.get (mirrors : site.Mirrors disk.tree holdings) (reads : site.Reads bucket key disk) :
    GetSays (holdings.objects.get? (bucket, key)) (site.s3GetObject bucket key disk).2 := by
  rw [S3Site.s3GetObject]
  dsimp only
  split
  · rename_i ran
    rw [mirrors.absent ran]
    rfl
  · rename_i ran
    obtain ⟨object, stored, rfl, headers⟩ := mirrors.present reads ran
    rw [stored]
    exact ⟨rfl, headers⟩

theorem S3Site.Mirrors.head (mirrors : site.Mirrors disk.tree holdings) (reads : site.Reads bucket key disk) :
    HeadSays (holdings.objects.get? (bucket, key)) (site.s3HeadObject bucket key disk).2 := by
  rw [S3Site.s3HeadObject]
  dsimp only
  split
  · rename_i ran
    rw [mirrors.absent ran]
    rfl
  · rename_i ran
    obtain ⟨object, stored, rfl, headers⟩ := mirrors.present reads ran
    rw [stored]
    exact ⟨rfl, headers⟩

end Reads

section Lists

variable {site : S3Site} {disk : Disk} {holdings : Holdings} {bucket key startsWith : String} {bytes : Bytes}

private theorem listedKey_pieces (shown : '\\' ∉ key.toList) : S3Site.listedKey (pieces key) = key := by
  rw [S3Site.listedKey, intercalate_pieces]
  apply String.toList_inj.mp
  rw [String.toList_ofList]
  refine (List.map_congr_left fun char member => if_neg ?_).trans (List.map_id _)
  rintro rfl
  exact shown member

private theorem StoreFile.ne_nil {path : List String} (file : StoreFile path) : path ≠ [] := by
  cases file with
  | object => exact pieces_ne_nil
  | headers => exact pieces_ne_nil
  | part => exact List.cons_ne_nil _ _

private theorem getLastD_append {front back : List String} (filled : back ≠ []) : (front ++ back).getLastD "" = back.getLastD "" := by
  rw [List.getLastD_eq_getLast?, List.getLastD_eq_getLast?, List.getLast?_append_of_ne_nil _ filled]

/-- A file of the bucket is listed if it has an object, with the key and the size of it. -/
theorem S3Site.Mirrors.listed_iff (mirrors : site.Mirrors disk.tree holdings) {path : List String} {entry : ListedObject}
    (hidden : ∀ uploadId partNumber, (holdings.parts.get? (bucket, uploadId, partNumber)).isSome →
      beginsWith (S3Site.listedKey [".veloce_multipart", uploadId, toString partNumber]) startsWith = false)
    (file : disk.tree.read? (site.inBucket bucket path) = some bytes) :
    S3Site.listedObject (site.inBucket bucket []) startsWith path bytes = some entry ↔
      path = pieces entry.key ∧ beginsWith entry.key startsWith = true ∧
        ∃ object, holdings.objects.get? (bucket, entry.key) = some object ∧ entry.size = object.bytes.length := by
  have stored := mirrors.files bucket path bytes file
  rw [S3Site.listedObject, getLastD_append stored.ne_nil]
  cases stored with
  | @object key own =>
    rw [mirrors.objects bucket key own] at file
    obtain ⟨object, stored, rfl⟩ := Option.map_eq_some_iff.mp file
    rw [own.notHeaders, if_neg Bool.false_ne_true, listedKey_pieces (mirrors.kept bucket key object stored).shown, pieces_inj]
    constructor
    · intro listed
      split at listed
      · rename_i begins
        cases listed
        exact ⟨rfl, begins, object, stored, rfl⟩
      · cases listed
    · rintro ⟨rfl, begins, object', stored', size⟩
      cases stored.symm.trans stored'
      rw [if_pos begins, ← size]
  | @headers key own =>
    have ends : endsWith ((pieces (S3Site.metaPath key)).getLastD "") ".meta.json" = true := by
      obtain ⟨front, last, _, longer⟩ := pieces_metaPath key
      rw [longer, List.getLastD_concat, endsWith, String.toList_append]
      exact List.isSuffixOf_iff_suffix.mpr (List.suffix_append ..)
    rw [if_pos ends]
    refine iff_of_false (fun listed => by cases listed) ?_
    rintro ⟨same, _, object, stored, _⟩
    exact (mirrors.kept bucket _ object stored).ownKey.ne_metaPath key same.symm
  | part uploadId partNumber =>
    rw [mirrors.parts bucket uploadId partNumber] at file
    rw [hidden uploadId partNumber (by rw [file]; rfl), if_neg Bool.false_ne_true]
    refine iff_of_false (fun listed => ?_) ?_
    · split at listed
      · cases listed
      · cases listed
    · rintro ⟨same, _, object, stored, _⟩
      exact (mirrors.kept bucket _ object stored).ownKey.ne_part _ same.symm

private theorem mem_filesBelow_inBucket {path : List String} : (path, bytes) ∈ disk.tree.filesBelow (site.inBucket bucket []) ↔
    disk.tree.read? (site.inBucket bucket path) = some bytes := by
  rw [FileTree.mem_filesBelow, ← inBucket_append, List.nil_append]

theorem S3Site.Mirrors.contents (mirrors : site.Mirrors disk.tree holdings)
    (hidden : ∀ uploadId partNumber, (holdings.parts.get? (bucket, uploadId, partNumber)).isSome →
      beginsWith (S3Site.listedKey [".veloce_multipart", uploadId, toString partNumber]) startsWith = false) :
    ListSays holdings bucket startsWith (.ok (.listed ((disk.tree.filesBelow (site.inBucket bucket [])).filterMap
      fun (path, bytes) => S3Site.listedObject (site.inBucket bucket []) startsWith path bytes))) := by
  constructor
  · -- Files with different paths have different keys.
    have distinct := FileTree.filesBelow_nodup disk.tree (site.inBucket bucket [])
    rw [List.Nodup, List.pairwise_map] at distinct ⊢
    rw [List.pairwise_filterMap]
    refine distinct.imp_of_mem fun {file other} member member' different entry listed entry' listed' same => different ?_
    have path := ((mirrors.listed_iff hidden (mem_filesBelow_inBucket.mp member)).mp listed).1
    have path' := ((mirrors.listed_iff hidden (mem_filesBelow_inBucket.mp member')).mp listed').1
    rw [path, path', same]
  · intro key size
    rw [List.mem_filterMap]
    constructor
    · rintro ⟨⟨path, bytes⟩, member, listed⟩
      obtain ⟨_, begins, object, stored, length⟩ := (mirrors.listed_iff hidden (mem_filesBelow_inBucket.mp member)).mp listed
      exact ⟨object, stored, begins, length⟩
    · rintro ⟨object, stored, begins, rfl⟩
      have read := mirrors.objects bucket key (mirrors.kept bucket key object stored).ownKey
      rw [stored] at read
      refine ⟨(pieces key, object.bytes), mem_filesBelow_inBucket.mpr read, ?_⟩
      exact (mirrors.listed_iff hidden read).mpr ⟨rfl, begins, object, stored, rfl⟩

theorem S3Site.Mirrors.list (mirrors : site.Mirrors disk.tree holdings) {query : S3Query} (supported : query.listType = some 2)
    (lists : site.Lists bucket (query.startsWith.getD "") ⟨disk, holdings⟩) :
    ListSays holdings bucket (query.startsWith.getD "") (site.s3ListObjects bucket query disk).2 := by
  rw [S3Site.s3ListObjects, if_neg (not_not.mpr supported)]
  dsimp only
  split
  · rename_i ran
    refine ⟨rfl, fun key => Option.eq_none_iff_forall_ne_some.mpr fun object stored => ?_⟩
    -- The directory of the bucket is above the file of the object.
    have kept := mirrors.kept bucket key object stored
    have root := resolve_bucket site kept.bucketName kept.other
    have node := mirrors.node?_object stored
    rw [resolve_object site kept.bucketName kept.other kept.ownKey.named, ← List.nil_append (pieces key), inBucket_append] at node
    have dir := mirrors.rooted.isDir_above pieces_ne_nil (by rw [node]; exact Option.some_ne_none _)
    have nothing := look_straight site .statDir mirrors.rooted
      (straight_bucketDir site kept.other (namesOnly_of_isName kept.bucketName))
    rw [FileTree.isDir_iff, ← root, ← nothing, ran] at dir
    cases dir
  · rename_i looked node ran
    have same := (of_look ran).1
    have found := node?_of_look ran
    rcases lists with nothing | ⟨proper, other, hidden⟩
    · rw [nothing] at found
      cases found
    · have root := resolve_bucket site proper other
      have tree : (site.look .listDir (site.getS3BucketDir bucket) looked).1.tree = disk.tree := same
      rw [root, tree]
      exact mirrors.contents hidden

end Lists

section Steps

variable {site : S3Site} {disk disk' : Disk} {holdings : Holdings} {bucket key uploadId : String} {headers : S3Headers}
variable {answer : S3Answer}

private theorem S3Site.Mirrors.no_headers (mirrors : site.Mirrors disk.tree holdings) (own : OwnKey key)
    (without : holdings.headersAt bucket key = []) :
    disk.tree.read? (site.inBucket bucket (pieces (S3Site.metaPath key))) = none := by
  rw [mirrors.headers bucket key own]
  rw [Holdings.headersAt] at without
  cases found : holdings.objects.get? (bucket, key) with
  | none => rfl
  | some object =>
    rw [found] at without
    exact if_pos without

private theorem S3Site.Mirrors.put_object (mirrors : site.Mirrors disk.tree holdings) {body : Body}
    (written : site.Written bucket key (metaOf headers) ⟨disk, holdings⟩) (back : site.ReadsBack (metaOf headers))
    (ran : site.s3PutObject bucket key headers body disk = (disk', .ok answer)) :
    site.Mirrors disk'.tree (holdings.put bucket key ⟨(received body).1, metaOf headers⟩) := by
  have other : bucket ≠ "legacy" := by
    rintro rfl
    cases ran
  have own := written.ownKey
  have empty := isEmpty_amzMeta (metaOf_metaOf headers) written.readable
  rw [amzMeta_metaOf] at empty
  have free (filled : (amzMeta headers).isEmpty = false) :
      disk.tree.node? (site.inBucket bucket (pieces (S3Site.metaPath key))) ≠ some .dir := by
    rw [← resolve_headers site written.bucketName other own.named]
    refine written.free fun without => ?_
    rw [empty.mpr without] at filled
    cases filled
  obtain ⟨rooted, files⟩ := put_files written.bucketName other own.named mirrors.rooted free ran
  refine mirrors.put ⟨written.bucketName, other, own, written.shown, metaOf_metaOf headers, written.readable, fun _ => back⟩
    rooted fun path => ?_
  rw [files]
  split
  · rfl
  · rw [S3Site.headersFile, amzMeta_metaOf]
    by_cases second : path = site.inBucket bucket (pieces (S3Site.metaPath key))
    · by_cases without : metaOf headers = []
      · have absent := mirrors.no_headers own (written.replaced without)
        rw [if_pos second, if_neg fun both => Bool.false_ne_true (both.2.symm.trans (empty.mpr without)), if_pos without,
          second, absent]
      · have filled : (amzMeta headers).isEmpty = false := Bool.eq_false_iff.mpr fun emptied => without (empty.mp emptied)
        rw [if_pos ⟨second, filled⟩, if_pos second, if_neg without]
    · rw [if_neg second, if_neg fun both => second both.1]

private theorem S3Site.Mirrors.delete_object (mirrors : site.Mirrors disk.tree holdings) (proper : IsName bucket) (own : OwnKey key)
    (ran : site.s3DeleteObject bucket key disk = (disk', .ok answer)) :
    site.Mirrors disk'.tree (holdings.delete bucket key) := by
  have other : bucket ≠ "legacy" := by
    rintro rfl
    cases ran
  obtain ⟨rooted, files⟩ := delete_files proper other own.named mirrors.rooted ran
  exact mirrors.delete own rooted files

private theorem S3Site.Mirrors.initiate_multipart (mirrors : site.Mirrors disk.tree holdings) {id : NewUploadId}
    (ran : site.s3InitiateMultipart bucket id disk = (disk', .ok answer)) :
    site.Mirrors disk'.tree (holdings.initiate bucket id.text headers) := by
  have grown := initiate_files ran
  have same := mirrors.of_read? (grown.rooted mirrors.rooted) grown.read
  exact ⟨same.rooted, same.objects, same.headers, same.parts, same.files, same.kept⟩

private theorem S3Site.Mirrors.upload_part (mirrors : site.Mirrors disk.tree holdings) {partNumber : Nat} {body : Body}
    (proper : IsName bucket) (id : IsName uploadId)
    (ran : site.s3UploadPart bucket uploadId partNumber body disk = (disk', .ok answer)) :
    site.Mirrors disk'.tree (holdings.upload bucket uploadId partNumber (received body).1) := by
  have other : bucket ≠ "legacy" := by
    rintro rfl
    cases ran
  obtain ⟨rooted, files⟩ := upload_files proper other id ran
  exact mirrors.upload (rooted mirrors.rooted) files

/-- What is in the directory of an upload is removed with it. -/
private theorem S3Site.Mirrors.remove_upload {tree : FileTree String Bytes} (mirrors : site.Mirrors tree holdings)
    (bucket uploadId : String) :
    site.Mirrors ((tree.removeDirAll (site.inBucket bucket [".veloce_multipart", uploadId])).getD tree)
      (holdings.abort bucket uploadId) := by
  have free : tree.read? (site.inBucket bucket [".veloce_multipart", uploadId]) = none := by
    refine Option.eq_none_iff_forall_ne_some.mpr fun bytes found => ?_
    have file := mirrors.files bucket _ bytes found
    generalize shape : [".veloce_multipart", uploadId] = path at file
    cases file with
    | object own => exact own.ne_part _ shape.symm
    | headers own => exact own.metaPath_ne_part _ shape.symm
    | part => cases shape
  exact mirrors.abort (mirrors.rooted.getD_removeDirAll _) (mirrors.rooted.read?_getD_removeDirAll free)

private theorem S3Site.Mirrors.abort_multipart (mirrors : site.Mirrors disk.tree holdings) (proper : IsName bucket)
    (id : IsName uploadId) (ran : site.s3AbortMultipart bucket uploadId disk = (disk', .ok answer)) :
    site.Mirrors disk'.tree (holdings.abort bucket uploadId) := by
  have other : bucket ≠ "legacy" := by
    rintro rfl
    cases ran
  have tree : (site.s3AbortMultipart bucket uploadId disk).1.tree = _ :=
    abort_files proper other id mirrors.rooted
  rw [ran] at tree
  rw [tree]
  exact mirrors.remove_upload bucket uploadId

private theorem S3Site.Mirrors.complete_multipart (mirrors : site.Mirrors disk.tree holdings) {parts : List MultipartPart}
    (written : site.Written bucket key [] ⟨disk, holdings⟩) (id : IsName uploadId)
    (bare : holdings.carried bucket uploadId headers = [])
    (ran : site.s3CompleteMultipart bucket key uploadId (.ok parts) disk = (disk', .ok answer)) :
    site.Mirrors disk'.tree ((holdings.put bucket key
      ⟨holdings.combined bucket uploadId parts, holdings.carried bucket uploadId headers⟩).abort bucket uploadId) := by
  have other : bucket ≠ "legacy" := by
    rintro rfl
    cases ran
  have own := written.ownKey
  obtain ⟨tree, rooted, removed, files⟩ := complete_files written.bucketName other own id mirrors.rooted ran
  have text : holdings.combined bucket uploadId parts = parts.flatMap fun part => (disk.tree.read?
      (site.inBucket bucket [".veloce_multipart", uploadId, toString part.partNumber])).getD [] := by
    rw [Holdings.combined]
    congr 1
    funext part
    rw [mirrors.parts]
    rfl
  rw [removed, bare]
  refine S3Site.Mirrors.remove_upload (mirrors.put ?_ rooted fun path => ?_) bucket uploadId
  · exact ⟨written.bucketName, other, own, written.shown, rfl, written.readable, fun filled => absurd rfl filled⟩
  · rw [files, text]
    split
    · rfl
    · split
      · rename_i second
        rw [second, mirrors.no_headers own (written.replaced rfl)]
        rfl
      · rfl

private theorem tree_loadMetaHeaders (site : S3Site) (filePath : String) (disk : Disk) :
    (site.loadMetaHeaders filePath disk).1.tree = disk.tree := rfl

private theorem tree_s3GetObject : (site.s3GetObject bucket key disk).1.tree = disk.tree := by
  rw [S3Site.s3GetObject]
  dsimp only
  split
  · rename_i ran
    exact (of_look ran).1
  · rename_i ran
    exact (tree_loadMetaHeaders site _ _).trans (of_look ran).1

private theorem tree_s3HeadObject : (site.s3HeadObject bucket key disk).1.tree = disk.tree := by
  rw [S3Site.s3HeadObject]
  dsimp only
  split
  · rename_i ran
    exact (of_look ran).1
  · rename_i ran
    exact (tree_loadMetaHeaders site _ _).trans (of_look ran).1

private theorem tree_s3ListObjects {query : S3Query} : (site.s3ListObjects bucket query disk).1.tree = disk.tree := by
  rw [S3Site.s3ListObjects]
  split
  · rfl
  · dsimp only
    split
    · rename_i ran
      exact (of_look ran).1
    · rename_i ran
      exact (of_look ran).1

private theorem ok_of_completed {payload : Except String (List MultipartPart)}
    (ran : site.s3CompleteMultipart bucket key uploadId payload disk = (disk', .ok answer)) : ∃ parts, payload = .ok parts := by
  rw [S3Site.s3CompleteMultipart] at ran
  split at ran
  · cases ran
  · dsimp only at ran
    split at ran
    · cases ran
    · cases payload with
      | error reason => cases ran
      | ok parts => exact ⟨parts, rfl⟩

variable {store next : S3Store} {asked : S3Request}

/-- A fitting request keeps the files those of the holdings. -/
theorem S3Site.Mirrors.request (mirrors : site.Mirrors store.disk.tree store.holdings) (fits : site.Fits store asked)
    (back : site.CratesReadBack asked) (ran : site.request asked store = some next) :
    site.Mirrors next.disk.tree next.holdings := by
  unfold S3Site.request at ran
  split at ran
  · rename_i disk answer served
    cases ran
    cases asked with
    | put bucket key query headers body =>
      obtain ⟨listType, startsWith, uploads, uploadId, partNumber⟩ := query
      cases partNumber with
      | none => exact mirrors.put_object fits back served
      | some partNumber =>
        cases uploadId with
        | none => exact mirrors.put_object fits back served
        | some uploadId => exact mirrors.upload_part fits.1 fits.2 served
    | get bucket key =>
      have same : (site.s3GetObject bucket key store.disk).1.tree = store.disk.tree := tree_s3GetObject
      rw [show site.s3GetObject bucket key store.disk = (disk, .ok answer) from served] at same
      exact same.symm ▸ mirrors
    | head bucket key =>
      have same : (site.s3HeadObject bucket key store.disk).1.tree = store.disk.tree := tree_s3HeadObject
      rw [show site.s3HeadObject bucket key store.disk = (disk, .ok answer) from served] at same
      exact same.symm ▸ mirrors
    | delete bucket key query =>
      obtain ⟨listType, startsWith, uploads, uploadId, partNumber⟩ := query
      cases uploadId with
      | none => exact mirrors.delete_object fits.1 fits.2 served
      | some uploadId => exact mirrors.abort_multipart fits.1 fits.2 served
    | list bucket query =>
      have same : (site.s3ListObjects bucket query store.disk).1.tree = store.disk.tree := tree_s3ListObjects
      rw [show site.s3ListObjects bucket query store.disk = (disk, .ok answer) from served] at same
      exact same.symm ▸ mirrors
    | post bucket key query headers id payload =>
      obtain ⟨listType, startsWith, uploads, uploadId, partNumber⟩ := query
      cases uploads with
      | some uploads => exact mirrors.initiate_multipart served
      | none =>
        cases uploadId with
        | none => cases served
        | some uploadId =>
          obtain ⟨parts, rfl⟩ := ok_of_completed served
          exact mirrors.complete_multipart fits.2.2 fits.1 fits.2.1 served
  · cases ran

end Steps

section Photos

def noJson : Bytes := "\x7b\x7d".toList.map fun char => UInt8.ofNat char.toNat

def colorJson : Bytes := "\x7b\"x-amz-meta-color\":\"red\"\x7d".toList.map fun char => UInt8.ofNat char.toNat

def photoSite : S3Site where
  cwd := ⟨["srv"], srv_proper⟩
  stagingDir := "/data"
  onward := data_onward
  toJson headers := if headers.isEmpty then noJson else colorJson
  fromJson json :=
    if json = noJson then some ∅
    else if json = colorJson then some (.ofList [("x-amz-meta-color", "red")])
    else none
  header := some
  md5 _ := "49f68a5c8493ec2c0bf489821c21fc3b"

def colored : S3Headers := [("host", some "files"), ("x-amz-meta-color", some "red")]

/-- A photo is put, and another made of one part. -/
def photoRequests : List S3Request :=
  [.put "photos" "cat.jpg" {} colored [.ok [1, 2, 3]],
   .post "photos" "pets/dog.jpg" { uploads := some "" } [] ⟨"id", by decide⟩ (.ok []),
   .put "photos" "pets/dog.jpg" { uploadId := some "id", partNumber := some 1 } [] [.ok [104], .ok [105]],
   .post "photos" "pets/dog.jpg" { uploadId := some "id" } [] ⟨"other", by decide⟩
     (.ok [⟨1, "\"49f68a5c8493ec2c0bf489821c21fc3b\""⟩])]

end Photos

end Veloce
