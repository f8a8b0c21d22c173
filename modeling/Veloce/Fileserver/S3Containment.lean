import Veloce.Fileserver.S3Paths

/-! What each S3 handler calls, and when all of it stays in the bucket of the request. -/

namespace Veloce

open Collections Path

section Calls

variable {site : S3Site} {root : List String} {disk disk' : Disk} {call : FsCall} {path : String}
variable {bucket key uploadId filePath tempDir : String} {content : Bytes}
variable {operation : FileTree String Bytes → List String → Option (FileTree String Bytes)}

theorem of_look {node : Option (Node Bytes)} (ran : site.look call path disk = (disk', node)) :
    disk'.tree = disk.tree ∧ (site.locate path disk.tree).bind disk.tree.node? = node := by
  cases ran
  exact ⟨rfl, rfl⟩

private theorem allStay_push (grows : disk'.touched = disk.touched ++ [⟨call, site.resolve path⟩]) :
    S3Site.AllStay root disk' ↔ S3Site.AllStay root disk ∧ S3Site.Stays root ⟨call, site.resolve path⟩ := by
  rw [S3Site.AllStay, S3Site.AllStay, grows, List.forall_mem_append, List.forall_mem_singleton]

private theorem allStay_look (ran : (site.look call path disk).1 = disk') :
    S3Site.AllStay root disk' ↔ S3Site.AllStay root disk ∧ S3Site.Stays root ⟨call, site.resolve path⟩ := by
  subst ran
  exact allStay_push rfl

private theorem allStay_change (ran : (site.change call path disk operation).1 = disk') :
    S3Site.AllStay root disk' ↔ S3Site.AllStay root disk ∧ S3Site.Stays root ⟨call, site.resolve path⟩ := by
  subst ran
  exact allStay_push rfl

private theorem allStay_stat (ran : (site.look .stat path disk).1 = disk') :
    S3Site.AllStay root disk' ↔ S3Site.AllStay root disk ∧ Inside root (site.resolve path) := allStay_look ran

private theorem allStay_openFile (ran : (site.look .openFile path disk).1 = disk') :
    S3Site.AllStay root disk' ↔ S3Site.AllStay root disk ∧ Inside root (site.resolve path) := allStay_look ran

private theorem allStay_createDirAll (ran : (site.createDirAll path disk).1 = disk') : S3Site.AllStay root disk' ↔
    (S3Site.AllStay root disk ∧ Under root (site.resolve path)) ∧
      ∀ dir ∈ (disk.tree.createDirAll (site.start path) (pieces path)).dirs, Along root dir := by
  subst ran
  rw [S3Site.AllStay, S3Site.AllStay, S3Site.createDirAll, List.forall_mem_append, List.forall_mem_cons, List.forall_mem_map,
    ← and_assoc]
  rfl

/-- The directories on the way to a place in the bucket are on the way to the bucket, or in it. -/
private theorem along_createDirAll (onward : ".." ∉ pieces path) (under : Under root (site.resolve path))
    (tree : FileTree String Bytes) : ∀ dir ∈ (tree.createDirAll (site.start path) (pieces path)).dirs, Along root dir := by
  intro dir member
  obtain ⟨front, ⟨back, whole⟩, same⟩ := (FileTree.createDirAll_along tree _ _).along dir member
  have ahead : walk (site.start path) front <+: site.resolve path := by
    rw [S3Site.resolve, Path.resolve, ← whole, walk_append]
    exact walk_onward fun up => onward (whole ▸ List.mem_append_right front up)
  rw [same]
  exact List.prefix_or_prefix_of_prefix ahead under

private theorem allStay_createFile (ran : (site.createFile path content disk).1 = disk') :
    S3Site.AllStay root disk' ↔ S3Site.AllStay root disk ∧ Inside root (site.resolve path) := allStay_change ran

private theorem allStay_removeFile (ran : (site.removeFile path disk).1 = disk') :
    S3Site.AllStay root disk' ↔ S3Site.AllStay root disk ∧ Inside root (site.resolve path) := allStay_change ran

private theorem allStay_removeDirAll (ran : (site.removeDirAll path disk).1 = disk') :
    S3Site.AllStay root disk' ↔ S3Site.AllStay root disk ∧ Inside root (site.resolve path) := allStay_change ran

private theorem allStay_refill : S3Site.AllStay root (site.refill path content disk) ↔ S3Site.AllStay root disk := Iff.rfl

private theorem allStay_loadMetaHeaders : S3Site.AllStay root (site.loadMetaHeaders path disk).1 ↔
    S3Site.AllStay root disk ∧ Inside root (site.resolve (S3Site.metaPath path)) := allStay_openFile rfl

/-- A file that stays has its headers in one that stays, too. -/
private theorem inside_metaPath (inside : Inside root (site.resolve path)) : Inside root (site.resolve (S3Site.metaPath path)) :=
  inside_append_suffix inside (by decide) (by decide)

theorem isName_toString (number : Nat) : IsName (toString number) := by
  have digits : (toString number).toList = Nat.toDigits 10 number := by
    rw [Nat.toString_eq_ofList_toDigits, String.toList_ofList]
  have isDigit {char : Char} (member : char ∈ (toString number).toList) : char.isDigit :=
    Nat.isDigit_of_mem_toDigits (by decide) (by decide) (digits ▸ member)
  refine ⟨fun same => ?_, fun same => ?_, fun same => ?_, fun slash => absurd (isDigit slash) (by decide)⟩
  · rw [same] at digits
    exact Nat.toDigits_ne_nil digits.symm
  · have dot : '.' ∈ (toString number).toList := same ▸ List.mem_cons_self
    exact absurd (isDigit dot) (by decide)
  · have dot : '.' ∈ (toString number).toList := same ▸ List.mem_cons_self
    exact absurd (isDigit dot) (by decide)

private theorem inside_partPath (inside : Inside root (site.resolve tempDir)) (partNumber : Nat) :
    Inside root (site.resolve (join tempDir (toString partNumber))) := by
  rw [resolve_join_name (isName_toString partNumber)]
  exact inside.under.inside_concat _

private theorem allStay_s3GetObject : S3Site.AllStay root (site.s3GetObject bucket key disk).1 ↔
    S3Site.AllStay root disk ∧ Inside root (site.resolve (site.getS3FilePath bucket key)) := by
  rw [S3Site.s3GetObject]
  split
  · rename_i ran
    exact allStay_openFile (congrArg Prod.fst ran)
  · rename_i ran
    rw [allStay_loadMetaHeaders, allStay_openFile (congrArg Prod.fst ran)]
    exact and_iff_left_of_imp fun stays => inside_metaPath stays.2

private theorem allStay_s3HeadObject : S3Site.AllStay root (site.s3HeadObject bucket key disk).1 ↔
    S3Site.AllStay root disk ∧ Inside root (site.resolve (site.getS3FilePath bucket key)) := by
  rw [S3Site.s3HeadObject]
  split
  · rename_i ran
    exact allStay_stat (congrArg Prod.fst ran)
  · rename_i ran
    rw [allStay_loadMetaHeaders, allStay_stat (congrArg Prod.fst ran)]
    exact and_iff_left_of_imp fun stays => inside_metaPath stays.2

private theorem allStay_s3DeleteObject (other : bucket ≠ "legacy") : S3Site.AllStay root (site.s3DeleteObject bucket key disk).1 ↔
    S3Site.AllStay root disk ∧ Inside root (site.resolve (site.getS3FilePath bucket key)) := by
  rw [S3Site.s3DeleteObject, if_neg other]
  dsimp only
  split
  · rename_i ran
    exact allStay_stat (congrArg Prod.fst ran)
  · rename_i ran
    split
    all_goals
      rename_i removed
      rw [allStay_removeFile (congrArg Prod.fst removed), allStay_removeFile rfl, allStay_stat (congrArg Prod.fst ran)]
      exact ⟨fun stays => stays.1.1, fun stays => ⟨⟨stays, inside_metaPath stays.2⟩, stays.2⟩⟩

private theorem allStay_s3ListObjects {query : S3Query} : S3Site.AllStay root (site.s3ListObjects bucket query disk).1 ↔
    S3Site.AllStay root disk ∧ (query.listType = some 2 → Under root (site.resolve (site.getS3BucketDir bucket))) := by
  rw [S3Site.s3ListObjects]
  split
  · rename_i unsupported
    exact (and_iff_left fun listed => absurd listed unsupported).symm
  · rename_i supported
    rw [imp_iff_right (not_not.mp supported)]
    dsimp only
    split
    · rename_i ran
      exact allStay_look (congrArg Prod.fst ran)
    · rename_i ran
      refine (allStay_look rfl).trans ?_
      rw [allStay_look (congrArg Prod.fst ran)]
      exact and_iff_left_of_imp fun stays => stays.2

private theorem allStay_s3InitiateMultipart {id : NewUploadId} (other : bucket ≠ "legacy") :
    S3Site.AllStay (site.bucketRoot bucket) (site.s3InitiateMultipart bucket id disk).1 ↔
      S3Site.AllStay (site.bucketRoot bucket) disk ∧ Under (site.bucketRoot bucket) (site.resolve (site.uploadDir bucket id.text)) := by
  have made : S3Site.AllStay (site.bucketRoot bucket) (site.createDirAll (site.uploadDir bucket id.text) disk).1 ↔ _ :=
    (allStay_createDirAll rfl).trans (and_iff_left_of_imp fun stays =>
      along_createDirAll (onward_uploadDir (named_of_under stays.2) id) stays.2 disk.tree)
  rw [S3Site.s3InitiateMultipart, if_neg other]
  split
  all_goals
    rename_i ran
    rw [ran] at made
    exact made

private theorem allStay_s3UploadPart {partNumber : Nat} {body : Body} (other : bucket ≠ "legacy") :
    S3Site.AllStay root (site.s3UploadPart bucket uploadId partNumber body disk).1 ↔
      S3Site.AllStay root disk ∧ Inside root (site.resolve (site.uploadDir bucket uploadId)) := by
  rw [S3Site.s3UploadPart, if_neg other]
  dsimp only
  split
  · rename_i ran
    exact allStay_stat (congrArg Prod.fst ran)
  · rename_i ran
    split
    · rename_i created
      rw [allStay_createFile (congrArg Prod.fst created), allStay_stat (congrArg Prod.fst ran)]
      exact and_iff_left_of_imp fun stays => inside_partPath stays.2 partNumber
    all_goals
      rename_i created _
      rw [allStay_createFile (congrArg Prod.fst created), allStay_stat (congrArg Prod.fst ran)]
      exact and_iff_left_of_imp fun stays => inside_partPath stays.2 partNumber

private theorem allStay_s3AbortMultipart (other : bucket ≠ "legacy") :
    S3Site.AllStay root (site.s3AbortMultipart bucket uploadId disk).1 ↔
      S3Site.AllStay root disk ∧ Inside root (site.resolve (site.uploadDir bucket uploadId)) := by
  rw [S3Site.s3AbortMultipart, if_neg other]
  exact allStay_removeDirAll rfl

def S3Site.madeAbove (site : S3Site) (filePath : String) (tree : FileTree String Bytes) : List (List String) :=
  (parent filePath).elim [] fun above => (tree.createDirAll (site.start above) (pieces above)).dirs

private theorem mem_madeAbove {tree : FileTree String Bytes} {dir : List String} (member : dir ∈ site.madeAbove filePath tree) :
    tree.node? dir = none ∧ ∃ above, parent filePath = some above ∧
      ∃ front, front <+: pieces above ∧ dir = walk (site.start above) front := by
  rw [S3Site.madeAbove] at member
  cases found : parent filePath with
  | none =>
    rw [found] at member
    cases member
  | some above =>
    rw [found] at member
    have made := FileTree.createDirAll_along tree (site.start above) (pieces above)
    exact ⟨made.missing dir member, above, rfl, made.along dir member⟩

private theorem allStay_parent (inside : Inside root (site.resolve path)) :
    S3Site.AllStay root ((Path.parent path).elim disk fun parent => (site.createDirAll parent disk).1) ↔
      S3Site.AllStay root disk ∧ ∀ dir ∈ site.madeAbove path disk.tree, Along root dir := by
  rw [S3Site.madeAbove]
  cases found : Path.parent path with
  | none => exact (and_iff_left fun _ member => absurd member List.not_mem_nil).symm
  | some above => exact (allStay_createDirAll rfl).trans (and_congr_left' (and_iff_left (under_parent inside found)))

/-- The headers of a file that stays do, too. -/
private theorem allStay_prepared {metaHeaders : HashMap String String} (inside : Inside root (site.resolve path)) :
    S3Site.AllStay root
      (let disk := (Path.parent path).elim disk fun parent => (site.createDirAll parent disk).1
        if metaHeaders.isEmpty then disk
        else (site.createFile (S3Site.metaPath path) (site.toJson metaHeaders) disk).1) ↔
      S3Site.AllStay root disk ∧ ∀ dir ∈ site.madeAbove path disk.tree, Along root dir := by
  dsimp only
  split
  · exact allStay_parent inside
  · rw [allStay_createFile rfl, allStay_parent inside]
    exact and_iff_left (inside_metaPath inside)

private theorem allStay_s3PutObject {headers : List (String × Option String)} {body : Body} (other : bucket ≠ "legacy") :
    S3Site.AllStay (site.bucketRoot bucket) (site.s3PutObject bucket key headers body disk).1 ↔
      (S3Site.AllStay (site.bucketRoot bucket) disk ∧ NamesOnly bucket) ∧
        ((site.createDirAll (site.getS3BucketDir bucket) disk).2 = true →
          Inside (site.bucketRoot bucket) (site.resolve (site.getS3FilePath bucket key)) ∧
            ∀ dir ∈ site.madeAbove (site.getS3FilePath bucket key) (site.createDirAll (site.getS3BucketDir bucket) disk).1.tree,
              Along (site.bucketRoot bucket) dir) := by
  have made : S3Site.AllStay (site.bucketRoot bucket) (site.createDirAll (site.getS3BucketDir bucket) disk).1 ↔
      S3Site.AllStay (site.bucketRoot bucket) disk ∧ NamesOnly bucket := by
    rw [allStay_createDirAll rfl, ← namesOnly_iff]
    exact and_iff_left_of_imp fun stays =>
      along_createDirAll (onward_bucketDir site stays.2) (namesOnly_iff.mp stays.2) disk.tree
  rw [S3Site.s3PutObject, if_neg other]
  split
  · rename_i ran
    rw [ran] at made ⊢
    refine made.trans (and_iff_left fun created => ?_).symm
    cases created
  · rename_i ran
    rw [ran] at made ⊢
    rw [imp_iff_right rfl, ← made, and_comm (a := Inside _ _), ← and_assoc]
    dsimp only
    split
    · rename_i created
      exact (allStay_createFile (congrArg Prod.fst created)).trans (and_congr_left allStay_prepared)
    all_goals
      rename_i created _
      exact (allStay_createFile (congrArg Prod.fst created)).trans (and_congr_left allStay_prepared)

/-- The loop opens parts and may remove the file. -/
private theorem allStay_combineParts {parts : List MultipartPart} (file : Inside root (site.resolve filePath))
    (temp : Inside root (site.resolve tempDir)) :
    S3Site.AllStay root (site.combineParts filePath tempDir parts content disk).1 ↔ S3Site.AllStay root disk := by
  induction parts generalizing content disk with
  | nil => rfl
  | cons part rest ih =>
    have inside := inside_partPath temp part.partNumber
    rw [S3Site.combineParts]
    split
    · rename_i ran
      dsimp only
      split
      · dsimp only
        rw [allStay_removeFile rfl, allStay_refill, allStay_openFile (congrArg Prod.fst ran), and_iff_left file,
          and_iff_left inside]
      · rw [ih, allStay_refill, allStay_openFile (congrArg Prod.fst ran), and_iff_left inside]
    · rename_i ran
      rw [allStay_openFile (congrArg Prod.fst ran), and_iff_left inside]

private theorem allStay_of_combineParts {parts : List MultipartPart}
    (stays : S3Site.AllStay root (site.combineParts filePath tempDir parts content disk).1) : S3Site.AllStay root disk := by
  induction parts generalizing content disk with
  | nil => exact stays
  | cons part rest ih =>
    rw [S3Site.combineParts] at stays
    split at stays
    · rename_i ran
      dsimp only at stays
      split at stays
      · exact ((allStay_openFile (congrArg Prod.fst ran)).mp ((allStay_removeFile rfl).mp stays).1).1
      · exact ((allStay_openFile (congrArg Prod.fst ran)).mp (allStay_refill.mp (ih stays))).1
    · rename_i ran
      exact ((allStay_openFile (congrArg Prod.fst ran)).mp stays).1

private theorem allStay_s3CompleteMultipart {payload : Except String (List MultipartPart)} (other : bucket ≠ "legacy") :
    S3Site.AllStay root (site.s3CompleteMultipart bucket key uploadId payload disk).1 ↔
      (S3Site.AllStay root disk ∧ Inside root (site.resolve (site.uploadDir bucket uploadId))) ∧
        (((site.locate (site.uploadDir bucket uploadId) disk.tree).bind disk.tree.node?).isSome ∧ payload.isOk →
          Inside root (site.resolve (site.getS3FilePath bucket key)) ∧
            ∀ dir ∈ site.madeAbove (site.getS3FilePath bucket key) disk.tree, Along root dir) := by
  rw [S3Site.s3CompleteMultipart, if_neg other]
  dsimp only
  split
  · rename_i ran
    rw [(of_look ran).2, allStay_stat (congrArg Prod.fst ran)]
    refine (and_iff_left fun found => ?_).symm
    cases found.1
  · rename_i looked _ ran
    have stayed : S3Site.AllStay root looked ↔ _ := allStay_stat (congrArg Prod.fst ran)
    rw [(of_look ran).2, ← stayed, ← (of_look ran).1]
    cases payload with
    | error reason =>
      refine (and_iff_left fun found => ?_).symm
      cases found.2
    | ok parts =>
      rw [imp_iff_right ⟨rfl, rfl⟩, and_comm (a := Inside _ _), ← and_assoc]
      dsimp only
      split
      · rename_i created
        exact (allStay_createFile (congrArg Prod.fst created)).trans (and_congr_left allStay_parent)
      · rename_i made created
        have opened : S3Site.AllStay root made ↔
            (S3Site.AllStay root looked ∧ ∀ dir ∈ site.madeAbove (site.getS3FilePath bucket key) looked.tree, Along root dir) ∧
              Inside root (site.resolve (site.getS3FilePath bucket key)) :=
          (allStay_createFile (congrArg Prod.fst created)).trans (and_congr_left allStay_parent)
        have combined : S3Site.AllStay root (site.combineParts (site.getS3FilePath bucket key)
            (site.uploadDir bucket uploadId) parts [] made).1 ↔ _ :=
          Iff.trans ⟨fun stays => allStay_of_combineParts stays, fun stays =>
            (allStay_combineParts (opened.mp stays).2 (stayed.mp (opened.mp stays).1.1).2).mpr stays⟩ opened
        split
        · rename_i ran
          rw [ran] at combined
          exact combined
        · rename_i ran
          rw [ran] at combined
          exact ((allStay_removeDirAll rfl).trans (and_iff_left_of_imp fun stays =>
            (stayed.mp (combined.mp stays).1.1).2)).trans combined

end Calls

section Containment

variable {site : S3Site} {bucket key uploadId : String}

private theorem allStay_start (root : List String) (tree : FileTree String Bytes) : S3Site.AllStay root { tree } :=
  fun _ member => absurd member List.not_mem_nil

/-- There may be nothing yet but the directories that a path begins in. -/
private theorem exists_clear (site : S3Site) (path : String) : ∃ tree : FileTree String Bytes, (∀ other, tree.read? other = none) ∧
    tree.isDir (site.start path) = true ∧ ∀ other, tree.isDir other = true → other <+: site.start path := by
  have names : ∀ name ∈ site.start path, IsName name := by
    rw [S3Site.start]
    split
    · exact fun _ member => absurd member List.not_mem_nil
    · exact site.cwd.proper
  have whole {front : List String} (inside : front <+: site.start path) : walk [] front = front :=
    walk_names fun name member => names name (inside.subset member)
  have made := FileTree.makeDirs_along ({} : FileTree String Bytes) [] (site.start path)
  refine ⟨(({} : FileTree String Bytes).makeDirs [] (site.start path)).tree, fun other => ?_, ?_, fun other dir => ?_⟩
  · rw [made.grown.read, FileTree.read?_empty]
  · have there := (FileTree.makeDirs_clear (FileTree.read?_empty (B := Bytes)) (FileTree.isDir_iff.mpr (if_pos rfl))).2 (site.start path) List.prefix_rfl
    rwa [whole List.prefix_rfl] at there
  · rw [FileTree.isDir_iff, made.node, FileTree.node?_empty] at dir
    split at dir
    · rename_i new
      obtain ⟨front, inside, same⟩ := made.along other new
      rwa [same, whole inside]
    · split at dir
      · rename_i root
        rw [root]
        exact List.nil_prefix
      · cases dir

/-- Where there are no files, a directory is made at every place on the way that has none. -/
private theorem along_of_made (There : List String → Prop) {tree : FileTree String Bytes} {root : List String} {above filePath : String}
    (clear : ∀ other, tree.read? other = none) (here : tree.isDir (site.start above) = true)
    (found : parent filePath = some above) (stays : ∀ dir ∈ site.madeAbove filePath tree, Along root dir)
    (there : ∀ other, tree.isDir other = true → Along root other ∨ There other) {front : List String}
    (inside : front <+: pieces above) : Along root (walk (site.start above) front) ∨ There (walk (site.start above) front) := by
  have ends (dots : FileTree.endsInDot (pieces above) = true) : tree.isDir (walk (site.start above) (pieces above)) = true := by
    rw [FileTree.endsInDot_parent found dots]
    exact here
  have dir := (FileTree.createDirAll_clear clear here ends).2 front inside
  rw [FileTree.isDir_iff, (FileTree.createDirAll_along tree _ _).node] at dir
  rw [S3Site.madeAbove, found] at stays
  split at dir
  · rename_i new
    exact .inl (stays _ new)
  · exact there _ (FileTree.isDir_iff.mpr dir)

private theorem along_of_start (named : NamesOnly bucket) {location : List String} (inside : location <+: site.start site.stagingDir) :
    Along (site.bucketRoot bucket) location := by
  refine .inl (inside.trans ?_)
  rw [← start_bucketDir named, ← resolve_bucketDir named, S3Site.resolve, Path.resolve]
  exact walk_onward (onward_bucketDir site named)

private theorem put_contained (other : bucket ≠ "legacy") (headers : List (String × Option String)) (body : Body) :
    (∀ tree, S3Site.AllStay (site.bucketRoot bucket) (site.s3PutObject bucket key headers body { tree }).1) ↔
      site.KeyBelow bucket key ∧ site.WayAlong bucket key fun _ => False := by
  rw [keyBelow_iff]
  constructor
  · intro stays
    have named := ((allStay_s3PutObject other).mp (stays {})).1.2
    obtain ⟨tree, clear, here, only⟩ := exists_clear site site.stagingDir
    rw [← start_bucketDir named] at here
    have ends (dots : FileTree.endsInDot (pieces (site.getS3BucketDir bucket)) = true) :
        tree.isDir (walk (site.start (site.getS3BucketDir bucket)) (pieces (site.getS3BucketDir bucket))) = true := by
      rw [(straight_bucketDir site other named).dotless] at dots
      cases dots
    obtain ⟨inside, beside⟩ :=
      ((allStay_s3PutObject other).mp (stays tree)).2 (FileTree.createDirAll_clear clear here ends).1
    refine ⟨inside, fun above found front ahead => ?_⟩
    obtain ⟨start, same⟩ : ∃ start,
        start = (tree.createDirAll (site.start (site.getS3BucketDir bucket)) (pieces (site.getS3BucketDir bucket))).tree :=
      ⟨_, rfl⟩
    have made := FileTree.createDirAll_along tree (site.start (site.getS3BucketDir bucket)) (pieces (site.getS3BucketDir bucket))
    have began : start.isDir (site.start above) = true := by
      rw [start_parent named found, ← start_bucketDir named, same]
      exact made.grown.dirs _ here
    rw [show (site.createDirAll (site.getS3BucketDir bucket) { tree }).1.tree = start from same.symm] at beside
    refine along_of_made (fun _ => False) (fun other => ?_) began found beside (fun dir there => .inl ?_) ahead
    · rw [same, made.grown.read, clear]
    · rw [same, FileTree.isDir_iff, made.node] at there
      split at there
      · rename_i new
        exact along_createDirAll (onward_bucketDir site named) (namesOnly_iff.mp named) tree dir new
      · exact along_of_start named (only dir (FileTree.isDir_iff.mpr there))
  · intro ⟨inside, way⟩ tree
    refine (allStay_s3PutObject other).mpr ⟨⟨allStay_start _ tree, named_of_under inside.under⟩, fun _ => ⟨inside, ?_⟩⟩
    intro dir member
    obtain ⟨_, above, found, front, ahead, rfl⟩ := mem_madeAbove member
    exact (way above found front ahead).resolve_right id

/-- The directory of the upload may be there, with nothing else. -/
private theorem exists_upload (site : S3Site) (named : NamesOnly bucket) (uploadId : String) : ∃ tree : FileTree String Bytes,
    (∀ other, tree.read? other = none) ∧ tree.isDir (site.start site.stagingDir) = true ∧
      ((site.locate (site.uploadDir bucket uploadId) tree).bind tree.node?).isSome ∧
        ∀ other, tree.isDir other = true → other <+: site.start site.stagingDir ∨
          site.Passes bucket uploadId other ∨ other = site.resolve (site.uploadDir bucket uploadId) := by
  obtain ⟨tree, clear, here, only⟩ := exists_clear site site.stagingDir
  have start : tree.isDir (site.start (site.uploadDir bucket uploadId)) = true := by
    rw [start_uploadDir named]
    split
    · exact FileTree.isDir_iff.mpr (if_pos rfl)
    · exact here
  have made := FileTree.makeDirs_along tree (site.start (site.uploadDir bucket uploadId)) (pieces (site.uploadDir bucket uploadId))
  have dirs := (@FileTree.makeDirs_clear _ tree _ (pieces (site.uploadDir bucket uploadId)) clear start).2
  refine ⟨_, fun other => (made.grown.read other).trans (clear other), made.grown.dirs _ here, ?_, fun other there => ?_⟩
  · have leads : site.locate (site.uploadDir bucket uploadId) _ = some (site.resolve (site.uploadDir bucket uploadId)) :=
      FileTree.locate_eq_some_iff.mpr ⟨rfl, fun front piece rest whole => dirs front ⟨piece :: rest, whole.symm⟩⟩
    rw [leads, Option.bind_some]
    exact Option.isSome_iff_exists.mpr ⟨.dir, FileTree.isDir_iff.mp (dirs _ List.prefix_rfl)⟩
  · rw [FileTree.isDir_iff, made.node] at there
    split at there
    · rename_i new
      obtain ⟨front, ⟨rest, whole⟩, rfl⟩ := made.along other new
      cases rest with
      | nil =>
        rw [List.append_nil] at whole
        rw [whole]
        exact .inr (.inr rfl)
      | cons piece rest => exact .inr (.inl ⟨front, piece, rest, whole.symm, rfl⟩)
    · exact .inl (only other (FileTree.isDir_iff.mpr there))

private theorem complete_contained (other : bucket ≠ "legacy") (payload : Except String (List MultipartPart)) :
    (∀ tree, S3Site.AllStay (site.bucketRoot bucket) (site.s3CompleteMultipart bucket key uploadId payload { tree }).1) ↔
      site.UploadBelow bucket uploadId ∧
        (payload.isOk → site.KeyBelow bucket key ∧ site.WayAlong bucket key (site.Passes bucket uploadId)) := by
  rw [keyBelow_iff, uploadBelow_iff]
  constructor
  · intro stays
    have temp := ((allStay_s3CompleteMultipart other).mp (stays {})).1.2
    have named := named_of_under temp.under
    obtain ⟨tree, clear, here, present, only⟩ := exists_upload site named uploadId
    refine ⟨temp, fun ok => ?_⟩
    obtain ⟨inside, beside⟩ := ((allStay_s3CompleteMultipart other).mp (stays tree)).2 ⟨present, ok⟩
    refine ⟨inside, fun above found front ahead => ?_⟩
    rw [← start_parent named found] at here
    refine along_of_made (site.Passes bucket uploadId) clear here found beside (fun dir there => ?_) ahead
    rcases only dir there with start | passes | rfl
    · exact .inl (along_of_start named start)
    · exact .inr passes
    · exact .inl (.inr temp.under)
  · intro ⟨temp, file⟩ tree
    refine (allStay_s3CompleteMultipart other).mpr ⟨⟨allStay_start _ tree, temp⟩, fun found => ⟨(file found.2).1, ?_⟩⟩
    intro dir member
    obtain ⟨missing, above, parted, front, ahead, rfl⟩ := mem_madeAbove member
    refine ((file found.2).2 above parted front ahead).resolve_right ?_
    rintro ⟨before, piece, rest, whole, same⟩
    -- The directory of the upload has been looked up, so the places on its way are there.
    obtain ⟨node, there⟩ := Option.isSome_iff_exists.mp found.1
    obtain ⟨location, leads, _⟩ := Option.bind_eq_some_iff.mp there
    have dir := (FileTree.locate_eq_some_iff.mp leads).2 before piece rest whole
    rw [FileTree.isDir_iff, ← same, missing] at dir
    cases dir

/-- A new upload has a directory in the bucket if the bucket has one. -/
private theorem under_newUpload (id : NewUploadId) :
    Under (site.bucketRoot bucket) (site.resolve (site.uploadDir bucket id.text)) ↔ NamesOnly bucket := by
  refine ⟨named_of_under, fun named => ?_⟩
  have names : ∀ name ∈ [".veloce_multipart", id.text], IsName name := by
    intro name member
    rcases List.mem_pair.mp member with rfl | rfl
    · decide
    · exact id.proper
  rw [resolve_uploadDir named, if_neg (Bool.eq_false_iff.mp (isAbsolute_of_isName id.proper)),
    pieces_of_unslashed id.proper.unslashed, walk_names names]
  exact List.prefix_append ..

/-- A request whose handler stays for every tree or for none. -/
private theorem forall_allStay_iff {stays : Prop} {root : List String} {handled : Disk → Disk}
    (same : ∀ {disk}, S3Site.AllStay root (handled disk) ↔ S3Site.AllStay root disk ∧ stays) :
    (∀ tree, S3Site.AllStay root (handled { tree })) ↔ stays :=
  ⟨fun all => (same.mp (all {})).2, fun holds tree => same.mpr ⟨allStay_start root tree, holds⟩⟩

private theorem putRouter_contained (other : bucket ≠ "legacy") (query : S3Query) (headers : List (String × Option String))
    (body : Body) :
    (∀ tree, S3Site.AllStay (site.bucketRoot bucket) (site.s3PutRouter bucket key query headers body { tree }).1) ↔
      match query.partNumber, query.uploadId with
      | some _, some uploadId => site.UploadBelow bucket uploadId
      | _, _ => site.KeyBelow bucket key ∧ site.WayAlong bucket key fun _ => False := by
  unfold S3Site.s3PutRouter
  cases query.partNumber with
  | none => exact put_contained other headers body
  | some partNumber =>
    cases query.uploadId with
    | none => exact put_contained other headers body
    | some uploadId => exact (forall_allStay_iff (allStay_s3UploadPart other)).trans uploadBelow_iff.symm

private theorem deleteRouter_contained (other : bucket ≠ "legacy") (query : S3Query) :
    (∀ tree, S3Site.AllStay (site.bucketRoot bucket) (site.s3DeleteRouter bucket key query { tree }).1) ↔
      match query.uploadId with
      | some uploadId => site.UploadBelow bucket uploadId
      | none => site.KeyBelow bucket key := by
  unfold S3Site.s3DeleteRouter
  cases query.uploadId with
  | none => exact (forall_allStay_iff (allStay_s3DeleteObject other)).trans keyBelow_iff.symm
  | some uploadId => exact (forall_allStay_iff (allStay_s3AbortMultipart other)).trans uploadBelow_iff.symm

private theorem postRouter_contained (other : bucket ≠ "legacy") (query : S3Query) (id : NewUploadId)
    (payload : Except String (List MultipartPart)) :
    (∀ tree, S3Site.AllStay (site.bucketRoot bucket) (site.s3PostRouter bucket key query id payload { tree }).1) ↔
      if query.uploads.isSome then NamesOnly bucket
      else
        match query.uploadId with
        | some uploadId => site.UploadBelow bucket uploadId ∧
            (payload.isOk → site.KeyBelow bucket key ∧ site.WayAlong bucket key (site.Passes bucket uploadId))
        | none => True := by
  unfold S3Site.s3PostRouter
  split
  · exact (forall_allStay_iff (allStay_s3InitiateMultipart other)).trans (under_newUpload id)
  · cases query.uploadId with
    | none => exact iff_of_true (allStay_start _) trivial
    | some uploadId => exact complete_contained other payload

private theorem putRouter_legacy (disk : Disk) (key : String) (query : S3Query) (headers : List (String × Option String))
    (body : Body) : (site.s3PutRouter "legacy" key query headers body disk).1 = disk := by
  rw [S3Site.s3PutRouter]
  split
  · rfl
  · rfl

private theorem deleteRouter_legacy (disk : Disk) (key : String) (query : S3Query) :
    (site.s3DeleteRouter "legacy" key query disk).1 = disk := by
  rw [S3Site.s3DeleteRouter]
  split
  · rfl
  · rfl

private theorem postRouter_legacy (disk : Disk) (key : String) (query : S3Query) (id : NewUploadId)
    (payload : Except String (List MultipartPart)) : (site.s3PostRouter "legacy" key query id payload disk).1 = disk := by
  rw [S3Site.s3PostRouter]
  split
  · rfl
  · split
    · rfl
    · rfl

private theorem forall_allStay_legacy {root : List String} {handled : Disk → Disk} (same : ∀ disk, handled disk = disk)
    (tree : FileTree String Bytes) : S3Site.AllStay root (handled { tree }) := by
  rw [same]
  exact allStay_start root tree

/-- A request stays in its bucket exactly if its names keep it there. -/
theorem request_contained_iff (site : S3Site) (request : S3Request) : site.Contained request ↔ site.NamesBelow request := by
  cases request with
  | put bucket key query headers body =>
    by_cases legacy : bucket = "legacy"
    · subst legacy
      exact iff_of_true (forall_allStay_legacy fun disk => putRouter_legacy disk key query headers body) (.inl rfl)
    · exact (putRouter_contained legacy query headers body).trans (or_iff_right legacy).symm
  | get bucket key => exact (forall_allStay_iff allStay_s3GetObject).trans keyBelow_iff.symm
  | head bucket key => exact (forall_allStay_iff allStay_s3HeadObject).trans keyBelow_iff.symm
  | delete bucket key query =>
    by_cases legacy : bucket = "legacy"
    · subst legacy
      exact iff_of_true (forall_allStay_legacy fun disk => deleteRouter_legacy disk key query) (.inl rfl)
    · exact (deleteRouter_contained legacy query).trans (or_iff_right legacy).symm
  | list bucket query =>
    exact (forall_allStay_iff allStay_s3ListObjects).trans (imp_congr_right fun _ => namesOnly_iff.symm)
  | post bucket key query headers id payload =>
    by_cases legacy : bucket = "legacy"
    · subst legacy
      exact iff_of_true (forall_allStay_legacy fun disk => postRouter_legacy disk key query id payload) (.inl rfl)
    · exact (postRouter_contained legacy query id payload).trans (or_iff_right legacy).symm

theorem srv_proper : ∀ name ∈ ["srv"], IsName name := by decide

theorem data_onward : ".." ∉ Path.pieces "/data" := by decide

def plainSite : S3Site where
  cwd := ⟨["srv"], srv_proper⟩
  stagingDir := "/data"
  onward := data_onward
  toJson _ := []
  fromJson _ := none
  header := some
  md5 _ := ""

/-- An upload that is given up takes the directory of another bucket with it. -/
theorem abort_leaves_bucket : ¬ plainSite.Contained (.delete "mine" "key" { uploadId := some "../../other" }) := by
  intro contained
  have inside : Inside (plainSite.bucketRoot "mine") (plainSite.resolve (plainSite.uploadDir "mine" "../../other")) :=
    contained {} ⟨.removeDirAll, plainSite.resolve (plainSite.uploadDir "mine" "../../other")⟩ List.mem_cons_self
  revert inside
  decide

end Containment

end Veloce
