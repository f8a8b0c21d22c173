import Veloce.Fileserver.S3

/-! Completing an upload while calls of the file system may fail. -/

namespace Veloce

open Collections Path

inductive PartCopy where
  | whole
  | unopened
  /-- A read or a write fails after that much of the part. -/
  | broken (copied : Nat)
deriving DecidableEq

abbrev ListedPart := MultipartPart × PartCopy

/-- What else fails. A failed write shows in the next call on the file, and there is none after
the last: the file may have that length then. -/
structure CompleteFaults where
  uncreated : Bool := false
  unremoved : Bool := false
  lastWrite : Option Nat := none

def CompleteFaults.cut (faults : CompleteFaults) (content : Bytes) : Bytes :=
  match faults.lastWrite with
  | some kept => content.take kept
  | none => content

namespace S3Site

variable (site : S3Site) (faults : CompleteFaults)

def failing (fails : Bool) (call : FsCall) (path : String) (disk : Disk) (attempt : Disk × Bool) : Disk × Bool :=
  if fails then ({ disk with touched := disk.touched ++ [⟨call, site.resolve path⟩] }, false) else attempt

/-- The loop over the parts. It does not end at a part that is the file of the object, which
grows while it is read; a failure ends it. -/
def copyParts (filePath tempDir : String) : (parts : List ListedPart) → (content : Bytes) → Disk →
    Option (Disk × Except Refusal Bytes)
  | [], content, disk => some (disk, .ok content)
  | listed :: rest, content, disk =>
    let partPath := join tempDir (toString listed.1.partNumber)
    let grows := site.resolve partPath = site.resolve filePath
    match site.look .openFile partPath disk with
    | (disk, some (.file data)) =>
      match listed.2 with
      | .unopened => some (disk, .error (500, site.ioError))
      | .broken copied =>
        let read := if grows then (List.replicate copied data).flatten else data
        some (site.refill filePath (content ++ read.take copied) disk, .error (500, site.ioError))
      | .whole =>
        if grows ∧ data ≠ [] then none
        else
          let disk := site.refill filePath (content ++ data) disk
          if site.md5 data ≠ unquoted listed.1.eTag then
            some ((site.failing faults.unremoved .removeFile filePath disk (site.removeFile filePath disk)).1,
              .error (400, s!"ETag mismatch for part {listed.1.partNumber}"))
          else copyParts filePath tempDir rest (content ++ data) disk
    | (disk, _) => some (disk, .error (500, site.ioError))

/-- The last write comes to nothing, or to a part of it. -/
def loseWrite (filePath : String) (disk : Disk) : Disk :=
  match faults.lastWrite, disk.tree.read? (site.resolve filePath) with
  | some kept, some content => site.refill filePath (content.take kept) disk
  | _, _ => disk

def completeMultipart (bucket key uploadId : String) (payload : Except String (List ListedPart)) (disk : Disk) :
    Option (Disk × Except Refusal S3Answer) :=
  if bucket = "legacy" then some (disk, .error readOnly)
  else
    let tempDir := site.uploadDir bucket uploadId
    match site.look .stat tempDir disk with
    | (disk, none) => some (disk, .error (404, "Upload ID not found"))
    | (disk, some _) =>
      match payload with
      | .error reason => some (disk, .error (400, reason))
      | .ok parts =>
        let filePath := site.getS3FilePath bucket key
        let disk := (Path.parent filePath).elim disk fun parent => (site.createDirAll parent disk).1
        match site.failing faults.uncreated .createFile filePath disk (site.createFile filePath [] disk) with
        | (disk, false) => some (disk, .error (500, site.ioError))
        | (disk, true) =>
          match site.copyParts faults filePath tempDir parts [] disk with
          | none => none
          | some (disk, .error refusal) => some (site.loseWrite faults filePath disk, .error refusal)
          | some (disk, .ok content) =>
            some ((site.removeDirAll tempDir (site.loseWrite faults filePath disk)).1,
              .ok (.completed (quoted s!"{site.md5 content}-{parts.length}")))

def parentMade (filePath : String) (tree : FileTree String Bytes) : FileTree String Bytes :=
  (Path.parent filePath).elim tree fun above => (tree.createDirAll (site.start above) (pieces above)).tree

/-- The files without the directory of the upload. -/
def swept (bucket uploadId : String) (tree : FileTree String Bytes) : FileTree String Bytes :=
  ((site.locate (site.uploadDir bucket uploadId) tree).bind (tree.removeAll (pieces (site.uploadDir bucket uploadId)))).getD tree

def objectAt (bucket key : String) : List String := site.resolve (site.getS3FilePath bucket key)

def partPath (tempDir : String) (listed : ListedPart) : String := join tempDir (toString listed.1.partNumber)

def readAt (tree : FileTree String Bytes) (path : String) : Option Bytes := (site.locate path tree).bind tree.read?

section Spec

variable (tree : FileTree String Bytes) (path : List String) (tempDir : String)

def partBytes (listed : ListedPart) : Bytes := (site.readAt tree (partPath tempDir listed)).getD []

def combined (parts : List ListedPart) : Bytes := parts.flatMap (site.partBytes tree tempDir)

def Tagged (listed : ListedPart) : Prop :=
  (site.readAt tree (partPath tempDir listed)).map site.md5 = some (unquoted listed.1.eTag)

def IsObject (listed : ListedPart) : Prop := site.locate (partPath tempDir listed) tree = some path

instance (listed : ListedPart) : Decidable (site.IsObject tree path tempDir listed) :=
  inferInstanceAs (Decidable (site.locate (partPath tempDir listed) tree = some path))

/-- What a part gives once the object has that content. -/
def partNow (content : Bytes) (listed : ListedPart) : Option Bytes :=
  if site.IsObject tree path tempDir listed then some content else site.readAt tree (partPath tempDir listed)

/-- A part that does not stop the request. -/
structure Copies (content : Bytes) (listed : ListedPart) (data : Bytes) : Prop where
  whole : listed.2 = .whole
  now : site.partNow tree path tempDir content listed = some data
  tagged : site.md5 data = unquoted listed.1.eTag
  ends : site.IsObject tree path tempDir listed → data = []

/-- The file after a part that stops the request; it is removed if the tag is wrong. -/
def stopped (content : Bytes) (listed : ListedPart) : Option Bytes :=
  (site.partNow tree path tempDir content listed).elim (some content) fun data =>
    match listed.2 with
    | .unopened => some content
    | .broken copied => some (content ++ (if site.IsObject tree path tempDir listed then (List.replicate copied data).flatten
        else data).take copied)
    | .whole => if faults.unremoved then some (content ++ data) else none

/-- What the parts make when none stops the request. -/
inductive Combines : (content : Bytes) → (parts : List ListedPart) → (all : Bytes) → Prop where
  | nil {content : Bytes} : Combines content [] content
  | cons {content data all : Bytes} {listed : ListedPart} {rest : List ListedPart}
      (copies : site.Copies tree path tempDir content listed data) (combines : Combines (content ++ data) rest all) :
      Combines content (listed :: rest) all

/-- What the first part that stops the request leaves of the file. -/
inductive Leaves : (content : Bytes) → (parts : List ListedPart) → (left : Option Bytes) → Prop where
  | here {content : Bytes} {listed : ListedPart} {rest : List ListedPart}
      (stops : ∀ data, ¬ site.Copies tree path tempDir content listed data) :
      Leaves content (listed :: rest) (site.stopped faults tree path tempDir content listed)
  | later {content data : Bytes} {listed : ListedPart} {rest : List ListedPart} {left : Option Bytes}
      (copies : site.Copies tree path tempDir content listed data) (leaves : Leaves (content ++ data) rest left) :
      Leaves content (listed :: rest) left

/-- The request gets as far as the file of its key. -/
structure Makes (bucket key uploadId : String) : Prop where
  writable : bucket ≠ "legacy"
  upload : ((site.locate (site.uploadDir bucket uploadId) tree).bind tree.node?).isSome
  created : faults.uncreated = false
  leads : site.locate (site.getS3FilePath bucket key) (site.parentMade (site.getS3FilePath bucket key) tree) =
    some (site.objectAt bucket key)
  room : ((site.parentMade (site.getS3FilePath bucket key) tree).writeFile (site.objectAt bucket key) []).isSome

def InUpload (bucket uploadId : String) : Prop :=
  ∃ location, site.locate (site.uploadDir bucket uploadId) tree = some location ∧ tree.isDir location = true ∧ location <+: path

/-- When the parts make that, the object of the upload's key is what is listed. -/
structure Home (bucket home key uploadId : String) (parts : List ListedPart) (all : Bytes) : Prop where
  tagged : ∀ listed ∈ parts, site.Tagged tree (site.uploadDir bucket uploadId) listed
  whole : ∃ location, site.locate (site.getS3FilePath bucket home)
      (site.swept bucket uploadId (site.parentMade (site.getS3FilePath bucket key) tree)) = some location ∧
    ¬ site.InUpload tree location bucket uploadId ∧
    (if location = site.objectAt bucket key then some (faults.cut all) else tree.read? location) =
      some (site.combined tree (site.uploadDir bucket uploadId) parts)

/-- The file of the key can be found, or is a part of the upload. -/
def Held (bucket key uploadId : String) : Prop :=
  site.locate (site.getS3FilePath bucket key) tree = some (site.objectAt bucket key) ∨
    ∃ listed, site.IsObject tree (site.objectAt bucket key) (site.uploadDir bucket uploadId) listed

/-- A request that makes no file; or all parts are put together, in the file of the upload's
key; or they are not, and there was no object, or just the one that the request leaves. -/
def Safe (bucket home key uploadId : String) (payload : Except String (List ListedPart)) : Prop :=
  ∀ parts, payload = .ok parts → site.Makes faults tree bucket key uploadId →
    (∃ all, site.Combines tree (site.objectAt bucket key) (site.uploadDir bucket uploadId) [] parts all ∧
        site.Home faults tree bucket home key uploadId parts all) ∨
      (∀ all, ¬ site.Combines tree (site.objectAt bucket key) (site.uploadDir bucket uploadId) [] parts all) ∧
        (site.Held tree bucket key uploadId →
          tree.read? (site.objectAt bucket key) = none ∨
            ∃ left, site.Leaves faults tree (site.objectAt bucket key) (site.uploadDir bucket uploadId) [] parts left ∧
              tree.read? (site.objectAt bucket key) = left.map faults.cut)

/-- A completed upload is the object of its key; a failed one leaves the object of the request
and the parts as they are. -/
def AllOrNothing (after : FileTree String Bytes) (bucket home key uploadId : String)
    (payload : Except String (List ListedPart)) : Except Refusal S3Answer → Prop
  | .ok _ => ∃ parts, payload = .ok parts ∧
      site.readAt after (site.getS3FilePath bucket home) = some (site.combined tree (site.uploadDir bucket uploadId) parts) ∧
      ∀ listed ∈ parts, site.Tagged tree (site.uploadDir bucket uploadId) listed
  | .error _ =>
    (∀ old, site.readAt tree (site.getS3FilePath bucket key) = some old →
        site.readAt after (site.getS3FilePath bucket key) = some old) ∧
      ∀ listed data, site.readAt tree (partPath (site.uploadDir bucket uploadId) listed) = some data →
        site.readAt after (partPath (site.uploadDir bucket uploadId) listed) = some data

end Spec

end S3Site

/-- Nothing but the file has changed, and it has that content, or is gone. -/
def LeftAs (made : FileTree String Bytes) (path : List String) (left : Option Bytes) (tree : FileTree String Bytes) : Prop :=
  ∀ other, tree.node? other = if other = path then left.map .file else made.node? other

/-- What the loop over the parts comes to. -/
def Looped (site : S3Site) (faults : CompleteFaults) (before made : FileTree String Bytes) (path : List String) (tempDir : String)
    (content : Bytes) (parts : List ListedPart) (tree : FileTree String Bytes) : Except Refusal Bytes → Prop
  | .ok all => site.Combines before path tempDir content parts all ∧ LeftAs made path (some all) tree
  | .error _ => ∃ left, site.Leaves faults before path tempDir content parts left ∧ LeftAs made path left tree

end Veloce
