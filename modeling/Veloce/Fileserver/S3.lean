import Veloce.Collections.PathLookup
import Veloce.Common.JobPolicy

/-! The S3 handlers of the file server, where it keeps the objects itself: each object is a
file, its `x-amz-meta-` headers are in a second file beside it, and the parts of an upload
wait in a directory of the bucket. -/

namespace Veloce

open Collections

abbrev Bytes := List UInt8

inductive FsCall where
  | stat
  /-- The check that the directory of a bucket is there. -/
  | statDir
  | listDir
  | createDirAll
  /-- A directory that `create_dir_all` makes. -/
  | makeDir
  | openFile
  | createFile
  | removeFile
  | removeDirAll
deriving DecidableEq, Repr

/-- One call to the file system, and where its path leads. -/
structure Touch where
  call : FsCall
  location : List String
deriving DecidableEq, Repr

/-- The files of the server, and the calls of its handlers so far. -/
structure Disk where
  tree : FileTree String Bytes := {}
  touched : List Touch := []

/-- The configuration, and what the handlers use of other crates. -/
structure S3Site where
  cwd : Location
  stagingDir : String
  onward : ".." ∉ Path.pieces stagingDir
  /-- `serde_json` for a map of texts. -/
  toJson : HashMap String String → Bytes
  fromJson : Bytes → Option (HashMap String String)
  /-- A header with that name and value, if both are valid. -/
  header : String × String → Option (String × String)
  md5 : Bytes → String
  /-- The length that `stat` gives for a directory. -/
  dirLen : Nat := 4096
  /-- The text of a failed call. -/
  ioError : String := ""

namespace S3Site

variable (site : S3Site)

section FileSystem

def start (path : String) : List String := if Path.isAbsolute path then [] else site.cwd.names

def resolve (path : String) : List String := Path.resolve site.cwd.names path

def locate (path : String) (tree : FileTree String Bytes) : Option (List String) :=
  tree.locate (site.start path) (Path.pieces path)

def look (call : FsCall) (path : String) (disk : Disk) : Disk × Option (Node Bytes) :=
  ({ disk with touched := disk.touched ++ [⟨call, site.resolve path⟩] },
    (site.locate path disk.tree).bind disk.tree.node?)

/-- A call that changes the tree, and whether it worked. -/
def change (call : FsCall) (path : String) (disk : Disk)
    (operation : FileTree String Bytes → List String → Option (FileTree String Bytes)) : Disk × Bool :=
  let tree := (site.locate path disk.tree).bind (operation disk.tree)
  ({ tree := tree.getD disk.tree, touched := disk.touched ++ [⟨call, site.resolve path⟩] }, tree.isSome)

def createDirAll (path : String) (disk : Disk) : Disk × Bool :=
  let made := disk.tree.createDirAll (site.start path) (Path.pieces path)
  ({ tree := made.tree
     touched := disk.touched ++ ⟨.createDirAll, site.resolve path⟩ :: made.dirs.map (⟨.makeDir, ·⟩) }, made.whole)

def createFile (path : String) (content : Bytes) (disk : Disk) : Disk × Bool :=
  site.change .createFile path disk fun tree location => tree.writeFile location content

def removeFile (path : String) (disk : Disk) : Disk × Bool := site.change .removeFile path disk FileTree.removeFile

def removeDirAll (path : String) (disk : Disk) : Disk × Bool :=
  site.change .removeDirAll path disk fun tree => tree.removeAll (Path.pieces path)

/-- More is written to a file that has been created. -/
def refill (path : String) (content : Bytes) (disk : Disk) : Disk :=
  { disk with tree := (disk.tree.writeFile (site.resolve path) content).getD disk.tree }

end FileSystem

def trimKey (key : String) : String := trimStartMatches key "/"

def getS3BucketDir (bucket : String) : String :=
  if bucket = "legacy" then site.stagingDir else Path.join (Path.join site.stagingDir "s3") bucket

def getS3FilePath (bucket key : String) : String :=
  if bucket = "legacy" then Path.join site.stagingDir (trimKey key)
  else Path.join (Path.join (Path.join site.stagingDir "s3") bucket) (trimKey key)

def metaPath (filePath : String) : String := filePath ++ ".meta.json"

def uploadDir (bucket uploadId : String) : String :=
  Path.join (Path.join (site.getS3BucketDir bucket) ".veloce_multipart") uploadId

/-- The headers beside an object; whatever does not read as headers is left out. -/
def loadMetaHeaders (filePath : String) (disk : Disk) : Disk × HashMap String String :=
  let (disk, node) := site.look .openFile (metaPath filePath) disk
  (disk, match node with
    | some (.file json) =>
      ((site.fromJson json).getD ∅).toList.foldl (fun headers entry =>
        match site.header entry with
        | some (name, value) => headers.insert name value
        | none => headers) ∅
    | _ => ∅)

end S3Site

/-- The pieces of a body as they come in, up to an error. -/
abbrev Body := List (Except String Bytes)

/-- What is received of a body, and the error that ends it. -/
def received : Body → Bytes × Option String
  | [] => ([], none)
  | .ok chunk :: rest => (chunk ++ (received rest).1, (received rest).2)
  | .error reason :: _ => ([], some reason)

/-- The readable `x-amz-meta-` headers; of several with one name the last. -/
def amzMeta (headers : List (String × Option String)) : HashMap String String :=
  headers.foldl (fun found (name, value) =>
    if beginsWith name "x-amz-meta-" then
      match value with
      | some text => found.insert name text
      | none => found
    else found) ∅

structure S3Query where
  listType : Option Nat := none
  startsWith : Option String := none
  uploads : Option String := none
  uploadId : Option String := none
  partNumber : Option Nat := none

structure MultipartPart where
  partNumber : Nat
  eTag : String

structure ListedObject where
  key : String
  size : Nat
deriving DecidableEq, Repr

inductive S3Answer where
  | done
  /-- A body that cannot be read is `none`. -/
  | object (headers : HashMap String String) (body : Option Bytes)
  | head (headers : HashMap String String) (length : Nat)
  | listed (contents : List ListedObject)
  | upload (uploadId : String)
  | part (eTag : String)
  | completed (eTag : String)

/-- An id of `Uuid::new_v4`, which can name a directory. -/
structure NewUploadId where
  text : String
  proper : IsName text

def quoted (text : String) : String := "\"" ++ text ++ "\""

def readOnly : Refusal := (403, "legacy bucket is read-only")

def endsWith (text ending : String) : Bool := ending.toList.isSuffixOf text.toList

namespace S3Site

variable (site : S3Site)

def s3PutObject (bucket key : String) (headers : List (String × Option String)) (body : Body) (disk : Disk) :
    Disk × Except Refusal S3Answer :=
  if bucket = "legacy" then (disk, .error readOnly)
  else
    match site.createDirAll (site.getS3BucketDir bucket) disk with
    | (disk, false) => (disk, .error (500, site.ioError))
    | (disk, true) =>
      let filePath := site.getS3FilePath bucket key
      let disk := (Path.parent filePath).elim disk fun parent => (site.createDirAll parent disk).1
      let metaHeaders := amzMeta headers
      let disk := if metaHeaders.isEmpty then disk
        else (site.createFile (metaPath filePath) (site.toJson metaHeaders) disk).1
      match site.createFile filePath (received body).1 disk, (received body).2 with
      | (disk, false), _ => (disk, .error (500, site.ioError))
      | (disk, true), some reason => (disk, .error (400, reason))
      | (disk, true), none => (disk, .ok .done)

def s3GetObject (bucket key : String) (disk : Disk) : Disk × Except Refusal S3Answer :=
  let filePath := site.getS3FilePath bucket key
  match site.look .openFile filePath disk with
  | (disk, none) => (disk, .error (404, "File not found"))
  | (disk, some node) =>
    let (disk, headers) := site.loadMetaHeaders filePath disk
    (disk, .ok (.object headers (match node with
      | .file content => some content
      | .dir => none)))

def s3HeadObject (bucket key : String) (disk : Disk) : Disk × Except Refusal S3Answer :=
  let filePath := site.getS3FilePath bucket key
  match site.look .stat filePath disk with
  | (disk, none) => (disk, .error (404, "File not found"))
  | (disk, some node) =>
    let (disk, headers) := site.loadMetaHeaders filePath disk
    (disk, .ok (.head headers (match node with
      | .file content => content.length
      | .dir => site.dirLen)))

def s3DeleteObject (bucket key : String) (disk : Disk) : Disk × Except Refusal S3Answer :=
  if bucket = "legacy" then (disk, .error readOnly)
  else
    let filePath := site.getS3FilePath bucket key
    match site.look .stat filePath disk with
    | (disk, none) => (disk, .error (404, "File not found"))
    | (disk, some _) =>
      let disk := (site.removeFile (metaPath filePath) disk).1
      match site.removeFile filePath disk with
      | (disk, true) => (disk, .ok .done)
      | (disk, false) => (disk, .error (500, site.ioError))

def listedKey (relPath : List String) : String :=
  String.ofList ((String.intercalate "/" relPath).toList.map fun char => if char = '\\' then '/' else char)

/-- The entry of a file in the list, by its path below the directory of the bucket. A file
that is named like one with headers is left out; such a name has the extension `json`. -/
def listedObject (bucketDir : List String) (startsWith : String) (relPath : List String) (content : Bytes) :
    Option ListedObject :=
  if endsWith ((bucketDir ++ relPath).getLastD "") ".meta.json" then none
  else if beginsWith (listedKey relPath) startsWith then some ⟨listedKey relPath, content.length⟩
  else none

def s3ListObjects (bucket : String) (query : S3Query) (disk : Disk) : Disk × Except Refusal S3Answer :=
  if query.listType ≠ some 2 then (disk, .error (400, "Only list-type=2 is supported"))
  else
    let bucketDir := site.getS3BucketDir bucket
    match site.look .statDir bucketDir disk with
    | (disk, none) => (disk, .error (404, "Bucket not found"))
    | (disk, some _) =>
      let (disk, _) := site.look .listDir bucketDir disk
      let location := site.resolve bucketDir
      (disk, .ok (.listed ((disk.tree.filesBelow location).filterMap fun (relPath, content) =>
        listedObject location (query.startsWith.getD "") relPath content)))

def s3InitiateMultipart (bucket : String) (uploadId : NewUploadId) (disk : Disk) : Disk × Except Refusal S3Answer :=
  if bucket = "legacy" then (disk, .error readOnly)
  else
    match site.createDirAll (site.uploadDir bucket uploadId.text) disk with
    | (disk, false) => (disk, .error (500, site.ioError))
    | (disk, true) => (disk, .ok (.upload uploadId.text))

def s3UploadPart (bucket uploadId : String) (partNumber : Nat) (body : Body) (disk : Disk) :
    Disk × Except Refusal S3Answer :=
  if bucket = "legacy" then (disk, .error readOnly)
  else
    let tempDir := site.uploadDir bucket uploadId
    match site.look .stat tempDir disk with
    | (disk, none) => (disk, .error (404, "Upload ID not found"))
    | (disk, some _) =>
      match site.createFile (Path.join tempDir (toString partNumber)) (received body).1 disk, (received body).2 with
      | (disk, false), _ => (disk, .error (500, site.ioError))
      | (disk, true), some reason => (disk, .error (400, reason))
      | (disk, true), none => (disk, .ok (.part (quoted (site.md5 (received body).1))))

def unquoted (eTag : String) : String :=
  String.ofList (((eTag.toList.dropWhile (· = '"')).reverse.dropWhile (· = '"')).reverse)

/-- The loop over the parts: each is appended to the file, and compared with its tag. -/
def combineParts (filePath tempDir : String) : (parts : List MultipartPart) → (content : Bytes) → Disk →
    Disk × Except Refusal Bytes
  | [], content, disk => (disk, .ok content)
  | part :: rest, content, disk =>
    match site.look .openFile (Path.join tempDir (toString part.partNumber)) disk with
    | (disk, some (.file data)) =>
      let disk := site.refill filePath (content ++ data) disk
      if site.md5 data ≠ unquoted part.eTag then
        ((site.removeFile filePath disk).1, .error (400, s!"ETag mismatch for part {part.partNumber}"))
      else combineParts filePath tempDir rest (content ++ data) disk
    | (disk, _) => (disk, .error (500, site.ioError))

/-- The body has been read to its end and parsed, or gives an error. -/
def s3CompleteMultipart (bucket key uploadId : String) (payload : Except String (List MultipartPart)) (disk : Disk) :
    Disk × Except Refusal S3Answer :=
  if bucket = "legacy" then (disk, .error readOnly)
  else
    let tempDir := site.uploadDir bucket uploadId
    match site.look .stat tempDir disk with
    | (disk, none) => (disk, .error (404, "Upload ID not found"))
    | (disk, some _) =>
      match payload with
      | .error reason => (disk, .error (400, reason))
      | .ok parts =>
        let filePath := site.getS3FilePath bucket key
        let disk := (Path.parent filePath).elim disk fun parent => (site.createDirAll parent disk).1
        match site.createFile filePath [] disk with
        | (disk, false) => (disk, .error (500, site.ioError))
        | (disk, true) =>
          match site.combineParts filePath tempDir parts [] disk with
          | (disk, .error refusal) => (disk, .error refusal)
          | (disk, .ok content) =>
            ((site.removeDirAll tempDir disk).1, .ok (.completed (quoted s!"{site.md5 content}-{parts.length}")))

def s3AbortMultipart (bucket uploadId : String) (disk : Disk) : Disk × Except Refusal S3Answer :=
  if bucket = "legacy" then (disk, .error readOnly)
  else ((site.removeDirAll (site.uploadDir bucket uploadId) disk).1, .ok .done)

end S3Site

/-- A request with its query; a post has the id that a new upload would get, and its headers
are not read. -/
inductive S3Request where
  | put (bucket key : String) (query : S3Query) (headers : List (String × Option String)) (body : Body)
  | get (bucket key : String)
  | head (bucket key : String)
  | delete (bucket key : String) (query : S3Query)
  | list (bucket : String) (query : S3Query)
  | post (bucket key : String) (query : S3Query) (headers : List (String × Option String)) (newUploadId : NewUploadId)
    (payload : Except String (List MultipartPart))

namespace S3Site

variable (site : S3Site)

def s3PutRouter (bucket key : String) (query : S3Query) (headers : List (String × Option String)) (body : Body)
    (disk : Disk) : Disk × Except Refusal S3Answer :=
  match query.partNumber, query.uploadId with
  | some partNumber, some uploadId => site.s3UploadPart bucket uploadId partNumber body disk
  | _, _ => site.s3PutObject bucket key headers body disk

def s3DeleteRouter (bucket key : String) (query : S3Query) (disk : Disk) : Disk × Except Refusal S3Answer :=
  match query.uploadId with
  | some uploadId => site.s3AbortMultipart bucket uploadId disk
  | none => site.s3DeleteObject bucket key disk

def s3PostRouter (bucket key : String) (query : S3Query) (newUploadId : NewUploadId)
    (payload : Except String (List MultipartPart)) (disk : Disk) : Disk × Except Refusal S3Answer :=
  if query.uploads.isSome then site.s3InitiateMultipart bucket newUploadId disk
  else
    match query.uploadId with
    | some uploadId => site.s3CompleteMultipart bucket key uploadId payload disk
    | none => (disk, .error (400, "Invalid POST operation"))

def serve (request : S3Request) (disk : Disk) : Disk × Except Refusal S3Answer :=
  match request with
  | .put bucket key query headers body => site.s3PutRouter bucket key query headers body disk
  | .get bucket key => site.s3GetObject bucket key disk
  | .head bucket key => site.s3HeadObject bucket key disk
  | .delete bucket key query => site.s3DeleteRouter bucket key query disk
  | .list bucket query => site.s3ListObjects bucket query disk
  | .post bucket key query _ newUploadId payload => site.s3PostRouter bucket key query newUploadId payload disk

end S3Site

end Veloce
