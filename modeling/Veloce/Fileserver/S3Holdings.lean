import Veloce.Collections.Run
import Veloce.Fileserver.S3Paths

/-! What an S3 store holds for its clients: objects by bucket and key, and the parts of open
uploads. -/

namespace Veloce

open Collections Path

/-- The headers of a request; a value that is not text is `none`. -/
abbrev S3Headers := List (String × Option String)

structure S3Object where
  bytes : Bytes
  headers : S3Headers

structure Holdings where
  objects : HashMap (String × String) S3Object := ∅
  parts : HashMap (String × String × Nat) Bytes := ∅
  /-- The headers of the requests that began uploads. -/
  begun : HashMap (String × String) S3Headers := ∅

def metaOf (headers : S3Headers) : S3Headers := headers.filter fun header => beginsWith header.1 "x-amz-meta-"

namespace Holdings

variable (holdings : Holdings)

def headersAt (bucket key : String) : S3Headers := ((holdings.objects.get? (bucket, key)).map S3Object.headers).getD []

def carried (bucket uploadId : String) (headers : S3Headers) : S3Headers :=
  holdings.begun.getD (bucket, uploadId) [] ++ metaOf headers

def combined (bucket uploadId : String) (parts : List MultipartPart) : Bytes :=
  parts.flatMap fun part => holdings.parts.getD (bucket, uploadId, part.partNumber) []

def put (bucket key : String) (object : S3Object) : Holdings :=
  { holdings with objects := holdings.objects.insert (bucket, key) object }

def delete (bucket key : String) : Holdings := { holdings with objects := holdings.objects.remove (bucket, key) }

def initiate (bucket uploadId : String) (headers : S3Headers) : Holdings :=
  { holdings with begun := holdings.begun.insert (bucket, uploadId) (metaOf headers) }

def upload (bucket uploadId : String) (partNumber : Nat) (bytes : Bytes) : Holdings :=
  { holdings with parts := holdings.parts.insert (bucket, uploadId, partNumber) bytes }

def abort (bucket uploadId : String) : Holdings :=
  { holdings with parts := holdings.parts.retain fun part _ => ¬ (part.1 = bucket ∧ part.2.1 = uploadId) }

def after : S3Request → Holdings
  | .put bucket key query headers body =>
    match query.partNumber, query.uploadId with
    | some partNumber, some uploadId => holdings.upload bucket uploadId partNumber (received body).1
    | _, _ => holdings.put bucket key ⟨(received body).1, metaOf headers⟩
  | .delete bucket key query =>
    match query.uploadId with
    | some uploadId => holdings.abort bucket uploadId
    | none => holdings.delete bucket key
  | .post bucket key query headers newUploadId payload =>
    if query.uploads.isSome then holdings.initiate bucket newUploadId.text headers
    else
      match query.uploadId, payload with
      | some uploadId, .ok parts =>
        (holdings.put bucket key
          ⟨holdings.combined bucket uploadId parts, holdings.carried bucket uploadId headers⟩).abort bucket uploadId
      | _, _ => holdings
  | .get .. | .head .. | .list .. => holdings

end Holdings

def SameHeaders (answered : HashMap String String) (written : S3Headers) : Prop :=
  (answered.toList.map fun (name, text) => (name, some text)).Perm written

instance (answered : HashMap String String) (written : S3Headers) : Decidable (SameHeaders answered written) :=
  inferInstanceAs (Decidable (List.Perm _ _))

def GetSays (object : Option S3Object) (answer : Except Refusal S3Answer) : Prop :=
  match object, answer with
  | some object, .ok (.object headers (some bytes)) => bytes = object.bytes ∧ SameHeaders headers object.headers
  | none, .error refusal => refusal.1 = 404
  | _, _ => False

instance : (object : Option S3Object) → (answer : Except Refusal S3Answer) → Decidable (GetSays object answer)
  | some object, .ok (.object headers (some bytes)) =>
    inferInstanceAs (Decidable (bytes = object.bytes ∧ SameHeaders headers object.headers))
  | none, .error refusal => inferInstanceAs (Decidable (refusal.1 = 404))
  | none, .ok _ | some _, .error _ | some _, .ok (.object _ none) | some _, .ok .done | some _, .ok (.head ..)
  | some _, .ok (.listed _) | some _, .ok (.upload _) | some _, .ok (.part _) | some _, .ok (.completed _) => isFalse id

def HeadSays (object : Option S3Object) (answer : Except Refusal S3Answer) : Prop :=
  match object, answer with
  | some object, .ok (.head headers length) => length = object.bytes.length ∧ SameHeaders headers object.headers
  | none, .error refusal => refusal.1 = 404
  | _, _ => False

/-- The keys of the bucket that begin so, each once and with its size; a bucket that is not
found has no keys. -/
def ListSays (holdings : Holdings) (bucket startsWith : String) (answer : Except Refusal S3Answer) : Prop :=
  match answer with
  | .ok (.listed contents) =>
    (contents.map ListedObject.key).Nodup ∧ ∀ key size, ⟨key, size⟩ ∈ contents ↔
      ∃ object, holdings.objects.get? (bucket, key) = some object ∧ beginsWith key startsWith ∧ size = object.bytes.length
  | .error refusal => refusal.1 = 404 ∧ ∀ key, holdings.objects.get? (bucket, key) = none
  | _ => False

/-- A key that is apart from the files the store has for itself. -/
structure OwnKey (key : String) : Prop where
  named : NamesOnly key
  notHeaders : endsWith ((pieces key).getLastD "") ".meta.json" = false
  notPart : (pieces key).head? ≠ some ".veloce_multipart"

instance (key : String) : Decidable (OwnKey key) :=
  decidable_of_iff (NamesOnly key ∧ endsWith ((pieces key).getLastD "") ".meta.json" = false ∧
      (pieces key).head? ≠ some ".veloce_multipart")
    ⟨fun ⟨named, notHeaders, notPart⟩ => ⟨named, notHeaders, notPart⟩, fun own => ⟨own.named, own.notHeaders, own.notPart⟩⟩

/-- Texts under different names. -/
structure Readable (headers : S3Headers) : Prop where
  texts : ∀ header ∈ headers, header.2.isSome
  distinct : (headers.map Prod.fst).Nodup

instance (headers : S3Headers) : Decidable (Readable headers) :=
  decidable_of_iff ((∀ header ∈ headers, header.2.isSome) ∧ (headers.map Prod.fst).Nodup)
    ⟨fun ⟨texts, distinct⟩ => ⟨texts, distinct⟩, fun readable => ⟨readable.texts, readable.distinct⟩⟩

structure S3Store where
  disk : Disk := {}
  holdings : Holdings := {}

namespace S3Site

variable (site : S3Site)

/-- A write that the store takes down in full. -/
structure Written (bucket key : String) (headers : S3Headers) (store : S3Store) : Prop where
  bucketName : IsName bucket
  ownKey : OwnKey key
  shown : '\\' ∉ key.toList
  readable : Readable headers
  /-- The headers of the object before are not left. -/
  replaced : headers = [] → store.holdings.headersAt bucket key = []
  free : headers ≠ [] → store.disk.tree.node? (site.resolve (metaPath (site.getS3FilePath bucket key))) ≠ some .dir

instance (bucket key : String) (headers : S3Headers) (store : S3Store) : Decidable (site.Written bucket key headers store) :=
  decidable_of_iff (IsName bucket ∧ OwnKey key ∧ '\\' ∉ key.toList ∧ Readable headers ∧
      (headers = [] → store.holdings.headersAt bucket key = []) ∧
      (headers ≠ [] → store.disk.tree.node? (site.resolve (metaPath (site.getS3FilePath bucket key))) ≠ some .dir))
    ⟨fun ⟨bucketName, ownKey, shown, readable, replaced, free⟩ => ⟨bucketName, ownKey, shown, readable, replaced, free⟩,
      fun written => ⟨written.bucketName, written.ownKey, written.shown, written.readable, written.replaced, written.free⟩⟩

/-- A request that the store serves as a map would. -/
def Fits (store : S3Store) : S3Request → Prop
  | .put bucket key query headers _ =>
    match query.partNumber, query.uploadId with
    | some _, some uploadId => IsName bucket ∧ IsName uploadId
    | _, _ => site.Written bucket key (metaOf headers) store
  | .delete bucket key query => IsName bucket ∧
    match query.uploadId with
    | some uploadId => IsName uploadId
    | none => OwnKey key
  | .post bucket key query headers _ _ =>
    if query.uploads.isSome then IsName bucket
    else
      match query.uploadId with
      | some uploadId => IsName uploadId ∧ store.holdings.carried bucket uploadId headers = [] ∧ site.Written bucket key [] store
      | none => True
  | .get .. | .head .. | .list .. => True

instance (store : S3Store) : (request : S3Request) → Decidable (site.Fits store request)
  | .put bucket _ ⟨_, _, _, some uploadId, some _⟩ _ _ => inferInstanceAs (Decidable (IsName bucket ∧ IsName uploadId))
  | .put bucket key ⟨_, _, _, none, none⟩ headers _ | .put bucket key ⟨_, _, _, none, some _⟩ headers _
  | .put bucket key ⟨_, _, _, some _, none⟩ headers _ => inferInstanceAs (Decidable (site.Written bucket key (metaOf headers) store))
  | .delete bucket _ ⟨_, _, _, some uploadId, _⟩ => inferInstanceAs (Decidable (IsName bucket ∧ IsName uploadId))
  | .delete bucket key ⟨_, _, _, none, _⟩ => inferInstanceAs (Decidable (IsName bucket ∧ OwnKey key))
  | .post bucket _ ⟨_, _, some _, _, _⟩ _ _ _ => inferInstanceAs (Decidable (IsName bucket))
  | .post bucket key ⟨_, _, none, some uploadId, _⟩ headers _ _ => inferInstanceAs (Decidable (IsName uploadId ∧
      store.holdings.carried bucket uploadId headers = [] ∧ site.Written bucket key [] store))
  | .post _ _ ⟨_, _, none, none, _⟩ _ _ _ => isTrue trivial
  | .get .. | .head .. | .list .. => isTrue trivial

/-- A key that is read as a key of the map: nothing has its path, or it is an own key and
its path is not a directory. -/
def Reads (bucket key : String) (disk : Disk) : Prop :=
  disk.tree.node? (site.resolve (site.getS3FilePath bucket key)) = none ∨
    IsName bucket ∧ bucket ≠ "legacy" ∧ OwnKey key ∧
      disk.tree.node? (site.resolve (site.getS3FilePath bucket key)) ≠ some .dir

/-- A list in which no part of an open upload is shown. -/
def Lists (bucket startsWith : String) (store : S3Store) : Prop :=
  store.disk.tree.node? (site.resolve (site.getS3BucketDir bucket)) = none ∨
    IsName bucket ∧ bucket ≠ "legacy" ∧
      ∀ uploadId partNumber, (store.holdings.parts.get? (bucket, uploadId, partNumber)).isSome →
        beginsWith (listedKey [".veloce_multipart", uploadId, toString partNumber]) startsWith = false

/-- The other crates read the stored headers back. -/
structure ReadsBack (headers : S3Headers) : Prop where
  json : site.fromJson (site.toJson (amzMeta headers)) = some (amzMeta headers)
  header : ∀ entry ∈ (amzMeta headers).toList, site.header entry = some entry

/-- The crates read the headers back that a request writes. -/
def CratesReadBack : S3Request → Prop
  | .put _ _ _ headers _ => site.ReadsBack (metaOf headers)
  | _ => True

def request (request : S3Request) (store : S3Store) : Option S3Store :=
  match site.serve request store.disk with
  | (disk, .ok _) => some ⟨disk, store.holdings.after request⟩
  | (_, .error _) => none

end S3Site

end Veloce
