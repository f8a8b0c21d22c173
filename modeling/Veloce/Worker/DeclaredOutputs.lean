import Mathlib.Data.List.Destutter
import Mathlib.Data.String.Basic
import Veloce.Collections.LinkTree
import Veloce.Collections.Utf8Lossy
import Veloce.Common.Types
import Veloce.Worker.OutputPatterns

/-! The declared outputs of a job: listing them and reading one of them. -/

namespace Veloce

open Collections

/-- What is neither a directory nor a link. Of a device, a pipe or a socket it is only known
what a read from an offset gives, if it gives anything. -/
inductive OutputFile where
  | regular (content : List UInt8) (modified : Option Nat)
  | special (size : Option Nat) (read : Nat → Option Nat → Option (List UInt8))

/-- The files that a worker sees. How far it can seek depends on the file system that has the
file, and is less than 63 bits. -/
structure WorkerFiles extends LinkSystem OutputFile where
  dirSize : List String → Nat
  maxOffset : List String → Nat
  representable : ∀ location, maxOffset location < 2 ^ 63

inductive OutputError where
  | refused (text : String)
  | io
deriving DecidableEq

/-- The names below the root, with slashes between them. -/
def relativeOutputPath (root candidate : List String) : Option String :=
  if root <+: candidate then
    if candidate.drop root.length = [] then none else some (String.intercalate "/" (candidate.drop root.length))
  else none

def outputTypeForPath (asset : ContainerAsset) (relPath : String) : Option String :=
  (asset.manifest.outputCollection.find? fun output =>
    outputPatternMatches (Utf8.encode output.path) (Utf8.encode relPath)).map OutputCollection.outputType

/-- The artifact of a file, if it is declared. -/
def outputArtifact (root : List String) (asset : ContainerAsset) (path : List String) (content : List UInt8)
    (modified : Option Nat) : Option JobOutputArtifact := do
  let relPath ← relativeOutputPath root path
  let outputType ← outputTypeForPath asset relPath
  return { path := relPath, outputType := outputType, fileId := none, size := some content.length, updatedAt := modified }

mutual

def collectInner (root : List String) (asset : ContainerAsset) : List String → LinkEntries OutputFile → List JobOutputArtifact
  | _, .nil => []
  | dir, .cons name tree rest => collectEntry root asset (dir ++ [name]) tree ++ collectInner root asset dir rest

def collectEntry (root : List String) (asset : ContainerAsset) : List String → LinkTree OutputFile → List JobOutputArtifact
  | _, .link _ => []
  | path, .dir entries => collectInner root asset path entries
  | path, .leaf (.regular content modified) => (outputArtifact root asset path content modified).toList
  | _, .leaf (.special _ _) => []

end

/-- `dedup_by`: of neighbours with one path the first is kept. -/
def dedupByPath (artifacts : List JobOutputArtifact) : List JobOutputArtifact :=
  artifacts.destutter fun kept artifact => kept.path ≠ artifact.path

def collectDeclaredOutputArtifacts (fs : WorkerFiles) (cwd : Location) (root : String) (asset : Option ContainerAsset) :
    Except OutputError (List JobOutputArtifact) :=
  match asset with
  | none => .ok []
  | some asset =>
    if asset.manifest.outputCollection.isEmpty then .ok []
    else match fs.canonicalize cwd root with
      | none => .ok []
      | some rootCanon =>
        match fs.node? rootCanon with
        | some (.dir entries) =>
          let artifacts := collectInner rootCanon asset rootCanon entries
          .ok (dedupByPath (artifacts.mergeSort fun a b => a.path ≤ b.path))
        | _ => .error .io

/-- The names of a request, without the dots. -/
def normalizedNames (requestedPath : String) : List String :=
  (Path.pieces requestedPath).filter fun piece => !Path.isTrivial piece

def validateOutputRequest (fs : WorkerFiles) (cwd : Location) (root : String) (asset : ContainerAsset) (requestedPath : String) :
    Except OutputError (Option (List String) × String × String) :=
  if Path.isAbsolute requestedPath then .error (.refused "Output path must be relative to the job working directory")
  else if ".." ∈ Path.pieces requestedPath then
    .error (.refused "Output path may not contain parent, prefix, or root components")
  else
    let normalized := String.intercalate "/" (normalizedNames requestedPath)
    if normalized = "" then .error (.refused "Output path is empty")
    else match outputTypeForPath asset normalized with
      | none => .error (.refused "Output path is not declared in the container manifest")
      | some outputType =>
        match fs.canonicalize cwd (Path.join root normalized) with
        | none => .ok (none, normalized, outputType)
        | some candidateCanon =>
          match fs.canonicalize cwd root with
          | none => .error (.refused ("Failed to canonicalize job working directory " ++ root))
          | some rootCanon =>
            if rootCanon <+: candidateCanon then .ok (some candidateCanon, normalized, outputType)
            else .error (.refused "Output path resolves outside the job working directory")

/-- The bytes from the offset on, so many at most. -/
def chunk (content : List UInt8) (offset : Nat) (length : Option Nat) : List UInt8 :=
  match length with
  | some length => (content.drop offset).take length
  | none => content.drop offset

def readChunkAt (fs : WorkerFiles) (location : List String) (offset : Nat) (length : Option Nat) :
    LinkTree OutputFile → Except OutputError (List UInt8 × Option Nat)
  | .leaf (.regular content _) =>
    if fs.maxOffset location < offset then .error .io else .ok (chunk content offset length, some content.length)
  | .leaf (.special size read) =>
    match read offset length with
    | some bytes => .ok (bytes, size)
    | none => .error .io
  | .dir _ => if fs.maxOffset location < offset ∨ length ≠ some 0 then .error .io else .ok ([], some (fs.dirSize location))
  | .link _ => .error .io

def readDeclaredOutputChunk (fs : WorkerFiles) (cwd : Location) (root : String) (asset : Option ContainerAsset)
    (requestedPath : String) (offset : Nat) (length : Option Nat) : Except OutputError (String × List UInt8 × Option Nat) :=
  match asset with
  | none => .error (.refused "Job has no container manifest with declared outputs")
  | some asset => do
    let (path, normalized, _) ← validateOutputRequest fs cwd root asset requestedPath
    match path.bind fun location => (fs.node? location).map fun tree => (location, tree) with
    | none => return (normalized, [], none)
    | some (location, tree) =>
      let (bytes, size) ← readChunkAt fs location offset length tree
      return (normalized, bytes, size)

end Veloce
