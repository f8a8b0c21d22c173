import Veloce.Worker.DeclaredOutputs

/-! Every output that is listed can be read, and nothing is read that is not declared or not
in the working directory. -/

namespace Veloce

open Collections

/-- The bytes are what a read of the file gives. -/
def OutputFile.Yields (offset : Nat) (length : Option Nat) (bytes : List UInt8) : OutputFile → Prop
  | .regular content _ => bytes = chunk content offset length
  | .special _ read => read offset length = some bytes

/-- A pattern of the manifest matches the path. -/
def Declared (asset : ContainerAsset) (path : String) : Prop :=
  ∃ output ∈ asset.manifest.outputCollection, outputPatternMatches (Utf8.encode output.path) (Utf8.encode path) = true

/-- What listing and reading the outputs of a job have to do with each other. -/
structure OutputsReadable (fs : WorkerFiles) (cwd : Location) (root : String) (asset : Option ContainerAsset) : Prop where
  /-- A listed path is read, up to the largest offset that there is. -/
  listed : ∀ artifacts, collectDeclaredOutputArtifacts fs cwd root asset = .ok artifacts → ∀ artifact ∈ artifacts,
    ∃ rootCanon content modified, fs.canonicalize cwd root = some rootCanon ∧
      fs.node? (rootCanon ++ Path.pieces artifact.path) = some (.leaf (.regular content modified)) ∧
      artifact.size = some content.length ∧
      ∀ offset length, readDeclaredOutputChunk fs cwd root asset artifact.path offset length =
        if offset ≤ fs.maxOffset (rootCanon ++ Path.pieces artifact.path) then
          .ok (artifact.path, chunk content offset length, artifact.size)
        else .error .io
  /-- Bytes are of a file in the working directory under a declared path. -/
  contained : ∀ requestedPath offset length path bytes size,
    readDeclaredOutputChunk fs cwd root asset requestedPath offset length = .ok (path, bytes, size) → bytes ≠ [] →
    path = String.intercalate "/" (normalizedNames requestedPath) ∧ (∃ declaring ∈ asset, Declared declaring path) ∧
      ∃ rootCanon location file, fs.canonicalize cwd root = some rootCanon ∧
        fs.canonicalize cwd (Path.join root path) = some location ∧ rootCanon <+: location ∧
        fs.node? location = some (.leaf file) ∧ file.Yields offset length bytes
  /-- Without a link on the way the path of a regular file is listed. -/
  complete : ∀ requestedPath offset length path bytes size,
    readDeclaredOutputChunk fs cwd root asset requestedPath offset length = .ok (path, bytes, size) → bytes ≠ [] →
    ∀ rootCanon content modified, fs.canonicalize cwd root = some rootCanon →
      fs.node? (rootCanon ++ normalizedNames requestedPath) = some (.leaf (.regular content modified)) →
      ∃ artifacts, collectDeclaredOutputArtifacts fs cwd root asset = .ok artifacts ∧ ∃ artifact ∈ artifacts, artifact.path = path

section Listing

variable {root : List String} {asset : ContainerAsset} {artifact : JobOutputArtifact} {content : List UInt8} {modified : Option Nat}

theorem collectEntry_subset {name : String} {tree : LinkTree OutputFile} {dir : List String} :
    ∀ {entries : LinkEntries OutputFile}, entries.find? name = some tree →
      collectEntry root asset (dir ++ [name]) tree ⊆ collectInner root asset dir entries
  | .cons other below rest, present => by
    rw [LinkEntries.find?] at present
    rw [collectInner]
    split_ifs at present with same
    · cases present
      subst same
      exact List.subset_append_left _ _
    · exact List.subset_append_of_subset_right _ (collectEntry_subset present)

theorem mem_collectEntry {names path : List String} {tree : LinkTree OutputFile}
    (present : tree.at? names = some (.leaf (.regular content modified)))
    (made : outputArtifact root asset (path ++ names) content modified = some artifact) :
    artifact ∈ collectEntry root asset path tree := by
  induction names generalizing path tree with
  | nil =>
    rw [LinkTree.at?_nil, Option.some.injEq] at present
    rw [List.append_nil] at made
    rw [present, collectEntry, made]
    exact List.mem_singleton_self _
  | cons name names ih =>
    cases tree with
    | leaf value => cases present
    | link target => cases present
    | dir entries =>
      obtain ⟨below, first, present⟩ := Option.bind_eq_some_iff.mp present
      rw [List.append_cons] at made
      rw [collectEntry]
      exact collectEntry_subset first (ih present made)

mutual

theorem exists_of_mem_collectInner : ∀ {entries : LinkEntries OutputFile} {dir : List String}, entries.WellFormed →
    artifact ∈ collectInner root asset dir entries →
    ∃ name names content modified, (LinkTree.dir entries).at? (name :: names) = some (.leaf (.regular content modified)) ∧
      outputArtifact root asset (dir ++ name :: names) content modified = some artifact
  | .nil, dir, _, member => by
    rw [collectInner] at member
    cases member
  | .cons name tree rest, dir, formed, member => by
    rw [LinkEntries.WellFormed] at formed
    rw [collectInner, List.mem_append] at member
    rcases member with here | later
    · obtain ⟨names, content, modified, present, made⟩ := exists_of_mem_collectEntry formed.2.2.1 here
      refine ⟨name, names, content, modified, ?_, ?_⟩
      · rw [LinkTree.at?, LinkEntries.find?, if_pos rfl]
        exact present
      · rw [List.append_cons]
        exact made
    · obtain ⟨other, names, content, modified, present, made⟩ := exists_of_mem_collectInner formed.2.2.2 later
      refine ⟨other, names, content, modified, ?_, made⟩
      obtain ⟨below, first, present⟩ := Option.bind_eq_some_iff.mp present
      have apart : other ≠ name := fun same => formed.2.1 (same ▸ LinkEntries.mem_names_of_find? first)
      rw [LinkTree.at?, LinkEntries.find?, if_neg apart, first]
      exact present

theorem exists_of_mem_collectEntry : ∀ {tree : LinkTree OutputFile} {path : List String}, tree.WellFormed →
    artifact ∈ collectEntry root asset path tree →
    ∃ names content modified, tree.at? names = some (.leaf (.regular content modified)) ∧
      outputArtifact root asset (path ++ names) content modified = some artifact
  | .leaf (.regular content modified), path, _, member => by
    rw [collectEntry, Option.mem_toList] at member
    exact ⟨[], content, modified, LinkTree.at?_nil _, (List.append_nil path).symm ▸ member⟩
  | .leaf (.special _ _), path, _, member => by
    rw [collectEntry] at member
    cases member
  | .link _, path, _, member => by
    rw [collectEntry] at member
    cases member
  | .dir entries, path, formed, member => by
    rw [collectEntry] at member
    rw [LinkTree.WellFormed] at formed
    obtain ⟨name, names, content, modified, present, made⟩ := exists_of_mem_collectInner formed member
    exact ⟨name :: names, content, modified, present, made⟩

end

theorem relativeOutputPath_append {names : List String} (filled : names ≠ []) :
    relativeOutputPath root (root ++ names) = some (String.intercalate "/" names) := by
  rw [relativeOutputPath, if_pos (List.prefix_append _ _), List.drop_left, if_neg filled]

/-- The artifact of a file below the root is there if and only if its path is declared. -/
theorem outputArtifact_iff {names : List String} (filled : names ≠ []) :
    outputArtifact root asset (root ++ names) content modified = some artifact ↔
      ∃ outputType, outputTypeForPath asset (String.intercalate "/" names) = some outputType ∧
        artifact = ⟨String.intercalate "/" names, outputType, none, some content.length, modified⟩ := by
  rw [outputArtifact, relativeOutputPath_append filled]
  simp only [Option.bind_eq_bind, Option.bind_some, Option.bind_eq_some_iff, Option.pure_def, Option.some.injEq, eq_comm (a := artifact)]

theorem declared_iff {path : String} : Declared asset path ↔ ∃ outputType, outputTypeForPath asset path = some outputType := by
  rw [Declared, outputTypeForPath, ← Option.isSome_iff_exists, Option.isSome_map, List.find?_isSome]

theorem dedupByPath_subset (artifacts : List JobOutputArtifact) : dedupByPath artifacts ⊆ artifacts :=
  (List.destutter_sublist _ _).subset

theorem exists_mem_destutter' (kept : JobOutputArtifact) (rest : List JobOutputArtifact) :
    ∀ artifact ∈ kept :: rest, ∃ other ∈ rest.destutter' (fun kept artifact => kept.path ≠ artifact.path) kept,
      other.path = artifact.path := by
  induction rest generalizing kept with
  | nil => exact fun artifact member => ⟨artifact, member, rfl⟩
  | cons next rest ih =>
    intro artifact member
    by_cases same : kept.path = next.path
    · rw [List.destutter'_cons_neg _ (not_not.mpr same)]
      rcases List.mem_cons.mp member with rfl | member
      · exact ih artifact artifact List.mem_cons_self
      · rcases List.mem_cons.mp member with rfl | member
        · obtain ⟨other, present, own⟩ := ih kept kept List.mem_cons_self
          exact ⟨other, present, own.trans same⟩
        · exact ih kept artifact (List.mem_cons_of_mem _ member)
    · rw [List.destutter'_cons_pos _ same]
      rcases List.mem_cons.mp member with rfl | member
      · exact ⟨artifact, List.mem_cons_self, rfl⟩
      · obtain ⟨other, present, own⟩ := ih next artifact member
        exact ⟨other, List.mem_cons_of_mem _ present, own⟩

theorem exists_mem_dedupByPath {artifacts : List JobOutputArtifact} (member : artifact ∈ artifacts) :
    ∃ other ∈ dedupByPath artifacts, other.path = artifact.path := by
  cases artifacts with
  | nil => cases member
  | cons first rest => exact exists_mem_destutter' first rest artifact member

end Listing

section Access

variable {fs : WorkerFiles} {cwd : Location} {root : String} {asset : ContainerAsset} {artifacts : List JobOutputArtifact}
  {artifact : JobOutputArtifact} {rootCanon names : List String} {content : List UInt8} {modified : Option Nat}

theorem isName_of_node? {found : LinkTree OutputFile} (present : fs.node? (rootCanon ++ names) = some found) :
    ∀ name ∈ names, IsName name := by
  have formed : (LinkTree.dir fs.entries).WellFormed := by
    rw [LinkTree.WellFormed]
    exact fs.wellFormed
  exact fun name member => (LinkTree.isName_of_at? formed present).1 name (List.mem_append_right _ member)

theorem exists_of_listed (collected : collectDeclaredOutputArtifacts fs cwd root (some asset) = .ok artifacts)
    (listed : artifact ∈ artifacts) : ∃ rootCanon names content modified outputType, names ≠ [] ∧
      fs.canonicalize cwd root = some rootCanon ∧ fs.node? (rootCanon ++ names) = some (.leaf (.regular content modified)) ∧
      outputTypeForPath asset (String.intercalate "/" names) = some outputType ∧
      artifact = ⟨String.intercalate "/" names, outputType, none, some content.length, modified⟩ := by
  rw [collectDeclaredOutputArtifacts] at collected
  split_ifs at collected
  · cases collected
    cases listed
  · split at collected
    · cases collected
      cases listed
    · rename_i rootCanon canonical
      split at collected
      · rename_i entries here
        cases collected
        have member := List.mem_mergeSort.mp (dedupByPath_subset _ listed)
        have formed : (LinkTree.dir fs.entries).WellFormed := by
          rw [LinkTree.WellFormed]
          exact fs.wellFormed
        have below := (LinkTree.isName_of_at? formed here).2
        rw [LinkTree.WellFormed] at below
        obtain ⟨name, names, content, modified, present, made⟩ := exists_of_mem_collectInner below member
        obtain ⟨outputType, typed, same⟩ := (outputArtifact_iff (List.cons_ne_nil name names)).mp made
        refine ⟨rootCanon, name :: names, content, modified, outputType, List.cons_ne_nil _ _, canonical, ?_, typed, same⟩
        rw [LinkSystem.node?_append, here]
        exact present
      · cases collected

theorem exists_listed (filled : names ≠ []) (canonical : fs.canonicalize cwd root = some rootCanon)
    (present : fs.node? (rootCanon ++ names) = some (.leaf (.regular content modified)))
    (declared : Declared asset (String.intercalate "/" names)) :
    ∃ artifacts, collectDeclaredOutputArtifacts fs cwd root (some asset) = .ok artifacts ∧
      ∃ artifact ∈ artifacts, artifact.path = String.intercalate "/" names := by
  obtain ⟨outputType, typed⟩ := declared_iff.mp declared
  obtain ⟨output, output', -⟩ := declared
  have nonempty : asset.manifest.outputCollection.isEmpty = false := by
    rw [List.isEmpty_eq_false_iff]
    exact List.ne_nil_of_mem output'
  obtain ⟨name, rest, rfl⟩ := List.exists_cons_of_ne_nil filled
  have step := present
  rw [LinkSystem.node?_append, Option.bind_eq_some_iff] at step
  obtain ⟨tree, here, below⟩ := step
  cases tree with
  | leaf value => cases below
  | link target => cases below
  | dir entries =>
    have made : outputArtifact rootCanon asset (rootCanon ++ name :: rest) content modified = some _ :=
      (outputArtifact_iff filled).mpr ⟨outputType, typed, rfl⟩
    have member : _ ∈ collectEntry rootCanon asset rootCanon (.dir entries) := mem_collectEntry below made
    rw [collectEntry] at member
    have sorted : _ ∈ (collectInner rootCanon asset rootCanon entries).mergeSort fun a b => a.path ≤ b.path :=
      List.mem_mergeSort.mpr member
    obtain ⟨other, kept, own⟩ := exists_mem_dedupByPath sorted
    refine ⟨_, ?_, other, kept, own⟩
    simp only [collectDeclaredOutputArtifacts, nonempty, canonical, here, Bool.false_eq_true, if_false]

theorem normalizedNames_intercalate (filled : names ≠ []) (proper : ∀ name ∈ names, IsName name) :
    normalizedNames (String.intercalate "/" names) = names := by
  rw [normalizedNames, Path.pieces_intercalate filled fun name member => (proper name member).unslashed, List.filter_eq_self]
  intro name member
  rw [Path.isTrivial, decide_eq_false (proper name member).nonempty, decide_eq_false (proper name member).notHere]
  rfl

theorem intercalate_ne_empty (filled : names ≠ []) (proper : ∀ name ∈ names, IsName name) : String.intercalate "/" names ≠ "" := by
  intro none
  have parts := Path.pieces_intercalate filled fun name member => (proper name member).unslashed
  rw [none] at parts
  have member : "" ∈ names := parts ▸ List.mem_singleton_self ""
  exact (proper "" member).nonempty rfl

/-- The path of a file below the canonical working directory is accepted if it is declared. -/
theorem validateOutputRequest_names {outputType : String} {found : LinkTree OutputFile} (filled : names ≠ [])
    (canonical : fs.canonicalize cwd root = some rootCanon) (present : fs.node? (rootCanon ++ names) = some found)
    (plain : found.isLink = false) (typed : outputTypeForPath asset (String.intercalate "/" names) = some outputType) :
    validateOutputRequest fs cwd root asset (String.intercalate "/" names) =
      .ok (some (rootCanon ++ names), String.intercalate "/" names, outputType) := by
  have proper := isName_of_node? present
  have climbs : ".." ∉ Path.pieces (String.intercalate "/" names) := by
    rw [Path.pieces_intercalate filled fun name member => (proper name member).unslashed]
    exact fun member => (proper ".." member).notAbove rfl
  rw [validateOutputRequest, LinkSystem.isAbsolute_intercalate filled proper, if_neg Bool.false_ne_true, if_neg climbs,
    normalizedNames_intercalate filled proper]
  simp only [if_neg (intercalate_ne_empty filled proper), typed, LinkSystem.canonicalize_join filled proper canonical present plain,
    canonical, List.prefix_append, if_true]

theorem validateOutputRequest_ok {requestedPath normalized outputType : String} {path : Option (List String)}
    (valid : validateOutputRequest fs cwd root asset requestedPath = .ok (path, normalized, outputType)) :
    normalized = String.intercalate "/" (normalizedNames requestedPath) ∧ outputTypeForPath asset normalized = some outputType ∧
      normalized ≠ "" ∧ ∀ location ∈ path, fs.canonicalize cwd (Path.join root normalized) = some location ∧
        ∃ rootCanon, fs.canonicalize cwd root = some rootCanon ∧ rootCanon <+: location := by
  rw [validateOutputRequest] at valid
  split_ifs at valid with absolute climbs
  dsimp only at valid
  split_ifs at valid with empty
  split at valid
  · cases valid
  · rename_i outputType' typed
    split at valid
    · cases valid
      exact ⟨rfl, typed, empty, fun location none => by cases none⟩
    · rename_i candidateCanon followed
      split at valid
      · cases valid
      · rename_i rootCanon canonical
        split_ifs at valid with under
        cases valid
        refine ⟨rfl, typed, empty, fun location same => ?_⟩
        cases same
        exact ⟨followed, rootCanon, canonical, under⟩

theorem readDeclaredOutputChunk_names (filled : names ≠ []) (canonical : fs.canonicalize cwd root = some rootCanon)
    (present : fs.node? (rootCanon ++ names) = some (.leaf (.regular content modified)))
    (declared : Declared asset (String.intercalate "/" names)) (offset : Nat) (length : Option Nat) :
    readDeclaredOutputChunk fs cwd root (some asset) (String.intercalate "/" names) offset length =
      if offset ≤ fs.maxOffset (rootCanon ++ names) then .ok (String.intercalate "/" names, chunk content offset length, some content.length)
      else .error .io := by
  obtain ⟨outputType, typed⟩ := declared_iff.mp declared
  have valid := validateOutputRequest_names filled canonical present rfl typed
  simp only [readDeclaredOutputChunk, valid, present, readChunkAt, bind, Except.bind, Option.bind_some, Option.map_some, pure,
    Except.pure]
  by_cases seekable : offset ≤ fs.maxOffset (rootCanon ++ names)
  · rw [if_neg (Nat.not_lt.mpr seekable), if_pos seekable]
  · rw [if_pos (Nat.lt_of_not_le seekable), if_neg seekable]

theorem exists_of_readChunkAt {location : List String} {tree : LinkTree OutputFile} {offset : Nat} {length : Option Nat}
    {bytes : List UInt8} {size : Option Nat} (read : readChunkAt fs location offset length tree = .ok (bytes, size))
    (some : bytes ≠ []) : ∃ file, tree = .leaf file ∧ file.Yields offset length bytes := by
  cases tree with
  | link target => cases read
  | dir entries =>
    rw [readChunkAt] at read
    split_ifs at read
    cases read
    exact absurd rfl some
  | leaf file =>
    refine ⟨file, rfl, ?_⟩
    cases file with
    | regular content modified =>
      rw [readChunkAt] at read
      split_ifs at read
      cases read
      rfl
    | special size' answer =>
      rw [readChunkAt] at read
      split at read
      · rename_i bytes' answered
        cases read
        exact answered
      · cases read

theorem exists_of_read {declaring : Option ContainerAsset} {requestedPath path : String} {offset : Nat} {length : Option Nat}
    {bytes : List UInt8} {size : Option Nat}
    (read : readDeclaredOutputChunk fs cwd root declaring requestedPath offset length = .ok (path, bytes, size)) (some : bytes ≠ []) :
    path = String.intercalate "/" (normalizedNames requestedPath) ∧ path ≠ "" ∧ (∃ asset ∈ declaring, Declared asset path) ∧
      ∃ rootCanon location file, fs.canonicalize cwd root = .some rootCanon ∧
        fs.canonicalize cwd (Path.join root path) = .some location ∧ rootCanon <+: location ∧
        fs.node? location = .some (.leaf file) ∧ file.Yields offset length bytes := by
  cases declaring with
  | none => cases read
  | some asset =>
    rw [readDeclaredOutputChunk] at read
    cases valid : validateOutputRequest fs cwd root asset requestedPath with
    | error failure =>
      rw [valid] at read
      cases read
    | ok accepted =>
      obtain ⟨target, normalized, outputType⟩ := accepted
      obtain ⟨same, typed, filled, leads⟩ := validateOutputRequest_ok valid
      rw [valid] at read
      simp only [bind, Except.bind] at read
      split at read
      · cases read
        exact absurd rfl some
      · rename_i location tree found
        obtain ⟨location', targeted, found⟩ := Option.bind_eq_some_iff.mp found
        obtain ⟨tree', here, pair⟩ := Option.map_eq_some_iff.mp found
        cases pair
        cases taken : readChunkAt fs location offset length tree with
        | error failure =>
          rw [taken] at read
          cases read
        | ok answer =>
          rw [taken] at read
          cases read
          obtain ⟨file, rfl, yields⟩ := exists_of_readChunkAt taken some
          obtain ⟨followed, rootCanon, canonical, under⟩ := leads location targeted
          exact ⟨same, filled, ⟨asset, rfl, declared_iff.mpr ⟨outputType, typed⟩⟩, rootCanon, location, file, canonical, followed, under,
            here, yields⟩

end Access

/-- Listing and reading agree on every tree, with all its links and special files. -/
theorem outputs_readable (fs : WorkerFiles) (cwd : Location) (root : String) (asset : Option ContainerAsset) :
    OutputsReadable fs cwd root asset where
  listed := by
    intro artifacts collected artifact listed
    cases asset with
    | none =>
      cases collected
      cases listed
    | some asset =>
      obtain ⟨rootCanon, names, content, modified, outputType, filled, canonical, present, typed, rfl⟩ :=
        exists_of_listed collected listed
      have proper := isName_of_node? present
      refine ⟨rootCanon, content, modified, canonical, ?_, rfl, ?_⟩
      · rw [Path.pieces_intercalate filled fun name member => (proper name member).unslashed]
        exact present
      · rw [Path.pieces_intercalate filled fun name member => (proper name member).unslashed]
        exact readDeclaredOutputChunk_names filled canonical present (declared_iff.mpr ⟨outputType, typed⟩)
  contained := by
    intro requestedPath offset length path bytes size read some
    obtain ⟨same, -, declared, leads⟩ := exists_of_read read some
    exact ⟨same, declared, leads⟩
  complete := by
    intro requestedPath offset length path bytes size read some rootCanon content modified canonical present
    obtain ⟨rfl, filled, ⟨declaring, rfl, declared⟩, -⟩ := exists_of_read read some
    have filled' : normalizedNames requestedPath ≠ [] := by
      intro none
      rw [none] at filled
      exact filled rfl
    exact exists_listed filled' canonical present declared

/-- A job with a table, notes beside it, and a link to the notes among the tables. -/
def linkedFiles : WorkerFiles where
  entries := .cons "work" (.dir
    (.cons "results" (.dir
      (.cons "a.csv" (.leaf (.regular [104, 105] (some 0)))
      (.cons "b.csv" (.link "../notes.txt") .nil)))
    (.cons "notes.txt" (.leaf (.regular [110, 111] (some 0))) .nil))) .nil
  wellFormed := by
    simp only [LinkEntries.WellFormed, LinkTree.WellFormed, LinkEntries.names]
    decide
  dirSize _ := 4096
  maxOffset _ := 2 ^ 63 - 1
  representable _ := by decide

def tableAsset : ContainerAsset :=
  ⟨"table", "table", "table.sif", ⟨"", none, "", [], "", [⟨"results/*.csv", "table"⟩], false⟩⟩

/-- A listed path is not read from an offset of 64 bits, and a link that is not listed gives
the bytes of a file that no pattern matches. -/
theorem offset_refused_and_link_read :
    collectDeclaredOutputArtifacts linkedFiles ⟨[], by decide⟩ "/work" (some tableAsset) =
        .ok [⟨"results/a.csv", "table", none, some 2, some 0⟩] ∧
      readDeclaredOutputChunk linkedFiles ⟨[], by decide⟩ "/work" (some tableAsset) "results/a.csv" (2 ^ 63) none = .error .io ∧
      readDeclaredOutputChunk linkedFiles ⟨[], by decide⟩ "/work" (some tableAsset) "results/b.csv" 0 none =
        .ok ("results/b.csv", [110, 111], some 2) ∧
      linkedFiles.canonicalize ⟨[], by decide⟩ "/work/results/b.csv" = some ["work", "notes.txt"] ∧
      ¬ Declared tableAsset "notes.txt" := by
  refine ⟨by decide +kernel, by decide +kernel, by decide +kernel, by decide +kernel, ?_⟩
  rintro ⟨output, listed, found⟩
  cases List.mem_singleton.mp listed
  exact absurd found (by decide +kernel)

end Veloce
