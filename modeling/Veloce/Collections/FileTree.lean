import Mathlib.Data.List.Infix
import Veloce.Collections.HashMap

/-! A tree of directories and files. -/

namespace Collections

inductive Node (B : Type) where
  | dir
  | file (content : B)
deriving DecidableEq, Repr

/-- The entries below the root. -/
structure FileTree (N B : Type) [DecidableEq N] where
  entries : HashMap (List N) (Node B) := ∅

namespace FileTree

variable {N B : Type} [DecidableEq N]

section Operations

variable (tree : FileTree N B)

def node? (path : List N) : Option (Node B) := if path = [] then some .dir else tree.entries.get? path

def read? (path : List N) : Option B :=
  match tree.node? path with
  | some (.file content) => some content
  | _ => none

def isDir (path : List N) : Bool :=
  match tree.node? path with
  | some .dir => true
  | _ => false

/-- Make a file, or truncate it, in a directory that is there. -/
def writeFile (path : List N) (content : B) : Option (FileTree N B) :=
  if path = [] ∨ tree.isDir path then none
  else if tree.isDir path.dropLast then some { entries := tree.entries.insert path (.file content) }
  else none

def removeFile (path : List N) : Option (FileTree N B) :=
  (tree.read? path).map fun _ => { entries := tree.entries.remove path }

def removeDirAll (path : List N) : Option (FileTree N B) :=
  if tree.isDir path then some { entries := tree.entries.retain fun other _ => ¬ path <+: other } else none

def filesBelow (path : List N) : List (List N × B) :=
  tree.entries.toList.filterMap fun (other, node) =>
    match node with
    | .file content => if path <+: other ∧ other ≠ [] then some (other.drop path.length, content) else none
    | .dir => none

end Operations

section Lemmas

variable {tree tree' : FileTree N B} {path other rest : List N} {content : B}

theorem read?_eq_some_iff : tree.read? path = some content ↔ tree.node? path = some (.file content) := by
  unfold read?
  cases tree.node? path with
  | none => simp
  | some node => cases node <;> simp

theorem isDir_iff : tree.isDir path = true ↔ tree.node? path = some .dir := by
  unfold isDir
  cases tree.node? path with
  | none => simp
  | some node => cases node <;> simp

theorem read?_congr {path' : List N} (same : tree'.node? path' = tree.node? path) : tree'.read? path' = tree.read? path := by
  rw [read?, read?, same]

theorem node?_empty (path : List N) : ({} : FileTree N B).node? path = if path = [] then some .dir else none := rfl

theorem read?_empty (path : List N) : ({} : FileTree N B).read? path = none := by
  refine Option.eq_none_iff_forall_ne_some.mpr fun content found => ?_
  rw [read?_eq_some_iff, node?_empty] at found
  split at found
  · cases found
  · cases found

/-- What a written file changes, and where one can be written. -/
theorem node?_writeFile (made : tree.writeFile path content = some tree') (other : List N) :
    tree'.node? other = if other = path then some (.file content) else tree.node? other := by
  unfold writeFile at made
  split at made
  · cases made
  · rename_i free
    split at made
    · cases made
      rw [node?, node?]
      by_cases root : other = []
      · rw [if_pos root, if_pos root, if_neg fun same : other = path => free (.inl (same ▸ root))]
      · rw [if_neg root, if_neg root, HashMap.get?_insert]
    · cases made

theorem writeFile_isSome_iff : (tree.writeFile path content).isSome ↔
    path ≠ [] ∧ tree.isDir path = false ∧ tree.isDir path.dropLast = true := by
  unfold writeFile
  split
  · rename_i taken
    simp only [Option.isSome_none, Bool.false_eq_true, false_iff, not_and]
    intro filled free
    rcases taken with root | taken
    · exact absurd root filled
    · rw [free] at taken
      cases taken
  · rename_i free
    rw [not_or] at free
    split
    · rename_i above
      simp [free.1, Bool.eq_false_iff.mpr free.2, above]
    · rename_i above
      simp [above]

theorem node?_removeFile (made : tree.removeFile path = some tree') (other : List N) :
    tree'.node? other = if other = path then none else tree.node? other := by
  obtain ⟨content, found, same⟩ := Option.map_eq_some_iff.mp made
  cases same
  have filled : path ≠ [] := by
    rintro rfl
    rw [read?_eq_some_iff, node?, if_pos rfl] at found
    cases found
  rw [node?, node?]
  by_cases root : other = []
  · rw [if_pos root, if_pos root, if_neg fun same : other = path => filled (same.symm.trans root)]
  · rw [if_neg root, if_neg root, HashMap.get?_remove]

theorem read?_writeFile (made : tree.writeFile path content = some tree') (other : List N) :
    tree'.read? other = if other = path then some content else tree.read? other := by
  have node := node?_writeFile made other
  split
  · rename_i same
    rw [if_pos same] at node
    exact read?_eq_some_iff.mpr node
  · rename_i different
    rw [if_neg different] at node
    exact read?_congr node

theorem read?_removeFile (made : tree.removeFile path = some tree') (other : List N) :
    tree'.read? other = if other = path then none else tree.read? other := by
  have node := node?_removeFile made other
  split
  · rename_i same
    rw [if_pos same] at node
    rw [read?, node]
  · rename_i different
    rw [if_neg different] at node
    exact read?_congr node

theorem read?_getD_removeFile (tree : FileTree N B) (path other : List N) :
    ((tree.removeFile path).getD tree).read? other = if other = path then none else tree.read? other := by
  cases made : tree.removeFile path with
  | some tree' => exact read?_removeFile made other
  | none =>
    rw [Option.getD_none]
    split
    · rename_i same
      rw [same]
      exact Option.map_eq_none_iff.mp made
    · rfl

theorem node?_removeDirAll (made : tree.removeDirAll path = some tree') (other : List N) :
    tree'.node? other = if path <+: other ∧ other ≠ [] then none else tree.node? other := by
  unfold removeDirAll at made
  split at made
  · cases made
    rw [node?, node?]
    by_cases root : other = []
    · simp [root]
    · simp only [if_neg root, HashMap.get?_retain]
      by_cases below : path <+: other
      · cases found : tree.entries.get? other with
        | none => simp [below, root]
        | some node => simp [below, root, Option.filter]
      · cases found : tree.entries.get? other with
        | none => simp [below]
        | some node => simp [below, Option.filter]
  · cases made

theorem read?_removeDirAll (made : tree.removeDirAll path = some tree') (other : List N) :
    tree'.read? other = if path <+: other then none else tree.read? other := by
  have node := node?_removeDirAll made other
  by_cases below : path <+: other
  · rw [if_pos below]
    by_cases root : other = []
    · rw [read?, FileTree.node?, if_pos root]
    · rw [if_pos ⟨below, root⟩] at node
      rw [read?, node]
  · rw [if_neg fun both => below both.1] at node
    rw [if_neg below]
    exact read?_congr node

theorem rest_of_listed {entry : List N × Node B} (listed : (match entry.2 with
    | .file content => if path <+: entry.1 ∧ entry.1 ≠ [] then some (entry.1.drop path.length, content) else none
    | .dir => none) = some (rest, content)) : entry.1 = path ++ rest := by
  obtain ⟨other, node⟩ := entry
  cases node with
  | dir => cases listed
  | file content' =>
    dsimp only at listed
    split at listed
    · rename_i inside
      obtain ⟨⟨suffix, rfl⟩, _⟩ := inside
      cases listed
      rw [List.drop_left]
    · cases listed

theorem mem_filesBelow : (rest, content) ∈ tree.filesBelow path ↔ tree.read? (path ++ rest) = some content := by
  rw [filesBelow, List.mem_filterMap, read?_eq_some_iff]
  constructor
  · rintro ⟨⟨other, node⟩, member, same⟩
    cases node with
    | dir => cases same
    | file content' =>
      dsimp only at same
      split at same
      · rename_i inside
        obtain ⟨⟨suffix, rfl⟩, filled⟩ := inside
        cases same
        rw [List.drop_left, node?, if_neg filled]
        exact HashMap.mem_toList.mp member
      · cases same
  · intro found
    have filled : path ++ rest ≠ [] := by
      intro root
      rw [node?, if_pos root] at found
      cases found
    rw [node?, if_neg filled] at found
    refine ⟨(path ++ rest, .file content), HashMap.mem_toList.mpr found, ?_⟩
    dsimp only
    rw [if_pos ⟨List.prefix_append .., filled⟩, List.drop_left]

theorem filesBelow_nodup (tree : FileTree N B) (path : List N) : ((tree.filesBelow path).map Prod.fst).Nodup := by
  have keys : tree.entries.toList.Pairwise fun entry other => entry.1 ≠ other.1 :=
    List.pairwise_map.mp tree.entries.toList_keys_nodup
  rw [List.Nodup, List.pairwise_map, filesBelow, List.pairwise_filterMap]
  refine keys.imp fun {entry other} different file found file' found' same => different ?_
  obtain ⟨rest, content, rfl⟩ : ∃ rest content, file = (rest, content) := ⟨file.1, file.2, rfl⟩
  obtain ⟨rest', content', rfl⟩ : ∃ rest content, file' = (rest, content) := ⟨file'.1, file'.2, rfl⟩
  have whole := rest_of_listed found
  have whole' := rest_of_listed found'
  rw [whole, whole', show rest = rest' from same]

end Lemmas

/-- Whatever is there is in a directory. -/
def Rooted (tree : FileTree N B) : Prop :=
  ∀ path, path ≠ [] → tree.node? path ≠ none → tree.isDir path.dropLast = true

section Rooted

variable {tree tree' : FileTree N B} {path rest : List N} {content : B}

theorem isDir_writeFile (made : tree.writeFile path content = some tree') {other : List N} (dir : tree.isDir other = true) :
    tree'.isDir other = true := by
  have free := (writeFile_isSome_iff.mp (Option.isSome_iff_exists.mpr ⟨tree', made⟩)).2.1
  have different : other ≠ path := by
    rintro rfl
    rw [dir] at free
    cases free
  rw [isDir_iff] at dir ⊢
  rw [node?_writeFile made, if_neg different, dir]

theorem Rooted.writeFile (rooted : tree.Rooted) (made : tree.writeFile path content = some tree') : tree'.Rooted := by
  intro other filled there
  rw [node?_writeFile made] at there
  split at there
  · rename_i same
    rw [same]
    exact isDir_writeFile made (writeFile_isSome_iff.mp (Option.isSome_iff_exists.mpr ⟨tree', made⟩)).2.2
  · exact isDir_writeFile made (rooted other filled there)

theorem isDir_removeFile (made : tree.removeFile path = some tree') {other : List N} (dir : tree.isDir other = true) :
    tree'.isDir other = true := by
  obtain ⟨content, found, _⟩ := Option.map_eq_some_iff.mp made
  rw [isDir_iff] at dir ⊢
  have different : other ≠ path := by
    rintro rfl
    rw [read?_eq_some_iff, dir] at found
    cases found
  rw [node?_removeFile made, if_neg different, dir]

theorem Rooted.removeFile (rooted : tree.Rooted) (made : tree.removeFile path = some tree') : tree'.Rooted := by
  intro other filled there
  rw [node?_removeFile made] at there
  split at there
  · exact absurd rfl there
  · exact isDir_removeFile made (rooted other filled there)

theorem Rooted.removeDirAll (rooted : tree.Rooted) (made : tree.removeDirAll path = some tree') : tree'.Rooted := by
  intro other filled there
  rw [node?_removeDirAll made] at there
  split at there
  · exact absurd rfl there
  · rename_i kept
    have dir := rooted other filled there
    rw [isDir_iff] at dir ⊢
    rw [node?_removeDirAll made, if_neg, dir]
    exact fun below => kept ⟨below.1.trans (List.dropLast_prefix other), filled⟩

/-- There may be more directories, and the files are the same. -/
structure Grown (tree tree' : FileTree N B) : Prop where
  rooted : tree.Rooted → tree'.Rooted
  read : ∀ path, tree'.read? path = tree.read? path
  dirs : ∀ path, tree.isDir path = true → tree'.isDir path = true

theorem Grown.refl (tree : FileTree N B) : tree.Grown tree := ⟨id, fun _ => rfl, fun _ => id⟩

theorem Grown.trans {tree'' : FileTree N B} (first : tree.Grown tree') (second : tree'.Grown tree'') : tree.Grown tree'' :=
  ⟨fun rooted => second.rooted (first.rooted rooted), fun path => (second.read path).trans (first.read path),
    fun path dir => second.dirs path (first.dirs path dir)⟩

theorem Rooted.isDir_above (rooted : tree.Rooted) (filled : rest ≠ []) (there : tree.node? (path ++ rest) ≠ none) :
    tree.isDir path = true := by
  induction rest using List.reverseRecOn with
  | nil => exact absurd rfl filled
  | append_singleton front last ih =>
    have above := rooted (path ++ (front ++ [last])) (by simp) there
    rw [← List.append_assoc, List.dropLast_concat] at above
    rcases eq_or_ne front [] with rfl | filled
    · rwa [List.append_nil] at above
    · refine ih filled fun absent => ?_
      rw [isDir_iff, absent] at above
      cases above

theorem Rooted.getD_removeFile (rooted : tree.Rooted) (path : List N) : ((tree.removeFile path).getD tree).Rooted := by
  cases made : tree.removeFile path with
  | some tree' => exact rooted.removeFile made
  | none => exact rooted

theorem Rooted.getD_removeDirAll (rooted : tree.Rooted) (path : List N) : ((tree.removeDirAll path).getD tree).Rooted := by
  cases made : tree.removeDirAll path with
  | some tree' => exact rooted.removeDirAll made
  | none => exact rooted

theorem Rooted.above_removeFile (rooted : tree.Rooted) (removed : (tree.removeFile path).isSome) :
    tree.isDir path.dropLast = true := by
  obtain ⟨content, found, _⟩ := Option.map_eq_some_iff.mp (Option.some_get removed).symm
  rw [read?_eq_some_iff] at found
  refine rooted path (fun root => ?_) (by rw [found]; exact Option.some_ne_none _)
  rw [root, node?, if_pos rfl] at found
  cases found

theorem Rooted.above_removeDirAll (rooted : tree.Rooted) (removed : (tree.removeDirAll path).isSome) :
    tree.isDir path.dropLast = true := by
  rw [FileTree.removeDirAll] at removed
  split at removed
  · rename_i dir
    rcases eq_or_ne path [] with rfl | filled
    · exact dir
    · rw [isDir_iff] at dir
      exact rooted path filled (by rw [dir]; exact Option.some_ne_none _)
  · cases removed

theorem Rooted.read?_getD_removeDirAll (rooted : tree.Rooted) (free : tree.read? path = none) (other : List N) :
    ((tree.removeDirAll path).getD tree).read? other = if path <+: other then none else tree.read? other := by
  cases made : tree.removeDirAll path with
  | some tree' => exact read?_removeDirAll made other
  | none =>
    rw [Option.getD_none]
    split
    · rename_i below
      obtain ⟨rest, rfl⟩ := below
      rcases eq_or_ne rest [] with rfl | filled
      · rwa [List.append_nil]
      · refine Option.eq_none_iff_forall_ne_some.mpr fun content found => ?_
        rw [read?_eq_some_iff] at found
        have dir := rooted.isDir_above filled (by rw [found]; exact Option.some_ne_none _)
        rw [FileTree.removeDirAll, if_pos dir] at made
        cases made
    · rfl

theorem Rooted.writeFile_isSome (rooted : tree.Rooted) {old : B} (present : tree.read? path = some old) (content : B) :
    (tree.writeFile path content).isSome := by
  rw [read?_eq_some_iff] at present
  have filled : path ≠ [] := by
    rintro rfl
    cases present
  refine writeFile_isSome_iff.mpr ⟨filled, ?_, rooted path filled (by rw [present]; exact Option.some_ne_none _)⟩
  refine Bool.eq_false_iff.mpr fun dir => ?_
  rw [isDir_iff, present] at dir
  cases dir

end Rooted

end FileTree

end Collections
