import Veloce.Collections.FileTree
import Veloce.Collections.LexicalPath

/-! Paths that are looked up in a tree of files: every piece needs a directory to start from. -/

namespace Collections

open Collections.Path

/-- What is left of an attempt to make directories: those that are new, and whether all are there. -/
structure MadeDirs (B : Type) where
  tree : FileTree String B
  dirs : List (List String) := []
  whole : Bool

namespace FileTree

variable {B : Type}

section Operations

def locate (tree : FileTree String B) (location : List String) : List String → Option (List String)
  | [] => some location
  | piece :: rest => if tree.isDir location then tree.locate (advance location piece) rest else none

def mkdir (tree : FileTree String B) (path : List String) : FileTree String B :=
  { entries := tree.entries.insert path .dir }

/-- Make the directories on the way that are missing, up to a file. -/
def makeDirs (tree : FileTree String B) (location : List String) : List String → MadeDirs B
  | [] => { tree, whole := tree.isDir location }
  | piece :: rest =>
    let next := advance location piece
    if ¬ tree.isDir location then { tree, whole := false }
    else if tree.isDir next then makeDirs tree next rest
    else if (tree.read? next).isSome then { tree, whole := false }
    else
      let made := makeDirs (tree.mkdir next) next rest
      { made with dirs := next :: made.dirs }

/-- There is a dot after the last part. -/
def endsInDot (parts : List String) : Bool := "." ∈ parts.rtakeWhile isTrivial

/-- `create_dir_all`. A dot at the end is looked up in a directory that has to be there. -/
def createDirAll (tree : FileTree String B) (location parts : List String) : MadeDirs B :=
  if endsInDot parts ∧ ¬ tree.isDir (walk location parts) then
    { tree.makeDirs location (trimEnd parts).dropLast with whole := false }
  else tree.makeDirs location parts

def clearDir (tree : FileTree String B) (path : List String) : Option (FileTree String B) :=
  if tree.isDir path then
    some { entries := tree.entries.retain fun other _ => ¬ (path <+: other ∧ other ≠ path) }
  else none

/-- The path names a directory by a dot, or two. -/
def endsInDots (parts : List String) : Bool := ((parts.filter (· ≠ "")).getLast?).any fun last => last = "." || last = ".."

/-- `remove_dir_all`. A directory is not removed by such a name. -/
def removeAll (tree : FileTree String B) (parts path : List String) : Option (FileTree String B) :=
  if endsInDots parts then tree.clearDir path else tree.removeDirAll path

end Operations

section Locate

variable {tree tree' : FileTree String B} {location found parts : List String}

theorem locate_eq_some_iff : tree.locate location parts = some found ↔ found = walk location parts ∧
    ∀ front piece rest, parts = front ++ piece :: rest → tree.isDir (walk location front) = true := by
  induction parts generalizing location with
  | nil =>
    rw [locate, Option.some.injEq, eq_comm]
    exact (and_iff_left fun front piece rest split => absurd split (by simp)).symm
  | cons piece rest ih =>
    rw [locate]
    constructor
    · intro leads
      split at leads
      · rename_i here
        obtain ⟨same, dirs⟩ := ih.mp leads
        refine ⟨same, fun front next back split => ?_⟩
        cases front with
        | nil => exact here
        | cons first others =>
          rw [List.cons_append, List.cons.injEq] at split
          rw [← split.1]
          exact dirs others next back split.2
      · cases leads
    · rintro ⟨same, dirs⟩
      rw [if_pos (show tree.isDir location = true from dirs [] piece rest rfl)]
      exact ih.mpr ⟨same, fun front next back split => dirs (piece :: front) next back (by rw [split]; rfl)⟩

theorem locate_mono (dirs : ∀ other, tree.isDir other = true → tree'.isDir other = true)
    (leads : tree.locate location parts = some found) : tree'.locate location parts = some found := by
  rw [locate_eq_some_iff] at leads ⊢
  exact ⟨leads.1, fun front piece rest split => dirs _ (leads.2 front piece rest split)⟩

theorem locate_congr (dirs : ∀ other, tree'.isDir other = tree.isDir other) :
    tree'.locate location parts = tree.locate location parts := by
  refine Option.ext fun found => ⟨locate_mono fun other dir => ?_, locate_mono fun other dir => ?_⟩
  · exact (dirs other).symm.trans dir
  · exact (dirs other).trans dir

theorem locate_append (front back : List String) :
    tree.locate location (front ++ back) = (tree.locate location front).bind fun middle => tree.locate middle back := by
  induction front generalizing location with
  | nil => rfl
  | cons piece rest ih =>
    rw [List.cons_append, locate, locate]
    split
    · exact ih
    · rfl

end Locate

section Remove

variable {tree tree' : FileTree String B} {parts path : List String}

theorem removeAll_isSome_iff (parts : List String) : (tree.removeAll parts path).isSome ↔ tree.isDir path = true := by
  rw [removeAll, clearDir, removeDirAll]
  split
  · split
    · rename_i dir
      exact iff_of_true rfl dir
    · rename_i file
      exact iff_of_false Bool.false_ne_true file
  · split
    · rename_i dir
      exact iff_of_true rfl dir
    · rename_i file
      exact iff_of_false Bool.false_ne_true file

private theorem node?_clearDir (made : tree.clearDir path = some tree') (other : List String) :
    tree'.node? other = if path <+: other ∧ other ≠ path then none else tree.node? other := by
  unfold clearDir at made
  split at made
  · cases made
    rw [node?, node?]
    by_cases root : other = []
    · rw [if_pos root, if_pos root, if_neg]
      rw [root]
      exact fun both => both.2 (List.prefix_nil.mp both.1).symm
    · simp only [if_neg root, HashMap.get?_retain]
      by_cases below : path <+: other ∧ other ≠ path
      · cases found : tree.entries.get? other with
        | none => simp
        | some node => simp [below, Option.filter]
      · cases found : tree.entries.get? other with
        | none => simp
        | some node => simp [below, Option.filter]
  · cases made

theorem node?_removeAll (made : tree.removeAll parts path = some tree') (other : List String) :
    tree'.node? other =
      if path <+: other ∧ other ≠ [] ∧ (endsInDots parts = true → other ≠ path) then none else tree.node? other := by
  rw [removeAll] at made
  split at made
  · rename_i dots
    rw [node?_clearDir made]
    refine if_congr ⟨fun both => ⟨both.1, fun root => ?_, fun _ => both.2⟩, fun all => ⟨all.1, all.2.2 dots⟩⟩ rfl rfl
    rw [root] at both
    exact both.2 (List.prefix_nil.mp both.1).symm
  · rename_i named
    rw [node?_removeDirAll made]
    exact if_congr (and_congr_right fun _ => (and_iff_left fun dots => absurd dots named).symm) rfl rfl

end Remove

section Make

variable {tree : FileTree String B} {location parts : List String}

structure MadeAlong (tree : FileTree String B) (location parts : List String) (made : MadeDirs B) : Prop where
  node : ∀ other, made.tree.node? other = if other ∈ made.dirs then some .dir else tree.node? other
  missing : ∀ dir ∈ made.dirs, tree.node? dir = none
  along : ∀ dir ∈ made.dirs, ∃ front, front <+: parts ∧ dir = walk location front
  rooted : tree.Rooted → made.tree.Rooted

theorem node?_mkdir (tree : FileTree String B) (filled : parts ≠ []) (other : List String) :
    (tree.mkdir parts).node? other = if other = parts then some .dir else tree.node? other := by
  rw [node?, node?, mkdir]
  by_cases root : other = []
  · rw [if_pos root, if_pos root, if_neg fun same : other = parts => filled (same.symm.trans root)]
  · rw [if_neg root, if_neg root, HashMap.get?_insert]

private theorem rooted_mkdir (rooted : tree.Rooted) (filled : parts ≠ []) (above : tree.isDir parts.dropLast = true) :
    (tree.mkdir parts).Rooted := by
  have dirs {other : List String} (dir : tree.isDir other = true) : (tree.mkdir parts).isDir other = true := by
    rw [isDir_iff] at dir ⊢
    rw [node?_mkdir tree filled]
    split
    · rfl
    · exact dir
  intro other nonempty there
  rw [node?_mkdir tree filled] at there
  split at there
  · rename_i same
    rw [same]
    exact dirs above
  · exact dirs (rooted other nonempty there)

theorem makeDirs_along (tree : FileTree String B) (location parts : List String) :
    MadeAlong tree location parts (tree.makeDirs location parts) := by
  have stays {whole : Bool} {parts : List String} (tree : FileTree String B) (location : List String) :
      MadeAlong tree location parts { tree, whole } :=
    ⟨fun other => (if_neg List.not_mem_nil).symm, fun _ member => absurd member List.not_mem_nil,
      fun _ member => absurd member List.not_mem_nil, id⟩
  induction parts generalizing tree location with
  | nil => exact stays tree location
  | cons piece rest ih =>
    have longer {dir : List String} (back : ∃ front, front <+: rest ∧ dir = walk (advance location piece) front) :
        ∃ front, front <+: piece :: rest ∧ dir = walk location front := by
      obtain ⟨front, inside, same⟩ := back
      exact ⟨piece :: front, (List.prefix_cons_inj piece).mpr inside, same⟩
    rw [makeDirs]
    dsimp only
    split
    · exact stays tree location
    · rename_i here
      split
      · have later := ih tree (advance location piece)
        exact ⟨later.node, later.missing, fun dir member => longer (later.along dir member), later.rooted⟩
      · rename_i absent
        split
        · exact stays tree location
        · rename_i unread
          have later := ih (tree.mkdir (advance location piece)) (advance location piece)
          have none : tree.node? (advance location piece) = none := by
            cases found : tree.node? (advance location piece) with
            | none => rfl
            | some node =>
              cases node with
              | dir => exact absurd (isDir_iff.mpr found) absent
              | file content =>
                rw [read?_eq_some_iff.mpr found] at unread
                exact absurd rfl unread
          have filled : advance location piece ≠ [] := by
            intro root
            rw [root, FileTree.node?, if_pos rfl] at none
            cases none
          have made := node?_mkdir tree filled
          refine ⟨fun other => ?_, fun dir member => ?_, fun dir member => ?_, fun rooted => later.rooted ?_⟩
          · rw [later.node, made]
            by_cases same : other = advance location piece
            · simp [same]
            · simp [same]
          · rcases List.mem_cons.mp member with rfl | member
            · exact none
            · have missing := later.missing dir member
              rw [made] at missing
              split at missing
              · cases missing
              · exact missing
          · rcases List.mem_cons.mp member with rfl | member
            · exact ⟨[piece], (List.prefix_cons_inj piece).mpr List.nil_prefix, rfl⟩
            · exact longer (later.along dir member)
          · refine rooted_mkdir rooted filled ?_
            rw [not_not] at here
            rw [advance] at absent filled ⊢
            split at absent
            · exact absurd here absent
            · rename_i nontrivial
              rw [if_neg nontrivial] at filled ⊢
              split at absent
              · rename_i up
                rw [if_pos up] at filled
                refine absurd (rooted location (fun root => filled (by rw [root]; rfl)) ?_) absent
                rw [isDir_iff.mp here]
                exact Option.some_ne_none _
              · rename_i name
                rw [if_neg name, List.dropLast_concat]
                exact here

theorem createDirAll_along (tree : FileTree String B) (location parts : List String) :
    MadeAlong tree location parts (tree.createDirAll location parts) := by
  rw [createDirAll]
  split
  · have made := makeDirs_along tree location (trimEnd parts).dropLast
    obtain ⟨gaps, whole, _⟩ := trimEnd_append parts
    have trimmed : trimEnd parts <+: parts := ⟨gaps, whole.symm⟩
    have shorter : (trimEnd parts).dropLast <+: parts := (List.dropLast_prefix _).trans trimmed
    refine ⟨made.node, made.missing, fun dir member => ?_, made.rooted⟩
    obtain ⟨front, inside, same⟩ := made.along dir member
    exact ⟨front, inside.trans shorter, same⟩
  · exact makeDirs_along tree location parts

theorem MadeAlong.grown {made : MadeDirs B} (along : MadeAlong tree location parts made) : tree.Grown made.tree where
  rooted := along.rooted
  read other := by
    refine Option.ext fun content => ?_
    rw [read?_eq_some_iff, read?_eq_some_iff, along.node]
    split
    · rename_i new
      rw [along.missing other new]
      simp
    · rfl
  dirs other dir := by
    rw [isDir_iff] at dir ⊢
    rw [along.node]
    split
    · rfl
    · exact dir

/-- Where there are no files, every place on the way is a directory in the end. -/
theorem makeDirs_clear (clear : ∀ other, tree.read? other = none) (here : tree.isDir location = true) :
    (tree.makeDirs location parts).whole = true ∧
      ∀ front, front <+: parts → (tree.makeDirs location parts).tree.isDir (walk location front) = true := by
  induction parts generalizing tree location with
  | nil =>
    refine ⟨here, fun front inside => ?_⟩
    rw [List.prefix_nil.mp inside]
    exact here
  | cons piece rest ih =>
    have dirs {made : MadeDirs B} (grows : made.tree.isDir location = true)
        (later : ∀ front, front <+: rest → made.tree.isDir (walk (advance location piece) front) = true) :
        ∀ front, front <+: piece :: rest → made.tree.isDir (walk location front) = true := by
      intro front inside
      cases front with
      | nil => exact grows
      | cons first others =>
        rw [List.cons_prefix_cons] at inside
        rw [inside.1]
        exact later others inside.2
    have kept {start : FileTree String B} {location : List String} (dir : start.isDir location = true) (next : List String) :
        (start.makeDirs next rest).tree.isDir location = true := (makeDirs_along start next rest).grown.dirs location dir
    rw [makeDirs, if_neg (not_not.mpr here)]
    dsimp only
    split
    · rename_i there
      obtain ⟨whole, later⟩ := ih clear there
      exact ⟨whole, dirs (kept here _) later⟩
    · rename_i absent
      have filled : advance location piece ≠ [] := by
        intro root
        rw [root] at absent
        exact absent (isDir_iff.mpr (if_pos rfl))
      have made := node?_mkdir tree filled
      rw [clear, Option.isSome_none, if_neg Bool.false_ne_true]
      have unread (other : List String) : (tree.mkdir (advance location piece)).read? other = none := by
        refine Option.eq_none_iff_forall_ne_some.mpr fun content found => ?_
        rw [read?_eq_some_iff, made] at found
        split at found
        · cases found
        · have read := clear other
          rw [read?_eq_some_iff.mpr found] at read
          cases read
      have there : (tree.mkdir (advance location piece)).isDir (advance location piece) = true := by
        rw [isDir_iff, made, if_pos rfl]
      have before : (tree.mkdir (advance location piece)).isDir location = true := by
        rw [isDir_iff] at here ⊢
        rw [made]
        split
        · rfl
        · exact here
      obtain ⟨whole, later⟩ := ih unread there
      exact ⟨whole, dirs (kept before _) later⟩

theorem createDirAll_clear (clear : ∀ other, tree.read? other = none) (here : tree.isDir location = true)
    (ends : endsInDot parts = true → tree.isDir (walk location parts) = true) :
    (tree.createDirAll location parts).whole = true ∧
      ∀ front, front <+: parts → (tree.createDirAll location parts).tree.isDir (walk location front) = true := by
  rw [createDirAll, if_neg fun both => both.2 (ends both.1)]
  exact makeDirs_clear clear here

end Make

private theorem endsInDot_trimEnd {parts : List String} (dots : endsInDot (trimEnd parts) = true) : trimEnd parts = ["."] := by
  have none {parts : List String} (filled : parts ≠ []) (stops : ¬ isTrivial (parts.getLast filled) = true) :
      endsInDot parts = false := by
    rw [endsInDot, List.rtakeWhile_eq_nil_iff.mpr fun _ => stops]
    rfl
  cases parts with
  | nil => cases dots
  | cons first rest =>
    have stops {parts : List String} (filled : parts.rdropWhile isTrivial ≠ []) :
        ¬ isTrivial ((parts.rdropWhile isTrivial).getLast filled) = true := List.rdropWhile_last_not isTrivial parts filled
    rw [trimEnd] at dots ⊢
    split at dots
    · rename_i dot
      rw [if_pos dot]
      by_cases filled : rest.rdropWhile isTrivial = []
      · rw [filled, dot]
      · rw [none (List.cons_ne_nil _ _) (by rw [List.getLast_cons filled]; exact stops filled)] at dots
        cases dots
    · by_cases filled : (first :: rest).rdropWhile isTrivial = []
      · rw [filled] at dots
        cases dots
      · rw [none filled (stops filled)] at dots
        cases dots

/-- A parent has a dot at its end only if it is one. -/
theorem endsInDot_parent {path above : String} (found : parent path = some above) (dots : endsInDot (pieces above) = true) :
    pieces above = ["."] := by
  unfold parent at found
  split at found
  · cases found
  · rename_i last before shape
    dsimp only at found
    split at found
    · cases found
      exact absurd dots (by decide)
    · cases found
      obtain ⟨gaps, front, _⟩ := trimEnd_append before.reverse
      obtain ⟨rest, whole, _⟩ := trimEnd_append (pieces path)
      by_cases filled : trimEnd before.reverse = []
      · rw [filled] at dots
        exact absurd dots (by decide)
      · have unslashed (piece : String) (member : piece ∈ trimEnd before.reverse) : '/' ∉ piece.toList := by
          have inside : piece ∈ pieces path := by
            rw [whole, ← List.reverse_reverse (trimEnd (pieces path)), shape, List.reverse_cons, front]
            simp [member]
          exact unslashed_of_mem_pieces inside
        rw [pieces_intercalate filled unslashed] at dots ⊢
        exact endsInDot_trimEnd dots

/-- A path without steps up that ends in a name. -/
structure Straight (path : String) : Prop where
  onward : ".." ∉ pieces path
  ends : ∃ front name, pieces path = front ++ [name] ∧ IsName name

theorem straight_join {base path : String} (onward : ".." ∉ pieces base) (relative : isAbsolute path = false)
    (names : ∀ name ∈ pieces path, IsName name) : Straight (join base path) := by
  refine ⟨onward_join onward relative fun up => (names ".." up).notAbove rfl, ?_⟩
  obtain ⟨front, whole⟩ := pieces_join_suffix base relative
  obtain ⟨before, last, split⟩ := (List.eq_nil_or_concat' (pieces path)).resolve_left pieces_ne_nil
  refine ⟨front ++ before, last, ?_, names last ?_⟩
  · rw [← whole, split, List.append_assoc]
  · rw [split]
    exact List.mem_append_right _ List.mem_cons_self

theorem Straight.dotless {path : String} (straight : Straight path) : endsInDot (pieces path) = false := by
  obtain ⟨front, name, whole, proper⟩ := straight.ends
  have filled : ¬ isTrivial name = true := by simp [isTrivial, proper.nonempty, proper.notHere]
  rw [endsInDot, whole, List.rtakeWhile_concat_neg _ _ _ filled]
  rfl

theorem Straight.removeAll {tree : FileTree String B} {path : String} (straight : Straight path) :
    tree.removeAll (pieces path) = tree.removeDirAll := by
  obtain ⟨front, name, whole, proper⟩ := straight.ends
  funext location
  rw [FileTree.removeAll, endsInDots, whole, List.filter_append, List.filter_cons_of_pos (by simp [proper.nonempty]), List.filter_nil,
    List.getLast?_concat, Option.any_some, if_neg]
  simp [proper.notHere, proper.notAbove]

section Straight

variable {tree : FileTree String B} {cwd : List String} {path : String}

/-- A straight path is looked up where it leads, if the directory is there. -/
private theorem locate_straight (rooted : tree.Rooted) (straight : Straight path)
    (above : tree.isDir (resolve cwd path).dropLast = true) :
    tree.locate (if isAbsolute path then [] else cwd) (pieces path) = some (resolve cwd path) := by
  refine locate_eq_some_iff.mpr ⟨rfl, fun front piece rest split => ?_⟩
  obtain ⟨firsts, name, whole, proper⟩ := straight.ends
  have ends : (piece :: rest).getLast? = some name := by
    have last := congrArg List.getLast? (split.symm.trans whole)
    rwa [List.getLast?_append_of_ne_nil _ (List.cons_ne_nil _ _), List.getLast?_concat] at last
  obtain ⟨gap, back⟩ := List.getLast?_eq_some_iff.mp ends
  have before : firsts = front ++ gap := by
    rw [back, ← List.append_assoc, whole] at split
    exact (List.append_inj_left' split rfl)
  have leads : (resolve cwd path).dropLast = walk (walk (if isAbsolute path then [] else cwd) front) gap := by
    rw [resolve, whole, walk_concat, advance_name proper, List.dropLast_concat, before, walk_append]
  have onward : ".." ∉ gap := fun member => straight.onward (by simp [whole, before, member])
  obtain ⟨below, same⟩ := @walk_onward (walk (if isAbsolute path then [] else cwd) front) gap onward
  rw [leads, ← same] at above
  rcases eq_or_ne below [] with rfl | filled
  · rwa [List.append_nil] at above
  · refine rooted.isDir_above filled ?_
    rw [isDir_iff.mp above]
    exact Option.some_ne_none _

/-- So a call that needs the directory of its file is one for the location. -/
theorem bind_locate {α : Type} (rooted : tree.Rooted) (straight : Straight path) {operation : List String → Option α}
    (needs : ∀ location, (operation location).isSome → tree.isDir location.dropLast = true) :
    (tree.locate (if isAbsolute path then [] else cwd) (pieces path)).bind operation = operation (resolve cwd path) := by
  cases leads : tree.locate (if isAbsolute path then [] else cwd) (pieces path) with
  | some found =>
    rw [Option.bind_some, (locate_eq_some_iff.mp leads).1]
    rfl
  | none =>
    rw [Option.bind_none]
    refine (Option.eq_none_iff_forall_ne_some.mpr fun result made => ?_).symm
    have above := needs _ (Option.isSome_iff_exists.mpr ⟨result, made⟩)
    rw [locate_straight rooted straight above] at leads
    cases leads

end Straight

end FileTree

end Collections
