import Mathlib.Data.List.DropRight
import Mathlib.Data.List.Infix
import Veloce.Collections.Pieces

/-! Paths as texts, and the location that a path leads to if its parts are only read, not
looked up: a location is the list of the names from the root. -/

namespace Collections

/-- What an entry of a directory can be called. -/
structure IsName (name : String) : Prop where
  nonempty : name ≠ ""
  notHere : name ≠ "."
  notAbove : name ≠ ".."
  unslashed : '/' ∉ name.toList

instance (name : String) : Decidable (IsName name) :=
  decidable_of_iff (name ≠ "" ∧ name ≠ "." ∧ name ≠ ".." ∧ '/' ∉ name.toList)
    ⟨fun ⟨nonempty, notHere, notAbove, unslashed⟩ => ⟨nonempty, notHere, notAbove, unslashed⟩,
      fun name => ⟨name.nonempty, name.notHere, name.notAbove, name.unslashed⟩⟩

structure Location where
  names : List String
  proper : ∀ name ∈ names, IsName name

namespace Path

def isAbsolute (path : String) : Bool := path.toList.head? = some '/'

def pieces (path : String) : List String := (path.toList.splitOn '/').map String.ofList

/-- An empty piece or a dot, which stay where they are. -/
def isTrivial (piece : String) : Bool := piece = "" || piece = "."

def advance (location : List String) (piece : String) : List String :=
  if isTrivial piece then location
  else if piece = ".." then location.dropLast
  else location ++ [piece]

def walk (location : List String) (pieces : List String) : List String := pieces.foldl advance location

def resolve (cwd : List String) (path : String) : List String :=
  walk (if isAbsolute path then [] else cwd) (pieces path)

def join (base path : String) : String :=
  if isAbsolute path then path
  else if base = "" ∨ base.toList.getLast? = some '/' then base ++ path
  else base ++ "/" ++ path

/-- The pieces without those at the end that are no parts; a dot is one only at the beginning. -/
def trimEnd (pieces : List String) : List String :=
  match pieces with
  | [] => []
  | first :: rest =>
    if first = "." then first :: rest.rdropWhile isTrivial else (first :: rest).rdropWhile isTrivial

/-- The path without its last part, if it has any part. -/
def parent (path : String) : Option String :=
  match (trimEnd (pieces path)).reverse with
  | [] => none
  | _ :: above =>
    let text := String.intercalate "/" (trimEnd above.reverse)
    some (if isAbsolute path && text = "" then "/" else text)

/-- At the location or below it. -/
def Under (root location : List String) : Prop := root <+: location

structure Inside (root location : List String) : Prop where
  under : Under root location
  strict : location ≠ root

instance (root location : List String) : Decidable (Under root location) :=
  inferInstanceAs (Decidable (root <+: location))

instance (root location : List String) : Decidable (Inside root location) :=
  decidable_of_iff (Under root location ∧ location ≠ root)
    ⟨fun ⟨under, strict⟩ => ⟨under, strict⟩, fun inside => ⟨inside.under, inside.strict⟩⟩

section Pieces

variable {path base name piece : String}

theorem pieces_ne_nil : pieces path ≠ [] := by
  rw [pieces, ne_eq, List.map_eq_nil_iff]
  exact List.splitOn_ne_nil '/' path.toList

theorem unslashed_of_mem_pieces (member : piece ∈ pieces path) : '/' ∉ piece.toList := by
  obtain ⟨chars, inside, rfl⟩ := List.mem_map.mp member
  rw [String.toList_ofList]
  exact (mem_splitOn inside).1

theorem pieces_of_unslashed (unslashed : '/' ∉ name.toList) : pieces name = [name] := by
  rw [pieces, List.splitOn_eq_singleton unslashed, List.map_singleton, String.ofList_toList]

theorem pieces_append_slash (left right : String) : pieces (left ++ "/" ++ right) = pieces left ++ pieces right := by
  have slash : "/".toList = ['/'] := rfl
  rw [pieces, String.toList_append, String.toList_append, slash, List.append_assoc, List.singleton_append,
    List.splitOn_append_cons_self, List.map_append]
  rfl

/-- The text after the last slash. -/
theorem unslashed_or_last_slash (path : String) :
    '/' ∉ path.toList ∨ ∃ front last : String, path = front ++ "/" ++ last ∧ '/' ∉ last.toList := by
  by_cases slashed : '/' ∈ path.toList.reverse
  · obtain ⟨last, front, split, unslashed⟩ := List.eq_append_cons_of_mem slashed
    have back : path.toList = front.reverse ++ '/' :: last.reverse := by
      rw [← List.reverse_reverse path.toList, split]
      simp
    refine .inr ⟨String.ofList front.reverse, String.ofList last.reverse, ?_, ?_⟩
    · apply String.toList_inj.mp
      rw [back]
      simp
    · rw [String.toList_ofList, List.mem_reverse]
      exact unslashed
  · exact .inl fun member => slashed (List.mem_reverse.mpr member)

theorem pieces_append_unslashed (path : String) {suffix : String} (unslashed : '/' ∉ suffix.toList) :
    ∃ front last, pieces path = front ++ [last] ∧ pieces (path ++ suffix) = front ++ [last ++ suffix] := by
  have joined {last : String} (unslashed' : '/' ∉ last.toList) : pieces (last ++ suffix) = [last ++ suffix] := by
    refine pieces_of_unslashed ?_
    rw [String.toList_append, List.mem_append]
    exact not_or.mpr ⟨unslashed', unslashed⟩
  rcases unslashed_or_last_slash path with unslashed' | ⟨front, last, rfl, unslashed'⟩
  · exact ⟨[], path, pieces_of_unslashed unslashed', joined unslashed'⟩
  · refine ⟨pieces front, last, ?_, ?_⟩
    · rw [pieces_append_slash, pieces_of_unslashed unslashed']
    · rw [String.append_assoc, pieces_append_slash, joined unslashed']

end Pieces

section Walk

variable {cwd location : List String} {base path name piece : String}

theorem advance_trivial (trivial : isTrivial piece = true) : advance location piece = location := if_pos trivial

theorem advance_name (proper : IsName name) : advance location name = location ++ [name] := by
  have filled : ¬ isTrivial name = true := by simp [isTrivial, proper.nonempty, proper.notHere]
  rw [advance, if_neg filled, if_neg proper.notAbove]

theorem walk_append (front back : List String) : walk location (front ++ back) = walk (walk location front) back :=
  List.foldl_append

theorem walk_concat (front : List String) : walk location (front ++ [piece]) = advance (walk location front) piece := by
  rw [walk_append]
  rfl

theorem walk_names {names : List String} (proper : ∀ name ∈ names, IsName name) :
    walk location names = location ++ names := by
  induction names generalizing location with
  | nil => rw [List.append_nil]; rfl
  | cons head tail ih =>
    rw [walk, List.foldl_cons, advance_name (proper head List.mem_cons_self), ← walk,
      ih fun name member => proper name (List.mem_cons_of_mem _ member), List.append_assoc, List.singleton_append]

theorem walk_onward {parts : List String} (onward : ".." ∉ parts) : location <+: walk location parts := by
  induction parts generalizing location with
  | nil => exact List.prefix_rfl
  | cons piece rest ih =>
    rw [walk, List.foldl_cons, ← walk]
    refine List.IsPrefix.trans ?_ (ih fun member => onward (List.mem_cons_of_mem _ member))
    rw [advance]
    split
    · exact List.prefix_rfl
    · rw [if_neg fun up : piece = ".." => onward (up ▸ List.mem_cons_self)]
      exact List.prefix_append ..

theorem isName_of_mem_walk {parts : List String} (start : ∀ name ∈ location, IsName name)
    (unslashed : ∀ piece ∈ parts, '/' ∉ piece.toList) : ∀ name ∈ walk location parts, IsName name := by
  induction parts using List.reverseRecOn with
  | nil => exact start
  | append_singleton front piece ih =>
    have before := ih fun piece member => unslashed piece (List.mem_append_left _ member)
    rw [walk_concat, advance]
    split
    · exact before
    · rename_i filled
      split
      · exact fun name member => before name (List.dropLast_subset _ member)
      · rename_i notAbove
        intro name member
        rcases List.mem_append.mp member with member | member
        · exact before name member
        · rw [List.mem_singleton.mp member]
          simp only [isTrivial, Bool.or_eq_true, decide_eq_true_eq, not_or] at filled
          exact ⟨filled.1, filled.2, notAbove, unslashed piece (List.mem_append_right _ List.mem_cons_self)⟩

theorem isName_of_mem_resolve (start : ∀ name ∈ cwd, IsName name) : ∀ name ∈ resolve cwd path, IsName name := by
  refine isName_of_mem_walk ?_ fun piece => unslashed_of_mem_pieces
  split
  · exact fun _ member => absurd member List.not_mem_nil
  · exact start

theorem join_of_relative (base : String) (relative : isAbsolute path = false) : join base path =
    if base = "" ∨ base.toList.getLast? = some '/' then base ++ path else base ++ "/" ++ path := by
  rw [join, if_neg (by rw [relative]; exact Bool.false_ne_true)]

theorem isAbsolute_append (filled : base ≠ "") (suffix : String) : isAbsolute (base ++ suffix) = isAbsolute base := by
  rw [isAbsolute, isAbsolute, String.toList_append]
  cases shape : base.toList with
  | nil => exact absurd (String.toList_eq_nil_iff.mp shape) filled
  | cons first rest => rfl

/-- The parts of a path that is joined to a base; a slash at the end of the base is no part
of it. -/
theorem pieces_join (filled : base ≠ "") (relative : isAbsolute path = false) :
    pieces (join base path) = pieces base ++ pieces path ∨
      ∃ front, pieces base = front ++ [""] ∧ pieces (join base path) = front ++ pieces path := by
  rw [join_of_relative base relative]
  by_cases ends : base.toList.getLast? = some '/'
  · obtain ⟨front, split⟩ := List.getLast?_eq_some_iff.mp ends
    have shape : base = String.ofList front ++ "/" ++ "" := by
      apply String.toList_inj.mp
      rw [String.toList_append, String.toList_append, String.toList_ofList, split]
      simp
    rw [if_pos (.inr ends), shape]
    refine .inr ⟨pieces (String.ofList front), ?_, ?_⟩
    · rw [pieces_append_slash]
      rfl
    · rw [String.append_empty, pieces_append_slash]
  · rw [if_neg (not_or.mpr ⟨filled, ends⟩), pieces_append_slash]
    exact .inl rfl

theorem join_ne_empty (filled : base ≠ "") (relative : isAbsolute path = false) : join base path ≠ "" := by
  rw [join_of_relative base relative]
  split <;> simp [filled]

theorem isAbsolute_join (base : String) (relative : isAbsolute path = false) : isAbsolute (join base path) = isAbsolute base := by
  rw [join_of_relative base relative]
  by_cases empty : base = ""
  · rw [if_pos (.inl empty), empty, String.empty_append, relative]
    rfl
  · split
    · exact isAbsolute_append empty path
    · rw [String.append_assoc, isAbsolute_append empty]

theorem onward_join (front : ".." ∉ pieces base) (relative : isAbsolute path = false) (back : ".." ∉ pieces path) :
    ".." ∉ pieces (join base path) := by
  by_cases empty : base = ""
  · rwa [join_of_relative base relative, if_pos (.inl empty), empty, String.empty_append]
  · rcases pieces_join empty relative with whole | ⟨before, split, whole⟩
    · rw [whole, List.mem_append]
      exact fun up => up.elim front back
    · rw [whole, List.mem_append]
      exact fun up => up.elim (fun up => front (split ▸ List.mem_append_left _ up)) back

theorem pieces_join_suffix (base : String) (relative : isAbsolute path = false) : pieces path <:+ pieces (join base path) := by
  by_cases empty : base = ""
  · rw [join_of_relative base relative, if_pos (.inl empty), empty, String.empty_append]
  · rcases pieces_join empty relative with whole | ⟨before, split, whole⟩
    · exact ⟨pieces base, whole.symm⟩
    · exact ⟨before, whole.symm⟩

/-- A relative path goes on from where the base leads. -/
theorem resolve_join (cwd : List String) (base : String) (relative : isAbsolute path = false) :
    resolve cwd (join base path) = walk (resolve cwd base) (pieces path) := by
  by_cases empty : base = ""
  · rw [join_of_relative base relative, if_pos (.inl empty), empty, String.empty_append, resolve, resolve, relative]
    rfl
  · rw [resolve, resolve, isAbsolute_join base relative, ← walk_append]
    rcases pieces_join empty relative with whole | ⟨front, ends, joined⟩
    · rw [whole]
    · rw [joined, ends, walk_append, walk_append, walk_concat, advance_trivial rfl]

end Walk

section Inside

variable {cwd root location : List String} {path piece suffix : String}

theorem Inside.under_dropLast (inside : Inside root location) : Under root location.dropLast := by
  obtain ⟨rest, rfl⟩ := inside.under
  have filled : rest ≠ [] := by
    rintro rfl
    exact inside.strict (List.append_nil root)
  rw [List.dropLast_append_of_ne_nil filled]
  exact List.prefix_append ..

theorem Under.inside_concat (under : Under root location) (name : String) : Inside root (location ++ [name]) := by
  refine ⟨under.trans (List.prefix_append ..), fun same => ?_⟩
  have shorter := under.length_le
  rw [← same, List.length_append, List.length_singleton] at shorter
  omega

theorem under_of_inside_advance (inside : Inside root (advance location piece)) : Under root location := by
  rw [advance] at inside
  split at inside
  · exact inside.under
  · split at inside
    · exact inside.under.trans (List.dropLast_prefix location)
    · have before := inside.under_dropLast
      rwa [List.dropLast_concat] at before

theorem isName_append_suffix {last : String} (unslashed : '/' ∉ last.toList) (unslashed' : '/' ∉ suffix.toList)
    (long : 2 < suffix.length) : IsName (last ++ suffix) := by
  have length : (last ++ suffix).length = last.length + suffix.length := String.length_append last suffix
  refine ⟨fun same => ?_, fun same => ?_, fun same => ?_, ?_⟩
  · rw [same, show "".length = 0 from rfl] at length
    omega
  · rw [same, show ".".length = 1 from rfl] at length
    omega
  · rw [same, show "..".length = 2 from rfl] at length
    omega
  · rw [String.toList_append, List.mem_append]
    exact not_or.mpr ⟨unslashed, unslashed'⟩

theorem inside_append_suffix (inside : Inside root (resolve cwd path)) (unslashed : '/' ∉ suffix.toList)
    (long : 2 < suffix.length) : Inside root (resolve cwd (path ++ suffix)) := by
  obtain ⟨front, last, whole, longer⟩ := pieces_append_unslashed path unslashed
  have member : last ∈ pieces path := by
    rw [whole]
    exact List.mem_append_right _ List.mem_cons_self
  have proper : IsName (last ++ suffix) := isName_append_suffix (unslashed_of_mem_pieces member) unslashed long
  have base : isAbsolute (path ++ suffix) = isAbsolute path := by
    rcases eq_or_ne path "" with rfl | filled
    · rw [String.empty_append, isAbsolute]
      exact decide_eq_false fun slash => unslashed (List.mem_of_mem_head? slash)
    · exact isAbsolute_append filled suffix
  rw [resolve, whole, walk_concat] at inside
  rw [resolve, base, longer, walk_concat, advance_name proper]
  exact (under_of_inside_advance inside).inside_concat _

theorem pieces_intercalate {parts : List String} (filled : parts ≠ []) (unslashed : ∀ piece ∈ parts, '/' ∉ piece.toList) :
    pieces (String.intercalate "/" parts) = parts := by
  have lists : parts.map String.toList ≠ [] ∧ ∀ list ∈ parts.map String.toList, '/' ∉ list :=
    ⟨by simpa using filled, by simpa using unslashed⟩
  have back := splitOn_intercalate_iff.mpr lists
  rw [pieces, String.toList_intercalate]
  simp [back]

theorem intercalate_pieces (path : String) : String.intercalate "/" (pieces path) = path := by
  apply String.toList_inj.mp
  have slash : "/".toList = ['/'] := rfl
  have parts : (pieces path).map String.toList = path.toList.splitOn '/' := by
    rw [pieces, List.map_map]
    exact (List.map_congr_left fun chars _ => String.toList_ofList).trans (List.map_id _)
  rw [String.toList_intercalate, slash, parts, List.intercalate_splitOn]

theorem pieces_inj {path' : String} : pieces path = pieces path' ↔ path = path' := by
  refine ⟨fun same => ?_, congrArg pieces⟩
  rw [← intercalate_pieces path, same, intercalate_pieces]

theorem isAbsolute_iff_pieces : isAbsolute path = true ↔ ∃ rest, rest ≠ [] ∧ pieces path = "" :: rest := by
  rw [isAbsolute, decide_eq_true_eq, pieces]
  cases shape : path.toList with
  | nil => simp
  | cons first rest =>
    rw [List.splitOn_cons_eq_if_modifyHead, List.head?_cons, Option.some.injEq]
    have filled : rest.splitOn '/' ≠ [] := List.splitOn_ne_nil '/' rest
    by_cases slash : first = '/'
    · simp [slash, filled]
    · cases pieces : rest.splitOn '/' with
      | nil => exact absurd pieces filled
      | cons head tail => simp [slash]

theorem walk_trivial {parts : List String} (trivial : ∀ piece ∈ parts, isTrivial piece = true) :
    walk location parts = location := by
  induction parts with
  | nil => rfl
  | cons head tail ih =>
    rw [walk, List.foldl_cons, advance_trivial (trivial head List.mem_cons_self), ← walk]
    exact ih fun piece member => trivial piece (List.mem_cons_of_mem _ member)

theorem trimEnd_append (parts : List String) :
    ∃ gaps, parts = trimEnd parts ++ gaps ∧ ∀ piece ∈ gaps, isTrivial piece = true := by
  have dropped (parts : List String) :
      parts = parts.rdropWhile isTrivial ++ parts.rtakeWhile isTrivial ∧
        ∀ piece ∈ parts.rtakeWhile isTrivial, isTrivial piece = true :=
    ⟨List.rdropWhile_append_rtakeWhile.symm, fun _ => List.mem_rtakeWhile_imp⟩
  cases parts with
  | nil => exact ⟨[], rfl, fun _ member => absurd member List.not_mem_nil⟩
  | cons first rest =>
    rw [trimEnd]
    split
    · exact ⟨_, by rw [List.cons_append, ← (dropped rest).1], (dropped rest).2⟩
    · exact ⟨_, (dropped (first :: rest)).1, (dropped (first :: rest)).2⟩

theorem last_of_trimEnd {parts front : List String} {last : String} (kept : trimEnd parts = front ++ [last]) :
    last ≠ "" := by
  have nontrivial {parts front : List String} (kept : parts.rdropWhile isTrivial = front ++ [last]) : last ≠ "" := by
    rintro rfl
    have filled : parts.rdropWhile isTrivial ≠ [] := by
      rw [kept]
      exact List.concat_ne_nil _ _
    have nontrivial := List.rdropWhile_last_not isTrivial parts filled
    simp only [kept, List.getLast_append_singleton] at nontrivial
    exact nontrivial rfl
  cases parts with
  | nil => exact absurd kept.symm (List.concat_ne_nil _ _)
  | cons first rest =>
    rw [trimEnd] at kept
    split at kept
    · rename_i dot
      cases front with
      | nil =>
        rw [List.nil_append, List.cons.injEq] at kept
        rw [← kept.1, dot]
        decide
      | cons head front => exact nontrivial (List.cons.inj kept).2
    · exact nontrivial kept

variable {above : String}

/-- A path with a parent has the parts of the parent, one more, and maybe pieces that are no
parts around that one. -/
theorem pieces_of_parent (found : parent path = some above) :
    ∃ parts gaps last rest, pieces path = parts ++ gaps ++ last :: rest ∧ (∀ piece ∈ gaps, isTrivial piece = true) ∧
      (∀ piece ∈ rest, isTrivial piece = true) ∧ last ≠ "" ∧
      above = if isAbsolute path && String.intercalate "/" parts = "" then "/" else String.intercalate "/" parts := by
  unfold parent at found
  split at found
  · cases found
  · rename_i last before shape
    cases found
    have kept : trimEnd (pieces path) = before.reverse ++ [last] := by
      rw [← List.reverse_reverse (trimEnd _), shape, List.reverse_cons]
    obtain ⟨rest, whole, trivial⟩ := trimEnd_append (pieces path)
    obtain ⟨gaps, front, between⟩ := trimEnd_append before.reverse
    refine ⟨trimEnd before.reverse, gaps, last, rest, ?_, between, trivial, last_of_trimEnd kept, rfl⟩
    rw [whole, kept, ← front, List.append_assoc, List.singleton_append]

/-- The parent of a path leads to where the path has been before its last part. -/
theorem exists_of_parent (cwd : List String) (found : parent path = some above) :
    ∃ last, resolve cwd path = advance (resolve cwd above) last := by
  obtain ⟨parts, gaps, last, rest, whole, between, trivial, -, rfl⟩ := pieces_of_parent found
  refine ⟨last, ?_⟩
  have leads : resolve cwd path = advance (walk (if isAbsolute path then [] else cwd) parts) last := by
    rw [resolve, whole, ← List.singleton_append, ← List.append_assoc, walk_append, walk_trivial trivial, walk_concat,
      walk_append, walk_trivial between]
  rw [leads]
  congr 1
  have unslashed (piece : String) (member : piece ∈ parts) : '/' ∉ piece.toList := by
    have inside : piece ∈ pieces path := by
      rw [whole, List.append_assoc]
      exact List.mem_append_left _ member
    exact unslashed_of_mem_pieces inside
  cases parts with
  | nil =>
    -- Without parts the parent of an absolute path is the root, that of a relative one is empty.
    cases absolute : isAbsolute path with
    | true => rfl
    | false => rfl
  | cons first others =>
    have text := pieces_intercalate (List.cons_ne_nil first others) unslashed
    cases absolute : isAbsolute path with
    | true =>
      obtain ⟨_, _, same⟩ := isAbsolute_iff_pieces.mp absolute
      rw [whole] at same
      cases (List.cons.inj same).1
      cases others with
      | nil => rfl
      | cons second others =>
        have rooted : isAbsolute (String.intercalate "/" ("" :: second :: others)) = true :=
          isAbsolute_iff_pieces.mpr ⟨_, List.cons_ne_nil second others, text⟩
        have nonempty : String.intercalate "/" ("" :: second :: others) ≠ "" := by
          intro empty
          rw [empty] at rooted
          cases rooted
        simp only [Bool.true_and, decide_eq_true_eq, if_neg nonempty, if_true]
        rw [resolve, rooted, text]
        rfl
    | false =>
      have relative : isAbsolute (String.intercalate "/" (first :: others)) = false := by
        refine Bool.eq_false_iff.mpr fun rooted => ?_
        obtain ⟨_, _, same⟩ := isAbsolute_iff_pieces.mp rooted
        rw [text] at same
        refine Bool.eq_false_iff.mp absolute (isAbsolute_iff_pieces.mpr ⟨others ++ gaps ++ last :: rest, by simp, ?_⟩)
        rw [whole, (List.cons.inj same).1, List.cons_append, List.cons_append]
      simp only [Bool.false_and, Bool.false_eq_true, if_false]
      rw [resolve, relative, text]
      rfl

/-- The text of a parent that is no root is what the path has before one of its slashes. -/
theorem eq_append_of_parent (found : parent path = some above) (filled : above ≠ "")
    (unrooted : isAbsolute path = true → above ≠ "/") : ∃ rest, path = above ++ "/" ++ rest := by
  obtain ⟨parts, gaps, last, rest, whole, -, -, -, text⟩ := pieces_of_parent found
  have unchanged : above = String.intercalate "/" parts := by
    rw [text]
    split
    · rename_i rooted
      rw [Bool.and_eq_true] at rooted
      exact absurd (text.trans (if_pos (by rw [Bool.and_eq_true]; exact rooted))) (unrooted rooted.1)
    · rfl
  have some_part : parts ≠ [] := by
    rintro rfl
    exact filled (unchanged.trans String.intercalate_nil)
  refine ⟨String.intercalate "/" (gaps ++ last :: rest), ?_⟩
  rw [unchanged, ← String.intercalate_append_of_ne_nil some_part (by simp), ← List.append_assoc, ← whole,
    intercalate_pieces]

theorem isAbsolute_parent (found : parent path = some above) : isAbsolute above = isAbsolute path := by
  by_cases rooted : isAbsolute path = true ∧ above = "/"
  · rw [rooted.1, rooted.2]
    rfl
  · by_cases empty : above = ""
    · obtain ⟨parts, _, _, _, _, _, _, _, text⟩ := pieces_of_parent found
      cases absolute : isAbsolute path with
      | false =>
        rw [empty]
        rfl
      | true =>
        rw [absolute, Bool.true_and, empty] at text
        split at text
        · exact absurd text (by decide)
        · rename_i filled
          exact absurd (decide_eq_true text.symm) filled
    · obtain ⟨rest, whole⟩ := eq_append_of_parent found empty fun absolute slash => rooted ⟨absolute, slash⟩
      rw [whole, String.append_assoc, isAbsolute_append empty]

theorem onward_parent (found : parent path = some above) (onward : ".." ∉ pieces path) :
    ".." ∉ pieces above := by
  obtain ⟨parts, gaps, last, rest, whole, -, -, -, text⟩ := pieces_of_parent found
  rw [text]
  split
  · decide
  · cases parts with
    | nil => decide
    | cons first others =>
      have inside {piece : String} (member : piece ∈ first :: others) : piece ∈ pieces path := by
        rw [whole, List.append_assoc]
        exact List.mem_append_left _ member
      rw [pieces_intercalate (List.cons_ne_nil _ _) fun piece member => unslashed_of_mem_pieces (inside member)]
      exact fun up => onward (inside up)

theorem not_prefix_parent (cwd : List String) {other : List String} (found : parent path = some above)
    (apart : other ≠ resolve cwd path) (long : other.length = (resolve cwd path).length) :
    ¬ other <+: resolve cwd above := by
  obtain ⟨last, leads⟩ := exists_of_parent cwd found
  intro under
  rw [leads] at apart long
  rw [advance] at apart long
  split at long
  · rename_i trivial
    rw [if_pos trivial] at apart
    exact apart (under.eq_of_length long)
  · rename_i filled
    rw [if_neg filled] at apart
    split at long
    · rename_i up
      rw [if_pos up] at apart
      exact apart ((List.prefix_of_prefix_length_le under (List.dropLast_prefix _) (Nat.le_of_eq long)).eq_of_length long)
    · have shorter := under.length_le
      rw [long, List.length_append, List.length_singleton] at shorter
      omega

theorem under_parent (inside : Inside root (resolve cwd path)) (found : parent path = some above) :
    Under root (resolve cwd above) := by
  obtain ⟨last, leads⟩ := exists_of_parent cwd found
  rw [leads] at inside
  exact under_of_inside_advance inside

end Inside

section Reduced

variable {location root : List String}

/-- One more piece after `ups` steps up and `names` down. -/
def reduceStep : Nat × List String → String → Nat × List String
  | (ups, names), piece =>
    if isTrivial piece then (ups, names)
    else if piece = ".." then if names = [] then (ups + 1, []) else (ups, names.dropLast)
    else (ups, names ++ [piece])

/-- The steps up that are left when every name has been cancelled with the `..` after it,
and the names that follow them. -/
def reduce (pieces : List String) : Nat × List String := pieces.foldl reduceStep (0, [])

/-- A walk is the steps up and then the names. -/
theorem walk_eq_reduce (location parts : List String) :
    walk location parts = location.take (location.length - (reduce parts).1) ++ (reduce parts).2 := by
  induction parts using List.reverseRecOn with
  | nil => simp [walk, reduce]
  | append_singleton front piece ih =>
    have last : reduce (front ++ [piece]) = reduceStep (reduce front) piece := List.foldl_concat ..
    rw [walk_concat, ih, last]
    generalize reduce front = reduced
    obtain ⟨ups, names⟩ := reduced
    rw [advance, reduceStep]
    split
    · rfl
    · split
      · split
        · rename_i empty
          rw [empty, List.append_nil, List.append_nil, List.dropLast_take_eq_take_dropLast, List.dropLast_eq_take, List.take_take]
          congr 1
          omega
        · rename_i filled
          rw [List.dropLast_append_of_ne_nil filled]
      · rw [List.append_assoc]

/-- The names that are left come back on those it went up by, and there is one more; if it
does not go up, there is a name left. -/
def Below (root parts : List String) : Prop :=
  Inside (root.drop (root.length - (reduce parts).1)) (reduce parts).2

instance (root parts : List String) : Decidable (Below root parts) :=
  inferInstanceAs (Decidable (Inside (root.drop (root.length - (reduce parts).1)) (reduce parts).2))

/-- A walk from the root stays at the root or below it if it comes back on all the names it
went up by. -/
theorem under_walk_iff (parts : List String) : Under root (walk root parts) ↔
    Under (root.drop (root.length - (reduce parts).1)) (reduce parts).2 := by
  have joined : root.take (root.length - (reduce parts).1) ++ root.drop (root.length - (reduce parts).1) <+:
      root.take (root.length - (reduce parts).1) ++ (reduce parts).2 ↔ _ := List.prefix_append_right_inj _
  rw [List.take_append_drop] at joined
  rw [walk_eq_reduce]
  exact joined

theorem inside_walk_iff (parts : List String) : Inside root (walk root parts) ↔ Below root parts := by
  have split : root = root.take (root.length - (reduce parts).1) ++ root.drop (root.length - (reduce parts).1) :=
    (List.take_append_drop ..).symm
  constructor
  · intro inside
    refine ⟨(under_walk_iff parts).mp inside.under, fun same => inside.strict ?_⟩
    rw [walk_eq_reduce, same, ← split]
  · intro inside
    refine ⟨(under_walk_iff parts).mpr inside.under, fun same => inside.strict ?_⟩
    rw [walk_eq_reduce] at same
    nth_rewrite 3 [split] at same
    exact List.append_cancel_left same

end Reduced

end Path

end Collections
