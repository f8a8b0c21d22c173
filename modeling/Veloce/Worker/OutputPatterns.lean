import Mathlib.Data.List.DropRight
import Veloce.Collections.Pieces

/-! Which files of a job are declared outputs. -/

namespace Veloce

open Collections

abbrev ascii (char : Char) : UInt8 := char.toUInt8

/-- The body of a character class: single bytes and ranges. -/
def classMatches (byte : UInt8) : List UInt8 → Bool
  | first :: dash :: last :: rest =>
    if dash = ascii '-' then (first ≤ byte && byte ≤ last) || classMatches byte rest
    else first = byte || classMatches byte (dash :: last :: rest)
  | first :: rest => first = byte || classMatches byte rest
  | [] => false

/-- What is left of a pattern that starts with a class, and of the text. -/
def matchCharClass (pattern text : List UInt8) : Option (List UInt8 × List UInt8) :=
  match text with
  | [] => none
  | byte :: textRest =>
    if byte = ascii '/' then none
    else match pattern.span (· ≠ ascii ']') with
      | (_, []) => none
      | (opened, _ :: patternRest) =>
        if opened.length ≤ 1 then none
        else if classMatches byte opened.tail then some (patternRest, textRest) else none

theorem matchCharClass_eq_some {pattern text patternRest textRest : List UInt8}
    (matched : matchCharClass pattern text = some (patternRest, textRest)) :
    ∃ opened byte, pattern = opened ++ ascii ']' :: patternRest ∧ ascii ']' ∉ opened ∧ 1 < opened.length ∧
      text = byte :: textRest := by
  cases text with
  | nil => cases matched
  | cons byte text =>
    by_cases closed : ascii ']' ∈ pattern
    · obtain ⟨opened, after, rfl, apart⟩ := List.eq_append_cons_of_mem closed
      simp only [matchCharClass, span_append apart] at matched
      split at matched
      · cases matched
      · split at matched
        · cases matched
        · rename_i long
          split at matched
          · cases matched
            exact ⟨opened, byte, rfl, apart, Nat.not_le.mp long, rfl⟩
          · cases matched
    · simp only [matchCharClass, span_of_not_mem closed] at matched
      split at matched <;> cases matched

/-- `glob_matches`; no wildcard matches a slash. -/
def globMatches (pattern text : List UInt8) : Bool :=
  match pattern with
  | [] => text.isEmpty
  | head :: rest =>
    if head = ascii '*' then
      globMatches rest text ||
        match text with
        | [] => false
        | byte :: textRest => byte ≠ ascii '/' && globMatches (head :: rest) textRest
    else if head = ascii '?' then
      match text with
      | [] => false
      | byte :: textRest => byte ≠ ascii '/' && globMatches rest textRest
    else if head = ascii '[' then
      match _matched : matchCharClass (head :: rest) text with
      | none => false
      | some (patternRest, textRest) => globMatches patternRest textRest
    else
      match text with
      | [] => false
      | byte :: textRest => head = byte && globMatches rest textRest
termination_by pattern.length + text.length
decreasing_by
  all_goals simp_wf
  all_goals first
    | omega
    | (obtain ⟨opened, byte, same, _, _, rfl⟩ := matchCharClass_eq_some _matched
       have lengths := congrArg List.length same
       simp at lengths ⊢
       omega)

def trimDots : List UInt8 → List UInt8
  | first :: second :: rest =>
    if first = ascii '.' ∧ second = ascii '/' then trimDots rest else first :: second :: rest
  | text => text

def outputPatternMatches (pattern relPath : List UInt8) : Bool :=
  let pattern := trimDots pattern
  let relPath := trimDots relPath
  if pattern.getLast? = some (ascii '/') then
    globMatches (pattern.rdropWhile (· = ascii '/')) ((relPath.splitOn (ascii '/')).headD [])
  else globMatches pattern relPath

/-- A component of a path is not empty, has no slash and is not a dot. -/
structure IsComponent (name : List UInt8) : Prop where
  filled : name ≠ []
  unslashed : ascii '/' ∉ name
  notDot : name ≠ [ascii '.']

instance (name : List UInt8) : Decidable (IsComponent name) :=
  decidable_of_iff (name ≠ [] ∧ ascii '/' ∉ name ∧ name ≠ [ascii '.'])
    ⟨fun ⟨filled, unslashed, notDot⟩ => ⟨filled, unslashed, notDot⟩,
      fun component => ⟨component.filled, component.unslashed, component.notDot⟩⟩

/-- A relative path: components with slashes between them, perhaps behind some `./`. -/
structure RelativePath where
  dots : Nat
  components : List (List UInt8)
  filled : components ≠ []
  proper : ∀ name ∈ components, IsComponent name

/-- A pattern for a directory. Its character classes end in the component where they begin. -/
structure DirPattern extends RelativePath where
  slashes : Nat
  within : ∀ before cls after,
    [ascii '/'].intercalate components = before ++ ascii '[' :: (cls ++ ascii ']' :: after) → ascii ']' ∉ cls → ascii '/' ∉ cls

def RelativePath.text (path : RelativePath) : List UInt8 :=
  (List.replicate path.dots [ascii '.', ascii '/']).flatten ++ [ascii '/'].intercalate path.components

def DirPattern.text (pattern : DirPattern) : List UInt8 :=
  pattern.toRelativePath.text ++ List.replicate (pattern.slashes + 1) (ascii '/')

/-- The path goes on below what the components of the pattern match. -/
def DirPattern.Names (pattern : DirPattern) (path : RelativePath) : Prop :=
  pattern.components.length < path.components.length ∧
    List.Forall₂ (fun name text => globMatches name text = true) pattern.components
      (path.components.take pattern.components.length)

/-- The pattern matches what it names. -/
def DirPattern.MatchesExactly (pattern : DirPattern) (path : RelativePath) : Prop :=
  outputPatternMatches pattern.text path.text = true ↔ pattern.Names path

section Globs

variable {pattern text name rest : List UInt8}

/-- A class never reaches over a slash. -/
def Within (pattern : List UInt8) : Prop := ∀ before cls after,
  pattern = before ++ ascii '[' :: (cls ++ ascii ']' :: after) → ascii ']' ∉ cls → ascii '/' ∉ cls

theorem Within.suffix {front : List UInt8} (within : Within (front ++ rest)) : Within rest := by
  intro before cls after same
  exact within (front ++ before) cls after (by rw [same, List.append_assoc])

theorem Within.tail {head : UInt8} (within : Within (head :: rest)) : Within rest :=
  Within.suffix (show Within ([head] ++ rest) from within)

/-- A slash in the pattern is only matched by one in the text. -/
theorem globMatches_slash (within : Within pattern) (slash : ascii '/' ∈ pattern) (free : ascii '/' ∉ text) :
    globMatches pattern text = false := by
  induction pattern, text using globMatches.induct with
  | case1 => cases slash
  | case2 text rest skipped taken =>
    have later : ascii '/' ∈ rest := (List.mem_cons.mp slash).resolve_left (by decide)
    rw [globMatches.eq_def]
    simp only [if_pos, skipped within.tail later free, Bool.false_or]
    cases text with
    | nil => rfl
    | cons byte text => simp [taken within slash fun member => free (List.mem_cons_of_mem _ member)]
  | case3 rest other => simp [globMatches, other]
  | case4 rest byte text other ih =>
    have later : ascii '/' ∈ rest := (List.mem_cons.mp slash).resolve_left (by decide)
    rw [globMatches.eq_def]
    simp [other, ih within.tail later fun member => free (List.mem_cons_of_mem _ member)]
  | case5 text rest other other' unmatched =>
    rw [globMatches.eq_def]
    simp only [if_neg other, if_neg other', if_pos]
    split
    · rfl
    · rename_i matched
      rw [unmatched] at matched
      cases matched
  | case6 text rest patternRest textRest other other' matched ih =>
    obtain ⟨opened, byte, same, apart, long, rfl⟩ := matchCharClass_eq_some matched
    have later : ascii '/' ∈ patternRest := by
      cases opened with
      | nil => simp at long
      | cons first cls =>
        obtain ⟨rfl, same⟩ := List.cons.inj same
        have unslashed := within [] cls patternRest (by rw [same]; rfl) fun member => apart (List.mem_cons_of_mem _ member)
        rw [same, List.cons_append, List.mem_cons, List.mem_append, List.mem_cons] at slash
        exact ((slash.resolve_left (by decide)).resolve_left unslashed).resolve_left (by decide)
    have joined : Within ((opened ++ [ascii ']']) ++ patternRest) := by
      rw [List.append_assoc]
      exact same ▸ within
    rw [globMatches.eq_def]
    simp only [if_neg other, if_neg other', if_pos]
    split
    · rfl
    · rename_i matched'
      cases matched.symm.trans matched'
      exact ih joined.suffix later fun member => free (List.mem_cons_of_mem _ member)
  | case7 head rest star question bracket =>
    rw [globMatches.eq_def]
    simp only [if_neg star, if_neg question, if_neg bracket]
  | case8 head rest star question bracket byte text ih =>
    rw [globMatches.eq_def]
    simp only [if_neg star, if_neg question, if_neg bracket]
    by_cases equal : head = byte
    · have later : ascii '/' ∈ rest := (List.mem_cons.mp slash).resolve_left fun here =>
        free (List.mem_cons.mpr (.inl (here.trans equal)))
      simp [ih within.tail later fun member => free (List.mem_cons_of_mem _ member)]
    · simp [equal]

end Globs

section Paths

variable {name text : List UInt8} {path : RelativePath} {pattern : DirPattern}

theorem trimDots_replicate (dots : Nat) (text : List UInt8) :
    trimDots ((List.replicate dots [ascii '.', ascii '/']).flatten ++ text) = trimDots text := by
  induction dots with
  | zero => rfl
  | succ dots ih =>
    rw [List.replicate_succ, List.flatten_cons, List.append_assoc]
    exact ih

theorem trimDots_component (component : IsComponent name) (text : List UInt8) (ends : text = [] ∨ text.head? = some (ascii '/')) :
    trimDots (name ++ text) = name ++ text := by
  match name, component with
  | [], component => exact absurd rfl component.filled
  | [byte], component =>
    rcases ends with rfl | slash
    · rfl
    · cases text with
      | nil => rfl
      | cons second rest =>
        have other : ¬ (byte = ascii '.' ∧ second = ascii '/') := fun ⟨dot, _⟩ => component.notDot (by rw [dot])
        simp [trimDots, other]
  | first :: second :: rest, component =>
    have other : ¬ (first = ascii '.' ∧ second = ascii '/') := fun ⟨_, slash⟩ =>
      component.unslashed (by simp [slash])
    simp only [List.cons_append, trimDots, if_neg other]

theorem intercalate_cons (name : List UInt8) (components : List (List UInt8)) : ∃ text, (text = [] ∨ text.head? = some (ascii '/')) ∧
    [ascii '/'].intercalate (name :: components) = name ++ text := by
  cases components with
  | nil => exact ⟨[], .inl rfl, by simp⟩
  | cons second rest => exact ⟨ascii '/' :: [ascii '/'].intercalate (second :: rest), .inr rfl, by simp⟩

theorem RelativePath.trim (path : RelativePath) (more : List UInt8) (ends : more = [] ∨ more.head? = some (ascii '/')) :
    trimDots (path.text ++ more) = [ascii '/'].intercalate path.components ++ more := by
  rw [RelativePath.text, List.append_assoc, trimDots_replicate]
  cases components : path.components with
  | nil => exact absurd components path.filled
  | cons first rest =>
    obtain ⟨text, ends', joined⟩ := intercalate_cons first rest
    rw [joined, List.append_assoc]
    refine trimDots_component (path.proper first (by simp [components])) _ ?_
    rcases ends' with rfl | slash
    · exact ends
    · exact .inr (by cases text <;> simp_all)

theorem RelativePath.splitOn (path : RelativePath) :
    ([ascii '/'].intercalate path.components).splitOn (ascii '/') = path.components :=
  splitOn_intercalate_iff.mpr ⟨path.filled, fun name member => (path.proper name member).unslashed⟩

theorem exists_last {components : List (List UInt8)} (filled : components ≠ [])
    (proper : ∀ name ∈ components, IsComponent name) : ∃ front byte, [ascii '/'].intercalate components = front ++ [byte] ∧
      byte ≠ ascii '/' := by
  induction components with
  | nil => exact absurd rfl filled
  | cons name rest ih =>
    obtain ⟨component, later⟩ := List.forall_mem_cons.mp proper
    by_cases last : rest = []
    · have ends := List.dropLast_append_getLast component.filled
      refine ⟨name.dropLast, name.getLast component.filled, by rw [last, List.intercalate_singleton, ends], fun slash => ?_⟩
      exact component.unslashed (slash ▸ List.getLast_mem component.filled)
    · obtain ⟨front, byte, same, other⟩ := ih last later
      refine ⟨name ++ [ascii '/'] ++ front, byte, ?_, other⟩
      rw [List.intercalate_cons_of_ne_nil last, same, List.append_assoc (name ++ [ascii '/'])]

/-- Of the path only the first component is looked at, and of the pattern all of it. -/
theorem DirPattern.matches_eq (pattern : DirPattern) (path : RelativePath) : outputPatternMatches pattern.text path.text =
    globMatches ([ascii '/'].intercalate pattern.components) (path.components.headD []) := by
  obtain ⟨front, byte, joined, other⟩ := exists_last pattern.filled pattern.proper
  have pattern' : trimDots pattern.text =
      [ascii '/'].intercalate pattern.components ++ List.replicate (pattern.slashes + 1) (ascii '/') :=
    pattern.trim _ (.inr rfl)
  have path' : trimDots path.text = [ascii '/'].intercalate path.components := by
    have trimmed := path.trim [] (.inl rfl)
    rwa [List.append_nil, List.append_nil] at trimmed
  have ends : ([ascii '/'].intercalate pattern.components ++ List.replicate (pattern.slashes + 1) (ascii '/')).getLast? =
      some (ascii '/') := by
    rw [List.replicate_succ', ← List.append_assoc, List.getLast?_concat]
  have trimmed : ([ascii '/'].intercalate pattern.components ++ List.replicate (pattern.slashes + 1) (ascii '/')).rdropWhile
      (· = ascii '/') = [ascii '/'].intercalate pattern.components := by
    rw [List.rdropWhile, List.reverse_append, List.reverse_replicate,
      List.dropWhile_append_of_pos fun item member => decide_eq_true (List.eq_of_mem_replicate member), joined]
    simp [other]
  simp only [outputPatternMatches, pattern', path', if_pos ends, trimmed, path.splitOn]

theorem DirPattern.names_single {name : List UInt8} (single : pattern.components = [name]) :
    pattern.Names path ↔ 1 < path.components.length ∧ globMatches name (path.components.headD []) = true := by
  rw [DirPattern.Names, single]
  cases path.components with
  | nil => simp
  | cons first rest => simp

/-- A directory pattern matches what it names if and only if it has one component and the
path is not a file that this matches, or it has several and the path is not below them. -/
theorem DirPattern.matchesExactly_iff (pattern : DirPattern) (path : RelativePath) : pattern.MatchesExactly path ↔
    (∀ name, pattern.components = [name] → ∀ file, path.components = [file] → globMatches name file = false) ∧
      (1 < pattern.components.length → ¬ pattern.Names path) := by
  rw [DirPattern.MatchesExactly, pattern.matches_eq]
  cases single : pattern.components with
  | nil => exact absurd single pattern.filled
  | cons name rest =>
    cases rest with
    | nil =>
      rw [DirPattern.names_single single, List.intercalate_singleton]
      cases path' : path.components with
      | nil => exact absurd path' path.filled
      | cons first later =>
        cases later with
        | nil => simp
        | cons second later => simp
    | cons second rest =>
      have slash : ascii '/' ∈ [ascii '/'].intercalate (name :: second :: rest) := by simp
      have free : ascii '/' ∉ path.components.headD [] := by
        cases path' : path.components with
        | nil => simp
        | cons first later => exact (path.proper first (by simp [path'])).unslashed
      rw [globMatches_slash (single ▸ pattern.within) slash free]
      simp

def nestedDirectory : DirPattern where
  dots := 0
  components := ["results", "final"].map fun name => name.toList.map ascii
  filled := by decide
  proper := by decide
  slashes := 0
  within before cls after same := by
    have bracket : ascii '[' ∈ before ++ ascii '[' :: (cls ++ ascii ']' :: after) := by simp
    rw [← same] at bracket
    exact absurd bracket (by decide)

def nestedFile : RelativePath where
  dots := 0
  components := ["results", "final", "a.csv"].map fun name => name.toList.map ascii
  filled := by decide
  proper := by decide

/-- `results/final/` does not match `results/final/a.csv`. -/
theorem nested_directory_missed : ¬ nestedDirectory.MatchesExactly nestedFile := by
  intro exact
  have missed : outputPatternMatches nestedDirectory.text nestedFile.text = false := by decide +kernel
  have named : nestedDirectory.Names nestedFile := by
    refine ⟨by decide, ?_⟩
    exact .cons (by decide +kernel) (.cons (by decide +kernel) .nil)
  rw [exact.mpr named] at missed
  cases missed

end Paths

end Veloce
