import Mathlib.Data.List.DropRight
import Veloce.Collections.Utf8Lossy
import Veloce.Worker.Pmi

/-! The requests that a connection of the PMI server finds in the reads of its socket. -/

namespace Veloce

open Collections

section Trim

variable {text more : List Char}

theorem trimWhitespace_ofList (text : List Char) :
    trimWhitespace (String.ofList text) = String.ofList ((text.dropWhile isWhitespace).rdropWhile isWhitespace) := by
  rw [trimWhitespace, String.toList_ofList]
  rfl

theorem trimWhitespace_eq_empty : trimWhitespace (String.ofList text) = "" ↔ ∀ char ∈ text, isWhitespace char = true := by
  rw [trimWhitespace_ofList, ← String.ofList_nil, String.ofList_inj, List.rdropWhile_eq_nil_iff]
  constructor
  · intro inner char member
    rw [← List.takeWhile_append_dropWhile (p := isWhitespace) (l := text)] at member
    exact (List.mem_append.mp member).elim (List.mem_takeWhile_imp ·) (inner char)
  · exact fun all char member => all char (List.dropWhile_sublist _ |>.mem member)

theorem trimWhitespace_append_left (blank : ∀ char ∈ text, isWhitespace char = true) :
    trimWhitespace (String.ofList (text ++ more)) = trimWhitespace (String.ofList more) := by
  rw [trimWhitespace_ofList, trimWhitespace_ofList, List.dropWhile_append_of_pos blank]

theorem trimWhitespace_append_right (blank : ∀ char ∈ more, isWhitespace char = true) :
    trimWhitespace (String.ofList (text ++ more)) = trimWhitespace (String.ofList text) := by
  rw [trimWhitespace_ofList, trimWhitespace_ofList, List.dropWhile_append]
  split
  · rename_i empty
    rw [List.isEmpty_iff.mp empty, List.dropWhile_eq_nil_iff.mpr blank]
  · simp only [List.rdropWhile, List.reverse_append]
    rw [List.dropWhile_append_of_pos fun char member => blank char (List.mem_reverse.mp member)]

end Trim

def newline : UInt8 := 10

/-- The requests of one read: its lines, but for blanks around them and blank ones. -/
def pmiRequests (chunk : List UInt8) : List String :=
  ((splitChar '\n' (fromUtf8Lossy chunk)).map trimWhitespace).filter fun req => req ≠ ""

def blank (bytes : List UInt8) : Bool := trimWhitespace (fromUtf8Lossy bytes) = ""

/-- What a read starts with, up to a newline, and what came last before it. -/
def firstLine (bytes : List UInt8) : List UInt8 := bytes.takeWhile (· ≠ newline)

def lastLine (bytes : List UInt8) : List UInt8 := bytes.rtakeWhile (· ≠ newline)

/-- No read cuts a line: where one ends within a line, only blanks are on one of the sides. -/
def CleanReads (left : List UInt8) : List (List UInt8) → Prop
  | [] => True
  | chunk :: reads => (blank (lastLine left) = true ∨ blank (firstLine chunk) = true) ∧ CleanReads (left ++ chunk) reads

instance decidableCleanReads : (left : List UInt8) → (reads : List (List UInt8)) → Decidable (CleanReads left reads)
  | _, [] => isTrue trivial
  | left, chunk :: reads => @instDecidableAnd _ _ inferInstance (decidableCleanReads (left ++ chunk) reads)

section Lines

variable {left chunk line : List UInt8}

theorem newline_starts (below : List UInt8) : ∀ byte ∈ (newline :: below).head?, byte.IsUTF8FirstByte := by
  rintro byte ⟨⟩
  decide

theorem lossy_newline (above below : List UInt8) :
    Utf8.lossy (above ++ newline :: below) = Utf8.lossy above ++ '\n' :: Utf8.lossy below := by
  rw [Utf8.lossy_append (newline_starts below)]
  exact congrArg _ (Utf8.lossy_char '\n' below)

theorem pmiRequests_cut (above below : List UInt8) :
    pmiRequests (above ++ newline :: below) = pmiRequests above ++ pmiRequests below := by
  simp only [pmiRequests, fromUtf8Lossy, splitChar, String.toList_ofList, lossy_newline, List.splitOn_append_cons_self,
    List.map_append, List.filter_append]

theorem pmiRequests_line (single : newline ∉ line) :
    pmiRequests line = [trimWhitespace (fromUtf8Lossy line)].filter fun req => req ≠ "" := by
  have none : '\n' ∉ Utf8.lossy line := fun member => single (Utf8.mem_of_mem_lossy (by decide) (by decide) member)
  rw [pmiRequests, splitChar, fromUtf8Lossy, String.toList_ofList, List.splitOn_eq_singleton none]
  rfl

theorem pmiRequests_blank (single : newline ∉ line) (empty : blank line = true) : pmiRequests line = [] := by
  rw [pmiRequests_line single, of_decide_eq_true empty]
  rfl

theorem length_pmiRequests_line (single : newline ∉ line) (full : ¬blank line = true) : (pmiRequests line).length = 1 := by
  have some : trimWhitespace (fromUtf8Lossy line) ≠ "" := fun empty => full (decide_eq_true empty)
  rw [pmiRequests_line single]
  simp [some]

theorem newline_notMem_lastLine (left : List UInt8) : newline ∉ lastLine left := fun member => by
  have other := List.mem_rtakeWhile_imp member
  exact absurd rfl (of_decide_eq_true other)

theorem newline_notMem_firstLine (chunk : List UInt8) : newline ∉ firstLine chunk := fun member => by
  have other := List.mem_takeWhile_imp member
  exact absurd rfl (of_decide_eq_true other)

/-- What comes before the last line goes its own way. -/
theorem pmiRequests_lastLine (left : List UInt8) : ∃ above, ∀ more,
    pmiRequests (left ++ more) = above ++ pmiRequests (lastLine left ++ more) := by
  have whole : left.rdropWhile (· ≠ newline) ++ lastLine left = left := List.rdropWhile_append_rtakeWhile ..
  by_cases single : left.rdropWhile (· ≠ newline) = []
  · rw [single, List.nil_append] at whole
    exact ⟨[], fun more => by rw [whole, List.nil_append]⟩
  · have ends : (left.rdropWhile (· ≠ newline)).getLast single = newline := by
      simpa using List.rdropWhile_last_not _ left single
    have cut := List.dropLast_append_getLast single
    rw [ends] at cut
    refine ⟨pmiRequests (left.rdropWhile (· ≠ newline)).dropLast, fun more => ?_⟩
    rw [← pmiRequests_cut, List.append_cons, ← List.append_assoc, cut, whole]

theorem pmiRequests_firstLine (chunk : List UInt8) : ∃ below, ∀ prior,
    pmiRequests (prior ++ chunk) = pmiRequests (prior ++ firstLine chunk) ++ below := by
  have whole : firstLine chunk ++ chunk.dropWhile (· ≠ newline) = chunk := List.takeWhile_append_dropWhile
  cases later : chunk.dropWhile (· ≠ newline) with
  | nil =>
    rw [later, List.append_nil] at whole
    exact ⟨[], fun prior => by rw [whole, List.append_nil]⟩
  | cons byte below =>
    have ends : byte = newline := by
      have stops := List.head?_dropWhile_not (fun byte => decide (byte ≠ newline)) chunk
      rw [later] at stops
      simpa using stops
    subst ends
    refine ⟨pmiRequests below, fun prior => ?_⟩
    rw [← pmiRequests_cut, List.append_assoc, ← later, whole]

theorem lossy_blank_left (empty : blank line = true) (more : List UInt8) :
    Utf8.lossy (line ++ more) = Utf8.lossy line ++ Utf8.lossy more := by
  have spaces := trimWhitespace_eq_empty.mp (of_decide_eq_true empty)
  have whole : '\uFFFD' ∉ Utf8.lossy line := fun member => absurd (spaces _ member) (by decide)
  have encoded := Utf8.lossy_encode (Utf8.lossy line) more
  rw [Utf8.encode_lossy whole] at encoded
  exact encoded

theorem lossy_blank_right (empty : blank line = true) (prior : List UInt8) :
    Utf8.lossy (prior ++ line) = Utf8.lossy prior ++ Utf8.lossy line := by
  have spaces := trimWhitespace_eq_empty.mp (of_decide_eq_true empty)
  refine Utf8.lossy_append (fun byte head => ?_) prior
  cases line with
  | nil => cases head
  | cons first rest =>
    cases head
    cases found : Utf8.decode (byte :: rest) with
    | some char => exact Utf8.isUTF8FirstByte_of_decode found
    | none =>
      rw [Utf8.lossy_invalid (List.cons_ne_nil byte rest) found] at spaces
      exact absurd (spaces _ (List.mem_cons_self ..)) (by decide)

/-- Two pieces of a line are the requests of the line if and only if one of them is blank. -/
theorem pmiRequests_pieces {piece other : List UInt8} (single : newline ∉ piece) (single' : newline ∉ other)
    (one : blank piece = true ∨ blank other = true) :
    pmiRequests (piece ++ other) = pmiRequests piece ++ pmiRequests other := by
  have whole : newline ∉ piece ++ other := by simp [single, single']
  rw [pmiRequests_line whole]
  rcases one with empty | empty
  · have spaces := trimWhitespace_eq_empty.mp (of_decide_eq_true empty)
    have same : trimWhitespace (fromUtf8Lossy (piece ++ other)) = trimWhitespace (fromUtf8Lossy other) := by
      rw [fromUtf8Lossy, lossy_blank_left empty, trimWhitespace_append_left spaces, fromUtf8Lossy]
    rw [pmiRequests_blank single empty, List.nil_append, same, pmiRequests_line single']
  · have spaces := trimWhitespace_eq_empty.mp (of_decide_eq_true empty)
    have same : trimWhitespace (fromUtf8Lossy (piece ++ other)) = trimWhitespace (fromUtf8Lossy piece) := by
      rw [fromUtf8Lossy, lossy_blank_right empty, trimWhitespace_append_right spaces, fromUtf8Lossy]
    rw [pmiRequests_blank single' empty, List.append_nil, same, pmiRequests_line single]

theorem length_pmiRequests_pieces {piece other : List UInt8} (single : newline ∉ piece) (single' : newline ∉ other)
    (neither : ¬(blank piece = true ∨ blank other = true)) :
    (pmiRequests (piece ++ other)).length < (pmiRequests piece ++ pmiRequests other).length := by
  have whole : newline ∉ piece ++ other := by simp [single, single']
  have atMost : (pmiRequests (piece ++ other)).length ≤ 1 := by
    rw [pmiRequests_line whole]
    exact List.length_filter_le ..
  rw [not_or] at neither
  rw [List.length_append, length_pmiRequests_line single neither.1, length_pmiRequests_line single' neither.2]
  omega

end Lines

section Boundary

variable (left chunk : List UInt8)

theorem pmiRequests_boundary : ∃ above below,
    pmiRequests (left ++ chunk) = above ++ (pmiRequests (lastLine left ++ firstLine chunk) ++ below) ∧
      pmiRequests left = above ++ pmiRequests (lastLine left) ∧
      pmiRequests chunk = pmiRequests (firstLine chunk) ++ below := by
  obtain ⟨above, before⟩ := pmiRequests_lastLine left
  obtain ⟨below, after⟩ := pmiRequests_firstLine chunk
  have first := before []
  have second := after []
  rw [List.append_nil, List.append_nil] at first
  rw [List.nil_append, List.nil_append] at second
  exact ⟨above, below, by rw [before, after], first, second⟩

/-- A clean boundary keeps the requests; any other makes two of one. -/
theorem pmiRequests_clean (clean : blank (lastLine left) = true ∨ blank (firstLine chunk) = true) :
    pmiRequests (left ++ chunk) = pmiRequests left ++ pmiRequests chunk := by
  obtain ⟨above, below, together, first, second⟩ := pmiRequests_boundary left chunk
  rw [together, pmiRequests_pieces (newline_notMem_lastLine left) (newline_notMem_firstLine chunk) clean, first, second]
  simp only [List.append_assoc]

theorem length_pmiRequests_cut (cut : ¬(blank (lastLine left) = true ∨ blank (firstLine chunk) = true)) :
    (pmiRequests (left ++ chunk)).length < (pmiRequests left ++ pmiRequests chunk).length := by
  obtain ⟨above, below, together, first, second⟩ := pmiRequests_boundary left chunk
  have fewer := length_pmiRequests_pieces (newline_notMem_lastLine left) (newline_notMem_firstLine chunk) cut
  rw [together, first, second]
  simp only [List.length_append] at fewer ⊢
  omega

theorem length_pmiRequests_le : (pmiRequests (left ++ chunk)).length ≤ (pmiRequests left ++ pmiRequests chunk).length := by
  by_cases clean : blank (lastLine left) = true ∨ blank (firstLine chunk) = true
  · rw [pmiRequests_clean left chunk clean]
  · exact Nat.le_of_lt (length_pmiRequests_cut left chunk clean)

end Boundary

section Reads

variable (left : List UInt8) (reads : List (List UInt8))

theorem length_pmiRequests_reads :
    (pmiRequests (left ++ reads.flatten)).length ≤ (pmiRequests left ++ reads.flatMap pmiRequests).length := by
  induction reads generalizing left with
  | nil => simp
  | cons chunk reads ih =>
    have rest := ih (left ++ chunk)
    have here := length_pmiRequests_le left chunk
    rw [List.flatten_cons, List.flatMap_cons, ← List.append_assoc]
    simp only [List.length_append] at rest here ⊢
    omega

theorem pmiRequests_reads_iff :
    pmiRequests left ++ reads.flatMap pmiRequests = pmiRequests (left ++ reads.flatten) ↔ CleanReads left reads := by
  induction reads generalizing left with
  | nil => simp [CleanReads]
  | cons chunk reads ih =>
    rw [List.flatten_cons, List.flatMap_cons, ← List.append_assoc, ← List.append_assoc, CleanReads]
    by_cases clean : blank (lastLine left) = true ∨ blank (firstLine chunk) = true
    · rw [← pmiRequests_clean left chunk clean, ih, and_iff_right clean]
    · refine iff_of_false (fun same => ?_) fun both => clean both.1
      have here := length_pmiRequests_cut left chunk clean
      have rest := length_pmiRequests_reads (left ++ chunk) reads
      rw [← same] at rest
      simp only [List.length_append] at here rest
      omega

end Reads

structure PmiLine where
  text : String
  single : '\n' ∉ text.toList
  command : trimWhitespace text ≠ ""

namespace PmiLine

def bytes (line : PmiLine) : List UInt8 := Utf8.encode line.text ++ [newline]

/-- What the server has to take it for. -/
def request (line : PmiLine) : String := trimWhitespace line.text

theorem pmiRequests_bytes (lines : List PmiLine) : pmiRequests (lines.flatMap bytes) = lines.map request := by
  induction lines with
  | nil => decide
  | cons line lines ih =>
    have encoded := Utf8.lossy_encode line.text.toList []
    rw [List.append_nil, ← Utf8.encode, Utf8.lossy_nil, List.append_nil] at encoded
    rw [List.flatMap_cons, bytes, List.append_assoc, List.singleton_append, pmiRequests_cut, ih]
    have single : pmiRequests (Utf8.encode line.text) = [line.request] := by
      rw [pmiRequests, splitChar, fromUtf8Lossy, String.toList_ofList, encoded, List.splitOn_eq_singleton line.single]
      simp only [List.map_cons, List.map_nil, String.ofList_toList]
      exact List.filter_cons_of_pos (decide_eq_true line.command)
    rw [single, List.map_cons, List.singleton_append]

/-- The server takes exactly the requests out of the reads if and only if no read cuts a line. -/
theorem reads_iff {lines : List PmiLine} {reads : List (List UInt8)} (written : reads.flatten = lines.flatMap bytes) :
    reads.flatMap pmiRequests = lines.map request ↔ CleanReads [] reads := by
  have cut := pmiRequests_reads_iff [] reads
  rw [List.nil_append, written, pmiRequests_bytes] at cut
  exact cut

end PmiLine

end Veloce
