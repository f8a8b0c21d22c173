import Veloce.Worker.OutputPatterns

/-! What a glob means: a list of parts, each of which stands for a piece of the text. -/

namespace Veloce

open Collections

inductive ClassItem where
  | single (byte : UInt8)
  | range (low high : UInt8)

def ClassItem.Contains : ClassItem → UInt8 → Prop
  | .single own, byte => byte = own
  | .range low high, byte => low ≤ byte ∧ byte ≤ high

/-- The items of a class body from left to right: a dash between two bytes makes a range. -/
inductive ClassReads : (body : List UInt8) → (items : List ClassItem) → Prop where
  | done : ClassReads [] []
  | range {low high rest items} (later : ClassReads rest items) :
      ClassReads (low :: ascii '-' :: high :: rest) (.range low high :: items)
  | single {byte rest items} (alone : ∀ high tail, rest ≠ ascii '-' :: high :: tail) (later : ClassReads rest items) :
      ClassReads (byte :: rest) (.single byte :: items)

/-- A part of a glob. An unclosed class stands for nothing at all. -/
inductive GlobPart where
  | star
  | question
  | cls (items : List ClassItem)
  | unclosed
  | literal (byte : UInt8)

def GlobPart.StandsFor : GlobPart → List UInt8 → Prop
  | .star, piece => ascii '/' ∉ piece
  | .question, piece => ∃ byte, byte ≠ ascii '/' ∧ piece = [byte]
  | .cls items, piece => ∃ byte, byte ≠ ascii '/' ∧ (∃ item ∈ items, item.Contains byte) ∧ piece = [byte]
  | .unclosed, _ => False
  | .literal byte, piece => piece = [byte]

/-- The parts of a glob from left to right: a class goes up to the next closing bracket. -/
inductive GlobReads : (pattern : List UInt8) → (parts : List GlobPart) → Prop where
  | done : GlobReads [] []
  | star {rest parts} (later : GlobReads rest parts) : GlobReads (ascii '*' :: rest) (.star :: parts)
  | question {rest parts} (later : GlobReads rest parts) : GlobReads (ascii '?' :: rest) (.question :: parts)
  | cls {body rest items parts} (apart : ascii ']' ∉ body) (inside : ClassReads body items) (later : GlobReads rest parts) :
      GlobReads (ascii '[' :: (body ++ ascii ']' :: rest)) (.cls items :: parts)
  | unclosed {rest} (open' : ascii ']' ∉ rest) : GlobReads (ascii '[' :: rest) [.unclosed]
  | literal {byte rest parts} (star : byte ≠ ascii '*') (question : byte ≠ ascii '?') (bracket : byte ≠ ascii '[')
      (later : GlobReads rest parts) : GlobReads (byte :: rest) (.literal byte :: parts)

/-- The text can be cut so that each part stands for its piece. -/
def Splits (parts : List GlobPart) (text : List UInt8) : Prop :=
  ∃ pieces, List.Forall₂ GlobPart.StandsFor parts pieces ∧ pieces.flatten = text

section Classes

variable {body rest : List UInt8} {items items' : List ClassItem} {byte : UInt8}

theorem ClassReads.unique (reads : ClassReads body items) : ClassReads body items' → items = items' := by
  induction reads generalizing items' with
  | done => intro reads'; cases reads'; rfl
  | range _ ih =>
    intro reads'
    cases reads' with
    | range later' => rw [ih later']
    | single alone _ => exact absurd rfl (alone _ _)
  | single alone _ ih =>
    intro reads'
    cases reads' with
    | range later' => exact absurd rfl (alone _ _)
    | single _ later' => rw [ih later']

theorem exists_classReads (body : List UInt8) : ∃ items, ClassReads body items := by
  induction body using classMatches.induct with
  | case1 low high rest ih =>
    obtain ⟨items, reads⟩ := ih
    exact ⟨_, .range reads⟩
  | case2 first dash last rest other ih =>
    obtain ⟨items, reads⟩ := ih
    exact ⟨_, .single (fun high tail same => other (List.cons.inj same).1) reads⟩
  | case3 first rest short ih =>
    obtain ⟨items, reads⟩ := ih
    exact ⟨_, .single (fun high tail same => short _ _ _ same) reads⟩
  | case4 => exact ⟨[], .done⟩

theorem classMatches_single {first : UInt8} (alone : ∀ high tail, rest ≠ ascii '-' :: high :: tail) :
    classMatches byte (first :: rest) = (decide (first = byte) || classMatches byte rest) := by
  match rest with
  | [] => rfl
  | [second] => rfl
  | second :: high :: tail =>
    have other : second ≠ ascii '-' := fun same => alone high tail (by rw [same])
    rw [classMatches, if_neg other]

theorem classMatches_iff (reads : ClassReads body items) :
    classMatches byte body = true ↔ ∃ item ∈ items, item.Contains byte := by
  induction reads with
  | done => simp [classMatches]
  | range _ ih => simp [classMatches, ih, ClassItem.Contains]
  | single alone _ ih =>
    rw [classMatches_single alone, Bool.or_eq_true, ih]
    simp [ClassItem.Contains, eq_comm]

theorem matchCharClass_iff {text patternRest textRest : List UInt8} (apart : ascii ']' ∉ body) (reads : ClassReads body items) :
    matchCharClass (ascii '[' :: (body ++ ascii ']' :: rest)) text = some (patternRest, textRest) ↔
      patternRest = rest ∧ ∃ byte, byte ≠ ascii '/' ∧ (∃ item ∈ items, item.Contains byte) ∧ text = byte :: textRest := by
  have apart' : ascii ']' ∉ ascii '[' :: body := by
    rw [List.mem_cons, not_or]
    exact ⟨by decide, apart⟩
  cases text with
  | nil => simp [matchCharClass]
  | cons byte text =>
    rw [← List.cons_append]
    simp only [matchCharClass, span_append apart', List.length_cons, List.tail_cons, List.cons.injEq]
    by_cases slash : byte = ascii '/'
    · simp only [if_pos slash]
      constructor
      · intro matched
        cases matched
      · rintro ⟨-, byte', other, -, same, -⟩
        exact absurd (same ▸ slash) other
    · rw [if_neg slash]
      cases body with
      | nil =>
        cases reads
        simp
      | cons first body =>
        have long : ¬ ((first :: body).length + 1 ≤ 1) := by simp
        rw [if_neg long]
        by_cases found : ∃ item ∈ items, item.Contains byte
        · simp only [(classMatches_iff reads).mpr found, if_pos, Option.some.injEq, Prod.mk.injEq]
          constructor
          · rintro ⟨rfl, rfl⟩
            exact ⟨rfl, byte, slash, found, rfl, rfl⟩
          · rintro ⟨rfl, _, _, _, _, rfl⟩
            exact ⟨rfl, rfl⟩
        · have unmatched := Bool.eq_false_iff.mpr fun matched => found ((classMatches_iff reads).mp matched)
          simp only [unmatched, Bool.false_eq_true, if_false]
          constructor
          · intro matched
            cases matched
          · rintro ⟨-, byte', -, found', same, -⟩
            exact absurd (same ▸ found') found

theorem matchCharClass_unclosed {text : List UInt8} (unclosed : ascii ']' ∉ rest) :
    matchCharClass (ascii '[' :: rest) text = none := by
  have apart : ascii ']' ∉ ascii '[' :: rest := by
    rw [List.mem_cons, not_or]
    exact ⟨by decide, unclosed⟩
  cases text with
  | nil => rfl
  | cons byte text =>
    simp only [matchCharClass, span_of_not_mem apart]
    exact ite_self none

end Classes

section Globs

variable {pattern rest text : List UInt8} {part : GlobPart} {parts parts' : List GlobPart}

theorem splits_cons : Splits (part :: parts) text ↔
    ∃ piece later, part.StandsFor piece ∧ Splits parts later ∧ text = piece ++ later := by
  constructor
  · rintro ⟨pieces, stand, rfl⟩
    cases stand with
    | cons first others => exact ⟨_, _, first, ⟨_, others, rfl⟩, rfl⟩
  · rintro ⟨piece, _, first, ⟨pieces, others, rfl⟩, rfl⟩
    exact ⟨piece :: pieces, .cons first others, rfl⟩

theorem splits_nil : Splits [] text ↔ text = [] := by
  constructor
  · rintro ⟨pieces, stand, rfl⟩
    cases stand
    rfl
  · rintro rfl
    exact ⟨[], .nil, rfl⟩

theorem globMatches_nil : globMatches [] text = true ↔ text = [] := by
  rw [globMatches.eq_def]
  exact List.isEmpty_iff

theorem globMatches_star : globMatches (ascii '*' :: rest) text = true ↔
    ∃ run later, ascii '/' ∉ run ∧ globMatches rest later = true ∧ text = run ++ later := by
  induction text with
  | nil =>
    rw [globMatches.eq_def]
    simp
  | cons byte text ih =>
    rw [globMatches.eq_def]
    simp only [if_pos, Bool.or_eq_true, Bool.and_eq_true, decide_eq_true_eq, ih]
    constructor
    · rintro (skipped | ⟨other, run, later, free, matched, rfl⟩)
      · exact ⟨[], byte :: text, List.not_mem_nil, skipped, rfl⟩
      · refine ⟨byte :: run, later, fun slash => ?_, matched, rfl⟩
        rcases List.mem_cons.mp slash with same | inside
        · exact other same.symm
        · exact free inside
    · rintro ⟨run, later, free, matched, same⟩
      cases run with
      | nil =>
        rw [List.nil_append] at same
        exact .inl (same ▸ matched)
      | cons first run =>
        obtain ⟨rfl, rfl⟩ := List.cons.inj same
        rw [List.mem_cons, not_or] at free
        exact .inr ⟨fun slash => free.1 slash.symm, run, later, free.2, matched, rfl⟩

theorem globMatches_question : globMatches (ascii '?' :: rest) text = true ↔
    ∃ byte later, byte ≠ ascii '/' ∧ globMatches rest later = true ∧ text = byte :: later := by
  have other : ascii '?' ≠ ascii '*' := by decide
  rw [globMatches.eq_def]
  cases text with
  | nil => simp [other]
  | cons byte text => simp [other]

theorem globMatches_class : globMatches (ascii '[' :: rest) text = true ↔
    ∃ patternRest textRest, matchCharClass (ascii '[' :: rest) text = some (patternRest, textRest) ∧
      globMatches patternRest textRest = true := by
  have star : ascii '[' ≠ ascii '*' := by decide
  have question : ascii '[' ≠ ascii '?' := by decide
  rw [globMatches.eq_def]
  simp only [if_neg star, if_neg question, if_pos]
  split
  · rename_i unmatched
    simp [unmatched]
  · rename_i patternRest textRest matched
    simp [matched]

theorem globMatches_literal {byte : UInt8} (star : byte ≠ ascii '*') (question : byte ≠ ascii '?')
    (bracket : byte ≠ ascii '[') : globMatches (byte :: rest) text = true ↔
      ∃ later, globMatches rest later = true ∧ text = byte :: later := by
  rw [globMatches.eq_def]
  simp only [if_neg star, if_neg question, if_neg bracket]
  cases text with
  | nil => simp
  | cons first text =>
    rw [Bool.and_eq_true, decide_eq_true_eq]
    constructor
    · rintro ⟨rfl, matched⟩
      exact ⟨text, matched, rfl⟩
    · rintro ⟨later, matched, same⟩
      obtain ⟨rfl, rfl⟩ := List.cons.inj same
      exact ⟨rfl, matched⟩

theorem globMatches_iff_splits (reads : GlobReads pattern parts) : globMatches pattern text = true ↔ Splits parts text := by
  induction reads generalizing text with
  | done => rw [globMatches_nil, splits_nil]
  | star _ ih =>
    rw [globMatches_star, splits_cons]
    simp only [ih, GlobPart.StandsFor]
  | question _ ih =>
    rw [globMatches_question, splits_cons]
    constructor
    · rintro ⟨byte, later, other, matched, rfl⟩
      exact ⟨[byte], later, ⟨byte, other, rfl⟩, ih.mp matched, rfl⟩
    · rintro ⟨_, later, ⟨byte, other, rfl⟩, split, rfl⟩
      exact ⟨byte, later, other, ih.mpr split, rfl⟩
  | cls apart inside _ ih =>
    rw [globMatches_class, splits_cons]
    simp only [matchCharClass_iff apart inside]
    constructor
    · rintro ⟨_, later, ⟨rfl, byte, other, contained, rfl⟩, matched⟩
      exact ⟨[byte], later, ⟨byte, other, contained, rfl⟩, ih.mp matched, rfl⟩
    · rintro ⟨_, later, ⟨byte, other, contained, rfl⟩, split, rfl⟩
      exact ⟨_, later, ⟨rfl, byte, other, contained, rfl⟩, ih.mpr split⟩
  | unclosed open' =>
    rw [globMatches_class, splits_cons]
    simp [matchCharClass_unclosed open', GlobPart.StandsFor]
  | literal star question bracket _ ih =>
    rw [globMatches_literal star question bracket, splits_cons]
    constructor
    · rintro ⟨later, matched, rfl⟩
      exact ⟨_, later, rfl, ih.mp matched, rfl⟩
    · rintro ⟨_, later, rfl, split, rfl⟩
      exact ⟨later, ih.mpr split, rfl⟩

/-- Every pattern can be read. -/
theorem exists_globReads : ∀ (length : Nat) (pattern : List UInt8), pattern.length ≤ length →
    ∃ parts, GlobReads pattern parts := by
  intro length
  induction length with
  | zero =>
    intro pattern short
    cases List.eq_nil_of_length_eq_zero (Nat.le_zero.mp short)
    exact ⟨[], .done⟩
  | succ length ih =>
    intro pattern short
    cases pattern with
    | nil => exact ⟨[], .done⟩
    | cons byte rest =>
      have short' : rest.length ≤ length := Nat.le_of_succ_le_succ short
      by_cases star : byte = ascii '*'
      · obtain ⟨parts, reads⟩ := ih rest short'
        exact ⟨_, by rw [star]; exact .star reads⟩
      by_cases question : byte = ascii '?'
      · obtain ⟨parts, reads⟩ := ih rest short'
        exact ⟨_, by rw [question]; exact .question reads⟩
      by_cases bracket : byte = ascii '['
      · by_cases closed : ascii ']' ∈ rest
        · obtain ⟨body, after, rfl, apart⟩ := List.eq_append_cons_of_mem closed
          obtain ⟨items, inside⟩ := exists_classReads body
          rw [List.length_append, List.length_cons] at short'
          obtain ⟨parts, reads⟩ := ih after (by omega)
          exact ⟨_, by rw [bracket]; exact .cls apart inside reads⟩
        · exact ⟨_, by rw [bracket]; exact .unclosed closed⟩
      · obtain ⟨parts, reads⟩ := ih rest short'
        exact ⟨_, .literal star question bracket reads⟩

/-- The brackets of two readings close at the same place. -/
theorem closing_unique {body body' rest' : List UInt8} (apart : ascii ']' ∉ body) (apart' : ascii ']' ∉ body')
    (same : body ++ ascii ']' :: rest = body' ++ ascii ']' :: rest') : body = body' ∧ rest = rest' := by
  have spans := span_append apart rest
  rw [same, span_append apart' rest', Prod.mk.injEq] at spans
  exact ⟨spans.1.symm, (List.cons.inj spans.2).2.symm⟩

theorem GlobReads.unique (reads : GlobReads pattern parts) : GlobReads pattern parts' → parts = parts' := by
  induction reads generalizing parts' with
  | done => intro reads'; cases reads'; rfl
  | @star rest parts _ ih =>
    intro reads'
    generalize same : ascii '*' :: rest = pattern' at reads'
    cases reads' with
    | done => cases same
    | star later => rw [ih ((List.cons.inj same).2 ▸ later)]
    | question _ => exact absurd (List.cons.inj same).1 (by decide)
    | cls _ _ _ => exact absurd (List.cons.inj same).1 (by decide)
    | unclosed _ => exact absurd (List.cons.inj same).1 (by decide)
    | literal star _ _ _ => exact absurd (List.cons.inj same).1.symm star
  | @question rest parts _ ih =>
    intro reads'
    generalize same : ascii '?' :: rest = pattern' at reads'
    cases reads' with
    | done => cases same
    | star _ => exact absurd (List.cons.inj same).1 (by decide)
    | question later => rw [ih ((List.cons.inj same).2 ▸ later)]
    | cls _ _ _ => exact absurd (List.cons.inj same).1 (by decide)
    | unclosed _ => exact absurd (List.cons.inj same).1 (by decide)
    | literal _ question _ _ => exact absurd (List.cons.inj same).1.symm question
  | @cls body rest items parts apart inside _ ih =>
    intro reads'
    generalize same : ascii '[' :: (body ++ ascii ']' :: rest) = pattern' at reads'
    cases reads' with
    | done => cases same
    | star _ => exact absurd (List.cons.inj same).1 (by decide)
    | question _ => exact absurd (List.cons.inj same).1 (by decide)
    | cls apart' inside' later =>
      obtain ⟨rfl, rfl⟩ := closing_unique apart apart' (List.cons.inj same).2
      rw [inside.unique inside', ih later]
    | unclosed open' =>
      rw [← (List.cons.inj same).2] at open'
      simp at open'
    | literal _ _ bracket _ => exact absurd (List.cons.inj same).1.symm bracket
  | @unclosed rest open' =>
    intro reads'
    generalize same : ascii '[' :: rest = pattern' at reads'
    cases reads' with
    | done => cases same
    | star _ => exact absurd (List.cons.inj same).1 (by decide)
    | question _ => exact absurd (List.cons.inj same).1 (by decide)
    | cls _ _ _ =>
      rw [(List.cons.inj same).2] at open'
      simp at open'
    | unclosed _ => rfl
    | literal _ _ bracket _ => exact absurd (List.cons.inj same).1.symm bracket
  | @literal byte rest parts star question bracket _ ih =>
    intro reads'
    generalize same : byte :: rest = pattern' at reads'
    cases reads' with
    | done => cases same
    | star _ => exact absurd (List.cons.inj same).1 star
    | question _ => exact absurd (List.cons.inj same).1 question
    | cls _ _ _ => exact absurd (List.cons.inj same).1 bracket
    | unclosed _ => exact absurd (List.cons.inj same).1 bracket
    | literal _ _ _ later =>
      obtain ⟨rfl, rfl⟩ := List.cons.inj same
      rw [ih later]

/-- Every pattern has one reading, and `glob_matches` accepts a text if and only if it can
be cut into pieces for which the parts stand. -/
theorem globMatches_meaning (pattern text : List UInt8) : ∃ parts, GlobReads pattern parts ∧
    (∀ parts', GlobReads pattern parts' → parts' = parts) ∧ (globMatches pattern text = true ↔ Splits parts text) := by
  obtain ⟨parts, reads⟩ := exists_globReads pattern.length pattern le_rfl
  exact ⟨parts, reads, fun parts' reads' => reads'.unique reads, globMatches_iff_splits reads⟩

end Globs

end Veloce
