import Mathlib.Data.List.Infix
import StyleSense.Proofs.Line.Step
import StyleSense.Statement.Basic

/-!
Contract: comments are invisible.

Owns:
- `blankFrom_again`: blanking out the comments of a line leaves none, and brings no two signs
  together that were apart;
- `withoutComments`, a text with blanks for the characters of its comments;
- `Node.parse_withoutComments`: such a text has lines of the same widths, no comments, and the
  statements of the text itself at the same places, or its fault.

Does not own: what blanking keeps of one line (`StyleSense.Proofs.Line.Comment`).
-/

namespace StyleSense

open Text

/-! ## One line -/

namespace Blanked

theorem mem
    {raw cleaned : List Char}
    (blanked : Blanked raw cleaned)
    {c : Char}
    (isIn : c ∈ cleaned) :
    c ∈ raw ∨ c = ' ' := by
  induction blanked with
  | nil => exact .inl isIn
  | keep d rest inductionHypothesis =>
    rcases List.mem_cons.mp isIn with rfl | isLater
    · exact .inl (List.mem_cons_self ..)
    · exact (inductionHypothesis isLater).imp_left (List.mem_cons_of_mem d)
  | blank d rest inductionHypothesis =>
    rcases List.mem_append.mp isIn with isBlanks | isLater
    · exact .inr (List.eq_of_mem_replicate isBlanks)
    · exact (inductionHypothesis isLater).imp_left (List.mem_cons_of_mem d)

theorem head?_eq
    {raw cleaned : List Char}
    (blanked : Blanked raw cleaned)
    {c : Char}
    (isFirst : cleaned.head? = some c)
    (solid : isBlank c = false) :
    raw.head? = some c := by
  obtain ⟨rest, rfl⟩ := List.head?_eq_some_iff.mp isFirst
  have isStart : [c] <+: c :: rest := ⟨rest, rfl⟩
  obtain ⟨after, rfl⟩ := blanked.prefix_of_solid isStart (by simpa using solid)
  rfl

theorem eq_nil
    {raw : List Char}
    (blanked : Blanked raw []) :
    raw = [] := by
  cases raw with
  | nil => rfl
  | cons c rest =>
    have positive := c.utf8Size_pos
    have same := blanked.width_eq
    rw [width_cons, width_nil] at same
    omega

theorem getLast?_eq
    {raw cleaned : List Char}
    (blanked : Blanked raw cleaned)
    {c : Char}
    (isLast : cleaned.getLast? = some c)
    (notBlank : c ≠ ' ') :
    raw.getLast? = some c := by
  induction blanked with
  | nil => exact isLast
  | @keep raw cleaned d rest inductionHypothesis =>
    by_cases isEnd : cleaned = []
    · subst isEnd
      rw [rest.eq_nil]
      exact isLast
    · rw [← List.singleton_append, List.getLast?_append_of_ne_nil _ isEnd] at isLast
      have later := inductionHypothesis isLast
      rw [← List.singleton_append, List.getLast?_append, later]
      rfl
  | @blank raw cleaned d rest inductionHypothesis =>
    by_cases isEnd : cleaned = []
    · subst isEnd
      rw [List.append_nil] at isLast
      exact absurd (List.eq_of_mem_replicate (List.mem_of_getLast? isLast)) notBlank
    · rw [List.getLast?_append_of_ne_nil _ isEnd] at isLast
      have later := inductionHypothesis isLast
      rw [← List.singleton_append, List.getLast?_append, later]
      rfl

end Blanked

theorem blankFrom_blanks
    (previous : Option Char)
    {size : Nat}
    (positive : 0 < size)
    (cs : List Char) :
    blankFrom .code previous (blanks size ++ cs) =
      (blanks size ++ (blankFrom .code (some ' ') cs).1, (blankFrom .code (some ' ') cs).2) := by
  induction size generalizing previous with
  | zero => exact absurd positive (Nat.lt_irrefl 0)
  | succ size inductionHypothesis =>
    rw [blanks, List.replicate_succ, List.cons_append, ← blanks, blankFrom_code_cons,
      if_neg (by simp), if_neg (by simp)]
    cases size with
    | zero => rfl
    | succ size =>
      rw [if_neg (by decide)]
      simp only [inductionHypothesis (some ' ') (Nat.succ_pos size), List.cons_append]

/-- Blanks in front of a line without comments put none there. -/
theorem blankFrom_blanks_again
    {size : Nat}
    (positive : 0 < size)
    {text : List Char}
    (again : blankFrom .code (some ' ') text = (text, false))
    (previous : Option Char) :
    blankFrom .code previous (blanks size ++ text) = (blanks size ++ text, false) := by
  rw [blankFrom_blanks previous positive, again]

/-- What surrounds a character when the comments before it are blanked out. -/
def Surrounding.uncommented : Surrounding → Surrounding
  | .comment => .code
  | .quoted quote => .quoted quote
  | .code => .code

/-- Blanking out the comments of a line leaves none. Of the character before the line it only
matters whether it is a colon. -/
theorem blankFrom_again
    (surrounding : Surrounding)
    (previous : Option Char)
    (cs : List Char)
    {previous' : Option Char}
    (sameColon : surrounding = .code → (previous' = some ':' ↔ previous = some ':')) :
    blankFrom surrounding.uncommented previous' (blankFrom surrounding previous cs).1 =
      ((blankFrom surrounding previous cs).1, false) := by
  fun_induction blankFrom surrounding previous cs generalizing previous' with
  | case1 _ surrounding =>
    cases surrounding with
    | code => rfl
    | quoted quote => rfl
    | comment => rfl
  | case2 _ rest text isOpen read inductionHypothesis =>
    -- The comment ends: the two blanks for its end stand before code.
    rw [read] at inductionHypothesis
    have later := @inductionHypothesis (some ' ') fun _ => by decide
    exact blankFrom_blanks_again Nat.two_pos later previous'
  | case3 _ c rest _ text isOpen read inductionHypothesis =>
    rw [read] at inductionHypothesis
    have later := @inductionHypothesis (some ' ') fun isCode => by cases isCode
    exact blankFrom_blanks_again c.utf8Size_pos later previous'
  | case4 _ quote c rest text isOpen read inductionHypothesis =>
    rw [read] at inductionHypothesis
    have later := @inductionHypothesis (some c) fun _ => Iff.rfl
    change blankFrom (.quoted quote) _ (c :: text) = (c :: text, false)
    rw [blankFrom_quoted_cons]
    have same : (if c = quote then Surrounding.code else .quoted quote).uncommented =
        if c = quote then .code else .quoted quote := by
      split <;> rfl
    rw [same] at later
    simp only [later]
  | case5 _ rest text isOpen read inductionHypothesis =>
    rw [read] at inductionHypothesis
    have later := @inductionHypothesis (some ' ') fun isCode => by cases isCode
    exact blankFrom_blanks_again Nat.two_pos later previous'
  | case6 previous c rest notOpen isLineComment =>
    have whole := blankFrom_blanks previous' (width_cons c rest ▸ Nat.add_pos_left c.utf8Size_pos _) []
    rw [List.append_nil] at whole
    change blankFrom .code _ _ = _
    rw [whole]
    simp [blankFrom]
  | case7 previous c rest notOpen notLineComment inside text isOpen read =>
    rename_i inductionHypothesis
    rw [read] at inductionHypothesis
    have later := @inductionHypothesis (some c) fun _ => Iff.rfl
    have blanked : Blanked rest text := by
      have := blankFrom_blanked inside (some c) rest
      rwa [read] at this
    have stays : inside.uncommented = inside := by
      simp only [inside]
      split <;> rfl
    have sameInside : (if IsQuote c then Surrounding.quoted c else .code) = inside := by
      simp [inside]
    rw [stays] at later
    show blankFrom .code previous' (c :: text) = (c :: text, false)
    -- A sign that stands after `c` now stood after it before.
    rw [blankFrom_code_cons, if_neg, if_neg]
    · simp only [sameInside, later]
    · rintro ⟨rfl, slash, notColon⟩
      have wasSlash := blanked.head?_eq slash (by decide)
      have wasColon := mt (sameColon rfl).mpr notColon
      apply notLineComment
      simp [wasSlash, wasColon]
    · rintro ⟨rfl, star⟩
      have wasStar := blanked.head?_eq star (by decide)
      obtain ⟨after, rfl⟩ := List.head?_eq_some_iff.mp wasStar
      exact notOpen after rfl rfl

/-- A line without its comments has no comments. -/
theorem blankComments_again
    (inComment : Bool)
    (line : List Char) :
    blankComments false (blankComments inComment line).1 = ((blankComments inComment line).1, false) := by
  cases inComment with
  | false => exact blankFrom_again .code none line fun _ => Iff.rfl
  | true => exact blankFrom_again .comment none line fun isCode => by cases isCode

/-! ## A text -/

/-- The lines of a text with blanks for the characters of their comments, and the carriage returns
at their ends. -/
def blankLines (inComment : Bool) : List (List Char) → List (List Char)
  | [] => []
  | line :: rest =>
    let body := dropSuffix '\r' line
    let (text, isOpen) := blankComments inComment body
    (text ++ line.drop body.length) :: blankLines isOpen rest

/-- A text with as many blanks for every character of a comment as it has bytes. -/
def withoutComments (text : List Char) : List Char :=
  ['\n'].intercalate (blankLines false (text.splitOn '\n'))

/-- A carriage return at the end of a line is still there, and no other is. -/
theorem dropSuffix_blankLine
    (inComment : Bool)
    (line : List Char) :
    dropSuffix '\r' ((blankComments inComment (dropSuffix '\r' line)).1 ++
        line.drop (dropSuffix '\r' line).length) =
      (blankComments inComment (dropSuffix '\r' line)).1 := by
  by_cases returns : line.getLast? = some '\r'
  · obtain ⟨body, rfl⟩ := List.getLast?_eq_some_iff.mp returns
    rw [dropSuffix_append_singleton, List.drop_left]
    exact dropSuffix_append_singleton '\r' _
  · rw [dropSuffix_of_getLast?_ne returns, List.drop_length, List.append_nil]
    apply dropSuffix_of_getLast?_ne
    intro isLast
    exact returns ((blankComments_blanked inComment line).getLast?_eq isLast (by decide))

theorem width_blankLine
    (inComment : Bool)
    (line : List Char) :
    width ((blankComments inComment (dropSuffix '\r' line)).1 ++
        line.drop (dropSuffix '\r' line).length) = width line := by
  have sameWidth := (blankComments_blanked inComment (dropSuffix '\r' line)).width_eq
  rw [width_append, sameWidth, ← width_append, ← List.prefix_append_drop (dropSuffix_starts ..)]

theorem blankLines_width
    (inComment : Bool)
    (lines : List (List Char)) :
    List.Forall₂ (fun line blanked => width blanked = width line) lines
      (blankLines inComment lines) := by
  induction lines generalizing inComment with
  | nil => exact .nil
  | cons line rest inductionHypothesis =>
    exact .cons (width_blankLine inComment line) (inductionHypothesis _)

theorem blankLines_newline
    {lines : List (List Char)}
    (noBreaks : ∀ line ∈ lines, '\n' ∉ line)
    (inComment : Bool) :
    ∀ line ∈ blankLines inComment lines, '\n' ∉ line := by
  induction lines generalizing inComment with
  | nil => simp [blankLines]
  | cons line rest inductionHypothesis =>
    obtain ⟨notHere, notLater⟩ := List.forall_mem_cons.mp noBreaks
    refine List.forall_mem_cons.mpr ⟨?_, inductionHypothesis notLater _⟩
    intro isIn
    rcases List.mem_append.mp isIn with isBody | isTail
    · rcases (blankComments_blanked _ _).mem isBody with wasIn | isBlank
      · exact notHere ((dropSuffix_starts '\r' line).subset wasIn)
      · exact absurd isBlank (by decide)
    · exact notHere (List.mem_of_mem_drop isTail)

theorem notMem_of_mem_splitOn
    {separator : Char}
    {text line : List Char}
    (isLine : line ∈ text.splitOn separator) :
    separator ∉ line := by
  induction text generalizing line with
  | nil =>
    rw [List.splitOn_nil, List.mem_singleton] at isLine
    simp [isLine]
  | cons c rest inductionHypothesis =>
    rw [List.splitOn_cons_eq_if_modifyHead] at isLine
    by_cases breaks : c = separator
    · rw [if_pos (beq_iff_eq.mpr breaks)] at isLine
      rcases List.mem_cons.mp isLine with rfl | isLater
      · exact List.not_mem_nil
      · exact inductionHypothesis isLater
    · rw [if_neg (by simpa using breaks)] at isLine
      obtain ⟨first, others, split⟩ := List.exists_cons_of_ne_nil (List.splitOn_ne_nil separator rest)
      rw [split] at isLine inductionHypothesis
      rcases List.mem_cons.mp isLine with rfl | isLater
      · have notFirst := inductionHypothesis (List.mem_cons_self ..)
        simp [Ne.symm breaks, notFirst]
      · exact inductionHypothesis (List.mem_cons_of_mem _ isLater)

theorem blankLines_ne_nil
    {lines : List (List Char)}
    (nonempty : lines ≠ [])
    (inComment : Bool) :
    blankLines inComment lines ≠ [] := by
  cases lines with
  | nil => exact absurd rfl nonempty
  | cons line rest => exact List.cons_ne_nil _ _

theorem splitOn_withoutComments (text : List Char) :
    (withoutComments text).splitOn '\n' = blankLines false (text.splitOn '\n') := by
  apply List.splitOn_intercalate
  · exact blankLines_newline (fun line isLine => notMem_of_mem_splitOn isLine) false
  · exact blankLines_ne_nil (List.splitOn_ne_nil _ _) false

/-! ## Reading -/

namespace Scan

/-- The state with another flag for comments. -/
def flagged (s : Scan) (inComment : Bool) : Scan :=
  { s with inComment }

theorem continueLine_flagged
    (s : Scan)
    (inComment : Bool)
    (opened : OpenLine)
    (number indent : Nat)
    (trimmed : List Char) :
    (s.flagged inComment).continueLine opened number indent trimmed =
      (s.continueLine opened number indent trimmed).flagged inComment := by
  rw [continueLine_extended, continueLine_extended]
  split <;> rfl

theorem startLine_flagged
    (s : Scan)
    (inComment : Bool)
    (number indent : Nat)
    (trimmed : List Char) :
    (s.flagged inComment).startLine number indent trimmed =
      (s.startLine number indent trimmed).flagged inComment := by
  rw [startLine_opening, startLine_opening]
  split
  · rfl
  · split <;> rfl

/-- A line is read as if the comment before it had ended, with its own comments blanked out; whether
a comment goes on after it is all that the flag adds. -/
theorem step_flagged
    (s : Scan)
    (number : Nat)
    (physical : List Char) :
    s.step number physical =
      ((s.flagged false).step number (blankComments s.inComment physical).1).flagged
        (blankComments s.inComment physical).2 := by
  have again := blankComments_again s.inComment physical
  obtain ⟨found, inComment, pending, rawIndent⟩ := s
  cases pending with
  | none =>
    simp only [step, flagged, again]
    exact startLine_flagged ⟨found, false, none, rawIndent⟩ _ _ _ _
  | some opened =>
    simp only [step, flagged, again]
    exact continueLine_flagged ⟨found, false, some opened, rawIndent⟩ _ _ _ _ _

theorem step_inComment
    (s : Scan)
    (number : Nat)
    (physical : List Char) :
    (s.step number physical).inComment = (blankComments s.inComment physical).2 := by
  rw [step_flagged]
  rfl

theorem step_outside
    (s : Scan)
    (number : Nat)
    (physical : List Char) :
    (s.flagged false).step number (blankComments s.inComment physical).1 =
      (s.step number physical).flagged false := by
  have outside := step_inComment (s.flagged false) number (blankComments s.inComment physical).1
  rw [show (s.flagged false).inComment = false from rfl, blankComments_again] at outside
  rw [step_flagged s]
  generalize (s.flagged false).step number (blankComments s.inComment physical).1 = next at outside ⊢
  obtain ⟨found, inComment, pending, rawIndent⟩ := next
  subst outside
  rfl

theorem run_outside
    (s : Scan)
    (number : Nat)
    (lines : List (List Char)) :
    (s.flagged false).run number ((blankLines s.inComment lines).map (dropSuffix '\r')) =
      (s.run number (lines.map (dropSuffix '\r'))).flagged false := by
  induction lines generalizing s number with
  | nil => rfl
  | cons line rest inductionHypothesis =>
    simp only [blankLines, List.map_cons, run, dropSuffix_blankLine]
    rw [step_outside, ← step_inComment s number, inductionHypothesis]

end Scan

theorem blankLines_again
    (inComment : Bool)
    (lines : List (List Char)) :
    ∀ line ∈ (blankLines inComment lines).map (dropSuffix '\r'),
      blankComments false line = (line, false) := by
  induction lines generalizing inComment with
  | nil => simp [blankLines]
  | cons line rest inductionHypothesis =>
    simp only [blankLines, List.map_cons, dropSuffix_blankLine]
    exact List.forall_mem_cons.mpr ⟨blankComments_again inComment _, inductionHypothesis _⟩

theorem scanLines_withoutComments (text : List Char) :
    scanLines (withoutComments text) = scanLines text := by
  rw [scanLines, physicalLines, splitOn_withoutComments]
  show ((Scan.initial.flagged false).run 1
    ((blankLines Scan.initial.inComment (text.splitOn '\n')).map (dropSuffix '\r'))).finish = _
  rw [Scan.run_outside]
  rfl

/-- Comments are invisible. -/
theorem Node.parse_withoutComments (text : List Char) :
    List.Forall₂ (fun line blanked => width blanked = width line)
      (text.splitOn '\n') ((withoutComments text).splitOn '\n') ∧
    (∀ line ∈ physicalLines (withoutComments text), blankComments false line = (line, false)) ∧
    Node.parse (withoutComments text) = Node.parse text := by
  refine ⟨?_, ?_, ?_⟩
  · rw [splitOn_withoutComments]
    exact blankLines_width false _
  · rw [physicalLines, splitOn_withoutComments]
    exact blankLines_again false _
  · rw [parse, parse, scanLines_withoutComments]

end StyleSense
