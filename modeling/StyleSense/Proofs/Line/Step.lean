import StyleSense.Proofs.Line.Comment
import StyleSense.Proofs.Line.Pattern
import StyleSense.Proofs.Line.Piece

/-!
Contract: all that a physical line can do to the logical lines.

Owns:
- `Scan.opening`, the logical line that a text starts, and `Scan.statementsOf`, the lines that it makes
  up when it is complete;
- `OpenLine.extended`, an open line with the text of one more physical line;
- `Scan.startLine_cases` and `Scan.continueLine_cases`: nothing is added, a line is open or it is
  complete.

Does not own: which of these a given text does (`StyleSense.Proofs.Line.Scan`).
-/

namespace StyleSense

open Text

namespace Scan

theorem dropSemicolon_starts (text : List Char) : dropSemicolon text <+: text :=
  (trimEnd_starts _).trans (dropSuffix_starts _ _)

/-! ## The line that a text starts -/

/-- What is left of a text that starts a statement: neither closing braces in front of it nor a
semicolon at its end, nor an opening brace at the end unless a value starts with it. -/
def statementText (trimmed : List Char) : List Char :=
  let statement := dropSemicolon (trimStart (trimmed.dropWhile (· == '\x7d')))
  if isValueLine statement then statement else trimEnd (dropSuffix '\x7b' statement)

/-- The logical line that a text starts. -/
def opening (number indent : Nat) (trimmed : List Char) : OpenLine :=
  let unbraced := trimStart (trimmed.dropWhile (· == '\x7d'))
  let isValue := isValueLine (dropSemicolon unbraced)
  let text := statementText trimmed
  ⟨⟨indent, ⟨number, indent + (width trimmed - width unbraced), text⟩, []⟩,
    bracketDepth isValue text, isValue⟩

/-- The lines that a complete line makes up. -/
def statementsOf (s : Scan) (opened : OpenLine) : List Line :=
  if opened.countBraces || s.rawIndent.any (· < opened.line.indent) then [opened.line]
  else opened.line.split

theorem statementText_starts (trimmed : List Char) :
    statementText trimmed <+: trimStart (trimmed.dropWhile (· == '\x7d')) := by
  unfold statementText
  simp only
  split
  · exact dropSemicolon_starts _
  · exact ((trimEnd_starts _).trans (dropSuffix_starts _ _)).trans (dropSemicolon_starts _)

theorem mem_statementsOf
    {s : Scan}
    {opened : OpenLine}
    {line : Line}
    (isIn : line ∈ s.statementsOf opened) :
    line = opened.line ∨ line ∈ opened.line.split := by
  unfold statementsOf at isIn
  split at isIn
  · exact .inl (List.mem_singleton.mp isIn)
  · exact .inr isIn

/-- A line that a text starts has one fragment, and so has each of its statements. -/
theorem tail_of_mem_statementsOf
    {s : Scan}
    {number indent : Nat}
    {trimmed : List Char}
    {line : Line}
    (isIn : line ∈ s.statementsOf (opening number indent trimmed)) :
    line.tail = [] := by
  rcases mem_statementsOf isIn with rfl | isStatement
  · rfl
  · obtain ⟨piece, _, rfl⟩ := List.mem_map.mp isStatement
    rfl

theorem startLine_opening
    (s : Scan)
    (number indent : Nat)
    (trimmed : List Char) :
    s.startLine number indent trimmed =
      if (statementText trimmed).isEmpty then s
      else if (opening number indent trimmed).goesOn then
        { s with pending := some (opening number indent trimmed) }
      else { s with
        found := (s.statementsOf (opening number indent trimmed)).reverse ++ s.found
        rawIndent :=
          if s.rawIndent.any (· < indent) then s.rawIndent
          else if "@css".toList.isPrefixOf (statementText trimmed) then some indent
          else none } :=
  rfl

/-- A text of which nothing is left adds nothing; any other starts a line that is open, or complete
ones. -/
theorem startLine_cases
    (s : Scan)
    (number indent : Nat)
    (trimmed : List Char) :
    let opened := opening number indent trimmed
    (statementText trimmed = [] ∧ s.startLine number indent trimmed = s) ∨
      (statementText trimmed ≠ [] ∧ opened.goesOn = true ∧
        s.startLine number indent trimmed = { s with pending := some opened }) ∨
      statementText trimmed ≠ [] ∧ opened.goesOn = false ∧
        s.startLine number indent trimmed = { s with
          found := (s.statementsOf opened).reverse ++ s.found
          rawIndent :=
            if s.rawIndent.any (· < indent) then s.rawIndent
            else if "@css".toList.isPrefixOf (statementText trimmed) then some indent
            else none } := by
  intro opened
  rw [startLine_opening]
  by_cases nothing : statementText trimmed = []
  · exact .inl ⟨nothing, if_pos (List.isEmpty_iff.mpr nothing)⟩
  · rw [if_neg (by simpa using nothing)]
    cases opened.goesOn with
    | true => exact .inr (.inl ⟨nothing, rfl, rfl⟩)
    | false => exact .inr (.inr ⟨nothing, rfl, rfl⟩)

end Scan

/-! ## An open line -/

/-- The line with one more fragment. -/
def Line.extend (line : Line) (fragment : Fragment) : Line :=
  { line with tail := line.tail ++ [fragment] }

namespace OpenLine

/-- An open line with the text of one more physical line, if anything is left of it. -/
def extended (opened : OpenLine) (number indent : Nat) (trimmed : List Char) : OpenLine :=
  if trimmed.isEmpty then opened
  else
    { opened with
      line := opened.line.extend ⟨number, indent, Scan.dropSemicolon trimmed⟩
      depth := opened.depth + bracketDepth opened.countBraces (Scan.dropSemicolon trimmed) }

variable (opened : OpenLine) (number indent : Nat) (trimmed : List Char)

theorem extended_cases :
    (trimmed = [] ∧ opened.extended number indent trimmed = opened) ∨
      trimmed ≠ [] ∧ opened.extended number indent trimmed =
        ⟨opened.line.extend ⟨number, indent, Scan.dropSemicolon trimmed⟩,
          opened.depth + bracketDepth opened.countBraces (Scan.dropSemicolon trimmed),
          opened.countBraces⟩ := by
  cases trimmed with
  | nil => exact .inl ⟨rfl, rfl⟩
  | cons c rest => exact .inr ⟨List.cons_ne_nil _ _, rfl⟩

theorem extended_head : (opened.extended number indent trimmed).line.head = opened.line.head := by
  cases trimmed <;> rfl

theorem extended_indent :
    (opened.extended number indent trimmed).line.indent = opened.line.indent := by
  cases trimmed <;> rfl

end OpenLine

namespace Scan

variable (s : Scan) (opened : OpenLine) (number indent : Nat) (trimmed : List Char)

theorem continueLine_extended :
    s.continueLine opened number indent trimmed =
      if (opened.extended number indent trimmed).goesOn then
        { s with pending := some (opened.extended number indent trimmed) }
      else { s with
        found := (opened.extended number indent trimmed).line :: s.found
        pending := none
        rawIndent :=
          if s.rawIndent.any ((opened.extended number indent trimmed).line.indent ≤ ·) then none
          else s.rawIndent } :=
  rfl

/-- An open line stays open or is complete. -/
theorem continueLine_cases :
    let longer := opened.extended number indent trimmed
    (longer.goesOn = true ∧
        s.continueLine opened number indent trimmed = { s with pending := some longer }) ∨
      longer.goesOn = false ∧
        s.continueLine opened number indent trimmed = { s with
          found := longer.line :: s.found
          pending := none
          rawIndent := if s.rawIndent.any (longer.line.indent ≤ ·) then none else s.rawIndent } := by
  intro longer
  rw [continueLine_extended]
  cases longer.goesOn with
  | true => exact .inl ⟨rfl, rfl⟩
  | false => exact .inr ⟨rfl, rfl⟩

end Scan

end StyleSense
