import StyleSense.Line.Basic
import StyleSense.Line.Comment
import StyleSense.Line.Pattern
import StyleSense.Line.Piece

/-!
Contract: reading a text as logical lines.

Owns:
- `physicalLines`, the lines of a text;
- `bracketDepth`, the brackets that a line leaves open;
- `scanLines`, the logical lines of a text without comments, trailing semicolons and the braces of
  rule bodies. A line with several statements becomes several lines, each indented by one more for
  every body around it. The bodies of `@css` are kept as they are.

Brackets are counted without a bound. Counters of 32 bits hold the same numbers while fewer than
`2 ^ 31` brackets stand on a logical line, and only such lines are meant here.

Does not own: the nesting of lines (`StyleSense.Line.Tree`).
-/

namespace StyleSense

open Text

/-- The lines of a text, without a carriage return at their end. -/
def physicalLines (text : List Char) : List (List Char) :=
  (text.splitOn '\n').map (dropSuffix '\r')

/-- Brackets opened less brackets closed, outside quotes; braces count when `countBraces`. -/
def bracketDepth (countBraces : Bool) (text : List Char) : Int :=
  go none text
where
  go (quote : Option Char) : List Char → Int
    | [] => 0
    | c :: cs =>
      match quote with
      | some q => go (if c = q then none else quote) cs
      | none =>
        if c == '"' || c == '\'' then go (some c) cs
        else if c == '(' || c == '[' || (countBraces && c == '\x7b') then go none cs + 1
        else if c == ')' || c == ']' || (countBraces && c == '\x7d') then go none cs - 1
        else go none cs

/-- An assignment whose value may run over several lines; that of a block is a body instead. -/
def isValueLine (text : List Char) : Bool :=
  match Pattern.assignment? text with
  | some (_, value) => !"@block".toList.isPrefixOf (trimStart value)
  | none => false

/-- The lines that the statements of a complete line make up. -/
def Line.split (line : Line) : List Line :=
  (splitStatements line.head.text).map fun piece =>
    { indent := line.indent + piece.depth
      head := ⟨line.head.line, line.head.offset + piece.offset, piece.text⟩
      tail := [] }

/-- A logical line that may go on, and the number of brackets open in it. -/
structure OpenLine where
  line : Line
  depth : Int
  countBraces : Bool
deriving DecidableEq, Repr

/-- The next physical line belongs to this one. -/
def OpenLine.goesOn (pending : OpenLine) : Bool :=
  let last := pending.line.tail.getLast?.getD pending.line.head
  0 < pending.depth || last.text.getLast? == some ','

/-- The state between two physical lines. -/
structure Scan where
  /-- The logical lines found, last first. -/
  found : List Line
  inComment : Bool
  pending : Option OpenLine
  /-- The indentation of the `@css` whose body is being read. -/
  rawIndent : Option Nat
deriving DecidableEq, Repr

namespace Scan

/-- The state before the first line. -/
def initial : Scan := ⟨[], false, none, none⟩

/-- The text of a statement without the semicolon at its end. -/
def dropSemicolon (text : List Char) : List Char :=
  trimEnd (dropSuffix ';' text)

/-- Continue the open line `pending` with a physical line whose text `trimmed` is indented by
`indent`. -/
def continueLine (s : Scan) (pending : OpenLine) (number indent : Nat) (trimmed : List Char) :
    Scan :=
  let longer : OpenLine :=
    if trimmed.isEmpty then pending
    else
      let text := dropSemicolon trimmed
      { pending with
        line := { pending.line with tail := pending.line.tail ++ [⟨number, indent, text⟩] }
        depth := pending.depth + bracketDepth pending.countBraces text }
  if longer.goesOn then { s with pending := some longer }
  else
    let leavesRaw := s.rawIndent.any (longer.line.indent ≤ ·)
    { s with
      found := longer.line :: s.found
      pending := none
      rawIndent := if leavesRaw then none else s.rawIndent }

/-- Start a logical line with a physical line whose text `trimmed` is indented by `indent`. -/
def startLine (s : Scan) (number indent : Nat) (trimmed : List Char) : Scan :=
  let unbraced := trimStart (trimmed.dropWhile (· == '\x7d'))
  let offset := indent + (width trimmed - width unbraced)
  let statement := dropSemicolon unbraced
  let isValue := isValueLine statement
  let text := if isValue then statement else trimEnd (dropSuffix '\x7b' statement)
  if text.isEmpty then s
  else
    let line : Line := ⟨indent, ⟨number, offset, text⟩, []⟩
    let opened : OpenLine := ⟨line, bracketDepth isValue text, isValue⟩
    if opened.goesOn then { s with pending := some opened }
    else
      let isRaw := s.rawIndent.any (· < indent)
      let rawIndent :=
        if isRaw then s.rawIndent
        else if "@css".toList.isPrefixOf text then some indent
        else none
      let lines := if isValue || isRaw then [line] else line.split
      { s with found := lines.reverse ++ s.found, rawIndent }

/-- Read the next physical line. -/
def step (s : Scan) (number : Nat) (physical : List Char) : Scan :=
  let (cleaned, inComment) := blankComments s.inComment physical
  let content := trimEnd cleaned
  let trimmed := trimStart content
  let indent := width content - width trimmed
  let s := { s with inComment }
  match s.pending with
  | some pending => s.continueLine pending number indent trimmed
  | none => s.startLine number indent trimmed

/-- Read physical lines, the first of which has the given number. -/
def run (s : Scan) (number : Nat) : List (List Char) → Scan
  | [] => s
  | physical :: rest => (s.step number physical).run (number + 1) rest

/-- The logical lines at the end of the text. A comma at the very end is harmless, an open bracket
is not. -/
def finish (s : Scan) : Except ParseError (List Line) :=
  match s.pending with
  | none => .ok s.found.reverse
  | some pending =>
    if 0 < pending.depth then .error ⟨.unclosedBracket, pending.line.pos⟩
    else .ok (pending.line :: s.found).reverse

end Scan

/-- The logical lines of a text. -/
def scanLines (text : List Char) : Except ParseError (List Line) :=
  (Scan.initial.run 1 (physicalLines text)).finish

end StyleSense
