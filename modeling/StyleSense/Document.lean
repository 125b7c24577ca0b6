import StyleSense.Line.Scan

/-!
Contract: places in a document.

Nodes know the line on which they start; the column of a name on it is recovered by searching the
text of the line.

Owns:
- `Document`, a text with its lines;
- `Place` and `Span`, counted from zero, with byte columns;
- the search for names and closing parentheses on a line.

Does not own: columns in UTF-16 units (`StyleSense.Text.Units`).
-/

namespace StyleSense

open Text

/-- A place in a document: line and byte column, both counted from zero. -/
structure Place where
  line : Nat
  column : Nat
deriving DecidableEq, Repr

/-- A stretch of a document; `stop` is the place after its last character. -/
structure Span where
  start : Place
  stop : Place
deriving DecidableEq, Repr

/-- The stretch of `size` bytes from a column of a line on. -/
def Span.onLine (line column size : Nat) : Span :=
  ⟨⟨line, column⟩, ⟨line, column + size⟩⟩

/-- A text and its lines. -/
structure Document where
  text : List Char
  lines : List (List Char)
  lines_eq : lines = physicalLines text

namespace Document

/-- The document with a given text. -/
def ofText (text : List Char) : Document :=
  ⟨text, physicalLines text, rfl⟩

/-- A line of a document; past the end all lines are empty. -/
def line (document : Document) (index : Nat) : List Char :=
  document.lines[index]?.getD []

/-- Number of lines; there is always one. -/
def lineCount (document : Document) : Nat :=
  document.lines.length

end Document

/-- The index of a line whose number is counted from one; an unknown line counts as the first. -/
def lineIndex (number : Nat) : Nat :=
  number - 1

/-- A name without the braces of an interpolation and the blanks around it. -/
def unbracedName (name : List Char) : List Char :=
  trim (name.filter fun c => c != '\x7b' && c != '\x7d')

/-- Column of the first occurrence of `search` in a line, 0 when there is none. -/
def findColumn (search line : List Char) : Nat :=
  (find? search line).getD 0

/-- Column of the first occurrence of `search` at or after `hint`, of the first one at all when
there is none. -/
def findColumnFrom (search line : List Char) (hint : Nat) : Nat :=
  match (dropTo? hint line).bind (find? search) with
  | some offset => hint + offset
  | none => findColumn search line

/-- Column after the first closing parenthesis at or after the column `start`. -/
def closingColumn? (line : List Char) (start : Nat) : Option Nat :=
  ((dropTo? start line).bind (find? [')'])).map fun offset => start + offset + 1

end StyleSense
