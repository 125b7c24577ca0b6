import StyleSense.Distinct
import StyleSense.Node.Statements
import StyleSense.Swatch.Occurrence

/-!
Contract: the colors of a document with their ranges.

Owns:
- `Occurrence.range`, found by searching the line for the text of a color;
- `Document.colors`, in which a color that cannot be computed is left out and each place of the text
  is listed once.

Does not own: swatches beside the text (`StyleSense.Swatch.Decoration`).
-/

namespace StyleSense

/-- A color and the range in which it is written. -/
structure ColorEntry where
  range : Span
  color : Rgba Float
deriving DecidableEq, Repr

/-- The range of a color. It starts at the first match at or after the place that the tree gives; a
call ends after the next closing parenthesis, or with its line. -/
def Occurrence.range (occurrence : Occurrence) (document : Document) : Span :=
  let line := occurrence.place.line
  let text := document.line line
  let search := occurrence.text.toList
  let start := findColumnFrom search text occurrence.place.column
  let stop := match occurrence.form with
    | .function => (closingColumn? text start).getD (Text.width text)
    | .named | .literal => start + Text.width search
  ⟨⟨line, start⟩, ⟨line, stop⟩⟩

/-- The entry of a color, unless it cannot be computed. -/
def Occurrence.entry? (document : Document) (occurrence : Occurrence) : Option ColorEntry :=
  match occurrence.color with
  | .ok color => some ⟨occurrence.range document, color⟩
  | .error _ => none

/-- The entries of some colors, one for every place. -/
def Document.entries (document : Document) (occurrences : List Occurrence) : List ColorEntry :=
  keepFirst (fun entry => entry.range.start) (occurrences.filterMap (Occurrence.entry? document))

/-- The colors of a tree. -/
def Document.colors (document : Document) (tree : Node) : List ColorEntry :=
  document.entries (declaredColors tree.statements)

end StyleSense
