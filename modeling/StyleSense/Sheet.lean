import StyleSense.Statement.Basic
import StyleSense.Swatch.Colors
import StyleSense.Swatch.Decoration
import StyleSense.Symbol.Outline

/-!
Contract: a stylesheet, that is a document with its tree.

Owns:
- `Sheet`, whose tree comes from its text or from elsewhere;
- what can be told about a sheet: symbols, colors and swatches. A text that does not parse has an
  empty tree.

Does not own: which of these a user wants to see (`StyleSense.Analyzer.Basic`).
-/

namespace StyleSense

/-- A document with its tree, or with the reason why it has none. -/
structure Sheet where
  document : Document
  parsed : Except ParseError Node

namespace Sheet

/-- The sheet of a text. -/
def ofText (text : List Char) : Sheet :=
  ⟨.ofText text, Node.parse text⟩

/-- A text together with a tree made elsewhere. -/
def ofTree (text : List Char) (tree : Node) : Sheet :=
  ⟨.ofText text, .ok tree⟩

/-- The tree of a sheet. -/
def tree (sheet : Sheet) : Node :=
  match sheet.parsed with
  | .ok tree => tree
  | .error _ => .emptyRoot

/-- The symbols of a sheet. -/
def symbols (sheet : Sheet) : List Symbol :=
  sheet.document.outline sheet.tree

/-- The colors of a sheet. -/
def colors (sheet : Sheet) : List ColorEntry :=
  sheet.document.colors sheet.tree

/-- The swatches of a sheet, at most `most` of them. -/
def decorations (sheet : Sheet) (most : Nat) : List Decoration :=
  sheet.document.decorations most sheet.tree

end Sheet

/-- The color that a text denotes when it is written as a value. -/
def Rgba.ofValue? (value : List Char) : Option (Rgba Float) :=
  (Sheet.ofText ("$color = ".toList ++ Text.trim value)).colors.head?.map ColorEntry.color

end StyleSense
