import StyleSense.Distinct
import StyleSense.Node.Statements
import StyleSense.Symbol.Basic

/-!
Contract: the symbols of a document.

Owns: `Document.outline`, the declarations of a tree in source order, in which each kind and name is
listed once a line.

Does not own: the tree, which the caller gives.
-/

namespace StyleSense

/-- Symbols with the same key count as one. -/
def Symbol.key (symbol : Symbol) : SymbolKind × String × Nat × Nat :=
  (symbol.kind, symbol.name, symbol.range.start.line, symbol.range.stop.line)

/-- The symbols that some nodes declare. -/
def Document.symbols (document : Document) (nodes : List Node) : List Symbol :=
  keepFirst Symbol.key (nodes.filterMap (Node.symbol? document))

/-- The symbols of a tree. -/
def Document.outline (document : Document) (tree : Node) : List Symbol :=
  document.symbols tree.statements

end StyleSense
