import StyleSense.Document
import StyleSense.Node.Basic

/-!
Contract: what a statement declares.

Owns:
- `SymbolKind` and `Symbol`;
- `Node.symbolKind?` and `Node.symbol?`. A variable and a function are both names with a value and
  differ only in what the value is.

Does not own: the symbols of a whole document (`StyleSense.Symbol.Outline`).
-/

namespace StyleSense

/-- Kinds of declarations. -/
inductive SymbolKind where
  | variable
  | function
  /-- Selectors, computed ones included. -/
  | selector
  /-- At-rules. -/
  | directive
deriving DecidableEq, Repr

/-- The name under which editors know a kind. -/
def SymbolKind.name : SymbolKind → String
  | .variable => "variable"
  | .function => "function"
  | .selector => "class"
  | .directive => "namespace"

/-- A declaration and where its name stands. -/
structure Symbol where
  name : String
  kind : SymbolKind
  range : Span
deriving DecidableEq, Repr

/-- What a node declares, if anything. -/
def Node.symbolKind? : Node → Option SymbolKind
  | .ident _ (some (.expression _)) _ => some .variable
  | .ident _ (some (.function ..)) _ => some .function
  | .selector .. => some .selector
  | .call name _ _ => if name = "selector" then some .selector else none
  | .directive .. => some .directive
  | _ => none

/-- The part of a selector's name that an interpolated node gives. -/
def Node.interpolatedName? : Node → Option String
  | .ident name _ _ => some name
  | .call name _ _ => some name
  | _ => none

/-- The text of a segment; an interpolation is named by what stands in it. -/
def Segment.name (segment : Segment) : String :=
  match segment.text with
  | some text => text
  | none => String.join (segment.nodes.filterMap Node.interpolatedName?)

/-- The name of a selector. -/
def selectorName (segments : List Segment) : String :=
  String.join (segments.map Segment.name)

/-- The line on which a name is declared: that of its value when it is known. -/
def declarationLine (line : Nat) (value : Node) : Nat :=
  if 0 < value.pos.line then value.pos.line else line

/-- The symbol named by the whole source line on which its node starts. -/
def Symbol.ofLine (kind : SymbolKind) (pos : SourcePos) (document : Document) : Symbol :=
  let line := lineIndex pos.line
  let text := document.line line
  let name := unbracedName text
  ⟨String.ofList name, kind, .onLine line (findColumn name text) (Text.width name)⟩

/-- The symbol that a node declares. -/
def Node.symbol? (document : Document) (node : Node) : Option Symbol :=
  node.symbolKind?.map fun kind =>
    match node with
    | .ident name (some value) pos =>
      let line := lineIndex (declarationLine pos.line value)
      let name' := name.toList
      ⟨name, kind, .onLine line (findColumn name' (document.line line)) (Text.width name')⟩
    | .selector head _ =>
      let name := selectorName head.segments
      ⟨name, kind, .onLine (lineIndex head.pos.line) (head.pos.column - 1) (Text.width name.toList)⟩
    | _ => Symbol.ofLine kind node.pos document

end StyleSense
