import StyleSense.Color.Basic
import StyleSense.Fault

/-!
Contract: the syntax tree of a stylesheet.

Owns:
- `Node` with its parts `Expression`, `Segment` and `Selector`;
- the plain views of a node: tag, place, children and body.

A rule set that was parsed from a text is a `Node.rule`: its selectors share one body. Seen from
outside it is a `group` whose selectors each have that body, and so is a tree that was read from a
file; `Node.unshare` turns the first form into the second.

Does not own: JSON (`StyleSense.Node.Json`) and source text (`StyleSense.Node.Printer`) of a tree.
-/

namespace StyleSense

/-- Nodes that only give the tree its structure. -/
inductive Wrapper where
  | group
  | root
  | block
deriving DecidableEq, Repr

/-- Kinds of at-rules. -/
inductive Directive where
  | media
  | keyframes
  | atrule
  | importFile
  | require
  | supports
  | literal
deriving DecidableEq, Repr

mutual

/-- A node of the syntax tree. -/
inductive Node where
  /-- A name; as a declaration it has a value. -/
  | ident (name : String) (value : Option Node) (pos : SourcePos)
  | selector (head : Selector) (body : Option Node)
  | call (name : String) (args : List Node) (pos : SourcePos)
  | function (name : String) (params : List String) (body : Option Node) (pos : SourcePos)
  /-- A color literal and its text. -/
  | rgba (color : Rgba Float) (raw : String) (pos : SourcePos)
  | unit (value : Float) (suffix : Option String) (pos : SourcePos)
  | binary (op : String) (left right : Node) (pos : SourcePos)
  | string (value : String) (pos : SourcePos)
  | expression (value : Expression)
  | object (entries : List (String × Node)) (pos : SourcePos)
  | ternary (condition whenTrue whenFalse : Node) (pos : SourcePos)
  | property (name : List Segment) (value : Option Expression) (pos : SourcePos)
  | atblock (statements : List Node) (pos : SourcePos)
  /-- A rule set whose selectors share one body. -/
  | rule (selectors : List Selector) (body : Node) (pos : SourcePos)
  | wrapper (kind : Wrapper) (nodes : List Node) (body : Option Node) (pos : SourcePos)
  | directive (kind : Directive) (text : Option String) (body : Option Node) (pos : SourcePos)
  | other

/-- A list of terms. -/
structure Expression where
  terms : List Node
  pos : SourcePos

/-- A piece of a selector or of a property name: literal text, or the terms of an interpolation. -/
structure Segment where
  text : Option String
  line : Nat
  nodes : List Node

/-- A selector without its body. -/
structure Selector where
  segments : List Segment
  pos : SourcePos

end

namespace Wrapper

/-- The tag of a wrapper. -/
def tag : Wrapper → String
  | group => "group"
  | root => "root"
  | block => "block"

end Wrapper

namespace Directive

/-- The tag of an at-rule. -/
def tag : Directive → String
  | media => "media"
  | keyframes => "keyframes"
  | atrule => "atrule"
  | importFile => "import"
  | require => "require"
  | supports => "supports"
  | literal => "literal"

end Directive

namespace Node

/-- The tree of a text that does not parse. -/
def emptyRoot : Node :=
  .wrapper .root [] none .unknown

/-- The name of a node's kind. -/
def tag : Node → String
  | ident .. => "ident"
  | selector .. => "selector"
  | call .. => "call"
  | function .. => "function"
  | rgba .. => "rgba"
  | unit .. => "unit"
  | binary .. => "binop"
  | string .. => "string"
  | expression _ => "expression"
  | object .. => "object"
  | ternary .. => "ternary"
  | property .. => "property"
  | atblock .. => "atblock"
  | rule .. => "group"
  | wrapper kind .. => kind.tag
  | directive kind .. => kind.tag
  | other => "other"

/-- Where a node starts. -/
def pos : Node → SourcePos
  | ident _ _ pos => pos
  | selector head _ => head.pos
  | call _ _ pos => pos
  | function _ _ _ pos => pos
  | rgba _ _ pos => pos
  | unit _ _ pos => pos
  | binary _ _ _ pos => pos
  | string _ pos => pos
  | expression value => value.pos
  | object _ pos => pos
  | ternary _ _ _ pos => pos
  | property _ _ pos => pos
  | atblock _ pos => pos
  | rule _ _ pos => pos
  | wrapper _ _ _ pos => pos
  | directive _ _ _ pos => pos
  | other => .unknown

/-- The nodes that stand below a node, the body left out. -/
def children : Node → List Node
  | expression value => value.terms
  | atblock statements _ => statements
  | rule selectors body _ => selectors.map fun head => .selector head (some body)
  | wrapper _ nodes _ _ => nodes
  | _ => []

/-- The nested body of a node. -/
def body? : Node → Option Node
  | selector _ body => body
  | function _ _ body _ => body
  | rule _ body _ => some body
  | wrapper _ _ body _ => body
  | directive _ _ body _ => body
  | _ => none

/-- Whether a node only gives structure. -/
def isWrapper : Node → Bool
  | rule .. => true
  | wrapper .. => true
  | _ => false

/-- Set the value of a key; a key that is there keeps its place. -/
def setEntry (key : String) (value : Node) : List (String × Node) → List (String × Node)
  | [] => [(key, value)]
  | (name, old) :: rest =>
    if name = key then (name, value) :: rest else (name, old) :: setEntry key value rest

end Node

/-- The text of a property name, interpolations left out. -/
def propertyName (segments : List Segment) : String :=
  String.join (segments.filterMap Segment.text)

/-! ## Giving every selector its own body -/

mutual

/-- The same tree in which no body is shared. -/
def Node.unshare : Node → Node
  | .ident name value pos => .ident name (Node.unshareOption value) pos
  | .selector head body => .selector head.unshare (Node.unshareOption body)
  | .call name args pos => .call name (Node.unshareList args) pos
  | .function name params body pos => .function name params (Node.unshareOption body) pos
  | .rgba color raw pos => .rgba color raw pos
  | .unit value suffix pos => .unit value suffix pos
  | .binary op left right pos => .binary op left.unshare right.unshare pos
  | .string value pos => .string value pos
  | .expression value => .expression value.unshare
  | .object entries pos => .object (Node.unshareEntries entries) pos
  | .ternary condition whenTrue whenFalse pos =>
    .ternary condition.unshare whenTrue.unshare whenFalse.unshare pos
  | .property name value pos =>
    .property (Segment.unshareList name) (Expression.unshareOption value) pos
  | .atblock statements pos => .atblock (Node.unshareList statements) pos
  | .rule selectors body pos =>
    let own := body.unshare
    .wrapper .group ((Selector.unshareList selectors).map fun head => .selector head (some own))
      (some own) pos
  | .wrapper kind nodes body pos =>
    .wrapper kind (Node.unshareList nodes) (Node.unshareOption body) pos
  | .directive kind text body pos => .directive kind text (Node.unshareOption body) pos
  | .other => .other

/-- The same node, if there is one, in which no body is shared. -/
def Node.unshareOption : Option Node → Option Node
  | none => none
  | some node => some node.unshare

/-- The same nodes in which no body is shared. -/
def Node.unshareList : List Node → List Node
  | [] => []
  | node :: rest => node.unshare :: Node.unshareList rest

/-- The same entries in which no body is shared. -/
def Node.unshareEntries : List (String × Node) → List (String × Node)
  | [] => []
  | (key, value) :: rest => (key, value.unshare) :: Node.unshareEntries rest

/-- The same terms, if there are any, in which no body is shared. -/
def Expression.unshareOption : Option Expression → Option Expression
  | none => none
  | some value => some value.unshare

/-- The same terms in which no body is shared. -/
def Expression.unshare : Expression → Expression
  | ⟨terms, pos⟩ => ⟨Node.unshareList terms, pos⟩

/-- The same segments in which no body is shared. -/
def Segment.unshareList : List Segment → List Segment
  | [] => []
  | ⟨text, line, nodes⟩ :: rest => ⟨text, line, Node.unshareList nodes⟩ :: Segment.unshareList rest

/-- The same selector in which no body is shared. -/
def Selector.unshare : Selector → Selector
  | ⟨segments, pos⟩ => ⟨Segment.unshareList segments, pos⟩

/-- The same selectors in which no body is shared. -/
def Selector.unshareList : List Selector → List Selector
  | [] => []
  | head :: rest => head.unshare :: Selector.unshareList rest

end

end StyleSense
