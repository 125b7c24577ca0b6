import StyleSense.Line.Scan
import StyleSense.Line.Tree
import StyleSense.Statement.Selector

/-!
Contract: the statements of a stylesheet.

Owns:
- `Body`, what stands below a line;
- `Line.statement`, the node that a line with its body is;
- `Node.parse`, the tree of a whole text.

Does not own: values (`StyleSense.Expression.Parser`) and selectors
(`StyleSense.Statement.Selector`).
-/

namespace StyleSense

open Text

/-- What stands below a line: its first line, the text of its lines, and its statements or the fault
that is in them. -/
structure Body where
  first : Option Line
  raw : List (List Char)
  statements : Except ParseError (List Node)

namespace Body

/-- Refuse a body under a statement that cannot have one. -/
def mustBeEmpty (body : Body) : Except ParseError Unit :=
  match body.first with
  | some line => .error ⟨.unexpectedIndentation, line.pos⟩
  | none => .ok ()

/-- The body as a block that starts at `pos`. -/
def block (body : Body) (pos : SourcePos) : Except ParseError Node := do
  return .wrapper .block (← body.statements) none pos

end Body

namespace Line

/-- A statement that is only a value, which starts with the end `value` of the line. -/
def valueStatement (line : Line) (value : List Char) : Except ParseError Node := do
  let tokens ← line.tokensOf value
  return .expression (← Expression.read tokens line.pos)

/-- An assignment; the value `@block` is the body. -/
def assignment (line : Line) (body : Body) (name value : List Char) : Except ParseError Node := do
  let isBrace (c : Char) : Bool := c == '\x7b'
  let unbraced := trimEnd ((trim value).reverse.dropWhile isBrace).reverse
  let result : Expression ←
    if unbraced = "@block".toList then do
      let pos := line.placeOf (trimStart value)
      pure ⟨[.atblock (← body.statements) pos], pos⟩
    else do
      body.mustBeEmpty
      let tokens ← line.tokensOf value
      Expression.read tokens (line.placeOf value)
  return .ident (String.ofList name) (some (.expression result)) line.pos

/-- Drop every `...` at the end of a parameter, which is given last character first. -/
def dropEllipses : List Char → List Char
  | '.' :: '.' :: '.' :: rest => dropEllipses rest
  | reversed => reversed

/-- The name of a parameter: the text before its default value. -/
def parameter? (text : List Char) : Option String :=
  let isEnd (c : Char) : Bool := c == '=' || c == ' '
  let name := (text.dropWhile isEnd).takeWhile (!isEnd ·)
  if name.isEmpty then none else some (String.ofList (dropEllipses name.reverse).reverse)

/-- A function with its body. -/
def functionDefinition (line : Line) (body : Body) (name params : List Char) :
    Except ParseError Node := do
  let block ← body.block line.pos
  let name := String.ofList name
  let params := (params.splitOn ',').filterMap parameter?
  return .ident name (some (.function name params (some block) line.pos)) line.pos

/-- A rule set whose selector is computed by the expression `inside` the braces of the line. -/
def computedRule (line : Line) (body : Body) (inside : List Char) : Except ParseError Node := do
  let start := line.head.offset + 1
  let tokens ← tokenize inside line.head.line start
  let value ← Expression.read tokens ⟨line.head.line, start + 1⟩
  let block ← body.block line.pos
  return .wrapper .group [.call "selector" [.expression value] line.pos] (some block) line.pos

/-- The selectors of one fragment of a rule header, from the given parts on. -/
def selectorsOf (fragment : Fragment) : List (Nat × List Char) →
    Except ParseError (List Selector)
  | [] => .ok []
  | (offset, part) :: rest => do
    let start := fragment.offset + offset
    let segments ← readSegments part fragment.line start
    let others ← selectorsOf fragment rest
    return ⟨segments, ⟨fragment.line, start + 1⟩⟩ :: others

/-- The selectors of the fragments of a rule header. -/
def selectors : List Fragment → Except ParseError (List Selector)
  | [] => .ok []
  | fragment :: rest => do
    let here ← selectorsOf fragment (splitSelectors fragment.text)
    return here ++ (← selectors rest)

/-- A rule set. -/
def rule (line : Line) (body : Body) : Except ParseError Node := do
  let block ← body.block line.pos
  let heads ← selectors line.fragments
  return .rule heads block line.pos

/-- A property with the given name and value. -/
def property (line : Line) (name value : List Char) : Except ParseError Node := do
  let tokens ← line.tokensOf value
  let expression ← Expression.read tokens (line.placeOf value)
  let segments ← readSegments name line.head.line line.head.offset
  return .property segments (some expression) line.pos

/-- The at-rules that take a body, by keyword; `-vendor-keyframes` is one too. -/
def bodied? (keyword : List Char) : Option Directive :=
  if keyword = "media".toList then some .media
  else if keyword = "supports".toList then some .supports
  else if keyword = "keyframes".toList
      || (keyword.head? == some '-' && "-keyframes".toList.isSuffixOf keyword) then
    some .keyframes
  else none

/-- Keywords of at-rules that declare nothing. -/
def silentKeywords : List String :=
  ["extend", "extends", "charset", "block", "return"]

/-- An at-rule; `text` is the line without its `@`. -/
def atRule (line : Line) (body : Body) (text : List Char) : Except ParseError Node := do
  let isEnd (c : Char) : Bool := isBlank c || c == '('
  let keyword := text.takeWhile (!isEnd ·)
  let rest := trim (text.dropWhile (!isEnd ·))
  let argument := if rest.isEmpty then none else some (String.ofList rest)
  match bodied? keyword with
  | some kind =>
    let block ← body.block line.pos
    return .directive kind argument (some block) line.pos
  | none =>
    if keyword = "import".toList then
      body.mustBeEmpty
      return .directive .importFile argument none line.pos
    else if keyword = "require".toList then
      body.mustBeEmpty
      return .directive .require argument none line.pos
    else if keyword = "css".toList then
      let text := "\n".intercalate (body.raw.map String.ofList)
      return .directive .literal (some text) none line.pos
    else if silentKeywords.contains (String.ofList keyword) then
      body.mustBeEmpty
      return .other
    else
      let block ← body.block line.pos
      return .directive .atrule (some (String.ofList text)) (some block) line.pos

/-- First words of control flow lines: their bodies are kept, their conditions are not. -/
def controlWords : List String :=
  ["if", "else", "unless", "for"]

/-- A line that starts with one of these is a rule header even without a body. -/
def selectorSigns : List Char :=
  ['.', '#', '&', '>', '+', '~', '*', '[', ':']

/-- The node of a line that is neither an at-rule, an assignment, a `return` nor control flow. -/
def plainStatement (line : Line) (body : Body) : Except ParseError Node :=
  let text := line.head.text
  let function? := if body.first.isSome then Pattern.functionHead? text else none
  match function?, Pattern.interpolation? text with
  | some (name, params), _ => line.functionDefinition body name params
  | none, some inside => line.computedRule body inside
  | none, none =>
    if body.first.isSome || text.head?.any selectorSigns.contains then line.rule body
    else
      match Pattern.property? text with
      | some (name, value) => line.property name value
      | none => line.valueStatement text

/-- The node of a line. -/
def statement (line : Line) (body : Body) : Except ParseError Node :=
  let text := line.head.text
  match text.head?, Pattern.assignment? text with
  | some '@', _ => line.atRule body text.tail
  | _, some (name, value) => line.assignment body name value
  | _, none => do
    let word := String.ofList (firstWord text)
    if word = "return" then
      body.mustBeEmpty
      line.valueStatement (text.drop word.length)
    else if controlWords.contains word then body.block line.pos
    else line.plainStatement body

end Line

mutual

/-- The node of a line with the lines below it. -/
def LineTree.statement : LineTree → Except ParseError Node
  | .node line children =>
    line.statement
      { first := children.head?.map LineTree.line
        raw := (LineTree.forestLines children).flatMap fun child =>
          child.fragments.map Fragment.text
        statements := LineTree.statements children }

/-- The nodes of some lines, up to the first fault. -/
def LineTree.statements : List LineTree → Except ParseError (List Node)
  | [] => .ok []
  | tree :: rest => do
    let node ← tree.statement
    return node :: (← LineTree.statements rest)

end

/-- The tree of a text. -/
def Node.parse (text : List Char) : Except ParseError Node := do
  let lines ← scanLines text
  let nodes ← LineTree.statements (buildForest lines)
  return .wrapper .root nodes none ⟨1, 1⟩

end StyleSense
