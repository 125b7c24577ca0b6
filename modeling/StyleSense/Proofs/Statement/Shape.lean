import StyleSense.Proofs.Statement.Value

/-!
Contract: what a line can be as a statement.

Owns:
- `Gives`, a property of what an outcome gives;
- `Line.IsLiteral`, the lines of an `@css`, and the statement that such a line is;
- `Line.HasValue`, a value of a line with its tokens and what is read from them;
- `Line.Becomes`, the nodes that a line can become, each with the parts of the line and of its body
  that it is made of, and `Line.statement_becomes`: a line becomes one of them if it is a statement;
- `LineTree.Become`, nested lines with the statements that they become, and
  `LineTree.statements_become`, so that what holds of all statements is proved by induction on it;
- `Node.parse_ok`, what is known of a text that has a tree.

Does not own: what follows for words (`StyleSense.Proofs.Statement.Words`), for declarations
(`StyleSense.Proofs.Statement.Declaration`), and for rules (`StyleSense.Proofs.Selector.Header`).
-/

namespace StyleSense

open Text

/-- What the outcome gives has a property. -/
def Gives {α : Type} (P : α → Prop) (result : Except ParseError α) : Prop :=
  ∀ value, result = .ok value → P value

namespace Gives

variable {α β : Type} {P : α → Prop} {Q : β → Prop}

theorem ok
    {value : α}
    (holds : P value) :
    Gives P (.ok value : Except ParseError α) := by
  intro other given
  cases given
  exact holds

theorem bind
    {first : Except ParseError α}
    {next : α → Except ParseError β}
    (nexts : ∀ value, first = .ok value → Gives Q (next value)) :
    Gives Q (first >>= next) := by
  cases first with
  | error fault => exact fun value given => nomatch given
  | ok value => exact nexts value rfl

end Gives

/-- A body that is not refused is empty. -/
theorem Body.mustBeEmpty_alone
    {body : Body}
    (accepted : body.mustBeEmpty = .ok ()) :
    body.first = none := by
  unfold mustBeEmpty at accepted
  split at accepted
  · cases accepted
  · assumption

/-- The block of a body holds its statements. -/
theorem Body.block_ok
    {body : Body}
    {pos : SourcePos}
    {block : Node}
    (given : body.block pos = .ok block) :
    ∃ nodes, body.statements = .ok nodes ∧ block = .wrapper .block nodes none pos := by
  cases isBody : body.statements with
  | error fault =>
    rw [Body.block, isBody] at given
    cases given
  | ok nodes =>
    rw [Body.block, isBody] at given
    exact ⟨nodes, rfl, (Except.ok.inj given).symm⟩

/-- What follows the block of a body is given its statements. -/
theorem Body.block_gives
    {α : Type}
    {P : α → Prop}
    {body : Body}
    {pos : SourcePos}
    {next : Node → Except ParseError α}
    (nexts : ∀ nodes, body.statements = .ok nodes →
      Gives P (next (.wrapper .block nodes none pos))) :
    Gives P (body.block pos >>= next) := by
  refine Gives.bind fun block given => ?_
  obtain ⟨nodes, isBody, rfl⟩ := Body.block_ok given
  exact nexts nodes isBody

namespace Line

/-! ## `@css` -/

/-- The line is an `@css`. -/
def IsLiteral (line : Line) : Prop :=
  ∃ argument, line.head.text = "@css".toList ++ argument ∧
    ∀ c ∈ argument.head?, isBlank c = true ∨ c = '('

/-- The statement that an `@css` is: the texts of its body line by line. -/
theorem statement_of_isLiteral
    {line : Line}
    (isLiteral : line.IsLiteral)
    (body : Body) :
    line.statement body =
      .ok (.directive .literal (some ("\n".intercalate (body.raw.map String.ofList))) none line.pos) := by
  obtain ⟨argument, text, ends⟩ := isLiteral
  have isFirst : line.head.text.head? = some '@' := by rw [text]; rfl
  have rest : line.head.text.tail = "css".toList ++ argument := by rw [text]; rfl
  have keyword : ("css".toList ++ argument).takeWhile (fun c => !(isBlank c || c == '(')) =
      "css".toList := by
    rw [takeWhile_append_of_stop]
    · decide
    · intro c isFirst
      rcases ends c isFirst with blank | rfl
      · simp [blank]
      · rfl
  unfold statement
  simp only [isFirst]
  unfold atRule
  simp only [rest, keyword]
  rfl

/-- An at-rule whose keyword is `css` is an `@css`. -/
theorem isLiteral_of_keyword
    {line : Line}
    {text : List Char}
    (isText : line.head.text = '@' :: text)
    (isCss : text.takeWhile (fun c => !(isBlank c || c == '(')) = "css".toList) :
    line.IsLiteral := by
  have whole := List.takeWhile_append_dropWhile (p := fun c => !(isBlank c || c == '(')) (l := text)
  refine ⟨text.dropWhile fun c => !(isBlank c || c == '('), ?_, ?_⟩
  · rw [isText]
    conv => lhs; rw [← whole, isCss]
    rfl
  · intro c isFirst
    have stops := List.head?_dropWhile_not (fun c => !(isBlank c || c == '(')) text
    rw [Option.mem_def.mp isFirst] at stops
    simpa [or_iff_not_imp_left] using stops

/-! ## The statements of a line -/

/-- The value of a line without a body, its tokens, and what is read from them at `pos`. -/
structure HasValue (line : Line) (body : Body) (value : List Char) (tokens : List Token)
    (pos : SourcePos) (result : Expression) : Prop where
  alone : body.first = none
  isValue : line.value? body.first.isSome = some value
  hasTokens : line.tokensOf value = .ok tokens
  read : Expression.read tokens pos = .ok result

/-- The nodes that a line with a body can become. Parameters and the texts of at-rules are left
open. -/
inductive Becomes (line : Line) (body : Body) : Node → Prop
  | value {value : List Char} {tokens : List Token} {result : Expression}
      (hasValue : line.HasValue body value tokens line.pos result) :
      Becomes line body (.expression result)
  | assignment {name value : List Char} {tokens : List Token} {result : Expression}
      (assigned : Pattern.assignment? line.head.text = some (name, value))
      (hasValue : line.HasValue body value tokens (line.placeOf value) result) :
      Becomes line body (.ident (String.ofList name) (some (.expression result)) line.pos)
  | atblock {name value : List Char} {nodes : List Node} {pos : SourcePos}
      (assigned : Pattern.assignment? line.head.text = some (name, value))
      (isBody : body.statements = .ok nodes)
      (isHere : pos.line = line.head.line) :
      Becomes line body
        (.ident (String.ofList name) (some (.expression ⟨[.atblock nodes pos], pos⟩)) line.pos)
  | property {name value : List Char} {tokens : List Token} {result : Expression}
      {segments : List Segment}
      (named : Pattern.property? line.head.text = some (name, value))
      (hasValue : line.HasValue body value tokens (line.placeOf value) result)
      (isName : readSegments name line.head.line line.head.offset = .ok segments) :
      Becomes line body (.property segments (some result) line.pos)
  | function {name inside : List Char} {nodes : List Node} (params : List String)
      (headed : Pattern.functionHead? line.head.text = some (name, inside))
      (isBody : body.statements = .ok nodes) :
      Becomes line body (.ident (String.ofList name)
        (some (.function (String.ofList name) params (some (.wrapper .block nodes none line.pos))
          line.pos)) line.pos)
  | computed {tokens : List Token} {pos : SourcePos} {result : Expression} {nodes : List Node}
      (read : Expression.read tokens pos = .ok result)
      (isBody : body.statements = .ok nodes) :
      Becomes line body (.wrapper .group [.call "selector" [.expression result] line.pos]
        (some (.wrapper .block nodes none line.pos)) line.pos)
  | rule {heads : List Selector} {nodes : List Node}
      (areHeads : selectors line.fragments = .ok heads)
      (isBody : body.statements = .ok nodes) :
      Becomes line body (.rule heads (.wrapper .block nodes none line.pos) line.pos)
  | control {nodes : List Node}
      (isBody : body.statements = .ok nodes) :
      Becomes line body (.wrapper .block nodes none line.pos)
  | bodied {nodes : List Node} (kind : Directive) (text : Option String)
      (isBody : body.statements = .ok nodes) :
      Becomes line body
        (.directive kind text (some (.wrapper .block nodes none line.pos)) line.pos)
  | bodiless (kind : Directive) (text : Option String)
      (alone : body.first = none ∨ line.IsLiteral) :
      Becomes line body (.directive kind text none line.pos)
  | silent
      (alone : body.first = none) :
      Becomes line body .other

section Statements

variable {line : Line} {body : Body}

theorem assignment_becomes
    {name value : List Char}
    (assigned : Pattern.assignment? line.head.text = some (name, value))
    (isValue : line.value? body.first.isSome = some value) :
    Gives (line.Becomes body) (line.assignment body name value) := by
  unfold assignment
  simp only
  split
  · exact Gives.bind fun nodes isBody => .ok (.atblock assigned isBody rfl)
  · exact Gives.bind fun _ accepted => Gives.bind fun _ hasTokens => Gives.bind fun _ read =>
      .ok (.assignment assigned ⟨Body.mustBeEmpty_alone accepted, isValue, hasTokens, read⟩)

theorem atRule_becomes
    {text : List Char}
    (isText : line.head.text = '@' :: text) :
    Gives (line.Becomes body) (line.atRule body text) := by
  unfold atRule
  simp only
  split
  · exact Body.block_gives fun nodes isBody => .ok (.bodied _ _ isBody)
  · split
    · exact Gives.bind fun _ accepted => .ok (.bodiless _ _ (.inl (Body.mustBeEmpty_alone accepted)))
    · split
      · exact Gives.bind fun _ accepted =>
          .ok (.bodiless _ _ (.inl (Body.mustBeEmpty_alone accepted)))
      · split
        · rename_i isCss
          exact .ok (.bodiless _ _ (.inr (isLiteral_of_keyword isText isCss)))
        · split
          · exact Gives.bind fun _ accepted => .ok (.silent (Body.mustBeEmpty_alone accepted))
          · exact Body.block_gives fun nodes isBody => .ok (.bodied _ _ isBody)

theorem valueStatement_becomes
    {value : List Char}
    (alone : body.first = none)
    (isValue : line.value? body.first.isSome = some value) :
    Gives (line.Becomes body) (line.valueStatement value) :=
  Gives.bind fun _ hasTokens => Gives.bind fun _ read =>
    .ok (.value ⟨alone, isValue, hasTokens, read⟩)

theorem plainStatement_becomes
    (notAt : line.head.text.head? ≠ some '@')
    (notAssignment : Pattern.assignment? line.head.text = none)
    (notReturn : String.ofList (firstWord line.head.text) ≠ "return")
    (notControl : controlWords.contains (String.ofList (firstWord line.head.text)) = false) :
    Gives (line.Becomes body) (line.plainStatement body) := by
  have chosen := value?_of_notAssignment notAt notAssignment body.first.isSome
  simp only [if_neg notReturn, notControl, Bool.false_or] at chosen
  unfold plainStatement
  simp only
  split
  · rename_i name params headed
    split at headed
    · exact Body.block_gives fun nodes isBody => .ok (.function _ headed isBody)
    · cases headed
  · exact Gives.bind fun _ _ => Gives.bind fun _ read =>
      Body.block_gives fun nodes isBody => .ok (.computed read isBody)
  · rename_i notComputed
    split
    · exact Body.block_gives fun nodes isBody => Gives.bind fun heads areHeads =>
        .ok (.rule areHeads isBody)
    · rename_i notRule
      simp only [Bool.or_eq_true, not_or, Bool.not_eq_true] at notRule
      have alone : body.first = none := by simpa using notRule.1
      simp only [notRule.1, notRule.2, notComputed, Option.isSome_none, Bool.or_self,
        Bool.false_eq_true, if_false] at chosen
      split
      · rename_i name value named
        simp only [named] at chosen
        exact Gives.bind fun _ hasTokens => Gives.bind fun _ read => Gives.bind fun _ isName =>
          .ok (.property named ⟨alone, notRule.1 ▸ chosen, hasTokens, read⟩ isName)
      · rename_i notProperty
        simp only [notProperty] at chosen
        exact valueStatement_becomes alone (notRule.1 ▸ chosen)

/-- A line becomes one of the nodes that it can become. -/
theorem statement_becomes : Gives (line.Becomes body) (line.statement body) := by
  unfold statement
  simp only
  split
  · rename_i isFirst
    obtain ⟨text, isText⟩ := List.head?_eq_some_iff.mp isFirst
    exact atRule_becomes (by rw [isText]; rfl)
  · rename_i name value found notAt
    have isValue : line.value? body.first.isSome = some value := by
      simp only [value?, found]
    exact assignment_becomes found isValue
  · rename_i notAssignment notAt
    split
    · rename_i isReturn
      have chosen := value?_of_notAssignment notAt notAssignment body.first.isSome
      simp only [if_pos isReturn] at chosen
      exact Gives.bind fun _ accepted =>
        valueStatement_becomes (Body.mustBeEmpty_alone accepted) chosen
    · rename_i notReturn
      split
      · intro block given
        obtain ⟨nodes, isBody, rfl⟩ := Body.block_ok given
        exact .control isBody
      · rename_i notControl
        exact plainStatement_becomes notAt notAssignment notReturn (Bool.not_eq_true _ ▸ notControl)

end Statements

end Line

/-! ## Nested lines -/

namespace LineTree

/-- Nested lines and the statements that they become, one by one. The lines below a line are
statements if its body is; below `@css` it need not be. -/
inductive Become : List LineTree → List Node → Prop
  | nil : Become [] []
  | cons {line : Line} {children rest : List LineTree} {node : Node} {nodes : List Node}
      (below : ∀ inner, statements children = .ok inner → Become children inner)
      (becomes : line.Becomes (bodyOf children) node)
      (others : Become rest nodes) :
      Become (.node line children :: rest) (node :: nodes)

theorem statements_become : ∀ trees : List LineTree, Gives (Become trees) (statements trees)
  | [] => by
    rw [statements]
    exact .ok .nil
  | .node line children :: rest => by
    rw [statements, statement_node]
    refine Gives.bind fun node read => Gives.bind fun nodes readLater => .ok ?_
    exact .cons (statements_become children) (Line.statement_becomes node read)
      (statements_become rest nodes readLater)

end LineTree

/-- What is known of a text that parses: its lines and the statements that they are. -/
theorem Node.parse_ok
    {text : List Char}
    {tree : Node}
    (parsed : Node.parse text = .ok tree) :
    ∃ lines nodes, scanLines text = .ok lines ∧
      LineTree.statements (buildForest lines) = .ok nodes ∧
        tree = .wrapper .root nodes none ⟨1, 1⟩ := by
  cases scanned : scanLines text with
  | error error =>
    rw [Node.parse, scanned] at parsed
    cases parsed
  | ok lines =>
    rw [Node.parse_of_scanLines scanned] at parsed
    cases read : LineTree.statements (buildForest lines) with
    | error error =>
      rw [read] at parsed
      cases parsed
    | ok nodes =>
      rw [read] at parsed
      exact ⟨lines, nodes, rfl, read, (Except.ok.inj parsed).symm⟩

end StyleSense
