import StyleSense.Proofs.Expression.Words
import StyleSense.Proofs.Statement.Shape

/-!
Contract: every word of a stylesheet comes from a token of its own.

Owns:
- `Line.Becomes.spelled`: the tokens of the value of a line and of its body spell the words of the
  node that the line becomes;
- `valueTokens`, the tokens of all values of a text, and `parse_spelled`: they spell the words of its
  tree.

Does not own: what stands in the text at a token (`StyleSense.Proofs.Swatch.Place`).
-/

namespace StyleSense

section Statements

variable {distinct : Prop}

/-- The tokens spell the words of a statement. -/
def Node.SpelledBy (distinct : Prop) (tokens : List Token) (node : Node) : Prop :=
  Spelled distinct node.written tokens

theorem read_spelled
    {tokens : List Token}
    (keys : distinct → Expression.DistinctKeys tokens)
    (pos : SourcePos) :
    Gives (fun value => Spelled distinct value.words tokens) (Expression.read tokens pos) := by
  intro ⟨terms, place⟩ read
  rw [Expression.words]
  exact (Expression.readTerms_derives keys (Expression.read_ok read).1).spelled

/-- The tokens spell the words of a body. -/
def Body.SpelledBy (distinct : Prop) (below : List Token) (body : Body) : Prop :=
  Gives (fun nodes => Spelled distinct (Node.statementWords nodes) below) body.statements

namespace Line

variable {line : Line} {body : Body} {below : List Token}

/-- The tokens of the value of a line, and those below it. -/
def tokensWith (line : Line) (hasBody : Bool) (below : List Token) : List Token :=
  (line.values hasBody).flatten ++ below

/-- The tokens of a value spell its words. -/
theorem HasValue.spelled
    {value : List Char}
    {tokens : List Token}
    {pos : SourcePos}
    {result : Expression}
    (hasValue : line.HasValue body value tokens pos result)
    (keys : distinct → ∀ tokens ∈ line.values body.first.isSome, Expression.DistinctKeys tokens)
    (below : List Token) :
    Spelled distinct result.words (line.tokensWith body.first.isSome below) := by
  have single := values_of_tokensOf hasValue.isValue hasValue.hasTokens
  have distinctHere : distinct → Expression.DistinctKeys tokens := by
    intro asked
    apply keys asked
    rw [single]
    exact List.mem_singleton_self _
  have spelled := read_spelled distinctHere pos result hasValue.read
  rw [tokensWith, single, List.flatten_singleton]
  exact spelled.weaken (List.prefix_append ..).isInfix

/-- The tokens of the value of a statement and those of its body spell its words. -/
theorem Becomes.spelled
    {node : Node}
    (becomes : line.Becomes body node)
    (keys : distinct → ∀ tokens ∈ line.values body.first.isSome, Expression.DistinctKeys tokens)
    (bodies : body.SpelledBy distinct below) :
    node.SpelledBy distinct (line.tokensWith body.first.isSome below) := by
  have inBody : ∀ {nodes}, body.statements = .ok nodes →
      Spelled distinct (Node.statementWords nodes) (line.tokensWith body.first.isSome below) :=
    fun isBody => (bodies _ isBody).weaken (List.suffix_append ..).isInfix
  cases becomes with
  | value hasValue | assignment _ hasValue | property _ hasValue _ =>
    have spelled := hasValue.spelled keys below
    simpa [Node.SpelledBy, Node.written, Node.statementWords, Node.optionWords, Node.words,
      Expression.optionWords] using spelled
  | atblock _ isBody _ | function _ _ isBody | computed _ isBody | rule _ isBody | control isBody
    | bodied _ _ isBody =>
    have spelled := inBody isBody
    simpa [Node.SpelledBy, Node.written, Node.statementWords, Node.optionWords, Node.words,
      Expression.words, Node.listWords, words_wrapper] using spelled
  | bodiless | silent =>
    simpa [Node.SpelledBy, Node.written, Node.statementWords, Node.optionWords, Node.words]
      using .nil _

end Line

namespace LineTree

theorem first_isSome_bodyOf (children : List LineTree) :
    (bodyOf children).first.isSome = !children.isEmpty := by
  cases children <;> rfl

/-- The tokens of the values of some statements spell their words. -/
theorem Become.spelled
    {trees : List LineTree}
    {nodes : List Node}
    (become : Become trees nodes)
    (keys : distinct → ∀ tokens ∈ forestValues trees, Expression.DistinctKeys tokens) :
    Spelled distinct (Node.statementWords nodes) (forestValues trees).flatten := by
  induction become with
  | nil => exact .nil _
  | @cons line children rest node nodes _ becomes _ inside later =>
    rw [forestValues, values] at keys ⊢
    rw [← first_isSome_bodyOf] at keys ⊢
    rw [statementWords_cons, List.flatten_append, List.flatten_append]
    have here := becomes.spelled
      (fun asked tokens isIn =>
        keys asked tokens (List.mem_append_left _ (List.mem_append_left _ isIn)))
      fun inner read => inside inner read fun asked tokens isIn =>
        keys asked tokens (List.mem_append_left _ (List.mem_append_right _ isIn))
    exact here.append (later fun asked tokens isIn =>
      keys asked tokens (List.mem_append_right _ isIn))

end LineTree

end Statements

/-! ## Whole texts -/

/-- The tokens of all values of a text in order; a text whose lines cannot be scanned has none. -/
def valueTokens (text : List Char) : List Token :=
  match scanLines text with
  | .ok lines => (LineTree.forestValues (buildForest lines)).flatten
  | .error _ => []

theorem valueTokens_of_scanLines
    {text : List Char}
    {lines : List Line}
    (scanned : scanLines text = .ok lines) :
    valueTokens text = (LineTree.forestValues (buildForest lines)).flatten := by
  rw [valueTokens, scanned]

/-- The tokens of the values of a text spell the words of its tree. -/
theorem parse_spelled
    {distinct : Prop}
    {text : List Char}
    {tree : Node}
    (parsed : Node.parse text = .ok tree)
    (keys : distinct → DistinctKeys text) :
    Spelled distinct tree.words (valueTokens text) := by
  obtain ⟨lines, nodes, scanned, read, rfl⟩ := Node.parse_ok parsed
  rw [valueTokens_of_scanLines scanned, words_wrapper]
  exact (LineTree.statements_become _ nodes read).spelled fun asked => keys asked lines scanned

end StyleSense
