import StyleSense.Proofs.Statement.Words
import StyleSense.Proofs.Swatch.Collection
import StyleSense.Swatch.Decoration
import StyleSense.Symbol.Basic

/-!
Contract: every statement of a tree is declared by a logical line.

Owns:
- `Line.Declares`, what a line can declare, with the part of the line from which its name or its value
  is read;
- `Node.IsSilent`, a statement that gives no symbol and no swatch;
- `Line.Becomes.declares`: what a line becomes and the statements below it have a property that
  whatever the line declares has;
- `parse_declares`, the result for the statements of a text.

Does not own: where the names of declarations stand (`StyleSense.Proofs.Symbol.Range`).
-/

namespace StyleSense

open Text

/-- A statement that declares nothing and has no color in a value. -/
structure Node.IsSilent (node : Node) : Prop where
  kind : node.symbolKind? = none
  colors : node.colorTerms = []

/-- A line declares a node. Bodies, parameters and the texts of at-rules are left open. -/
inductive Line.Declares (line : Line) : Node → Prop
  | assignment {name value : List Char} {tokens : List Token} {result : Expression}
      (assigned : Pattern.assignment? line.head.text = some (name, value))
      (hasTokens : line.tokensOf value = .ok tokens)
      (read : Expression.read tokens (line.placeOf value) = .ok result) :
      Declares line (.ident (String.ofList name) (some (.expression result)) line.pos)
  | block {name value : List Char} {pos : SourcePos} (nodes : List Node)
      (assigned : Pattern.assignment? line.head.text = some (name, value))
      (isHere : pos.line = line.head.line) :
      Declares line
        (.ident (String.ofList name) (some (.expression ⟨[.atblock nodes pos], pos⟩)) line.pos)
  | function {name inside : List Char} (params : List String) (body : Option Node)
      (headed : Pattern.functionHead? line.head.text = some (name, inside)) :
      Declares line (.ident (String.ofList name)
        (some (.function (String.ofList name) params body line.pos)) line.pos)
  | selector {fragment : Fragment} {offset : Nat} {part : List Char} {segments : List Segment}
      (body : Option Node)
      (isFragment : fragment ∈ line.fragments)
      (isPart : (offset, part) ∈ splitSelectors fragment.text)
      (read : readSegments part fragment.line (fragment.offset + offset) = .ok segments) :
      Declares line (.selector ⟨segments, ⟨fragment.line, fragment.offset + offset + 1⟩⟩ body)
  | computed (args : List Node) : Declares line (.call "selector" args line.pos)
  | directive (kind : Directive) (text : Option String) (body : Option Node) :
      Declares line (.directive kind text body line.pos)
  | property {name value : List Char} {tokens : List Token} {result : Expression}
      (segments : List Segment)
      (named : Pattern.property? line.head.text = some (name, value))
      (hasTokens : line.tokensOf value = .ok tokens)
      (read : Expression.read tokens (line.placeOf value) = .ok result) :
      Declares line (.property segments (some result) line.pos)
  | called {value : List Char} {tokens : List Token} {token : Token} (name : String)
      (args : List Node)
      (isEnd : value <:+ line.head.text)
      (hasTokens : line.tokensOf value = .ok tokens)
      (isToken : token ∈ tokens) :
      Declares line (.call name args token.pos)

/-! ## The terms of a value that is a statement -/

/-- The terms of an item declare nothing but the calls that start at one of the tokens. -/
def Expression.Item.DeclaresCalls (tokens : List Token) : Expression.Item → Prop
  | .term node => ∀ statement ∈ node.statements, statement.IsSilent ∨
      ∃ name args, ∃ token ∈ tokens, statement = .call name args token.pos
  | .terms nodes => ∀ statement ∈ listStatements nodes, statement.IsSilent ∨
      ∃ name args, ∃ token ∈ tokens, statement = .call name args token.pos
  | .arguments .. => True
  | .entries .. => True

theorem Expression.Item.DeclaresCalls.weaken
    {tokens more : List Token}
    {item : Expression.Item}
    (declares : item.DeclaresCalls tokens)
    (isPart : tokens ⊆ more) :
    item.DeclaresCalls more := by
  cases item with
  | term node | terms nodes =>
    intro statement isIn
    rcases declares statement isIn with silent | ⟨name, args, token, isToken, same⟩
    · exact .inl silent
    · exact .inr ⟨name, args, token, isPart isToken, same⟩
  | arguments | entries => trivial

theorem Expression.Item.declaresCalls_silent
    {node : Node}
    (alone : node.statements = [node])
    (silent : node.IsSilent)
    (tokens : List Token) :
    (Expression.Item.term node).DeclaresCalls tokens := by
  intro statement isIn
  rw [alone, List.mem_singleton] at isIn
  exact .inl (isIn ▸ silent)

/-- Terms that are read from tokens declare nothing but calls that start at them. -/
theorem Expression.Derives.declaresCalls
    {distinct : Prop}
    {tokens : List Token}
    {item : Expression.Item}
    (derives : Expression.Derives distinct tokens item) :
    item.DeclaresCalls tokens := by
  induction derives with
  | number | string | ident | subscripted | object | denied | joined | ternary =>
    exact Item.declaresCalls_silent rfl ⟨rfl, rfl⟩ _
  | @hash token text =>
    unfold hashTerm
    split <;> exact Item.declaresCalls_silent rfl ⟨rfl, rfl⟩ _
  | @url token body =>
    have notSelector : (urlTerm body token.pos).symbolKind? = Option.none := by
      rw [urlTerm, Node.symbolKind?, if_neg (by decide)]
    exact Item.declaresCalls_silent rfl ⟨notSelector, rfl⟩ _
  | @call token opening inside name args =>
    intro statement isIn
    rw [Node.statements, List.mem_singleton] at isIn
    · exact .inr ⟨name, args, token, List.mem_cons_self .., isIn⟩
    all_goals (intros; contradiction)
  | @group opening closing inside nodes _ _ _ inductionHypothesis =>
    intro statement isIn
    rw [Node.statements, Expression.statements] at isIn
    rcases List.mem_cons.1 isIn with rfl | isInside
    · exact .inl ⟨rfl, rfl⟩
    · exact inductionHypothesis.weaken (by simp +contextual) statement isInside
  | @negated sign operand node =>
    unfold Expression.negated
    split <;> exact Item.declaresCalls_silent rfl ⟨rfl, rfl⟩ _
  | plus _ _ inductionHypothesis => exact inductionHypothesis.weaken (List.subset_cons_self ..)
  | none => exact fun _ isIn => absurd isIn List.not_mem_nil
  | comma _ _ inductionHypothesis => exact inductionHypothesis.weaken (List.subset_cons_self ..)
  | cons _ _ firsts others =>
    intro statement isIn
    rw [listStatements] at isIn
    rcases List.mem_append.1 isIn with isFirst | isLater
    · exact firsts.weaken (List.subset_append_left ..) statement isFirst
    · exact others.weaken (List.subset_append_right ..) statement isLater
  | argumentsEnd | argumentEnd | argumentTerm | entriesEnd | entryEnd | entry => trivial

/-! ## The statements of a line -/

/-- All statements of some trees have a property. -/
def Node.AllStatements (P : Node → Prop) (trees : List Node) : Prop :=
  ∀ statement ∈ listStatements trees, P statement

theorem Node.allStatements_singleton
    {P : Node → Prop}
    (tree : Node) :
    Node.AllStatements P [tree] ↔ ∀ statement ∈ tree.statements, P statement := by
  rw [AllStatements, listStatements, listStatements, List.append_nil]

/-- A wrapper has the statements of what it wraps, or stands for itself and declares nothing. -/
theorem Node.allStatements_wrapper
    {P : Node → Prop}
    (silent : ∀ node, node.IsSilent → P node)
    (kind : Wrapper)
    {nodes : List Node}
    (all : Node.AllStatements P nodes)
    (pos : SourcePos) :
    Node.AllStatements P [.wrapper kind nodes none pos] := by
  rw [allStatements_singleton, Node.statements]
  split
  · intro statement isIn
    rw [List.mem_singleton.1 isIn]
    exact silent _ ⟨rfl, rfl⟩
  · rw [bodyStatements, List.append_nil]
    exact all

namespace Line

section Statements

variable {P : Node → Prop} {line : Line} {body : Body}

/-- A node that the line declares, with a body or without one. -/
theorem declares_alone
    (declared : ∀ node, line.Declares node → P node)
    {node : Node}
    (alone : node.statements = [node])
    (declares : line.Declares node) :
    ∀ statement ∈ node.statements, P statement := by
  rw [alone]
  exact List.forall_mem_singleton.mpr (declared node declares)

/-- The selectors of a part of a rule header are read from the texts between its commas. -/
theorem selectorsOf_gives
    (fragment : Fragment)
    (parts : List (Nat × List Char)) :
    Gives
      (fun heads => ∀ head ∈ heads, ∃ offset part segments, (offset, part) ∈ parts ∧
        readSegments part fragment.line (fragment.offset + offset) = .ok segments ∧
          head = ⟨segments, ⟨fragment.line, fragment.offset + offset + 1⟩⟩)
      (selectorsOf fragment parts) := by
  induction parts with
  | nil => exact .ok nofun
  | cons first rest inductionHypothesis =>
    obtain ⟨offset, part⟩ := first
    refine Gives.bind fun segments read => Gives.bind fun others readOthers => .ok ?_
    intro head isHead
    rcases List.mem_cons.1 isHead with rfl | isOther
    · exact ⟨offset, part, segments, List.mem_cons_self .., read, rfl⟩
    · obtain ⟨offset', part', segments', isPart, readHere, same⟩ :=
        inductionHypothesis others readOthers head isOther
      exact ⟨offset', part', segments', List.mem_cons_of_mem _ isPart, readHere, same⟩

/-- The selectors of a rule header are declared by its line. -/
theorem selectors_declares
    (fragments : List Fragment)
    (areHere : fragments ⊆ line.fragments)
    (body : Option Node) :
    Gives (fun heads => ∀ head ∈ heads, line.Declares (.selector head body))
      (selectors fragments) := by
  induction fragments with
  | nil => exact .ok nofun
  | cons fragment rest inductionHypothesis =>
    obtain ⟨isHere, areLater⟩ := List.cons_subset.1 areHere
    refine Gives.bind fun here readHere => Gives.bind fun later readLater => .ok ?_
    intro head isHead
    rcases List.mem_append.1 isHead with isFirst | isLater
    · obtain ⟨offset, part, segments, isPart, read, rfl⟩ :=
        selectorsOf_gives fragment _ here readHere head isFirst
      exact .selector body isHere isPart read
    · exact inductionHypothesis areLater later readLater head isLater

/-- The selectors and the body of a rule. -/
theorem rule_declares
    (declared : ∀ node, line.Declares node → P node)
    {heads : List Selector}
    (areHeads : selectors line.fragments = .ok heads)
    {block : Node}
    (inside : ∀ statement ∈ block.statements, P statement)
    (pos : SourcePos) :
    ∀ statement ∈ (Node.rule heads block pos).statements, P statement := by
  have selectors := selectors_declares line.fragments (List.Subset.refl _) (some block) heads areHeads
  rw [Node.statements]
  cases heads with
  | nil => exact inside
  | cons first others =>
    intro statement isIn
    rcases List.mem_append.1 isIn with isFirst | isOther
    · rcases List.mem_cons.1 isFirst with rfl | isBelow
      · exact declared _ (selectors first (List.mem_cons_self ..))
      · exact inside statement isBelow
    · obtain ⟨head, isHead, rfl⟩ := List.mem_map.1 isOther
      exact declared _ (selectors head (List.mem_cons_of_mem _ isHead))

/-- An at-rule and, but for keyframes, what stands in its body. -/
theorem directive_declares
    (declared : ∀ node, line.Declares node → P node)
    (kind : Directive)
    (text : Option String)
    {block : Node}
    (inside : ∀ statement ∈ block.statements, P statement) :
    ∀ statement ∈ (Node.directive kind text (some block) line.pos).statements, P statement := by
  have here := declared _ (.directive kind text (some block))
  intro statement isIn
  cases kind with
  | keyframes =>
    rw [Node.statements, List.mem_singleton] at isIn
    exact isIn ▸ here
  | _ =>
    rw [Node.statements, bodyStatements] at isIn
    · rcases List.mem_cons.1 isIn with rfl | isBelow
      · exact here
      · exact inside statement isBelow
    · intros; contradiction

/-- The terms of a value that is a statement. -/
theorem value_declares
    (silent : ∀ node, node.IsSilent → P node)
    (declared : ∀ node, line.Declares node → P node)
    {value : List Char}
    {tokens : List Token}
    {pos : SourcePos}
    {result : Expression}
    (hasValue : line.HasValue body value tokens pos result) :
    ∀ statement ∈ (Node.expression result).statements, P statement := by
  have nothingAsked : False → Expression.DistinctKeys tokens := False.elim
  have derives := Expression.readTerms_derives nothingAsked (Expression.read_ok hasValue.read).1
  obtain ⟨terms, place⟩ := result
  intro statement isIn
  rw [Node.statements, Expression.statements] at isIn
  rcases List.mem_cons.1 isIn with rfl | isTerm
  · exact silent _ ⟨rfl, rfl⟩
  · rcases derives.declaresCalls statement isTerm with isSilent | ⟨name, args, token, isToken, rfl⟩
    · exact silent _ isSilent
    · exact declared _ (.called name args (value?_suffix hasValue.isValue) hasValue.hasTokens isToken)

/-- What a line declares and what stands below it have the property. -/
theorem Becomes.declares
    {node : Node}
    (becomes : line.Becomes body node)
    (silent : ∀ node, node.IsSilent → P node)
    (declared : ∀ node, line.Declares node → P node)
    (below : Gives (Node.AllStatements P) body.statements) :
    ∀ statement ∈ node.statements, P statement := by
  have inBlock : ∀ {nodes}, body.statements = .ok nodes →
      ∀ statement ∈ (Node.wrapper .block nodes none line.pos).statements, P statement :=
    fun isBody => (Node.allStatements_singleton _).1
      (Node.allStatements_wrapper silent .block (below _ isBody) line.pos)
  cases becomes with
  | value hasValue => exact value_declares silent declared hasValue
  | assignment assigned hasValue =>
    exact declares_alone declared rfl (.assignment assigned hasValue.hasTokens hasValue.read)
  | atblock assigned _ isHere => exact declares_alone declared rfl (.block _ assigned isHere)
  | property named hasValue _ =>
    exact declares_alone declared rfl (.property _ named hasValue.hasTokens hasValue.read)
  | function params headed _ => exact declares_alone declared rfl (.function params _ headed)
  | @computed _ _ result _ _ isBody =>
    have call := declares_alone declared rfl (.computed [.expression result])
    rw [Node.statements, if_neg (by simp), bodyStatements]
    exact List.forall_mem_append.mpr ⟨call, inBlock isBody⟩
  | rule areHeads isBody => exact rule_declares declared areHeads (inBlock isBody) _
  | control isBody => exact inBlock isBody
  | bodied kind text isBody => exact directive_declares declared kind text (inBlock isBody)
  | bodiless kind text _ =>
    exact declares_alone declared (by cases kind <;> rfl) (.directive kind text none)
  | silent _ => exact List.forall_mem_singleton.mpr (silent _ ⟨rfl, rfl⟩)

end Statements

end Line

/-! ## Whole texts -/

namespace LineTree

variable {P : Node → Prop}

/-- What some lines declare has the property, so all statements have it. -/
theorem Become.declares
    {trees : List LineTree}
    {nodes : List Node}
    (become : Become trees nodes)
    (silent : ∀ node, node.IsSilent → P node)
    (declared : ∀ line ∈ forestLines trees, ∀ node, line.Declares node → P node) :
    Node.AllStatements P nodes := by
  induction become with
  | nil => exact nofun
  | cons _ becomes _ inside later =>
    rw [forestLines, lines, List.cons_append] at declared
    obtain ⟨here, others⟩ := List.forall_mem_cons.mp declared
    obtain ⟨below, beside⟩ := List.forall_mem_append.mp others
    rw [Node.AllStatements, listStatements]
    exact List.forall_mem_append.mpr
      ⟨becomes.declares silent here fun inner read => inside inner read below, later beside⟩

end LineTree

/-- Every statement of a text is declared by one of its logical lines, or declares nothing. -/
theorem parse_declares
    {text : List Char}
    {tree : Node}
    (parsed : Node.parse text = .ok tree) :
    ∃ lines, scanLines text = .ok lines ∧ ∀ statement ∈ tree.statements,
      statement.IsSilent ∨ ∃ line ∈ lines, line.Declares statement := by
  obtain ⟨lines, nodes, scanned, read, rfl⟩ := Node.parse_ok parsed
  refine ⟨lines, scanned, ?_⟩
  let P (statement : Node) : Prop := statement.IsSilent ∨ ∃ line ∈ lines, line.Declares statement
  have silent : ∀ node, node.IsSilent → P node := fun node isSilent => .inl isSilent
  have declared : ∀ line ∈ LineTree.forestLines (buildForest lines), ∀ node, line.Declares node →
      P node := by
    intro line isLine node declares
    rw [LineTree.forestLines_buildForest] at isLine
    exact .inr ⟨line, isLine, declares⟩
  have all := (LineTree.statements_become _ nodes read).declares silent declared
  exact (Node.allStatements_singleton _).1 (Node.allStatements_wrapper silent .root all _)

end StyleSense
