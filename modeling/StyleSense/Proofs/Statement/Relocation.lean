import StyleSense.Proofs.Line.Tree
import StyleSense.Proofs.Statement.Separation

/-!
Contract: lines that stand elsewhere are the same statements up to places.

A statement is read from the text of its line and from its body. Where the line stands shows in line
numbers and columns only, and so does where the lines of the body stand; but a body that is moved
need not be moved like the line above it, so no single `Matching` of places covers the two.

Owns:
- `Concur`, the relation of two readings that both fail or both succeed;
- `Line.Relocated` and `Body.Relocated`, a line and a body that are the same up to places, and
  `Line.statement_relocated`, one lemma for each kind of statement behind it;
- `LineTree.ListAlike.statements_relocated`, the result for nested lines, and `Node.parse_relocated`,
  the result for texts.

Does not own: texts whose lines are so related (`StyleSense.Proofs.Statement.Outline`).
-/

namespace StyleSense

open Text

/-- Two readings that both succeed, with related results, or both fail. -/
inductive Concur {α β : Type} (related : α → β → Prop) :
    Except ParseError α → Except ParseError β → Prop
  | ok {left : α} {right : β} (results : related left right) : Concur related (.ok left) (.ok right)
  | error (left right : ParseError) : Concur related (.error left) (.error right)

namespace Concur

/-- Readings that concur still do when readings of their results follow that concur. -/
theorem bind
    {α β γ δ : Type}
    {related : α → β → Prop}
    {relatedNext : γ → δ → Prop}
    {left : Except ParseError α}
    {right : Except ParseError β}
    (readings : Concur related left right)
    {next : α → Except ParseError γ}
    {next' : β → Except ParseError δ}
    (steps : ∀ {first second}, related first second →
      Concur relatedNext (next first) (next' second)) :
    Concur relatedNext (left >>= next) (right >>= next') := by
  cases readings with
  | ok results => exact steps results
  | error fault fault' => exact .error fault fault'

/-- What concurs is the same in the eyes of a function that equates related results. -/
theorem toOption_map_eq
    {α β : Type}
    {view : α → β}
    {left right : Except ParseError α}
    (readings : Concur (fun first second => view first = view second) left right) :
    left.toOption.map view = right.toOption.map view := by
  cases readings with
  | ok results => exact congrArg some results
  | error _ _ => rfl

end Concur

/-- Outcomes that correspond are readings that concur. -/
theorem Matching.Outcome.concur
    {M : Matching}
    {α β : Type}
    {related : α → β → Prop}
    {left : Except ParseError α}
    {right : Except ParseError β}
    (outcomes : M.Outcome related left right) :
    Concur related left right := by
  cases outcomes with
  | ok results => exact .ok results
  | error _ => exact .error _ _

/-- Nodes that are the same up to places. -/
abbrev Node.SameUnplaced (node node' : Node) : Prop :=
  node.unplaced = node'.unplaced

/-- Lists of nodes that are the same up to places. -/
abbrev Node.ListSameUnplaced (nodes nodes' : List Node) : Prop :=
  Node.unplacedList nodes = Node.unplacedList nodes'

variable {M : Matching}

/-- Values that correspond with equal strings are equal up to their places. -/
theorem Expression.Matches.unplaced_eq
    (equalStrings : ∀ {value value'}, M.string value value' → value = value')
    {value value' : Expression}
    (values : Expression.Matches M value value') :
    value.unplaced = value'.unplaced := by
  have nodes := (Node.Matches.expression values).unplaced_eq equalStrings
  rw [Node.unplaced, Node.unplaced] at nodes
  exact Node.expression.inj nodes

/-- Selectors that correspond with equal strings are equal up to their places. -/
theorem Selector.ListMatches.unplaced_eq
    (equalStrings : ∀ {value value'}, M.string value value' → value = value')
    {heads heads' : List Selector}
    (selectors : Selector.ListMatches M heads heads') :
    Selector.unplacedList heads = Selector.unplacedList heads' := by
  have rules := (Node.Matches.rule selectors .other M.pos_unknown).unplaced_eq equalStrings
  rw [Node.unplaced, Node.unplaced] at rules
  exact (Node.rule.inj rules).1

/-! ## Bodies -/

/-- Bodies that are the same up to places, as far as they are read as statements. -/
structure Body.Relocated (body body' : Body) : Prop where
  first : body.first.isSome = body'.first.isSome
  statements : Concur Node.ListSameUnplaced body.statements body'.statements

namespace Body.Relocated

variable {body body' : Body} (bodies : Body.Relocated body body')

include bodies

theorem mustBeEmpty_relocated : Concur Eq body.mustBeEmpty body'.mustBeEmpty := by
  obtain ⟨first, raw, statements⟩ := body
  obtain ⟨first', raw', statements'⟩ := body'
  have same : first.isSome = first'.isSome := bodies.first
  cases first with
  | none =>
    cases first' with
    | none => exact .ok rfl
    | some line' => cases same
  | some line =>
    cases first' with
    | none => cases same
    | some line' => exact .error _ _

theorem block_relocated (pos pos' : SourcePos) :
    Concur Node.SameUnplaced (body.block pos) (body'.block pos') := by
  refine bodies.statements.bind fun nodes => .ok ?_
  rw [Node.SameUnplaced, Node.unplaced, Node.unplaced, nodes]

end Body.Relocated

/-! ## Lines -/

/-- Lines of the same text, each on one physical line. What stands below `@css` is kept as text, so a
line of it is not the same when its body is another one. -/
structure Line.Relocated (line line' : Line) : Prop where
  text : line.head.text = line'.head.text
  notCss : ¬"@css".toList <+: line.head.text
  known : line.head.line ≠ 0
  known' : line'.head.line ≠ 0
  single : line.tail = []
  single' : line'.tail = []

namespace Line.Relocated

variable {line line' : Line} (lines : Line.Relocated line line')

include lines

/-- The places of the one line correspond to those of the other. -/
abbrev matching : Matching :=
  Matching.onLines lines.known lines.known'

theorem lines_match : Line.Matches lines.matching line line' := by
  refine ⟨⟨lines.text, ⟨fun _ => .inl ⟨rfl, rfl⟩, fun _ _ _ _ _ => trivial,
    fun _ _ _ _ _ => trivial⟩⟩, ?_⟩
  rw [lines.single, lines.single']
  exact .nil

/-- What does not look at the body is the same statement. -/
theorem concur
    {left right : Except ParseError Node}
    (outcomes : lines.matching.Outcome (Node.Matches lines.matching) left right) :
    Concur Node.SameUnplaced left right := by
  cases outcomes with
  | ok nodes => exact .ok (nodes.unplaced_eq id)
  | error _ => exact .error _ _

variable {body body' : Body} (bodies : Body.Relocated body body')

include bodies

theorem assignment_relocated
    {name value : List Char}
    (isName : name <+: line.head.text ∧ Solid name)
    (isEnd : value <:+ line.head.text) :
    Concur Node.SameUnplaced (line.assignment body name value)
      (line'.assignment body' name value) := by
  have matched := lines.lines_match
  unfold assignment
  simp only
  split
  · refine bodies.statements.bind fun nodes => .ok ?_
    simp [Node.SameUnplaced, Node.unplaced, Node.unplacedOption, Expression.unplaced,
      Node.unplacedList, nodes]
  · refine bodies.mustBeEmpty_relocated.bind fun _ => lines.concur ?_
    refine (tokensOf_matches matched isEnd).bind fun tokens => ?_
    refine (Expression.read_matches tokens (placeOf_matches matched value)).bind fun values => .ok ?_
    exact .declaration (name_word matched isName) (.expression values) matched.pos

omit lines in
theorem functionDefinition_relocated (name params : List Char) :
    Concur Node.SameUnplaced (line.functionDefinition body name params)
      (line'.functionDefinition body' name params) := by
  refine (bodies.block_relocated line.pos line'.pos).bind fun block => .ok ?_
  simp [Node.SameUnplaced, Node.unplaced, Node.unplacedOption, block]

theorem computedRule_relocated
    {inside : List Char}
    (whole : line.head.text = '\x7b' :: inside ++ ['\x7d']) :
    Concur Node.SameUnplaced (line.computedRule body inside) (line'.computedRule body' inside) := by
  have matched := lines.lines_match
  have stretch := matched.head.stretch.part
    (show line.head.text = ['\x7b'] ++ inside ++ ['\x7d'] from whole)
  refine (tokenize_matches stretch).concur.bind fun tokens => ?_
  refine (Expression.read_matches tokens (stretch.pos 1)).concur.bind fun values => ?_
  refine (bodies.block_relocated line.pos line'.pos).bind fun block => .ok ?_
  simp [Node.SameUnplaced, Node.unplaced, Node.unplacedOption, Node.unplacedList, block,
    values.unplaced_eq id]

theorem rule_relocated :
    Concur Node.SameUnplaced (line.rule body) (line'.rule body') := by
  have matched := lines.lines_match
  refine (bodies.block_relocated line.pos line'.pos).bind fun block => ?_
  refine (selectors_matches (.cons matched.head matched.tail)).concur.bind fun heads => .ok ?_
  simp [Node.SameUnplaced, Node.unplaced, block, heads.unplaced_eq id]

omit lines in
/-- At-rules other than `@css`, which keeps the text of its body. -/
theorem atRule_relocated
    {text : List Char}
    (notCss : ¬"css".toList <+: text) :
    Concur Node.SameUnplaced (line.atRule body text) (line'.atRule body' text) := by
  have block := bodies.block_relocated line.pos line'.pos
  have empty := bodies.mustBeEmpty_relocated
  unfold atRule
  simp only
  split
  · refine block.bind fun nodes => .ok ?_
    simp [Node.SameUnplaced, Node.unplaced, Node.unplacedOption, nodes]
  · split
    · exact empty.bind fun _ => .ok rfl
    · split
      · exact empty.bind fun _ => .ok rfl
      · split
        · rename_i isCss
          exact absurd (isCss ▸ List.takeWhile_prefix _) notCss
        · split
          · exact empty.bind fun _ => .ok rfl
          · refine block.bind fun nodes => .ok ?_
            simp [Node.SameUnplaced, Node.unplaced, Node.unplacedOption, nodes]

theorem plainStatement_relocated :
    Concur Node.SameUnplaced (line.plainStatement body) (line'.plainStatement body') := by
  have matched := lines.lines_match
  unfold plainStatement
  simp only [← lines.text, ← bodies.first]
  split
  · exact functionDefinition_relocated bodies _ _
  · rename_i inside _ found
    exact lines.computedRule_relocated bodies (Pattern.interpolation?_eq found)
  · split
    · exact lines.rule_relocated bodies
    · split
      · rename_i name value found
        exact lines.concur (property_matches matched (Pattern.property?_name found)
          (Pattern.property?_suffix found))
      · exact lines.concur (valueStatement_matches matched (List.suffix_refl _))

/-- Lines of the same text over the same bodies are the same statement. -/
theorem statement_relocated :
    Concur Node.SameUnplaced (line.statement body) (line'.statement body') := by
  have matched := lines.lines_match
  unfold statement
  simp only [← lines.text]
  split
  · rename_i isAt
    obtain ⟨rest, whole⟩ := List.head?_eq_some_iff.mp isAt
    refine atRule_relocated bodies fun isCss => lines.notCss ?_
    rw [whole] at isCss ⊢
    exact List.cons_prefix_cons.mpr ⟨rfl, isCss⟩
  · rename_i name value found _
    exact lines.assignment_relocated bodies (Pattern.assignment?_name found)
      (Pattern.assignment?_suffix found)
  · split
    · exact bodies.mustBeEmpty_relocated.bind fun _ =>
        lines.concur (valueStatement_matches matched (List.drop_suffix _ _))
    · split
      · exact bodies.block_relocated _ _
      · exact lines.plainStatement_relocated bodies

end Line.Relocated

/-! ## Nested lines -/

namespace LineTree

variable {R : Line → Line → Prop}

theorem ListAlike.head?_isSome
    {trees trees' : List LineTree}
    (forests : ListAlike R trees trees') :
    (trees.head?.map LineTree.line).isSome = (trees'.head?.map LineTree.line).isSome := by
  cases forests <;> rfl

/-- Lines of the same texts that are nested alike are the same statements. -/
theorem ListAlike.statements_relocated
    (relocated : ∀ {line line' : Line}, R line line' → line.Relocated line')
    {trees trees' : List LineTree}
    (forests : ListAlike R trees trees') :
    Concur Node.ListSameUnplaced (statements trees) (statements trees') := by
  apply @ListAlike.rec R
    (fun tree tree' _ => Concur Node.SameUnplaced tree.statement tree'.statement)
    (fun trees trees' _ => Concur Node.ListSameUnplaced (statements trees) (statements trees'))
    (t := forests)
  case node =>
    intro line line' children children' lines bodies inner
    rw [statement_node, statement_node]
    exact (relocated lines).statement_relocated ⟨bodies.head?_isSome, inner⟩
  case nil =>
    rw [statements]
    exact .ok rfl
  case cons =>
    intro tree tree' rest rest' _ _ first others
    rw [statements, statements]
    refine first.bind fun node => others.bind fun nodes => .ok ?_
    rw [Node.ListSameUnplaced, Node.unplacedList, Node.unplacedList, node, nodes]

end LineTree

/-- Texts whose lines are the same up to places and are indented alike are read as the same tree up
to places, or both have a fault. -/
theorem Node.parse_relocated
    {R : Line → Line → Prop}
    (relocated : ∀ {line line' : Line}, R line line' → line.Relocated line')
    (sameOrder : LineTree.KeepsOrder R)
    {text text' : List Char}
    {lines lines' : List Line}
    (scanned : scanLines text = .ok lines)
    (scanned' : scanLines text' = .ok lines')
    (pairs : List.Forall₂ R lines lines') :
    (Node.parse text).toOption.map Node.unplaced =
      (Node.parse text').toOption.map Node.unplaced := by
  have forests := LineTree.buildForest_alike sameOrder pairs
  rw [Node.parse_of_scanLines scanned, Node.parse_of_scanLines scanned']
  apply Concur.toOption_map_eq
  refine (forests.statements_relocated relocated).bind fun nodes => .ok ?_
  rw [Node.unplaced, Node.unplaced, nodes]

end StyleSense
