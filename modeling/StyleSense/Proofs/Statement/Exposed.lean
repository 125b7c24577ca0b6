import StyleSense.Proofs.Line.Parent
import StyleSense.Proofs.Selector.Header

/-!
Contract: every line that does not stand below `@css` is a statement of the tree.

Owns:
- `Line.Becomes.encloses`: the statements below a line that is no `@css` are nodes within its own;
- `LineTree.Stands`, the trees of lines outside the bodies of `@css`, and `Line.Exposed`, which says
  so of a line by the lines before it;
- `parse_exposed`: an exposed line with the lines below it is a node of the tree.

Does not own: the lines below `@css` (`StyleSense.Proofs.Statement.Verbatim`).
-/

namespace StyleSense

open Text

namespace Line

/-! ## Statements with a body -/

/-- The body of a line can be read, and its statements are nodes within the node. -/
def Encloses (body : Body) (node : Node) : Prop :=
  ∃ nodes, body.statements = .ok nodes ∧ ∀ inner ∈ nodes, node.Contains inner

theorem Encloses.within
    {body : Body}
    {inner outer : Node}
    (encloses : Encloses body inner)
    (contains : outer.Contains inner) :
    Encloses body outer := by
  obtain ⟨nodes, read, within⟩ := encloses
  exact ⟨nodes, read, fun node isIn => contains.trans (within node isIn)⟩

/-- What is nested in a node is in it. -/
theorem contains_of_nested
    {node inner : Node}
    (isNested : inner ∈ node.nested) :
    node.Contains inner :=
  .single (List.mem_append_left _ (List.mem_append_left _ isNested))

/-- A node with the body as its block. -/
theorem encloses_of_block
    {body : Body}
    {nodes : List Node}
    (isBody : body.statements = .ok nodes)
    {pos : SourcePos}
    {node : Node}
    (isNested : .wrapper .block nodes none pos ∈ node.nested) :
    Encloses body node := by
  refine ⟨nodes, isBody, fun inner isIn => ?_⟩
  exact (contains_of_nested isNested).trans (contains_of_nested (List.mem_append_left _ isIn))

/-- The statements below a line that is no `@css` are nodes within its own. -/
theorem Becomes.encloses
    {line : Line}
    {body : Body}
    {node : Node}
    (becomes : line.Becomes body node)
    (hasBody : body.first ≠ none)
    (notLiteral : ¬line.IsLiteral) :
    Encloses body node := by
  have itself {inner : Node} : inner ∈ [inner] := List.mem_singleton.mpr rfl
  cases becomes with
  | value hasValue | assignment _ hasValue | property _ hasValue _ => exact absurd hasValue.alone hasBody
  | @atblock name value nodes pos _ isBody _ =>
    refine ⟨nodes, isBody, fun inner isIn => ?_⟩
    have inBlock : (Node.atblock nodes pos).Contains inner := contains_of_nested isIn
    exact (contains_of_nested itself).trans ((contains_of_nested itself).trans inBlock)
  | function _ _ isBody =>
    exact (encloses_of_block isBody itself).within (contains_of_nested itself)
  | computed _ isBody => exact encloses_of_block isBody (List.mem_append_right _ itself)
  | rule _ isBody | bodied _ _ isBody => exact encloses_of_block isBody itself
  | control isBody =>
    exact ⟨_, isBody, fun inner isIn => contains_of_nested (List.mem_append_left _ isIn)⟩
  | bodiless _ _ alone =>
    rcases alone with isEmpty | isLiteral
    · exact absurd isEmpty hasBody
    · exact absurd isLiteral notLiteral
  | silent isEmpty => exact absurd isEmpty hasBody

end Line

namespace LineTree

/-! ## Trees outside `@css` -/

/-- A tree of lines stands among others or below one of them that is no `@css`. -/
inductive Stands (tree : LineTree) : List LineTree → Prop
  | here {rest : List LineTree} : Stands tree (tree :: rest)
  | later {other : LineTree} {rest : List LineTree}
      (isLater : Stands tree rest) :
      Stands tree (other :: rest)
  | inside {header : Line} {children rest : List LineTree}
      (notLiteral : ¬header.IsLiteral)
      (isInside : Stands tree children) :
      Stands tree (.node header children :: rest)

/-- A tree that stands among some statements is a node in one of them. -/
theorem Stands.contained
    {tree : LineTree}
    {trees : List LineTree}
    (stands : Stands tree trees) :
    Gives (fun nodes => ∃ node, tree.statement = .ok node ∧ ∃ outer ∈ nodes, outer.Contains node)
      (statements trees) := by
  induction stands with
  | here =>
    rw [statements]
    refine Gives.bind fun node read => Gives.bind fun nodes _ => .ok ?_
    exact ⟨node, read, node, List.mem_cons_self .., .refl⟩
  | later _ inductionHypothesis =>
    rw [statements]
    refine Gives.bind fun _ _ => Gives.bind fun nodes readLater => .ok ?_
    obtain ⟨node, read, outer, isLater, contains⟩ := inductionHypothesis nodes readLater
    exact ⟨node, read, outer, List.mem_cons_of_mem _ isLater, contains⟩
  | @inside header children rest notLiteral isInside inductionHypothesis =>
    rw [statements]
    refine Gives.bind fun top readTop => Gives.bind fun _ _ => .ok ?_
    rw [statement_node] at readTop
    have hasBody : (bodyOf children).first ≠ none := by
      cases isInside <;> simp [bodyOf]
    obtain ⟨nodes, readBody, within⟩ :=
      (Line.statement_becomes top readTop).encloses hasBody notLiteral
    obtain ⟨node, read, outer, isIn, contains⟩ := inductionHypothesis nodes readBody
    exact ⟨node, read, top, List.mem_cons_self .., (within outer isIn).trans contains⟩

theorem Stands.append
    {tree : LineTree}
    {left right : List LineTree}
    (stands : Stands tree (left ++ right)) :
    Stands tree left ∨ Stands tree right := by
  induction left with
  | nil => exact .inr stands
  | cons first rest inductionHypothesis =>
    cases stands with
    | here => exact .inl .here
    | later isLater => exact (inductionHypothesis isLater).imp_left .later
    | inside notLiteral isInside => exact .inl (.inside notLiteral isInside)

end LineTree

/-- No `@css` among the lines `before` has the line in its body: after each that is indented less
comes a line that is indented no deeper than it. -/
def Line.Exposed (before : List Line) (line : Line) : Prop :=
  ∀ above outer between, before = above ++ outer :: between → outer.IsLiteral →
    outer.indent < line.indent → ∃ other ∈ between, other.indent ≤ outer.indent

namespace LineTree

/-- The body of a line is the deeper lines after it, up to the first that is not deeper. -/
theorem forestLines_bodyTrees
    {top : Line}
    {inside later : List Line}
    (deeper : ∀ line ∈ inside, top.indent < line.indent)
    (stops : ∀ line ∈ later.head?, line.indent ≤ top.indent) :
    forestLines (bodyTrees top (inside ++ later)) = inside := by
  have whole := forestLines_bodyTrees_append top (inside ++ later)
  rcases List.append_eq_append_iff.mp whole with ⟨others, split, outside⟩ | ⟨others, split, outside⟩
  · cases isBeside : laterTrees top (inside ++ later) with
    | nil =>
      rw [isBeside, forestLines] at outside
      obtain ⟨rfl, _⟩ := List.append_eq_nil_iff.mp outside.symm
      rw [List.append_nil] at split
      exact split.symm
    | cons tree trees =>
      have shallow := indent_le_of_laterTrees top _ isBeside
      obtain ⟨first, children⟩ := tree
      rw [isBeside, forestLines, lines] at outside
      cases others with
      | nil =>
        rw [List.append_nil] at split
        exact split.symm
      | cons line rest =>
        obtain ⟨rfl, _⟩ := List.cons.inj outside
        have isDeeper := deeper first (by rw [split]; simp)
        exact absurd shallow (Nat.not_le_of_lt isDeeper)
  · cases others with
    | nil => rw [split, List.append_nil]
    | cons line rest =>
      have isDeeper := indent_lt_of_mem_bodyTrees top (inside ++ later)
        (by rw [split]; exact List.mem_append_right _ (List.mem_cons_self ..))
      have shallow := stops line (by rw [outside]; rfl)
      exact absurd shallow (Nat.not_le_of_lt isDeeper)

/-- A line after a first one comes after the body of the first or is in it. -/
theorem body_cases
    (top : Line)
    (between : List Line)
    (line : Line)
    (rest : List Line) :
    (∃ others, others <:+ between ∧
        forestLines (laterTrees top (between ++ line :: rest)) = others ++ line :: rest) ∨
      ∀ other, other ∈ between ∨ other = line → top.indent < other.indent := by
  have whole := forestLines_bodyTrees_append top (between ++ line :: rest)
  have deeper := fun other => @indent_lt_of_mem_bodyTrees top (between ++ line :: rest) other
  rcases List.append_eq_append_iff.mp whole with ⟨others, split, outside⟩ | ⟨others, inside, split⟩
  · exact .inl ⟨others, ⟨_, split.symm⟩, outside⟩
  · cases others with
    | nil => exact .inl ⟨[], List.nil_suffix, split.symm⟩
    | cons first others =>
      obtain ⟨rfl, _⟩ := List.cons.inj split
      refine .inr fun other isThere => deeper other ?_
      rw [inside, List.mem_append, List.mem_cons]
      rcases isThere with isBetween | rfl
      · exact .inl isBetween
      · exact .inr (.inl rfl)

/-- An exposed line stands outside the bodies of `@css`. -/
theorem stands_of_exposed
    {line : Line}
    (rest before : List Line)
    (exposed : line.Exposed before) :
    Stands (.node line (bodyTrees line rest)) (buildForest (before ++ line :: rest)) := by
  cases before with
  | nil =>
    rw [List.nil_append, buildForest_cons]
    exact .here
  | cons top between =>
    have laterLines := buildForest_forestLines (laterTrees_suffix top (between ++ line :: rest))
    rw [List.cons_append, buildForest_cons]
    rcases body_cases top between line rest with
      ⟨others, ⟨front, rfl⟩, outside⟩ | deeper
    · -- The line comes after the body of the first one.
      refine .later ?_
      rw [← laterLines, outside]
      refine stands_of_exposed rest others fun above outer after same => ?_
      refine exposed (top :: (front ++ above)) outer after ?_
      rw [same, List.cons_append, List.append_assoc]
    · have later : line.Exposed between := fun above outer after same =>
        exposed (top :: above) outer after (by rw [same, List.cons_append])
      have stands := stands_of_exposed rest between later
      rw [← bodyTrees_append_laterTrees top] at stands
      rcases stands.append with isInside | isLater
      · refine .inside (fun isLiteral => ?_) isInside
        obtain ⟨other, isBetween, shallow⟩ := exposed [] top between rfl isLiteral
          (deeper line (.inr rfl))
        have isDeeper := deeper other (.inl isBetween)
        omega
      · exact .later isLater
termination_by before.length

end LineTree

/-- An exposed line with the lines below it is a node of the tree. -/
theorem parse_exposed
    {text : List Char}
    {tree : Node}
    (parsed : Node.parse text = .ok tree)
    {before rest : List Line}
    {line : Line}
    (scanned : scanLines text = .ok (before ++ line :: rest))
    (exposed : line.Exposed before) :
    ∃ node, line.statement (LineTree.bodyOf (LineTree.bodyTrees line rest)) = .ok node ∧
      tree.Contains node := by
  obtain ⟨lines, nodes, scanned', read, rfl⟩ := Node.parse_ok parsed
  obtain rfl := Except.ok.inj (scanned'.symm.trans scanned)
  have stands := LineTree.stands_of_exposed rest before exposed
  obtain ⟨node, readNode, outer, isIn, contains⟩ := stands.contained nodes read
  rw [LineTree.statement_node] at readNode
  refine ⟨node, readNode, ?_⟩
  exact (Line.contains_of_nested (List.mem_append_left _ isIn)).trans contains

end StyleSense
