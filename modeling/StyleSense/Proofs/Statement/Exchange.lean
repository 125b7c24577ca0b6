import StyleSense.Proofs.Line.Exchange
import StyleSense.Proofs.Line.Tree
import StyleSense.Proofs.Statement.Literal

/-!
Contract: one string literal in place of another.

Owns:
- `LineTree.IsLeaf`, the statements of a text that have no body;
- `LiteralSetting`, a text with a literal in the value of a property or an assignment;
- `parse_literal_exchange`: a literal without its own quote sign may be replaced by any other such.

Does not own: lines that are nested alike (`StyleSense.Proofs.Line.Tree`), and the literals that the
scanners of lines pass over (`StyleSense.Proofs.Line.Quote`).
-/

namespace StyleSense

open Text

namespace LineTree

/-! ## One line in place of another -/

/-- The line is a statement of the text without a body of its own. What stands below `@css` is no
statement. -/
inductive IsLeaf (line : Line) : List LineTree → Prop
  | here {rest : List LineTree} : IsLeaf line (.node line [] :: rest)
  | later {tree : LineTree} {rest : List LineTree}
      (isLater : IsLeaf line rest) :
      IsLeaf line (tree :: rest)
  | inside {header : Line} {children rest : List LineTree}
      (notCss : ¬"@css".toList <+: header.head.text)
      (isInside : IsLeaf line children) :
      IsLeaf line (.node header children :: rest)

theorem IsLeaf.mem_forestLines
    {line : Line}
    {trees : List LineTree}
    (leaf : IsLeaf line trees) :
    line ∈ forestLines trees := by
  induction leaf with
  | here =>
    rw [forestLines, LineTree.lines]
    exact List.mem_cons_self ..
  | later _ inductionHypothesis =>
    rw [forestLines]
    exact List.mem_append_right _ inductionHypothesis
  | inside _ _ inductionHypothesis =>
    rw [forestLines, LineTree.lines]
    exact List.mem_append_left _ (List.mem_cons_of_mem _ inductionHypothesis)

/-- Lines that are the same up to columns, but for one that stands in place of another. -/
def Replaced (line line' : Line) (left right : Line) : Prop :=
  left = line ∧ right = line' ∨ left ≠ line ∧ left.SameText right

variable {M : Matching} {line line' : Line}
variable (sameText : ∀ {left right : Line}, left.SameText right → left.Matches M right)

theorem ListAlike.rawTexts_eq
    {trees trees' : List LineTree}
    (forests : ListAlike (Replaced line line') trees trees')
    (notIn : line ∉ forestLines trees) :
    rawTexts trees = rawTexts trees' := by
  have pairs := forests.forestLines_forall₂
  unfold rawTexts
  generalize forestLines trees = lines at pairs notIn ⊢
  generalize forestLines trees' = lines' at pairs ⊢
  induction pairs with
  | nil => rfl
  | @cons left right _ _ first _ inductionHypothesis =>
    obtain ⟨notHere, notLater⟩ := not_or.mp (mt List.mem_cons.mpr notIn)
    obtain ⟨rfl, _⟩ | ⟨_, same⟩ := first
    · exact absurd rfl notHere
    · rw [List.flatMap_cons, List.flatMap_cons, inductionHypothesis notLater, Line.fragments,
        Line.fragments, List.map_cons, List.map_cons, same.text, same.tail]

include sameText

/-- Nested lines without the one that was replaced are read alike. -/
theorem ListAlike.matches_of_notMem
    {trees trees' : List LineTree}
    (forests : ListAlike (Replaced line line') trees trees')
    (notIn : line ∉ forestLines trees) :
    ListMatches M trees trees' := by
  revert notIn
  apply @ListAlike.rec (Replaced line line')
    (fun tree tree' _ => line ∉ tree.lines → Matches M tree tree')
    (fun trees trees' _ => line ∉ forestLines trees → ListMatches M trees trees')
    (t := forests)
  case node =>
    intro header header' children children' lines bodies inner notIn
    rw [LineTree.lines, List.mem_cons, not_or] at notIn
    obtain ⟨rfl, _⟩ | ⟨_, same⟩ := lines
    · exact absurd rfl notIn.1
    · exact .node (sameText same) (inner notIn.2) fun _ => bodies.rawTexts_eq notIn.2
  case nil => exact fun _ => .nil
  case cons =>
    intro tree tree' rest rest' _ _ first others notIn
    rw [forestLines, List.mem_append, not_or] at notIn
    exact .cons (first notIn.1) (others notIn.2)

/-- Nested lines with one statement replaced are read alike when the statements are. -/
theorem IsLeaf.listMatches
    (places : M.pos line.pos line'.pos)
    (statements : M.Outcome (Node.Matches M) (line.statement (bodyOf []))
      (line'.statement (bodyOf [])))
    {trees trees' : List LineTree}
    (leaf : IsLeaf line trees)
    (once : (forestLines trees).count line = 1)
    (forests : ListAlike (Replaced line line') trees trees') :
    ListMatches M trees trees' := by
  induction leaf generalizing trees' with
  | @here rest =>
    cases forests with
    | cons first others =>
      rw [forestLines, LineTree.lines, forestLines, List.cons_append, List.count_cons_self,
        List.nil_append, Nat.add_eq_right, List.count_eq_zero] at once
      cases first with
      | node lines bodies =>
        cases bodies
        obtain ⟨_, rfl⟩ | ⟨notHere, _⟩ := lines
        · exact .cons (.leaf places statements) (others.matches_of_notMem sameText once)
        · exact absurd rfl notHere
  | @later tree rest isLater inductionHypothesis =>
    have isIn := List.count_pos_iff.mpr isLater.mem_forestLines
    rw [forestLines, List.count_append] at once
    cases forests with
    | @cons _ tree' _ rest' first others =>
      have notFirst : line ∉ forestLines [tree] := by
        rw [forestLines, forestLines, List.append_nil]
        exact List.count_eq_zero.mp (by omega)
      have alone : ListAlike (Replaced line line') [tree] [tree'] := .cons first .nil
      cases alone.matches_of_notMem sameText notFirst with
      | cons head _ => exact .cons head (inductionHypothesis (by omega) others)
  | @inside header children rest notCss isInside inductionHypothesis =>
    have isIn := List.count_pos_iff.mpr isInside.mem_forestLines
    rw [forestLines, LineTree.lines, List.count_append, List.count_cons] at once
    cases forests with
    | cons first others =>
      have notLater : line ∉ forestLines rest := List.count_eq_zero.mp (by omega)
      cases first with
      | node lines bodies =>
        obtain ⟨rfl, _⟩ | ⟨_, same⟩ := lines
        · rw [if_pos (by simp)] at once
          omega
        · refine .cons (.node (sameText same) ?_ fun isCss => absurd isCss notCss)
            (others.matches_of_notMem sameText notLater)
          exact inductionHypothesis (by omega) bodies

end LineTree

/-! ## Texts -/

/-- A text in which the literal `body` stands in the value of a property or of an assignment that is
written on one line. -/
structure LiteralSetting (quote : Char) (body : List Char) where
  text : List Char
  /-- The physical lines before the literal, and what stands before it in its own. -/
  above : List (List Char)
  before : List Char
  /-- What stands after the literal in its physical line, and the lines after that. -/
  after : List Char
  below : List (List Char)
  physical : physicalLines text = above ++ (before ++ quoted quote body ++ after) :: below
  lines : List Line
  scanned : scanLines text = .ok lines
  indent : Nat
  offset : Nat
  /-- The statement before the literal. -/
  front : List Char
  /-- The value before the literal. -/
  inside : List Char
  /-- The statement after the literal. -/
  rest : List Char
  isLeaf : LineTree.IsLeaf (literalLine indent (above.length + 1) offset front quote body rest)
    (buildForest lines)
  stands : offset + width front = width before
  hasValue : HasValue (front ++ quote :: (body ++ quote :: rest))
    (inside ++ quote :: (body ++ quote :: rest))
  leads : Token.Leads (quote :: (body ++ quote :: rest)) (inside ++ quote :: (body ++ quote :: rest))
  /-- No scanner takes what stands before the literal for the start of a comment or a quote. -/
  code : LeadsToCode (Scan.initial.run 1 above).inComment before

/-- A text with another literal in the place of the first. -/
def LiteralSetting.IsReplaced {quote : Char} {body : List Char} (setting : LiteralSetting quote body)
    (body' text' : List Char) : Prop :=
  physicalLines text' =
    setting.above ++ (setting.before ++ quoted quote body' ++ setting.after) :: setting.below

theorem Line.SameText.matches_exchanged
    {left right : Line}
    (same : left.SameText right)
    (value value' : List Char) :
    left.Matches (Matching.exchanged value value') right := by
  have stretch := Matching.exchanged_stretch value value' left.head.text left.head.line
    left.head.offset right.head.offset
  refine ⟨⟨same.text, same.line ▸ stretch⟩, ?_⟩
  rw [← same.tail]
  exact List.forall₂_same.mpr fun fragment _ => ⟨rfl, Matching.exchanged_stretch ..⟩

/-- A sealed literal may be replaced by any other. -/
theorem LiteralSetting.parse_matches
    {quote : Char}
    (isQuote : IsQuote quote)
    {body body' value value' : List Char}
    (reads : IsLiteral quote body value)
    (reads' : IsLiteral quote body' value')
    (isSealed : Sealed quote body)
    (isSealed' : Sealed quote body')
    (setting : LiteralSetting quote body)
    {text' : List Char}
    (replaced : setting.IsReplaced body' text') :
    (Matching.exchanged value value').Outcome (Node.Matches (Matching.exchanged value value'))
      (Node.parse setting.text) (Node.parse text') := by
  have leaf := setting.isLeaf
  have isLine := leaf.mem_forestLines
  have statements := statement_literal_matches isQuote reads reads' setting.hasValue setting.leads
    setting.indent (setting.above.length + 1) setting.offset
  rw [LineTree.forestLines_buildForest] at isLine
  obtain ⟨earlier, later, later', split, scanned', elsewhere, same⟩ := scanLines_exchange isQuote
    isSealed isSealed' setting.code setting.physical replaced setting.scanned setting.stands isLine
  generalize lineEq : literalLine setting.indent (setting.above.length + 1) setting.offset
    setting.front quote body setting.rest = line at *
  generalize lineEq' : literalLine setting.indent (setting.above.length + 1) setting.offset
    setting.front quote body' setting.rest = line' at *
  rw [List.mem_append, not_or] at elsewhere
  have once : (LineTree.forestLines (buildForest setting.lines)).count line = 1 := by
    rw [LineTree.forestLines_buildForest, split, List.count_append, List.count_cons_self,
      List.count_eq_zero.mpr elsewhere.1, List.count_eq_zero.mpr elsewhere.2]
  have pairs : List.Forall₂ (LineTree.Replaced line line') setting.lines
      (earlier ++ line' :: later') := by
    rw [split]
    have notEarlier : ∀ other ∈ earlier, other ≠ line := fun other isEarlier equal =>
      elsewhere.1 (equal ▸ isEarlier)
    have notLater : ∀ other ∈ later, other ≠ line := fun other isLater equal =>
      elsewhere.2 (equal ▸ isLater)
    refine List.rel_append (List.forall₂_same.mpr fun other isEarlier => ?_)
      (.cons (.inl ⟨rfl, rfl⟩) (((List.forall₂_and_left later later').mpr ⟨notLater, same⟩).imp fun _ _ => .inr))
    exact .inr ⟨notEarlier other isEarlier, rfl, rfl, rfl, rfl⟩
  have sameIndent : ∀ {left right : Line}, LineTree.Replaced line line' left right →
      left.indent = right.indent := by
    rintro left right (⟨rfl, rfl⟩ | ⟨_, same⟩)
    · rw [← lineEq, ← lineEq']
      rfl
    · exact same.indent
  have sameOrder : LineTree.KeepsOrder (LineTree.Replaced line line') :=
    LineTree.keepsOrder_of_indent_eq sameIndent
  have places : line.pos.line = line'.pos.line := by
    rw [← lineEq, ← lineEq']
    rfl
  have forests := leaf.listMatches (fun same => same.matches_exchanged value value') places statements
    once (LineTree.buildForest_alike sameOrder pairs)
  rw [Node.parse_of_scanLines setting.scanned, Node.parse_of_scanLines scanned']
  exact forests.statements_matches.bind fun nodes => .ok (.wrapper nodes .none rfl)

/-- What stands in a literal is opaque to the structure of lines, as long as its own quote sign is
not in it: a tree or a fault with another literal in its place differs in the value of that string
and in columns only. The scanners of lines know no escapes, so nothing of the kind holds of a literal
with an escaped quote sign. -/
theorem parse_literal_exchange
    {quote : Char}
    (isQuote : IsQuote quote)
    {body body' value value' : List Char}
    (reads : IsLiteral quote body value)
    (reads' : IsLiteral quote body' value')
    (unescaped : quote ∉ body)
    (unescaped' : quote ∉ body')
    (setting : LiteralSetting quote body)
    {text' : List Char}
    (replaced : setting.IsReplaced body' text') :
    (Matching.exchanged value value').Outcome (Node.Matches (Matching.exchanged value value'))
      (Node.parse setting.text) (Node.parse text') := by
  have isSealed := sealed_of_notMem unescaped isQuote
  have isSealed' := sealed_of_notMem unescaped' isQuote
  exact setting.parse_matches isQuote reads reads' isSealed isSealed' replaced

theorem parse_literal_exchange_signs :
    IsLiteral '\'' "b".toList "b".toList ∧
      IsLiteral '\'' "; \x7d // ( \\\"".toList "; \x7d // ( \"".toList ∧
      (Matching.exchanged "b".toList "; \x7d // ( \"".toList).Outcome
        (Node.Matches (Matching.exchanged "b".toList "; \x7d // ( \"".toList))
        (Node.parse ".a\n  content: 'b' c".toList)
        (Node.parse ".a\n  content: '; \x7d // ( \\\"' c".toList) := by
  let setting : LiteralSetting '\'' "b".toList :=
    { text := ".a\n  content: 'b' c".toList
      above := [".a".toList]
      before := "  content: ".toList
      after := " c".toList
      below := []
      physical := by decide
      lines := [⟨0, ⟨1, 0, ".a".toList⟩, []⟩, ⟨2, ⟨2, 2, "content: 'b' c".toList⟩, []⟩]
      scanned := by decide
      indent := 2
      offset := 2
      front := "content: ".toList
      inside := []
      rest := " c".toList
      isLeaf := .inside (by decide) .here
      stands := by decide
      hasValue := by
        have found : Pattern.property? "content: 'b' c".toList =
            some ("content".toList, "'b' c".toList) := by
          decide +kernel
        exact .property (by decide) (by decide) found
      leads := by
        have passed : Token.skipGap false "'b' c".toList = .ok ("'b' c".toList, false) := by
          decide +kernel
        exact .here passed
      code := by decide }
  have reads : IsLiteral '\'' "b".toList "b".toList := by decide
  have reads' : IsLiteral '\'' "; \x7d // ( \\\"".toList "; \x7d // ( \"".toList := by decide
  have replaced : setting.IsReplaced "; \x7d // ( \\\"".toList
      ".a\n  content: '; \x7d // ( \\\"' c".toList := by
    change physicalLines _ = _
    decide
  refine ⟨reads, reads', ?_⟩
  exact parse_literal_exchange (.inr rfl) reads reads' (by decide) (by decide) setting replaced

end StyleSense
