import StyleSense.Document
import StyleSense.Node.Equality
import StyleSense.Proofs.Expression.Derivation
import StyleSense.Proofs.Line.Order
import StyleSense.Proofs.Statement.Exchange

/-!
Contract: every fault of a stylesheet has a place in the text.

Owns:
- `FaultsAt`, an outcome whose faults are at good places;
- one lemma for each kind of statement, on the assumption that what its line shows is good;
- `parse_fault_inside`, that the place of a fault is a character of the text.

Does not own: the causes of the faults.
-/

namespace StyleSense

open Text

/-- Every fault in the outcome is at a good place. -/
def FaultsAt (good : SourcePos → Prop) {α : Type} (result : Except ParseError α) : Prop :=
  ∀ error, result = .error error → good error.pos

namespace FaultsAt

variable {good : SourcePos → Prop} {α β : Type}

theorem ok (value : α) : FaultsAt good (.ok value : Except ParseError α) :=
  fun _ failed => nomatch failed

theorem error
    {fault : Fault}
    {pos : SourcePos}
    (isGood : good pos) :
    FaultsAt good (.error ⟨fault, pos⟩ : Except ParseError α) := by
  intro error failed
  cases failed
  exact isGood

theorem bind
    {first : Except ParseError α}
    (firsts : FaultsAt good first)
    {next : α → Except ParseError β}
    (nexts : ∀ value, first = .ok value → FaultsAt good (next value)) :
    FaultsAt good (first >>= next) := by
  cases first with
  | error fault =>
    intro error failed
    cases failed
    exact firsts fault rfl
  | ok value => exact nexts value rfl

end FaultsAt

section Statements

variable {good : SourcePos → Prop}

theorem readTerms_faultsAt
    {tokens : List Token}
    (places : ∀ token ∈ tokens, good token.pos) :
    FaultsAt good (Expression.readTerms tokens) := by
  intro error failed
  obtain ⟨token, isIn, place⟩ := Expression.readTerms_fault failed
  rw [place]
  exact places token isIn

theorem read_faultsAt
    {tokens : List Token}
    (places : ∀ token ∈ tokens, good token.pos)
    (pos : SourcePos) :
    FaultsAt good (Expression.read tokens pos) := by
  have terms := readTerms_faultsAt places
  unfold Expression.read
  generalize Expression.readTerms tokens = result at terms ⊢
  cases result with
  | error fault =>
    intro error failed
    cases failed
    exact terms fault rfl
  | ok nodes => exact .ok _

/-! ## Names and selectors -/

/-- The braces of an interpolation and what is inside them are shown by the name. -/
theorem readSegments_faultsAt
    {text : List Char}
    {line offset : Nat}
    (shown : ∀ {pos}, Fragment.Shows ⟨line, offset, text⟩ pos → good pos) :
    FaultsAt good (readSegments text line offset) := by
  rw [readSegments]
  split
  · exact .ok _
  · rename_i rest opened
    have whole := eq_append_of_dropWhile_ne opened
    simp only
    generalize text.takeWhile (!· == '\x7b') = literal at whole ⊢
    split
    · exact .error (shown ⟨literal, '\x7b', rest, whole, by decide, rfl⟩)
    · rename_i following closed
      have restSplit := eq_append_of_dropWhile_ne closed
      generalize rest.takeWhile (!· == '\x7d') = inside at restSplit ⊢
      have openWidth : width (literal ++ ['\x7b']) = width literal + 1 := by
        rw [width_append]
        rfl
      have insideStands : StandsAt inside (width literal + 1) text := by
        refine ⟨literal ++ ['\x7b'], '\x7d' :: following, ?_, openWidth⟩
        simp [whole, restSplit]
      have followingStands : StandsAt following (width literal + 1 + width inside + 1) text := by
        refine ⟨literal ++ ['\x7b'] ++ inside ++ ['\x7d'], [], by simp [whole, restSplit], ?_⟩
        rw [width_append, width_append, openWidth]
        rfl
      have shownInside : ∀ {pos}, Fragment.Shows ⟨line, offset + width literal + 1, inside⟩ pos →
          good pos := fun shows => shown (shows.of_part insideStands)
      have shownLater : ∀ {pos}, Fragment.Shows
          ⟨line, offset + width literal + 1 + width inside + 1, following⟩ pos → good pos := by
        intro pos shows
        simp only [Nat.add_assoc] at shows followingStands
        exact shown (shows.of_part followingStands)
      have fewer : following.length < text.length := by
        simp only [whole, restSplit, List.length_append, List.length_cons]
        omega
      refine FaultsAt.bind (fun error failed => shownInside (tokenize_fault failed)) ?_
      intro tokens read
      refine (readTerms_faultsAt fun token isIn => shownInside (tokenize_shows read token isIn).shows).bind ?_
      intro nodes _
      exact (readSegments_faultsAt shownLater).bind fun segments _ => .ok _
termination_by text.length

namespace Line

theorem selectorsOf_faultsAt
    {fragment : Fragment}
    (shown : ∀ {pos}, fragment.Shows pos → good pos)
    {parts : List (Nat × List Char)}
    (areParts : ∀ part ∈ parts, StandsAt part.2 part.1 fragment.text) :
    FaultsAt good (selectorsOf fragment parts) := by
  induction parts with
  | nil => exact .ok _
  | cons part rest inductionHypothesis =>
    obtain ⟨offset, text⟩ := part
    have others := inductionHypothesis fun part isLater => areParts part (List.mem_cons_of_mem _ isLater)
    have isPart := areParts _ (List.mem_cons_self ..)
    rw [selectorsOf]
    refine (readSegments_faultsAt fun shows => shown (shows.of_part isPart)).bind fun _ _ => ?_
    exact others.bind fun _ _ => .ok _

theorem selectors_faultsAt
    {fragments : List Fragment}
    (shown : ∀ fragment ∈ fragments, ∀ {pos}, fragment.Shows pos → good pos) :
    FaultsAt good (selectors fragments) := by
  induction fragments with
  | nil => exact .ok _
  | cons fragment rest inductionHypothesis =>
    have here := selectorsOf_faultsAt (shown fragment (List.mem_cons_self ..))
      (splitSelectors_standsAt fragment.text)
    have later := inductionHypothesis fun other isIn => shown other (List.mem_cons_of_mem _ isIn)
    rw [selectors]
    exact here.bind fun _ _ => later.bind fun _ _ => .ok _

/-! ## Statements -/

variable {line : Line} (shown : ∀ {pos}, line.Shows pos → good pos)

include shown

theorem tokensOf_faultsAt
    {value : List Char}
    (isEnd : value <:+ line.head.text) :
    FaultsAt good (line.tokensOf value) :=
  fun _ failed => shown (tokensOf_fault isEnd failed)

theorem readTokensOf_faultsAt
    {value : List Char}
    (isEnd : value <:+ line.head.text)
    {tokens : List Token}
    (read : line.tokensOf value = .ok tokens)
    (pos : SourcePos) :
    FaultsAt good (Expression.read tokens pos) :=
  read_faultsAt (fun token isIn => shown (tokensOf_shows isEnd read token isIn).shows) pos

theorem valueStatement_faultsAt
    {value : List Char}
    (isEnd : value <:+ line.head.text) :
    FaultsAt good (line.valueStatement value) :=
  (tokensOf_faultsAt shown isEnd).bind fun _ read =>
    (readTokensOf_faultsAt shown isEnd read _).bind fun _ _ => .ok _

theorem property_faultsAt
    {name value : List Char}
    (isStart : name <+: line.head.text)
    (isEnd : value <:+ line.head.text) :
    FaultsAt good (line.property name value) := by
  have shownName : ∀ {pos}, Fragment.Shows ⟨line.head.line, line.head.offset, name⟩ pos →
      good pos := by
    intro pos shows
    exact shown ⟨line.head, List.mem_cons_self .., shows.of_part (.of_start isStart)⟩
  refine (tokensOf_faultsAt shown isEnd).bind fun _ read => ?_
  refine (readTokensOf_faultsAt shown isEnd read _).bind fun _ _ => ?_
  exact (readSegments_faultsAt shownName).bind fun _ _ => .ok _

variable {body : Body} (firstGood : ∀ child ∈ body.first, good child.pos)
  (bodies : FaultsAt good body.statements)

omit shown in
theorem mustBeEmpty_faultsAt
    (firstGood : ∀ child ∈ body.first, good child.pos) :
    FaultsAt good body.mustBeEmpty := by
  unfold Body.mustBeEmpty
  split
  · rename_i child isFirst
    exact .error (firstGood child isFirst)
  · exact .ok _

omit shown in
theorem block_faultsAt
    (bodies : FaultsAt good body.statements)
    (pos : SourcePos) :
    FaultsAt good (body.block pos) :=
  bodies.bind fun _ _ => .ok _

include firstGood bodies

theorem assignment_faultsAt
    {value : List Char}
    (isEnd : value <:+ line.head.text)
    (name : List Char) :
    FaultsAt good (line.assignment body name value) := by
  unfold assignment
  simp only
  split
  · exact bodies.bind fun _ _ => .ok _
  · refine (mustBeEmpty_faultsAt firstGood).bind fun _ _ => ?_
    refine (tokensOf_faultsAt shown isEnd).bind fun _ read => ?_
    exact (readTokensOf_faultsAt shown isEnd read _).bind fun _ _ => .ok _

omit firstGood in
theorem computedRule_faultsAt
    {inside : List Char}
    (whole : line.head.text = '\x7b' :: inside ++ ['\x7d']) :
    FaultsAt good (line.computedRule body inside) := by
  have isPart : StandsAt inside 1 line.head.text := ⟨['\x7b'], ['\x7d'], whole, rfl⟩
  have shownInside : ∀ {pos}, Fragment.Shows ⟨line.head.line, line.head.offset + 1, inside⟩ pos →
      good pos := by
    intro pos shows
    exact shown ⟨line.head, List.mem_cons_self .., shows.of_part isPart⟩
  refine FaultsAt.bind (fun error failed => shownInside (tokenize_fault failed)) fun _ read => ?_
  refine (read_faultsAt (fun token isIn => shownInside (tokenize_shows read token isIn).shows) _).bind
    fun _ _ => ?_
  exact (block_faultsAt bodies _).bind fun _ _ => .ok _

omit firstGood in
theorem rule_faultsAt : FaultsAt good (line.rule body) := by
  have heads : FaultsAt good (selectors line.fragments) :=
    selectors_faultsAt fun fragment isIn pos shows => shown ⟨fragment, isIn, shows⟩
  exact (block_faultsAt bodies _).bind fun _ _ => heads.bind fun _ _ => .ok _

omit shown in
theorem atRule_faultsAt
    (line : Line)
    (text : List Char) :
    FaultsAt good (line.atRule body text) := by
  have empty := mustBeEmpty_faultsAt firstGood
  have block := block_faultsAt bodies line.pos
  unfold atRule
  simp only
  split
  · exact block.bind fun _ _ => .ok _
  · split
    · exact empty.bind fun _ _ => .ok _
    · split
      · exact empty.bind fun _ _ => .ok _
      · split
        · exact .ok _
        · split
          · exact empty.bind fun _ _ => .ok _
          · exact block.bind fun _ _ => .ok _

theorem statement_faultsAt : FaultsAt good (line.statement body) := by
  have block := block_faultsAt bodies line.pos
  unfold statement
  simp only
  split
  · exact atRule_faultsAt firstGood bodies line _
  · rename_i name value found _
    exact assignment_faultsAt shown firstGood bodies (Pattern.assignment?_suffix found) name
  · split
    · exact (mustBeEmpty_faultsAt firstGood).bind fun _ _ =>
        valueStatement_faultsAt shown (List.drop_suffix _ _)
    · split
      · exact block
      · unfold plainStatement
        simp only
        split
        · exact block.bind fun _ _ => .ok _
        · rename_i inside _ found
          exact computedRule_faultsAt shown bodies (Pattern.interpolation?_eq found)
        · split
          · exact rule_faultsAt shown bodies
          · split
            · rename_i name value found
              exact property_faultsAt shown (Pattern.property?_name found)
                (Pattern.property?_suffix found)
            · exact valueStatement_faultsAt shown (List.suffix_refl _)

end Line

/-! ## Nested lines -/

namespace LineTree

theorem line_mem_forestLines
    {trees : List LineTree}
    {tree : LineTree}
    (isIn : tree ∈ trees) :
    tree.line ∈ forestLines trees := by
  induction trees with
  | nil => cases isIn
  | cons first rest inductionHypothesis =>
    rw [forestLines]
    rcases List.mem_cons.mp isIn with rfl | isLater
    · cases tree
      exact List.mem_append_left _ (List.mem_cons_self ..)
    · exact List.mem_append_right _ (inductionHypothesis isLater)

mutual

theorem statement_faultsAt : ∀ tree : LineTree,
    (∀ line ∈ tree.lines, good line.pos ∧ ∀ {pos}, line.Shows pos → good pos) →
      FaultsAt good tree.statement
  | .node line children, lines => by
    rw [LineTree.lines] at lines
    have inside : ∀ child ∈ forestLines children, good child.pos ∧
        ∀ {pos}, child.Shows pos → good pos :=
      fun child isIn => lines child (List.mem_cons_of_mem _ isIn)
    have firstGood : ∀ child ∈ (bodyOf children).first, good child.pos := by
      intro child isFirst
      obtain ⟨tree, isTree, rfl⟩ := Option.map_eq_some_iff.mp isFirst
      exact (inside _ (line_mem_forestLines (List.mem_of_head? isTree))).1
    rw [statement_node]
    exact Line.statement_faultsAt (lines line (List.mem_cons_self ..)).2 firstGood
      (statements_faultsAt children inside)

theorem statements_faultsAt : ∀ trees : List LineTree,
    (∀ line ∈ forestLines trees, good line.pos ∧ ∀ {pos}, line.Shows pos → good pos) →
      FaultsAt good (statements trees)
  | [], _ => .ok []
  | tree :: rest, lines => by
    rw [forestLines] at lines
    rw [statements]
    refine (statement_faultsAt tree fun line isIn => lines line (List.mem_append_left _ isIn)).bind
      fun _ _ => ?_
    exact (statements_faultsAt rest fun line isIn => lines line (List.mem_append_right _ isIn)).bind
      fun _ _ => .ok _

end

end LineTree

end Statements

/-! ## Whole texts -/

/-- The place is that of a character of the document. -/
def Document.Holds (document : Document) (pos : SourcePos) : Prop :=
  1 ≤ pos.line ∧ pos.line ≤ document.lineCount ∧ 1 ≤ pos.column ∧
    ∃ c rest, dropTo? (pos.column - 1) (document.line (pos.line - 1)) = some (c :: rest)

/-- What a fragment of the text shows, the document holds. -/
theorem Fragment.Shows.holds
    {text : List Char}
    {fragment : Fragment}
    (isIn : fragment.IsIn (physicalLines text))
    (positive : 0 < fragment.line)
    {pos : SourcePos}
    (shows : fragment.Shows pos) :
    (Document.ofText text).Holds pos := by
  obtain ⟨before, c, after, whole, solid, rfl⟩ := shows
  obtain ⟨physical, isLine, stands⟩ := isIn
  have single : Solid [c] := .cons solid fun _ isIn => nomatch isIn
  have inText : StandsAt [c] (width before) fragment.text := ⟨before, after, by simp [whole], rfl⟩
  obtain ⟨rest, cut, ⟨following, rfl⟩⟩ := (stands single inText).dropTo?
  have bound := (List.getElem?_eq_some_iff.mp isLine).1
  refine ⟨positive, ?_, Nat.succ_pos _, c, following, ?_⟩
  · simp only [Document.lineCount, Document.ofText]
    omega
  · simp only [Document.line, Document.ofText, isLine, Nat.add_sub_cancel]
    exact cut

/-- Every fault is at a character of the document. -/
theorem parse_fault_inside
    {text : List Char}
    {error : ParseError}
    (failed : Node.parse text = .error error) :
    (Document.ofText text).Holds error.pos := by
  cases scanned : scanLines text with
  | error fault =>
    rw [Node.parse, scanned] at failed
    cases failed
    obtain ⟨fragment, isIn, shows, positive⟩ := scanLines_fault scanned
    exact shows.holds isIn positive
  | ok lines =>
    rw [Node.parse_of_scanLines scanned] at failed
    have shown : ∀ line ∈ lines, ∀ {pos}, line.Shows pos → (Document.ofText text).Holds pos := by
      rintro line isLine pos ⟨fragment, isFragment, shows⟩
      exact shows.holds (scanLines_isIn scanned line isLine fragment isFragment)
        (scanLines_numbers scanned line isLine fragment isFragment)
    have forest : FaultsAt (Document.ofText text).Holds (LineTree.statements (buildForest lines)) := by
      apply LineTree.statements_faultsAt
      intro line isLine
      rw [LineTree.forestLines_buildForest] at isLine
      refine ⟨shown line isLine ⟨line.head, List.mem_cons_self .., ?_⟩, shown line isLine⟩
      exact scanLines_shows scanned line isLine
    exact forest.bind (fun _ _ => .ok _) error failed

/-- The column of a fault counts bytes. -/
theorem parse_fault_inside_after_wide_letter :
    Node.parse "$a = é \"x".toList = .error ⟨.unterminatedString, ⟨1, 9⟩⟩ ∧
      (Document.ofText "$a = é \"x".toList).Holds ⟨1, 9⟩ := by
  have failed : Node.parse "$a = é \"x".toList = .error ⟨.unterminatedString, ⟨1, 9⟩⟩ := by
    decide +kernel
  exact ⟨failed, parse_fault_inside failed⟩

end StyleSense
