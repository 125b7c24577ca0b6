import StyleSense.Proofs.Line.Pattern
import StyleSense.Proofs.Text.Part
import StyleSense.Proofs.Token.Stretch
import StyleSense.Statement.Basic

/-!
Contract: lines of the same texts at corresponding places are read alike.

Owns:
- `Fragment.Matches`, `Line.Matches` and `Body.Matches`, the matching of what a statement is read
  from;
- one lemma for each kind of statement, and `Line.statement_matches` for all of them;
- `LineTree.statements_matches`, the result for nested lines.

Does not own: which lines of two texts match (`StyleSense.Proofs.Line.Scan`).
-/

namespace StyleSense

open Text

variable {M : Matching}

/-- Corresponding outcomes stay so when corresponding steps follow. -/
theorem Matching.Outcome.bind
    {α β γ δ : Type}
    {related : α → β → Prop}
    {relatedNext : γ → δ → Prop}
    {left : Except ParseError α}
    {right : Except ParseError β}
    (outcomes : M.Outcome related left right)
    {next : α → Except ParseError γ}
    {next' : β → Except ParseError δ}
    (steps : ∀ {first second}, related first second →
      M.Outcome relatedNext (next first) (next' second)) :
    M.Outcome relatedNext (left >>= next) (right >>= next') := by
  cases outcomes with
  | ok results => exact steps results
  | error errors => exact .error errors

/-- Fragments of one text at corresponding places. -/
structure Fragment.Matches (M : Matching) (left right : Fragment) : Prop where
  text : left.text = right.text
  stretch : M.Stretch left.text left.line left.offset right.line right.offset

/-- Logical lines whose fragments correspond. -/
structure Line.Matches (M : Matching) (left right : Line) : Prop where
  head : left.head.Matches M right.head
  tail : List.Forall₂ (Fragment.Matches M) left.tail right.tail

/-- Bodies that correspond, as far as they are read as statements. -/
structure Body.Matches (M : Matching) (left right : Body) : Prop where
  first : Option.Rel (fun line line' => M.pos line.pos line'.pos) left.first right.first
  statements : M.Outcome (Node.ListMatches M) left.statements right.statements

namespace Body.Matches

variable {body body' : Body} (bodies : Body.Matches M body body')

include bodies

theorem isSome_eq : body.first.isSome = body'.first.isSome := by
  obtain ⟨first, raw, statements⟩ := body
  obtain ⟨first', raw', statements'⟩ := body'
  cases bodies.first <;> rfl

theorem mustBeEmpty_matches :
    M.Outcome (fun _ _ => True) body.mustBeEmpty body'.mustBeEmpty := by
  obtain ⟨first, raw, statements⟩ := body
  obtain ⟨first', raw', statements'⟩ := body'
  cases bodies.first with
  | none => exact .ok trivial
  | some places => exact .error ⟨rfl, places⟩

theorem block_matches
    {pos pos' : SourcePos}
    (places : M.pos pos pos') :
    M.Outcome (Node.Matches M) (body.block pos) (body'.block pos') :=
  bodies.statements.bind fun nodes => .ok (.wrapper nodes .none places)

end Body.Matches

/-! ## Names and selectors -/

theorem Segment.literal_matches
    {line line' : Nat}
    (lines : M.line line line')
    (text : List Char)
    {rest rest' : List Segment}
    (others : Segment.ListMatches M rest rest') :
    Segment.ListMatches M (Segment.literal text line ++ rest) (Segment.literal text line' ++ rest') := by
  unfold Segment.literal
  split
  · exact others
  · exact .cons .nil lines others

variable [M.KeepsLines]

theorem readSegments_matches
    {text : List Char}
    {line offset line' offset' : Nat}
    (stretch : M.Stretch text line offset line' offset') :
    M.Outcome (Segment.ListMatches M) (readSegments text line offset)
      (readSegments text line' offset') := by
  have lines : M.line line line' := ⟨_, _, stretch.pos 0⟩
  rw [readSegments, readSegments]
  split
  · have only := Segment.literal_matches lines (text.takeWhile (!· == '\x7b')) .nil
    rw [List.append_nil, List.append_nil] at only
    exact .ok only
  · rename_i rest opened
    have whole := eq_append_of_dropWhile_ne opened
    simp only
    generalize text.takeWhile (!· == '\x7b') = literal at whole ⊢
    split
    · simp only [Nat.add_assoc]
      exact .error ⟨rfl, stretch.pos _⟩
    · rename_i following closed
      have restSplit := eq_append_of_dropWhile_ne closed
      generalize rest.takeWhile (!· == '\x7d') = inside at restSplit ⊢
      have parts : text = (literal ++ ['\x7b']) ++ inside ++ '\x7d' :: following := by
        rw [whole, restSplit]
        simp
      have later : text = (literal ++ ['\x7b'] ++ inside ++ ['\x7d']) ++ following ++ [] := by
        rw [parts]
        simp
      have insideStretch := stretch.part parts
      have followingStretch := stretch.part later
      have openWidth : width (literal ++ ['\x7b']) = width literal + 1 := by
        rw [width_append]
        rfl
      have closeWidth : width (literal ++ ['\x7b'] ++ inside ++ ['\x7d']) =
          width literal + 1 + width inside + 1 := by
        rw [width_append, width_append, openWidth]
        rfl
      rw [openWidth] at insideStretch
      rw [closeWidth] at followingStretch
      simp only [Nat.add_assoc] at insideStretch followingStretch ⊢
      have fewer : following.length < text.length := by
        rw [later]
        simp
        omega
      refine (tokenize_matches insideStretch).bind fun tokens => ?_
      refine (Expression.readTerms_matches tokens).bind fun nodes => ?_
      refine (readSegments_matches followingStretch).bind fun segments => .ok ?_
      exact Segment.literal_matches lines literal (.cons nodes lines segments)
termination_by text.length

theorem selectorPart_standsAt
    {before stretch after : List Char}
    {part : Nat × List Char}
    (isPart : part ∈ selectorPart (width before) stretch) :
    StandsAt part.2 part.1 (before ++ stretch ++ after) := by
  unfold selectorPart at isPart
  simp only at isPart
  split at isPart
  · cases isPart
  · rw [List.mem_singleton] at isPart
    subst isPart
    exact (standsAt_trim stretch).trans (.of_eq rfl)

/-- The parts of a selector list stand in it at their offsets. -/
theorem splitSelectorsFrom_standsAt
    {text before reversed cs : List Char}
    {depth : Int}
    {start index : Nat}
    (whole : text = before ++ reversed.reverse ++ cs)
    (starts : start = width before)
    (stands : index = width (before ++ reversed.reverse)) :
    ∀ part ∈ splitSelectorsFrom depth start reversed index cs, StandsAt part.2 part.1 text := by
  induction cs generalizing depth start reversed index before with
  | nil =>
    intro part isPart
    rw [whole, List.append_nil, ← List.append_nil (before ++ _)]
    rw [splitSelectorsFrom, starts] at isPart
    exact selectorPart_standsAt isPart
  | cons c rest inductionHypothesis =>
    intro part isPart
    have keeps : text = before ++ (c :: reversed).reverse ++ rest := by
      rw [whole]
      simp
    have moves : index + c.utf8Size = width (before ++ (c :: reversed).reverse) := by
      rw [stands, List.reverse_cons, ← List.append_assoc, width_append _ [c]]
      rfl
    simp only [splitSelectorsFrom] at isPart
    split at isPart
    · exact inductionHypothesis keeps starts moves part isPart
    · split at isPart
      · exact inductionHypothesis keeps starts moves part isPart
      · split at isPart
        · rcases List.mem_append.mp isPart with isHere | isLater
          · rw [whole]
            rw [starts] at isHere
            exact selectorPart_standsAt isHere
          · have restarts : text = (before ++ (c :: reversed).reverse) ++ [].reverse ++ rest := by
              rw [keeps]
              simp
            refine inductionHypothesis restarts moves ?_ part isLater
            rw [moves]
            simp
        · exact inductionHypothesis keeps starts moves part isPart

theorem splitSelectors_standsAt (text : List Char) :
    ∀ part ∈ splitSelectors text, StandsAt part.2 part.1 text := by
  have whole : text = [] ++ [].reverse ++ text := rfl
  exact splitSelectorsFrom_standsAt whole rfl rfl

namespace Line

theorem selectorsOf_matches
    {fragment fragment' : Fragment}
    (fragments : fragment.Matches M fragment')
    {parts : List (Nat × List Char)}
    (areParts : ∀ part ∈ parts, StandsAt part.2 part.1 fragment.text) :
    M.Outcome (Selector.ListMatches M) (selectorsOf fragment parts)
      (selectorsOf fragment' parts) := by
  induction parts with
  | nil => exact .ok .nil
  | cons part rest inductionHypothesis =>
    obtain ⟨offset, text⟩ := part
    obtain ⟨before, after, whole, beforeWidth⟩ := areParts _ (List.mem_cons_self ..)
    have stretch := fragments.stretch.part whole
    rw [beforeWidth] at stretch
    have others := inductionHypothesis fun part isLater => areParts part (List.mem_cons_of_mem _ isLater)
    rw [selectorsOf, selectorsOf]
    refine (readSegments_matches stretch).bind fun segments => ?_
    exact others.bind fun heads => .ok (.cons segments (stretch.pos 1) heads)

theorem selectors_matches
    {fragments fragments' : List Fragment}
    (same : List.Forall₂ (Fragment.Matches M) fragments fragments') :
    M.Outcome (Selector.ListMatches M) (selectors fragments) (selectors fragments') := by
  induction same with
  | nil => exact .ok .nil
  | @cons fragment fragment' rest rest' first others inductionHypothesis =>
    have here := selectorsOf_matches first (splitSelectors_standsAt fragment.text)
    rw [selectors, selectors, ← first.text]
    refine here.bind fun heads => inductionHypothesis.bind fun more => .ok ?_
    exact heads.append more

/-! ## Values -/

theorem fragmentTokens_cons
    (fragment : Fragment)
    (rest : List Fragment) :
    fragmentTokens (fragment :: rest) =
      fragment.tokens >>= fun tokens => fragmentTokens rest >>= fun others =>
        .ok (tokens ++ others) := by
  rw [fragmentTokens]
  cases fragment.tokens with
  | error error => rfl
  | ok tokens => cases fragmentTokens rest <;> rfl

omit [M.KeepsLines] in
theorem fragmentTokens_matches
    {fragments fragments' : List Fragment}
    (same : List.Forall₂ (Fragment.Matches M) fragments fragments') :
    M.Outcome M.Tokens (fragmentTokens fragments) (fragmentTokens fragments') := by
  induction same with
  | nil => exact .ok .nil
  | @cons fragment fragment' rest rest' first others inductionHypothesis =>
    have here := tokenize_matches first.stretch
    rw [fragmentTokens_cons, fragmentTokens_cons, Fragment.tokens, Fragment.tokens, ← first.text]
    refine here.bind fun tokens => inductionHypothesis.bind fun more => .ok ?_
    exact List.rel_append tokens more

section Statements

variable {line line' : Line} (lines : Line.Matches M line line')

include lines

omit [M.KeepsLines] in
theorem Matches.pos : M.pos line.pos line'.pos :=
  lines.head.stretch.pos 1

omit [M.KeepsLines] in
/-- The tokens of an end of the head, and of the lines that continue it. -/
theorem tokensOf_matches
    {value : List Char}
    (isEnd : value <:+ line.head.text) :
    M.Outcome M.Tokens (line.tokensOf value) (line'.tokensOf value) := by
  obtain ⟨before, whole⟩ := isEnd
  have stretch := lines.head.stretch.part (show line.head.text = before ++ value ++ [] by simp [whole])
  have skipped : width line.head.text - width value = width before := by
    rw [← whole, width_append, Nat.add_sub_cancel]
  unfold tokensOf
  simp only [← lines.head.text, skipped]
  exact fragmentTokens_matches (.cons ⟨rfl, stretch⟩ lines.tail)

omit [M.KeepsLines] in
theorem placeOf_matches (value : List Char) : M.pos (line.placeOf value) (line'.placeOf value) := by
  unfold placeOf
  rw [← lines.head.text, Nat.add_assoc, Nat.add_assoc]
  exact lines.head.stretch.pos _

theorem valueStatement_matches
    {value : List Char}
    (isEnd : value <:+ line.head.text) :
    M.Outcome (Node.Matches M) (line.valueStatement value) (line'.valueStatement value) :=
  (tokensOf_matches lines isEnd).bind fun tokens =>
    (Expression.read_matches tokens lines.pos).bind fun values => .ok (.expression values)

/-! ## Statements -/

omit [M.KeepsLines] in
/-- The name that a line starts with stands at the place of the line. -/
theorem name_word
    {name : List Char}
    (isName : name <+: line.head.text ∧ Solid name) :
    M.word (String.ofList name) line.pos := by
  obtain ⟨⟨after, whole⟩, solid⟩ := isName
  exact lines.head.stretch.word [] name after whole.symm solid

variable {body body' : Body} (bodies : Body.Matches M body body')

include bodies

theorem assignment_matches
    {name value : List Char}
    (isName : name <+: line.head.text ∧ Solid name)
    (isEnd : value <:+ line.head.text) :
    M.Outcome (Node.Matches M) (line.assignment body name value)
      (line'.assignment body' name value) := by
  unfold assignment
  simp only
  split
  · have places := placeOf_matches lines (trimStart value)
    refine bodies.statements.bind fun nodes => .ok ?_
    exact .declaration (name_word lines isName)
      (.expression (.intro (.cons (.atblock nodes places) .nil) places)) lines.pos
  · refine bodies.mustBeEmpty_matches.bind fun _ => ?_
    refine (tokensOf_matches lines isEnd).bind fun tokens => ?_
    refine (Expression.read_matches tokens (placeOf_matches lines value)).bind fun values => .ok ?_
    exact .declaration (name_word lines isName) (.expression values) lines.pos

omit [M.KeepsLines] in
theorem functionDefinition_matches
    {name : List Char}
    (isName : name <+: line.head.text ∧ Solid name)
    (params : List Char) :
    M.Outcome (Node.Matches M) (line.functionDefinition body name params)
      (line'.functionDefinition body' name params) :=
  (bodies.block_matches lines.pos).bind fun block =>
    .ok (.declaration (name_word lines isName) (.function block lines.pos) lines.pos)

theorem computedRule_matches
    {inside : List Char}
    (whole : line.head.text = '\x7b' :: inside ++ ['\x7d']) :
    M.Outcome (Node.Matches M) (line.computedRule body inside) (line'.computedRule body' inside) := by
  have stretch := lines.head.stretch.part (show line.head.text = ['\x7b'] ++ inside ++ ['\x7d'] from whole)
  refine (tokenize_matches stretch).bind fun tokens => ?_
  refine (Expression.read_matches tokens (stretch.pos 1)).bind fun values => ?_
  refine (bodies.block_matches lines.pos).bind fun block => .ok ?_
  refine .wrapper (.cons ?_ .nil) (.some block) lines.pos
  exact .call (M.word_selector _) (.cons (.expression values) .nil) lines.pos

theorem rule_matches : M.Outcome (Node.Matches M) (line.rule body) (line'.rule body') :=
  (bodies.block_matches lines.pos).bind fun block =>
    (selectors_matches (.cons lines.head lines.tail)).bind fun heads =>
      .ok (.rule heads block lines.pos)

omit bodies in
theorem property_matches
    {name value : List Char}
    (isStart : name <+: line.head.text)
    (isEnd : value <:+ line.head.text) :
    M.Outcome (Node.Matches M) (line.property name value) (line'.property name value) := by
  obtain ⟨after, whole⟩ := isStart
  have stretch := lines.head.stretch.part
    (show line.head.text = [] ++ name ++ after by simp [whole])
  refine (tokensOf_matches lines isEnd).bind fun tokens => ?_
  refine (Expression.read_matches tokens (placeOf_matches lines value)).bind fun values => ?_
  exact (readSegments_matches stretch).bind fun names => .ok (.property names values lines.pos)

omit [M.KeepsLines] in
/-- At-rules correspond; the text of the body matters to `@css` only. -/
theorem atRule_matches
    {text : List Char}
    (raws : "css".toList <+: text → body.raw = body'.raw) :
    M.Outcome (Node.Matches M) (line.atRule body text) (line'.atRule body' text) := by
  have block := bodies.block_matches lines.pos
  have empty := bodies.mustBeEmpty_matches
  unfold atRule
  simp only
  split
  · exact block.bind fun nodes => .ok (.directive (.some nodes) lines.pos)
  · split
    · exact empty.bind fun _ => .ok (.directive .none lines.pos)
    · split
      · exact empty.bind fun _ => .ok (.directive .none lines.pos)
      · split
        · rename_i isCss
          rw [raws (isCss ▸ List.takeWhile_prefix _)]
          exact .ok (.directive .none lines.pos)
        · split
          · exact empty.bind fun _ => .ok .other
          · exact block.bind fun nodes => .ok (.directive (.some nodes) lines.pos)

theorem plainStatement_matches :
    M.Outcome (Node.Matches M) (line.plainStatement body) (line'.plainStatement body') := by
  unfold plainStatement
  simp only [← lines.head.text, ← bodies.isSome_eq]
  split
  · rename_i name params found
    have isHead : Pattern.functionHead? line.head.text = some (name, params) := by
      split at found
      · exact found
      · cases found
    exact functionDefinition_matches lines bodies (Pattern.functionHead?_name isHead) params
  · rename_i inside _ found
    exact computedRule_matches lines bodies (Pattern.interpolation?_eq found)
  · split
    · exact rule_matches lines bodies
    · split
      · rename_i name value found
        exact property_matches lines (Pattern.property?_name found) (Pattern.property?_suffix found)
      · exact valueStatement_matches lines (List.suffix_refl _)

/-- Lines of the same texts at corresponding places are corresponding statements. -/
theorem statement_matches
    (raws : "@css".toList <+: line.head.text → body.raw = body'.raw) :
    M.Outcome (Node.Matches M) (line.statement body) (line'.statement body') := by
  unfold statement
  simp only [← lines.head.text]
  split
  · rename_i isAt
    obtain ⟨rest, whole⟩ := List.head?_eq_some_iff.mp isAt
    refine atRule_matches lines bodies fun isCss => raws ?_
    rw [whole] at isCss ⊢
    exact List.cons_prefix_cons.mpr ⟨rfl, isCss⟩
  · rename_i name value found _
    exact assignment_matches lines bodies (Pattern.assignment?_name found)
      (Pattern.assignment?_suffix found)
  · split
    · exact bodies.mustBeEmpty_matches.bind fun _ =>
        valueStatement_matches lines (List.drop_suffix _ _)
    · split
      · exact bodies.block_matches lines.pos
      · exact plainStatement_matches lines bodies

end Statements

/-- A line that is neither an at-rule nor an assignment is told by its first word. -/
theorem statement_of_notAssignment
    {line : Line}
    (notAt : line.head.text.head? ≠ some '@')
    (notAssignment : Pattern.assignment? line.head.text = none)
    (body : Body) :
    line.statement body =
      let word := String.ofList (firstWord line.head.text)
      if word = "return" then
        body.mustBeEmpty >>= fun _ => line.valueStatement (line.head.text.drop word.length)
      else if controlWords.contains word then body.block line.pos
      else line.plainStatement body := by
  unfold statement
  simp only [notAssignment]

/-- The statement that the assignment of a value is. -/
theorem statement_of_isValueLine
    {line : Line}
    (isValue : isValueLine line.head.text = true)
    (body : Body) :
    ∃ name value, Pattern.assignment? line.head.text = some (name, value) ∧
      line.statement body = (do
        body.mustBeEmpty
        let tokens ← line.tokensOf value
        let result ← Expression.read tokens (line.placeOf value)
        return .ident (String.ofList name) (some (.expression result)) line.pos) := by
  unfold isValueLine at isValue
  split at isValue
  · rename_i name value found
    refine ⟨name, value, found, ?_⟩
    have notAt := Pattern.assignment?_head found
    have notBlock : ¬"@block".toList <+: trimStart value := by
      rw [← List.isPrefixOf_iff_prefix, Bool.not_eq_true]
      exact Bool.not_eq_true' _ ▸ isValue
    have unbracedPrefix : trimEnd ((trim value).reverse.dropWhile (· == '\x7b')).reverse <+:
        trimStart value := by
      refine (trimEnd_starts _).trans ((List.reverse_suffix.mp ?_).trans (trimEnd_starts _))
      rw [List.reverse_reverse]
      exact List.dropWhile_suffix _
    have notBody : trimEnd ((trim value).reverse.dropWhile (· == '\x7b')).reverse ≠
        "@block".toList := fun equal => notBlock (equal ▸ unbracedPrefix)
    have assigns : line.statement body = line.assignment body name value := by
      unfold statement
      simp only [found]
    rw [assigns, assignment]
    simp only [if_neg notBody]
  · cases isValue

end Line

/-! ## Nested lines -/

namespace LineTree

/-- The texts of the lines of a body. -/
def rawTexts (children : List LineTree) : List (List Char) :=
  (forestLines children).flatMap fun child => child.fragments.map Fragment.text

/-- The body that some lines make up. -/
def bodyOf (children : List LineTree) : Body :=
  ⟨children.head?.map LineTree.line, rawTexts children, statements children⟩

theorem statement_node
    (line : Line)
    (children : List LineTree) :
    statement (.node line children) = line.statement (bodyOf children) := by
  rw [statement]
  rfl

mutual

/-- Nested lines that are read alike. The text of a body matters below `@css` only, and a line that
nothing stands below may be any line that is read alike by itself. -/
inductive Matches (M : Matching) : LineTree → LineTree → Prop
  | node {line line' : Line} {children children' : List LineTree}
      (lines : Line.Matches M line line')
      (bodies : ListMatches M children children')
      (raws : "@css".toList <+: line.head.text → rawTexts children = rawTexts children') :
      Matches M (.node line children) (.node line' children')
  | leaf {line line' : Line}
      (places : M.pos line.pos line'.pos)
      (statements : M.Outcome (Node.Matches M) (line.statement (bodyOf []))
        (line'.statement (bodyOf []))) :
      Matches M (.node line []) (.node line' [])

/-- Lists of nested lines that are read alike one by one. -/
inductive ListMatches (M : Matching) : List LineTree → List LineTree → Prop
  | nil : ListMatches M [] []
  | cons {tree tree' : LineTree} {rest rest' : List LineTree}
      (first : Matches M tree tree')
      (others : ListMatches M rest rest') :
      ListMatches M (tree :: rest) (tree' :: rest')

end

omit [M.KeepsLines] in
theorem Matches.pos
    {tree tree' : LineTree}
    (trees : Matches M tree tree') :
    M.pos tree.line.pos tree'.line.pos := by
  cases trees with
  | node lines _ _ => exact lines.pos
  | leaf places _ => exact places

omit [M.KeepsLines] in
theorem ListMatches.bodyOf_matches
    {children children' : List LineTree}
    (forests : ListMatches M children children')
    (nodes : M.Outcome (Node.ListMatches M) (statements children) (statements children')) :
    Body.Matches M (bodyOf children) (bodyOf children') := by
  refine ⟨?_, nodes⟩
  cases forests with
  | nil => exact .none
  | cons first others => exact .some first.pos

/-- Nested lines that are read alike are corresponding statements. -/
theorem ListMatches.statements_matches
    {trees trees' : List LineTree}
    (forests : ListMatches M trees trees') :
    M.Outcome (Node.ListMatches M) (statements trees) (statements trees') := by
  apply @ListMatches.rec M
    (fun tree tree' _ => M.Outcome (Node.Matches M) tree.statement tree'.statement)
    (fun trees trees' _ => M.Outcome (Node.ListMatches M) (statements trees) (statements trees'))
    (t := forests)
  case node =>
    intro line line' children children' lines bodies raws nodes
    rw [statement_node, statement_node]
    exact Line.statement_matches lines (bodies.bodyOf_matches nodes) raws
  case leaf =>
    intro line line' places alone
    rw [statement_node, statement_node]
    exact alone
  case nil =>
    rw [statements]
    exact .ok .nil
  case cons =>
    intro tree tree' rest rest' _ _ first others
    rw [statements, statements]
    exact first.bind fun node => others.bind fun nodes => .ok (.cons node nodes)

end LineTree

/-- The tree of a text from its logical lines. -/
theorem Node.parse_of_scanLines
    {text : List Char}
    {lines : List Line}
    (scanned : scanLines text = .ok lines) :
    Node.parse text =
      LineTree.statements (buildForest lines) >>= fun nodes =>
        .ok (.wrapper .root nodes none ⟨1, 1⟩) := by
  rw [Node.parse, scanned]
  rfl

end StyleSense
