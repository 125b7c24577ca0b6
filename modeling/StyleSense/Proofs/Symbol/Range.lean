import StyleSense.Node.Equality
import StyleSense.Proofs.Expression.Name
import StyleSense.Proofs.Statement.Braces
import StyleSense.Proofs.Statement.Declaration
import StyleSense.Proofs.Statement.Inline
import StyleSense.Proofs.Statement.Standing
import StyleSense.Proofs.Swatch.Place
import StyleSense.Symbol.Outline

/-!
Contract: the ranges of symbols.

A symbol is named in one of three ways: by the name that a statement declares, by the segments of a
selector, in which an interpolation stands for the names in it, or by its whole line without braces.
In each case the range has the width of the name and starts at a character of a line.

Owns:
- `readSegments_name`: the name of a selector is no wider than its source, and is its source when no
  interpolation is in it;
- `Symbol.Placed`, where a symbol is with regard to the line on which its statement stands, and
  `Line.Declares.placed`: every symbol of a text is placed so;
- `parse_symbols_real`, the ranges of the symbols of a text.

Does not own: the same ranges in UTF-16 units (`StyleSense.Proofs.Session.Places`).
-/

namespace StyleSense

open Text

/-! ## Names of selectors -/

theorem selectorName_append (left right : List Segment) :
    selectorName (left ++ right) = selectorName left ++ selectorName right := by
  simp only [selectorName, List.map_append, String.join_append]

theorem selectorName_literal
    (text : List Char)
    (line : Nat) :
    (selectorName (Segment.literal text line)).toList = text := by
  unfold Segment.literal
  split
  · rename_i empty
    rw [List.isEmpty_iff.1 empty]
    rfl
  · simp [selectorName, Segment.name]

/-- The name of a selector is no wider than the text that it is read from, and without an
interpolation it is the text. -/
theorem readSegments_name
    (text : List Char)
    (line offset : Nat) :
    Gives
      (fun segments => width (selectorName segments).toList ≤ width text ∧
        ((∀ segment ∈ segments, segment.text.isSome) → (selectorName segments).toList = text))
      (readSegments text line offset) := by
  rw [readSegments]
  have split := List.takeWhile_append_dropWhile (p := (!· == '\x7b')) (l := text)
  generalize text.takeWhile (!· == '\x7b') = literal at split ⊢
  split
  · rename_i opened
    rw [opened, List.append_nil] at split
    refine .ok ?_
    rw [selectorName_literal, split]
    exact ⟨Nat.le_refl _, fun _ => rfl⟩
  · rename_i brace rest opened
    have inner := List.takeWhile_append_dropWhile (p := (!· == '\x7d')) (l := rest)
    simp only
    generalize rest.takeWhile (!· == '\x7d') = inside at inner ⊢
    split
    · exact fun _ given => nomatch given
    · rename_i closing following closed
      rw [opened, ← inner, closed] at split
      have fewer : following.length < text.length := by
        rw [← split]
        simp only [List.length_append, List.length_cons]
        omega
      refine Gives.bind fun tokens hasTokens => Gives.bind fun nodes read =>
        Gives.bind fun segments readLater => .ok ?_
      have named := Expression.readTerms_nameWidth hasTokens read
      have later := (readSegments_name following _ _ segments readLater).1
      constructor
      · rw [selectorName_append, String.toList_append, width_append, selectorName_literal, ← split]
        have first : selectorName (⟨none, line, nodes⟩ :: segments) =
            String.join (nodes.filterMap Node.interpolatedName?) ++ selectorName segments := by
          simp [selectorName, Segment.name]
        rw [first, String.toList_append]
        simp only [width_append, width_cons]
        omega
      · intro literal
        have interpolated := literal ⟨none, line, nodes⟩ (by simp)
        cases interpolated
termination_by text.length
decreasing_by assumption

/-! ## The parts of a rule header -/

/-- A text whose first and last characters are no blanks. -/
def Trimmed (text : List Char) : Prop :=
  text ≠ [] ∧ trim text = text

theorem selectorPart_trimmed
    {start : Nat}
    {stretch : List Char}
    {part : Nat × List Char}
    (isPart : part ∈ selectorPart start stretch) :
    Trimmed part.2 := by
  unfold selectorPart at isPart
  simp only at isPart
  split at isPart
  · cases isPart
  · rename_i nonempty
    rw [List.mem_singleton.1 isPart]
    exact ⟨by simpa using nonempty, trim_trim stretch⟩

theorem splitSelectorsFrom_trimmed
    (depth : Int)
    (start : Nat)
    (reversed : List Char)
    (index : Nat)
    (cs : List Char) :
    ∀ part ∈ splitSelectorsFrom depth start reversed index cs, Trimmed part.2 := by
  induction cs generalizing depth start reversed index with
  | nil =>
    intro part isPart
    exact selectorPart_trimmed isPart
  | cons c rest inductionHypothesis =>
    rw [splitSelectorsFrom]
    split
    · exact inductionHypothesis _ _ _ _
    · split
      · exact inductionHypothesis _ _ _ _
      · split
        · intro part isPart
          rcases List.mem_append.1 isPart with isHere | isLater
          · exact selectorPart_trimmed isHere
          · exact inductionHypothesis _ _ _ _ part isLater
        · exact inductionHypothesis _ _ _ _

/-- The ends of a trimmed text, which are no blanks, are ends of characters also in the line with its
comments. -/
theorem Trimmed.ends_stand
    {part raw cleaned : List Char}
    {column : Nat}
    (trimmed : Trimmed part)
    (blanked : Blanked raw cleaned)
    (stands : StandsAt part column cleaned) :
    StandsAt [] column raw ∧ StandsAt [] (column + width part) raw := by
  obtain ⟨nonempty, isTrimmed⟩ := trimmed
  obtain ⟨solidFirst, solidLast⟩ := trim_eq_self_iff.1 isTrimmed
  have inRaw : ∀ {c : Char} {offset : Nat}, isBlank c = false → StandsAt [c] offset part →
      StandsAt [c] (column + offset) raw := by
    intro c offset solid isIn
    refine blanked.standsAt ⟨List.cons_ne_nil _ _, fun d isC => ?_⟩ (isIn.trans stands)
    rw [List.mem_singleton.1 isC, solid]
  constructor
  · obtain ⟨first, rest, rfl⟩ := List.exists_cons_of_ne_nil nonempty
    have isFirst : StandsAt [first] 0 (first :: rest) := .of_start ⟨rest, rfl⟩
    exact (inRaw (solidFirst first rfl) isFirst).start
  · obtain ⟨before, last, rfl⟩ := (List.eq_nil_or_concat' part).resolve_left nonempty
    have isLast : StandsAt [last] (width before) (before ++ [last]) := ⟨before, [], by simp, rfl⟩
    have ends := (inRaw (solidLast last (by simp)) isLast).stop
    rwa [Nat.add_assoc, ← width_append] at ends

/-! ## Where symbols are -/

/-- Where a symbol is with regard to the line on which its statement stands: on one line, from a
character on and not past the end. A declared name stands there, and so does a selector without an
interpolation when the comments of the line are blanked out. -/
structure Symbol.Placed
    (text : List Char)
    (node : Node)
    (symbol : Symbol) : Prop where
  sameLine : symbol.range.stop.line = symbol.range.start.line
  line : symbol.range.start.line < (Document.ofText text).lineCount
  ordered : symbol.range.start.column ≤ symbol.range.stop.column
  inside : symbol.range.stop.column ≤ width ((Document.ofText text).line symbol.range.start.line)
  start : StandsAt [] symbol.range.start.column ((Document.ofText text).line symbol.range.start.line)
  declared : symbol.kind = .variable ∨ symbol.kind = .function →
    StandsAt symbol.name.toList symbol.range.start.column
      ((Document.ofText text).line symbol.range.start.line) ∧
    symbol.range.stop.column = symbol.range.start.column + width symbol.name.toList
  literal : ∀ head body, node = .selector head body →
    (∀ segment ∈ head.segments, segment.text.isSome) →
      StandsAt symbol.name.toList symbol.range.start.column
        ((Document.ofText (withoutComments text)).line symbol.range.start.line) ∧
      symbol.range.stop.column = symbol.range.start.column + width symbol.name.toList ∧
      StandsAt [] symbol.range.stop.column ((Document.ofText text).line symbol.range.start.line)

theorem width_unbracedName_le (line : List Char) : width (unbracedName line) ≤ width line := by
  have trimmed := (standsAt_trim (line.filter fun c => c != '\x7b' && c != '\x7d')).width_le
  have filtered : ∀ cs : List Char,
      width (cs.filter fun c => c != '\x7b' && c != '\x7d') ≤ width cs := by
    intro cs
    induction cs with
    | nil => exact Nat.le_refl _
    | cons c rest inductionHypothesis =>
      rw [List.filter_cons, width_cons]
      split
      · rw [width_cons]
        omega
      · omega
  have all := filtered line
  rw [unbracedName]
  omega

section Declarations

variable {text : List Char} {fragment : Fragment} {raw cleaned : List Char}
  (onLine : fragment.OnLine text raw cleaned)

include onLine

theorem Fragment.OnLine.line_eq :
    (Document.ofText text).line (lineIndex fragment.line) = raw := by
  rw [Document.line, Document.ofText, lineIndex, onLine.isRaw]
  rfl

theorem Fragment.OnLine.cleaned_eq :
    (Document.ofText (withoutComments text)).line (lineIndex fragment.line) = cleaned := by
  rw [Document.line, Document.ofText, lineIndex, onLine.isCleaned]
  rfl

theorem Fragment.OnLine.line_lt :
    lineIndex fragment.line < (Document.ofText text).lineCount :=
  (List.getElem?_eq_some_iff.1 onLine.isRaw).1

/-- A declared name is found on its line. -/
theorem Fragment.OnLine.placed_named
    {name : List Char}
    (isStart : name <+: fragment.text)
    (solid : Solid name)
    {node : Node}
    (notSelector : ∀ head body, node ≠ .selector head body)
    (kind : SymbolKind) :
    Symbol.Placed text node ⟨String.ofList name, kind, .onLine (lineIndex fragment.line)
      (findColumn name ((Document.ofText text).line (lineIndex fragment.line))) (width name)⟩ := by
  have inCleaned := (StandsAt.of_start isStart).trans onLine.stands
  obtain ⟨column, found, _, stands, _⟩ := (onLine.blanked.standsAt solid inCleaned).find?
  have isColumn : findColumn name ((Document.ofText text).line (lineIndex fragment.line)) = column := by
    rw [onLine.line_eq, findColumn, found, Option.getD_some]
  rw [← onLine.line_eq] at stands
  rw [isColumn]
  refine
    { sameLine := rfl
      line := onLine.line_lt
      ordered := Nat.le_add_right _ _
      inside := stands.width_le
      start := stands.start
      declared := fun _ => ?_
      literal := fun head body isSelector => absurd isSelector (notSelector head body) }
  rw [String.toList_ofList]
  exact ⟨stands, rfl⟩

/-- A symbol that is named by its line starts where its name is found, or with the line. -/
theorem Fragment.OnLine.placed_ofLine
    {node : Node}
    (notSelector : ∀ head body, node ≠ .selector head body)
    {kind : SymbolKind}
    (notDeclared : ¬(kind = .variable ∨ kind = .function))
    {pos : SourcePos}
    (isHere : pos.line = fragment.line) :
    Symbol.Placed text node (Symbol.ofLine kind pos (Document.ofText text)) := by
  unfold Symbol.ofLine
  rw [isHere]
  simp only
  generalize lineEq : (Document.ofText text).line (lineIndex fragment.line) = line
  have bound := width_unbracedName_le line
  have found : StandsAt [] (findColumn (unbracedName line) line) line ∧
      findColumn (unbracedName line) line + width (unbracedName line) ≤ width line := by
    unfold findColumn
    cases found : find? (unbracedName line) line with
    | none => exact ⟨.of_start List.nil_prefix, by rw [Option.getD_none, Nat.zero_add]; exact bound⟩
    | some column => exact ⟨(standsAt_of_find? found).start, (standsAt_of_find? found).width_le⟩
  subst lineEq
  exact
    { sameLine := rfl
      line := onLine.line_lt
      ordered := Nat.le_add_right _ _
      inside := found.2
      start := found.1
      declared := fun isDeclared => absurd isDeclared notDeclared
      literal := fun head body isSelector => absurd isSelector (notSelector head body) }

/-- A selector starts with its part of the header and is no wider. -/
theorem Fragment.OnLine.placed_selector
    {offset : Nat}
    {part : List Char}
    (isPart : (offset, part) ∈ splitSelectors fragment.text)
    {segments : List Segment}
    (read : readSegments part fragment.line (fragment.offset + offset) = .ok segments)
    (body : Option Node) :
    Symbol.Placed text
      (.selector ⟨segments, ⟨fragment.line, fragment.offset + offset + 1⟩⟩ body)
      ⟨selectorName segments, .selector, .onLine (lineIndex fragment.line) (fragment.offset + offset)
        (width (selectorName segments).toList)⟩ := by
  have inCleaned := (splitSelectors_standsAt fragment.text _ isPart).trans onLine.stands
  have trimmed := splitSelectorsFrom_trimmed 0 0 [] 0 fragment.text _ isPart
  obtain ⟨starts, stops⟩ := trimmed.ends_stand onLine.blanked inCleaned
  obtain ⟨bound, same⟩ := readSegments_name part fragment.line _ segments read
  rw [← onLine.cleaned_eq] at inCleaned
  rw [← onLine.line_eq] at starts stops
  have inside := stops.width_le
  rw [width_nil, Nat.add_zero] at inside
  refine
    { sameLine := rfl
      line := onLine.line_lt
      ordered := Nat.le_add_right _ _
      inside := Nat.le_trans (Nat.add_le_add_left bound _) inside
      start := starts
      declared := nofun
      literal := ?_ }
  rintro head body' isSelector literal
  cases isSelector
  rw [same literal]
  exact ⟨inCleaned, rfl, stops⟩

end Declarations

/-- A symbol that a line of a text declares is placed on the line. -/
theorem Line.Declares.placed
    {text : List Char}
    {lines : List Line}
    (scanned : scanLines text = .ok lines)
    {line : Line}
    (isLine : line ∈ lines)
    {node : Node}
    (declares : line.Declares node)
    {symbol : Symbol}
    (declared : node.symbol? (Document.ofText text) = some symbol) :
    symbol.Placed text node := by
  obtain ⟨raw, cleaned, onHead⟩ := scanLines_onLine scanned isLine (List.mem_cons_self ..)
  have ofValue : ∀ {name : List Char} {value : Node} {kind : SymbolKind},
      value.pos.line = line.head.line → name <+: line.head.text ∧ Solid name →
        Symbol.Placed text (.ident (String.ofList name) (some value) line.pos)
          ⟨String.ofList name, kind, .onLine (lineIndex (declarationLine line.pos.line value))
            (findColumn name ((Document.ofText text).line
              (lineIndex (declarationLine line.pos.line value)))) (width name)⟩ := by
    rintro name value kind isHere ⟨isStart, solid⟩
    have sameLine : declarationLine line.pos.line value = line.head.line := by
      rw [declarationLine, isHere, if_pos onHead.positive]
    rw [sameLine]
    exact onHead.placed_named isStart solid (fun _ _ => by simp) kind
  cases declares with
  | @assignment name value tokens result assigned hasTokens read =>
    have isHere : (Node.expression result).pos.line = line.head.line := by
      rw [← line.placeOf_value (scanLines_continued scanned isLine) assigned hasTokens]
      exact congrArg SourcePos.line (Expression.read_ok read).2
    cases declared
    simp only [String.toList_ofList]
    exact ofValue isHere (Pattern.assignment?_name assigned)
  | @block name value pos nodes assigned isHere =>
    cases declared
    simp only [String.toList_ofList]
    exact ofValue isHere (Pattern.assignment?_name assigned)
  | @function name inside params body headed =>
    cases declared
    simp only [String.toList_ofList]
    exact ofValue rfl (Pattern.functionHead?_name headed)
  | @selector fragment offset part segments body isFragment isPart read =>
    obtain ⟨raw, cleaned, onLine⟩ := scanLines_onLine scanned isLine isFragment
    cases declared
    exact onLine.placed_selector isPart read body
  | computed args =>
    cases declared
    exact onHead.placed_ofLine (fun _ _ => by simp) (by simp) rfl
  | directive kind text body =>
    cases declared
    exact onHead.placed_ofLine (fun _ _ => by simp) (by simp) rfl
  | property => cases declared
  | @called value tokens token name args isEnd hasTokens isToken =>
    obtain ⟨fragment, isFragment, shows⟩ := Line.tokensOf_shows isEnd hasTokens token isToken
    obtain ⟨raw, cleaned, onLine⟩ := scanLines_onLine scanned isLine isFragment
    have isHere := shows.shows.bounds.1
    obtain ⟨kind, isKind, rfl⟩ := Option.map_eq_some_iff.1 declared
    have isSelector : kind = .selector := by
      unfold Node.symbolKind? at isKind
      simp only at isKind
      split at isKind
      · exact (Option.some.inj isKind).symm
      · cases isKind
    subst isSelector
    exact onLine.placed_ofLine (fun _ _ => by simp) (by simp) isHere

/-- The symbols of a text come from its statements and are placed on their lines. -/
theorem parse_symbol_placed
    {text : List Char}
    {tree : Node}
    (parsed : Node.parse text = .ok tree)
    {node : Node}
    (isStatement : node ∈ tree.statements)
    {symbol : Symbol}
    (declared : node.symbol? (Document.ofText text) = some symbol) :
    symbol.Placed text node := by
  obtain ⟨lines, scanned, declares⟩ := parse_declares parsed
  rcases declares node isStatement with silent | ⟨line, isLine, isDeclared⟩
  · rw [Node.symbol?, silent.kind] at declared
    cases declared
  · exact isDeclared.placed scanned isLine declared

/-- Every symbol of an outline is declared by a statement. -/
theorem exists_statement_of_mem_outline
    {document : Document}
    {tree : Node}
    {symbol : Symbol}
    (isSymbol : symbol ∈ document.outline tree) :
    ∃ node ∈ tree.statements, node.symbol? document = some symbol :=
  List.mem_filterMap.1 ((keepFirst_sublist Symbol.key _).subset isSymbol)

/-- Symbol ranges are real: each lies on one line of the text and inside it. The bytes of the range are
the name of a variable or a function and, where comments are blanked out, that of a selector without
an interpolation. -/
theorem parse_symbols_real
    {text : List Char}
    {tree : Node}
    (parsed : Node.parse text = .ok tree)
    {symbol : Symbol}
    (isSymbol : symbol ∈ (Document.ofText text).outline tree) :
    symbol.range.stop.line = symbol.range.start.line ∧
      symbol.range.start.line < (Document.ofText text).lineCount ∧
      symbol.range.start.column ≤ symbol.range.stop.column ∧
      symbol.range.stop.column ≤ width ((Document.ofText text).line symbol.range.start.line) ∧
      (symbol.kind = .variable ∨ symbol.kind = .function →
        (Document.ofText text).textIn? symbol.range = some symbol.name.toList) ∧
      ∀ head body, .selector head body ∈ tree.statements →
        (Node.selector head body).symbol? (Document.ofText text) = some symbol →
          (∀ segment ∈ head.segments, segment.text.isSome) →
            (Document.ofText (withoutComments text)).textIn? symbol.range =
              some symbol.name.toList := by
  obtain ⟨node, isStatement, declared⟩ := exists_statement_of_mem_outline isSymbol
  have placed := parse_symbol_placed parsed isStatement declared
  refine ⟨placed.sameLine, placed.line, placed.ordered, placed.inside, fun isName => ?_,
    fun head body isHead declaredHere literal => ?_⟩
  · obtain ⟨stands, stop⟩ := placed.declared isName
    rw [Document.textIn?, if_pos placed.sameLine, stop]
    exact stands.takeTo?_dropTo?
  · have placedHere := parse_symbol_placed parsed isHead declaredHere
    obtain ⟨stands, stop, _⟩ := placedHere.literal head body rfl literal
    rw [Document.textIn?, if_pos placed.sameLine, stop]
    exact stands.takeTo?_dropTo?

/-- A selector with a comment in it, which is blank in the name. -/
theorem parse_symbols_real_with_comment :
    let text := ".a /*é*/ .b".toList
    ∃ tree, Node.parse text = .ok tree ∧ ∃ symbol ∈ (Document.ofText text).outline tree,
      symbol.range.stop.column ≤ width ((Document.ofText text).line symbol.range.start.line) ∧
        (Document.ofText (withoutComments text)).textIn? symbol.range = some ".a        .b".toList := by
  intro text
  let name := ".a        .b".toList
  let head : Selector := ⟨[⟨some (String.ofList name), 1, []⟩], ⟨1, 1⟩⟩
  let block : Node := .wrapper .block [] none ⟨1, 1⟩
  let tree := (Sheet.ofText text).tree
  let symbol : Symbol := ⟨String.ofList name, .selector, .onLine 0 0 12⟩
  have parsed : Node.parse text = .ok tree := by decide +kernel
  have isStatement : .selector head (some block) ∈ tree.statements := by decide +kernel
  have declared : (Node.selector head (some block)).symbol? (Document.ofText text) = some symbol := by
    decide +kernel
  have isSymbol : symbol ∈ (Document.ofText text).outline tree := by decide +kernel
  obtain ⟨_, _, _, inside, _, literal⟩ := parse_symbols_real parsed isSymbol
  exact ⟨tree, parsed, symbol, isSymbol, inside,
    literal head (some block) isStatement declared (by simp [head])⟩

end StyleSense
