import StyleSense.Proofs.Expression.Balance
import StyleSense.Proofs.Line.Break
import StyleSense.Proofs.Line.Continuation
import StyleSense.Proofs.Statement.Inline
import StyleSense.Proofs.Statement.Literal
import StyleSense.Proofs.Statement.Relocation
import StyleSense.Proofs.Statement.Value
import StyleSense.Proofs.Token.Following

/-!
Contract: a value that is broken at a gap within a bracket.

Owns:
- `ValueForm` and `ReadsValue`, how a line without a body is read as a value, and `Line.value?`'s
  place in it;
- `ReadsValue.kept`: what stands before the break is read as the start of the same value;
- `Breakable.parse_broken`: the broken statement is the same statement up to places, unless an opening
  brace stands before the break, which is cut off and leaves a value that cannot be read.

Does not own: the logical lines of the two texts (`StyleSense.Proofs.Line.Continuation`).
-/

namespace StyleSense

open Text

/-! ## Lines that are read as values -/

/-- How a line is read as a value: after `return`, after the name of a property, or as a whole. -/
inductive ValueForm where
  | returned
  | property (name : List Char)
  | plain

/-- A text that is no assignment is read as the value, if no body stands below it. -/
inductive ReadsValue (text : List Char) : ValueForm → List Char → Prop
  | returned {value : List Char}
      (isReturn : String.ofList (firstWord text) = "return")
      (isValue : text.drop "return".length = value) :
      ReadsValue text .returned value
  | property {name value : List Char}
      (notKeyword : String.ofList (firstWord text) ∉ "return" :: Line.controlWords)
      (found : Pattern.property? text = some (name, value)) :
      ReadsValue text (.property name) value
  | plain {value : List Char}
      (notKeyword : String.ofList (firstWord text) ∉ "return" :: Line.controlWords)
      (notInterpolation : Pattern.interpolation? text = none)
      (notSelector : text.head?.any Line.selectorSigns.contains = false)
      (notProperty : Pattern.property? text = none)
      (isValue : text = value) :
      ReadsValue text .plain value

/-- The node of a line of some form with the tokens of its value. -/
def ValueForm.node (line : Line) (value : List Char) (tokens : List Token) :
    ValueForm → Except ParseError Node
  | .returned | .plain => do return .expression (← Expression.read tokens line.pos)
  | .property name => do
    let expression ← Expression.read tokens (line.placeOf value)
    let segments ← readSegments name line.head.line line.head.offset
    return .property segments (some expression) line.pos

theorem exists_readsValue_of_value?
    {line : Line}
    {value : List Char}
    (notAssignment : Pattern.assignment? line.head.text = none)
    (isValue : line.value? false = some value) :
    ∃ form, ReadsValue line.head.text form value := by
  have notAt : line.head.text.head? ≠ some '@' := by
    intro isAt
    simp only [Line.value?, isAt] at isValue
    cases isValue
  rw [Line.value?_of_notAssignment notAt notAssignment] at isValue
  simp only at isValue
  split at isValue
  · rename_i isReturn
    cases isValue
    exact ⟨.returned, .returned isReturn (by rw [isReturn])⟩
  · rename_i notReturn
    split at isValue
    · cases isValue
    · rename_i isOther
      simp only [Bool.or_false, Bool.or_eq_true, not_or, Bool.not_eq_true, Option.isSome_eq_false_iff,
        Option.isNone_iff_eq_none] at isOther
      obtain ⟨⟨notControl, notInterpolation⟩, notSelector⟩ := isOther
      have notKeyword : String.ofList (firstWord line.head.text) ∉ "return" :: Line.controlWords := by
        rw [List.mem_cons, not_or]
        exact ⟨notReturn, by simpa using notControl⟩
      split at isValue
      · rename_i name _ found
        cases isValue
        exact ⟨.property name, .property notKeyword found⟩
      · rename_i notProperty
        cases isValue
        exact ⟨.plain, .plain notKeyword notInterpolation notSelector notProperty rfl⟩

namespace ReadsValue

/-- The statement that such a line is. -/
theorem statement_eq
    {line : Line}
    {form : ValueForm}
    {value : List Char}
    (notAt : line.head.text.head? ≠ some '@')
    (notAssignment : Pattern.assignment? line.head.text = none)
    (reads : ReadsValue line.head.text form value) :
    line.statement (LineTree.bodyOf []) =
      line.tokensOf value >>= fun tokens => form.node line value tokens := by
  cases reads with
  | returned isReturn isValue =>
    rw [Line.statement_of_notAssignment notAt notAssignment]
    simp only [if_pos isReturn]
    rw [isReturn, isValue]
    rfl
  | property notKeyword found =>
    exact Line.statement_of_property notAssignment notKeyword found rfl
  | plain notKeyword notInterpolation notSelector notProperty isValue =>
    obtain ⟨notReturn, notControl⟩ := not_or.mp (mt List.mem_cons.mpr notKeyword)
    have notControl' : ¬Line.controlWords.contains (String.ofList (firstWord line.head.text)) = true := by
      rw [List.contains_iff_mem]
      exact notControl
    have noBody : (LineTree.bodyOf []).first.isSome = false := rfl
    rw [Line.statement_of_notAssignment notAt notAssignment]
    simp only [if_neg notReturn, if_neg notControl']
    unfold Line.plainStatement
    simp only [noBody, Bool.false_eq_true, if_false, notInterpolation, notSelector, Bool.or_self,
      notProperty, ← isValue]
    rfl

end ReadsValue

namespace ValueForm

/-- Values with the same terms are the same statement up to places. -/
theorem node_concur
    (form : ValueForm)
    {line line' : Line}
    (sameLine : line.head.line = line'.head.line)
    (sameOffset : line.head.offset = line'.head.offset)
    (value value' : List Char)
    {start start' : Token}
    {tokens tokens' : List Token}
    (follow : Matching.anywhere.Follow [] start start' tokens tokens') :
    Concur Node.SameUnplaced (form.node line value tokens) (form.node line' value' tokens') := by
  have readings : ∀ pos pos', Concur (fun left right => left.unplaced = right.unplaced)
      (Expression.read tokens pos) (Expression.read tokens' pos') := by
    intro pos pos'
    have places : Matching.anywhere.pos pos pos' := trivial
    have outcome := Expression.read_follow follow places
    generalize Expression.read tokens pos = left at outcome ⊢
    generalize Expression.read tokens' pos' = right at outcome ⊢
    cases outcome with
    | ok values => exact .ok (values.unplaced_eq id)
    | error _ => exact .error _ _
  have asExpression : Concur Node.SameUnplaced
      (Expression.read tokens line.pos >>= fun value => .ok (.expression value))
      (Expression.read tokens' line'.pos >>= fun value => .ok (.expression value)) := by
    refine (readings _ _).bind fun same => .ok ?_
    rw [Node.SameUnplaced, Node.unplaced, Node.unplaced, same]
  cases form with
  | returned => exact asExpression
  | plain => exact asExpression
  | property name =>
    unfold node
    refine (readings _ _).bind fun same => ?_
    rw [sameLine, sameOffset]
    cases readSegments name line'.head.line line'.head.offset with
    | error error => exact .error _ _
    | ok segments =>
      refine .ok ?_
      rw [Node.SameUnplaced, Node.unplaced, Node.unplaced, Expression.unplacedOption,
        Expression.unplacedOption, same]

/-- The terms of the value of such a statement can be read. -/
theorem exists_terms
    {form : ValueForm}
    {line : Line}
    {value : List Char}
    {tokens : List Token}
    {node : Node}
    (isNode : form.node line value tokens = .ok node) :
    ∃ nodes, Expression.readTerms tokens = .ok nodes := by
  have failing : ∀ error, Expression.readTerms tokens = .error error → False := by
    intro error failed
    have fails : ∀ pos, Expression.read tokens pos = .error error := by
      intro pos
      rw [Expression.read, failed]
    cases form <;>
    · rw [ValueForm.node, fails] at isNode
      cases isNode
  cases read : Expression.readTerms tokens with
  | ok nodes => exact ⟨nodes, rfl⟩
  | error error => exact (failing error read).elim

end ValueForm

/-! ## Texts of one line -/

/-- Texts of one line each whose statements are the same up to places. -/
theorem Node.parse_single_unplaced
    {text text' : List Char}
    {line line' : Line}
    (scanned : scanLines text = .ok [line])
    (scanned' : scanLines text' = .ok [line'])
    (statements : Concur Node.SameUnplaced (line.statement (LineTree.bodyOf []))
      (line'.statement (LineTree.bodyOf []))) :
    (Node.parse text).toOption.map Node.unplaced = (Node.parse text').toOption.map Node.unplaced := by
  rw [Node.parse_single scanned, Node.parse_single scanned']
  apply Concur.toOption_map_eq
  refine statements.bind fun same => .ok ?_
  simp [Node.unplaced, Node.unplacedList, same]

/-- If such a text can be read, so can the terms of its value. -/
theorem ReadsValue.exists_terms
    {text : List Char}
    {line : Line}
    {form : ValueForm}
    {value : List Char}
    (notAt : line.head.text.head? ≠ some '@')
    (notAssignment : Pattern.assignment? line.head.text = none)
    (reads : ReadsValue line.head.text form value)
    (scanned : scanLines text = .ok [line])
    {tree : Node}
    (parsed : Node.parse text = .ok tree) :
    ∃ tokens nodes, line.tokensOf value = .ok tokens ∧ Expression.readTerms tokens = .ok nodes := by
  rw [Node.parse_single scanned, reads.statement_eq notAt notAssignment] at parsed
  cases lexed : line.tokensOf value with
  | error error =>
    rw [lexed] at parsed
    cases parsed
  | ok tokens =>
    cases isNode : form.node line value tokens with
    | error error =>
      have fails : (Except.ok tokens >>= fun tokens => form.node line value tokens :
          Except ParseError Node) = .error error := isNode
      rw [lexed, fails] at parsed
      cases parsed
    | ok node =>
      obtain ⟨nodes, read⟩ := ValueForm.exists_terms isNode
      exact ⟨tokens, nodes, rfl, read⟩

namespace Breakable

variable (b : Breakable)

/-- What stands before the break is read as the start of the same value. -/
theorem readsValue_kept
    {form : ValueForm}
    (reads : ReadsValue b.text form b.value) :
    ReadsValue (b.lead ++ b.kept) form b.kept := by
  obtain ⟨inner, sign, rest, dropped, isStop, keptEq, startEq, _⟩ := b.exists_kept
  have valueEq : b.value = inner ++ sign :: (rest ++ dropped) := by
    rw [startEq, keptEq, List.append_assoc, List.cons_append]
  have textEq : b.text = (b.lead ++ inner) ++ sign :: (rest ++ dropped) := by
    rw [text, valueEq, List.append_assoc]
  have headEq : b.lead ++ b.kept = (b.lead ++ inner) ++ sign :: rest := by
    rw [keptEq, List.append_assoc]
  generalize isText : b.text = text at reads
  generalize isValue : b.value = value at reads
  cases reads with
  | returned isReturn dropEq =>
    subst isText isValue
    refine .returned ?_ ?_
    · have plain : sign ∉ "return".toList := by
        rcases isStop with (rfl | rfl) | rfl | rfl <;> decide
      have word : firstWord b.text = "return".toList := by
        rw [← isReturn, String.toList_ofList]
      rw [textEq] at word
      rw [headEq, Pattern.firstWord_append isStop plain word]
      rfl
    · have lengths := congrArg List.length dropEq
      rw [List.length_drop, text, List.length_append] at lengths
      have positive : 0 < b.value.length := List.length_pos_of_ne_nil (by simp [valueEq])
      have leadLength : "return".length = b.lead.length := by omega
      rw [leadLength, List.drop_left]
  | property notKeyword found =>
    subst isText isValue
    rw [textEq] at notKeyword found
    rw [valueEq] at found
    rw [headEq, keptEq]
    exact .property (firstWord_notKeyword isStop notKeyword) (Pattern.property?_local isStop found rest)
  | plain notKeyword notInterpolation notSelector notProperty isWhole =>
    subst isText isValue
    obtain ⟨outer, isOpen, _, leaves⟩ := b.leaves_kept
    have noLead : b.lead = [] := by
      rw [text] at isWhole
      exact List.append_left_eq_self.mp isWhole
    have longer : b.text = b.kept ++ dropped := by
      rw [text, noLead, startEq, List.nil_append]
    have sameHead : b.kept.head? = b.text.head? := by
      rw [longer, List.head?_append_of_ne_nil _ (by rw [keptEq]; simp)]
    rw [longer] at notProperty
    rw [textEq] at notKeyword
    refine .plain ?_ ?_ ?_ ?_ (by rw [noLead, List.nil_append])
    · rw [headEq]
      exact firstWord_notKeyword isStop notKeyword
    · rw [noLead, List.nil_append]
      exact leaves.interpolation?_eq_none isOpen
    · rw [noLead, List.nil_append, sameHead]
      exact notSelector
    · rw [noLead, List.nil_append]
      exact leaves.property?_eq_none isOpen notProperty

/-- The broken statement is no assignment either. -/
theorem assignment?_kept : Pattern.assignment? (b.lead ++ b.kept) = none := by
  obtain ⟨inner, sign, rest, dropped, isStop, keptEq, startEq, _⟩ := b.exists_kept
  have notAssignment : Pattern.assignment? b.text = none := b.notAssignment
  have textEq : b.text = (b.lead ++ inner) ++ sign :: (rest ++ dropped) := by
    rw [text, startEq, keptEq]
    simp
  rw [textEq, Pattern.assignment?_append (Pattern.trailing_of_isStop isStop _),
    Option.map_eq_none_iff] at notAssignment
  rw [keptEq, ← List.append_assoc, Pattern.assignment?_append (Pattern.trailing_of_isStop isStop _),
    notAssignment]
  rfl

/-! ## Tokens -/

/-- Without a brace before the break, the whole start of the value is kept. -/
theorem kept_eq (noBrace : b.start.getLast? ≠ some '\x7b') : b.kept = b.start := by
  obtain ⟨inner, sign, rest, whole, _⟩ := b.exists_stop
  have nonempty : b.start ≠ [] := by simp [whole]
  rw [kept, unbraced, dropSuffix_of_getLast?_ne noBrace]
  refine trimEnd_eq_self fun c isLast => (trim_eq_self_iff.mp b.trimmed).2 c ?_
  rw [List.getLast?_append_of_ne_nil _ nonempty]
  exact isLast

/-- The tokens of the value before and after the gap, where they stand in the broken statement. -/
structure HasTokens (margin margin' : List Char) (first rest : List Token) : Prop where
  start : (⟨1, width margin + width b.lead, b.start⟩ : Fragment).tokens = .ok first
  after : (⟨2, width margin', b.after⟩ : Fragment).tokens = .ok rest

variable {b} {margin margin' : List Char} {first rest : List Token}

namespace HasTokens

variable (tokens : b.HasTokens margin margin' first rest)

include tokens

/-- On one line the same tokens stand, with a blank at the gap. -/
theorem tokensOf_together :
    ∃ joined, (b.together margin).tokensOf b.value = .ok joined ∧
      kindsOf joined = joinKinds ([first, rest].map kindsOf) ∧
      ∀ token ∈ joined, token.pos.line = 1 := by
  have cut := (tokenizeFrom_cut tokens.start).append_blanks (tokenizeFrom_cut tokens.after) b.spaced
    b.blank
  obtain ⟨joined, read, kinds⟩ := tokenize_of_cut cut 1 (width margin + width b.lead)
  have skipped : width b.text - width b.value = width b.lead := by
    rw [text, width_append, Nat.add_sub_cancel]
  refine ⟨joined, ?_, by simpa [joinKinds] using kinds, fun token isIn =>
    (tokenize_shows read token isIn).shows.bounds.1⟩
  have readValue : tokenize b.value 1 (width margin + width b.lead) = .ok joined := read
  simp only [Line.tokensOf, together, skipped, Line.fragmentTokens, Fragment.tokens, readValue,
    List.append_nil]

theorem tokensOf_broken (noBrace : b.start.getLast? ≠ some '\x7b') :
    (b.broken margin margin').tokensOf b.kept = .ok (first ++ rest) := by
  have skipped : width (b.lead ++ b.start) - width b.start = width b.lead := by
    rw [width_append, Nat.add_sub_cancel]
  simp only [Line.tokensOf, broken, b.kept_eq noBrace, skipped, Line.fragmentTokens, tokens.start,
    tokens.after, List.append_nil]

/-- If the start of the value is cut short, its tokens are short of a brace. -/
theorem braceDepth_broken
    (isBrace : b.start.getLast? = some '\x7b')
    {short : List Token}
    (read : (b.broken margin margin').tokensOf b.kept = .ok short) :
    braceDepth (kindsOf short) + 1 = braceDepth (kindsOf first) + braceDepth (kindsOf rest) := by
  obtain ⟨inner, startEq⟩ := List.getLast?_eq_some_iff.mp isBrace
  obtain ⟨gap, blank, innerEq⟩ := exists_trimEnd_append inner
  have keptEq : b.kept = trimEnd inner := by rw [kept, unbraced, startEq, dropSuffix_append_singleton]
  have whole : b.start = b.kept ++ (gap ++ ['\x7b']) := by
    rw [startEq, keptEq, ← List.append_assoc, ← innerEq]
  simp only [Line.tokensOf, broken, Line.fragmentTokens, tokens.after, List.append_nil] at read
  split at read
  · cases read
  · rename_i keptTokens readKept
    cases read
    obtain ⟨flag, longer⟩ := (tokenizeFrom_cut readKept).append_brace blank
    obtain ⟨again, readAgain, kinds⟩ := tokenize_of_cut longer 1 (width margin + width b.lead)
    rw [← whole] at readAgain
    obtain rfl : first = again := Except.ok.inj (tokens.start.symm.trans readAgain)
    have weight : braceDepth [(Token.Kind.opening .curly, flag)] = 1 := rfl
    rw [braceDepth_kindsOf_append, kinds, braceDepth_append, weight]
    omega

end HasTokens

/-! ## Texts -/

/-- Neither line of the statement is an at-rule. -/
theorem head?_ne
    (isValue : (b.together margin).value? false = some b.value) :
    b.text.head? ≠ some '@' ∧ (b.lead ++ b.kept).head? ≠ some '@' := by
  have notAt : b.text.head? ≠ some '@' := by
    intro isAt
    have isAtLine : (b.together margin).head.text.head? = some '@' := isAt
    simp only [Line.value?, isAtLine] at isValue
    cases isValue
  obtain ⟨inner, sign, rest, dropped, _, keptEq, startEq, _⟩ := b.exists_kept
  have sameHead : b.text.head? = (b.lead ++ b.kept).head? := by
    rw [text, startEq, ← List.append_assoc, List.head?_append_of_ne_nil _ (by simp [keptEq])]
  exact ⟨notAt, sameHead ▸ notAt⟩

/-- The statement broken at a gap at which the reader does not look is the same up to places. -/
theorem HasTokens.statement_concur
    (tokens : b.HasTokens margin margin' first rest)
    (isValue : (b.together margin).value? false = some b.value)
    (noBrace : b.start.getLast? ≠ some '\x7b')
    (loose : LooseBreaks first [rest]) :
    Concur Node.SameUnplaced ((b.broken margin margin').statement (LineTree.bodyOf []))
      ((b.together margin).statement (LineTree.bodyOf [])) := by
  obtain ⟨notAt, notAtHead⟩ := head?_ne isValue
  obtain ⟨form, reads⟩ : ∃ form, ReadsValue b.text form b.value :=
    exists_readsValue_of_value? b.notAssignment isValue
  have readsHead := b.readsValue_kept reads
  obtain ⟨joined, lexed, kinds, onLine⟩ := tokens.tokensOf_together
  rw [readsHead.statement_eq notAtHead b.assignment?_kept, reads.statement_eq notAt b.notAssignment,
    tokens.tokensOf_broken noBrace, lexed]
  have onLines : ∀ others ∈ [rest], ∃ line, ∀ token ∈ others, token.pos.line = line := by
    intro others isRest
    rw [List.mem_singleton.mp isRest]
    exact ⟨_, Line.onLine_of_tokens tokens.after⟩
  obtain ⟨start, start', follow⟩ := follow_joined kinds loose (Line.onLine_of_tokens tokens.start)
    onLines onLine
  rw [List.flatten_singleton] at follow
  have sameLine : (b.broken margin margin').head.line = (b.together margin).head.line := rfl
  have sameOffset : (b.broken margin margin').head.offset = (b.together margin).head.offset := rfl
  exact form.node_concur sameLine sameOffset b.kept b.value follow

/-- If the start of the value is cut short, not both texts can be read: both values close all braces
that they open, but the second one opens one less. -/
theorem HasTokens.not_both
    (tokens : b.HasTokens margin margin' first rest)
    (isValue : (b.together margin).value? false = some b.value)
    (isBrace : b.start.getLast? = some '\x7b')
    {oneLine twoLines : List Char}
    (scanned : scanLines oneLine = .ok [b.together margin])
    (scannedApart : scanLines twoLines = .ok [b.broken margin margin'])
    {tree tree' : Node}
    (parsed : Node.parse oneLine = .ok tree) :
    Node.parse twoLines ≠ .ok tree' := by
  intro parsedApart
  obtain ⟨notAt, notAtHead⟩ := head?_ne isValue
  obtain ⟨form, reads⟩ : ∃ form, ReadsValue b.text form b.value :=
    exists_readsValue_of_value? b.notAssignment isValue
  obtain ⟨joined, _, lexed, readAll⟩ := reads.exists_terms notAt b.notAssignment scanned parsed
  obtain ⟨short, _, lexedShort, readShort⟩ :=
    (b.readsValue_kept reads).exists_terms notAtHead b.assignment?_kept scannedApart parsedApart
  obtain ⟨again, lexedAgain, kinds, _⟩ := tokens.tokensOf_together
  obtain rfl : joined = again := Except.ok.inj (lexed.symm.trans lexedAgain)
  have closesAll := Expression.braceDepth_of_readTerms readAll
  have closesShort := Expression.braceDepth_of_readTerms readShort
  have lost := tokens.braceDepth_broken isBrace lexedShort
  have sameBraces : braceDepth (kindsOf joined) =
      braceDepth (kindsOf first) + braceDepth (kindsOf rest) := by
    rw [kinds]
    simp [joinKinds, braceDepth_append, braceDepth_spaceFirst]
  omega

/-- A statement that is no assignment and is read as a value, on one line and broken at a gap in which
a bracket is open. Both lines are fragments of one logical line; only a brace at the end of the first
one is cut off. Without such a brace the two texts are read as the same tree up to places, or neither
is, if the reader does not look at the break. With such a brace the second text cannot be read. -/
theorem parse_broken
    (b : Breakable)
    {margin margin' ending tail tail' tail'' : List Char}
    (blank : ∀ gap ∈ [margin, margin', tail, tail', tail''], AllBlank gap)
    (isEnding : IsEnding ending)
    {oneLine twoLines : List Char}
    (together : physicalLines (withoutComments oneLine) = [margin ++ (b.text ++ ending) ++ tail])
    (apart : physicalLines (withoutComments twoLines) =
      [margin ++ b.before ++ tail', margin' ++ (b.after ++ ending) ++ tail''])
    (isValue : (b.together margin).value? false = some b.value)
    {first rest : List Token}
    (tokens : b.HasTokens margin margin' first rest) :
    scanLines twoLines = .ok [⟨width margin, ⟨1, width margin, trimEnd (dropSuffix '\x7b' b.before)⟩,
      [⟨2, width margin', b.after⟩]⟩] ∧
    (b.start.getLast? ≠ some '\x7b' →
      trimEnd (dropSuffix '\x7b' b.before) = b.before ∧
      (LooseBreaks first [rest] →
        (Node.parse twoLines).toOption.map Node.unplaced =
          (Node.parse oneLine).toOption.map Node.unplaced)) ∧
    (b.start.getLast? = some '\x7b' → (Node.parse oneLine).isOk = true →
      ∃ error, Node.parse twoLines = .error error) := by
  simp only [List.forall_mem_cons, List.not_mem_nil, false_implies, implies_true, and_true] at blank
  obtain ⟨blankMargin, blankMargin', blankTail, blankTail', blankTail''⟩ := blank
  have scanned := b.scanLines_together blankMargin blankTail isEnding together
  have scannedApart := b.scanLines_broken blankMargin blankTail' blankMargin' blankTail'' isEnding apart
  have headEq : trimEnd (dropSuffix '\x7b' b.before) = b.lead ++ b.kept := by
    obtain ⟨_, _, _, _, _, _, _, unbracedEq⟩ := b.exists_kept
    exact unbracedEq
  refine ⟨?_, fun noBrace => ⟨?_, fun loose => ?_⟩, fun isBrace parsed => ?_⟩
  · rw [headEq]
    exact scannedApart
  · rw [headEq, b.kept_eq noBrace]
    rfl
  · exact Node.parse_single_unplaced scannedApart scanned
      (tokens.statement_concur isValue noBrace loose)
  · obtain ⟨tree, isTree⟩ : ∃ tree, Node.parse oneLine = .ok tree := by
      cases result : Node.parse oneLine with
      | ok tree => exact ⟨tree, rfl⟩
      | error error =>
        rw [result] at parsed
        cases parsed
    cases parsedApart : Node.parse twoLines with
    | error error => exact ⟨error, rfl⟩
    | ok tree' =>
      exact absurd parsedApart (tokens.not_both isValue isBrace scanned scannedApart isTree)

/-- A call whose second argument is an object, broken before the object. -/
def objectAfterBreak : Breakable where
  lead := []
  start := "foo(a,".toList
  gap := [' ']
  after := "\x7b b: c \x7d)".toList
  brackets := ['(']
  spaced := by decide
  blank := by decide
  trimmed := by decide
  nonempty := by decide
  trimmedAfter := by decide
  balancedLead := by decide
  opened := by decide
  inside := ⟨'(', by simp, by decide⟩
  balanced := by decide
  notAssignment := by decide
  single := by decide
  unended := by decide
  unendedAfter := by decide

/-- The same call, broken behind the brace of the object. -/
def objectAroundBreak : Breakable where
  lead := []
  start := "foo(a, \x7b".toList
  gap := [' ']
  after := "b: c \x7d)".toList
  brackets := ['\x7b', '(']
  spaced := by decide
  blank := by decide
  trimmed := by decide
  nonempty := by decide
  trimmedAfter := by decide
  balancedLead := by decide
  opened := by decide
  inside := ⟨'(', by simp, by decide⟩
  balanced := by decide
  notAssignment := by decide
  single := by decide
  unended := by decide
  unendedAfter := by decide

/-- An object literal as an argument, with the break before it and within it. -/
theorem parse_broken_object_argument :
    (Node.parse "foo(a,\n  \x7b b: c \x7d)".toList).toOption.map Node.unplaced =
        (Node.parse "foo(a, \x7b b: c \x7d)".toList).toOption.map Node.unplaced ∧
      ∃ error, Node.parse "foo(a, \x7b\n  b: c \x7d)".toList = .error error := by
  let foo : Token := ⟨.name "foo", ⟨1, 1⟩, false⟩
  let opening : Token := ⟨.opening .round, ⟨1, 4⟩, false⟩
  let a : Token := ⟨.name "a", ⟨1, 5⟩, false⟩
  let comma : Token := ⟨.comma, ⟨1, 6⟩, false⟩
  let brace : Token := ⟨.opening .curly, ⟨1, 8⟩, true⟩
  let object : List Token :=
    [⟨.opening .curly, ⟨2, 3⟩, false⟩, ⟨.name "b", ⟨2, 5⟩, true⟩, ⟨.op .colon, ⟨2, 6⟩, false⟩,
      ⟨.name "c", ⟨2, 8⟩, true⟩, ⟨.closing .curly, ⟨2, 10⟩, true⟩, ⟨.closing .round, ⟨2, 11⟩, false⟩]
  let entry : List Token :=
    [⟨.name "b", ⟨2, 3⟩, false⟩, ⟨.op .colon, ⟨2, 4⟩, false⟩, ⟨.name "c", ⟨2, 6⟩, true⟩,
      ⟨.closing .curly, ⟨2, 8⟩, true⟩, ⟨.closing .round, ⟨2, 9⟩, false⟩]
  have blank : ∀ gap ∈ [[], "  ".toList, [], [], []], AllBlank gap := by decide
  have tokensAfter : objectAfterBreak.HasTokens [] "  ".toList [foo, opening, a, comma] object :=
    ⟨by decide +kernel, by decide +kernel⟩
  have tokensAround :
      objectAroundBreak.HasTokens [] "  ".toList [foo, opening, a, comma, brace] entry :=
    ⟨by decide +kernel, by decide +kernel⟩
  have parsed : (Node.parse "foo(a, \x7b b: c \x7d)".toList).isOk = true := by decide +kernel
  have loose : LooseBreaks [foo, opening, a, comma] [object] := by
    simp only [LooseBreaks, and_true]
    rintro left ⟨⟩ right ⟨⟩
    decide
  have together : physicalLines (withoutComments "foo(a, \x7b b: c \x7d)".toList) =
      ["foo(a, \x7b b: c \x7d)".toList] := by decide
  have apartAfter : physicalLines (withoutComments "foo(a,\n  \x7b b: c \x7d)".toList) =
      ["foo(a,".toList, "  \x7b b: c \x7d)".toList] := by decide
  have apartAround : physicalLines (withoutComments "foo(a, \x7b\n  b: c \x7d)".toList) =
      ["foo(a, \x7b".toList, "  b: c \x7d)".toList] := by decide
  have ofAfter :=
    objectAfterBreak.parse_broken blank (.inl rfl) together apartAfter (by decide +kernel) tokensAfter
  have ofAround :=
    objectAroundBreak.parse_broken blank (.inl rfl) together apartAround (by decide +kernel)
      tokensAround
  exact ⟨(ofAfter.2.1 (by decide)).2 loose, ofAround.2.2 (by decide) parsed⟩

end Breakable

end StyleSense
