import StyleSense.Proofs.Line.Scan
import StyleSense.Proofs.Statement.Matching
import StyleSense.Proofs.Token.Separator

/-!
Contract: two statements on one line and on two lines.

Owns:
- `IsStatementText`, a text that is one statement and fills its line;
- the logical lines of two such texts with a semicolon between them, and on lines of their own;
- `parse_semicolon_iff`: the semicolon separates the two exactly when the first of them is not an
  assignment of a value. The line of such an assignment is kept whole, so that its value would have
  a semicolon in it, which no value has.

Does not own: semicolons at the end of a line (`StyleSense.Proofs.Statement.Braces`).
-/

namespace StyleSense

open Text

/-- A text that is one statement and fills its line. -/
structure IsStatementText (text : List Char) : Prop where
  nonempty : text ≠ []
  trimmed : trim text = text
  unmarked : Unmarked text
  commentless : Commentless text
  whole : ';' ∉ text
  complete : text.getLast? ≠ some ','
  notCss : ¬"@css".toList <+: text

instance (text : List Char) : Decidable (IsStatementText text) :=
  decidable_of_iff
    (text ≠ [] ∧ trim text = text ∧ Unmarked text ∧ Commentless text ∧ ';' ∉ text ∧
      text.getLast? ≠ some ',' ∧ ¬"@css".toList <+: text)
    ⟨fun all => ⟨all.1, all.2.1, all.2.2.1, all.2.2.2.1, all.2.2.2.2.1, all.2.2.2.2.2.1,
      all.2.2.2.2.2.2⟩,
    fun isText => ⟨isText.nonempty, isText.trimmed, isText.unmarked, isText.commentless, isText.whole,
      isText.complete, isText.notCss⟩⟩

/-! ## The logical lines -/

namespace Scan

/-- A line without quotes, brackets and comments that is complete is put together from its text. -/
theorem startLine_unmarked
    {s : Scan}
    (atRest : s.AtRest)
    {text : List Char}
    (nonempty : text ≠ [])
    (trimmed : trim text = text)
    (unmarked : Unmarked text)
    (noSemicolon : text.getLast? ≠ some ';')
    (complete : text.getLast? ≠ some ',')
    (notCss : ¬"@css".toList <+: text)
    (number indent : Nat) :
    s.startLine number indent text =
      let line : Line := ⟨indent, ⟨number, indent, text⟩, []⟩
      { s with found := (if isValueLine text then [line] else line.split).reverse ++ s.found } := by
  have noBrace : text.getLast? ≠ some '\x7b' := by
    intro isLast
    exact unmarked _ (List.mem_of_getLast? isLast) (by decide)
  have notClosing : text.head? ≠ some '\x7d' := by
    intro isFirst
    exact unmarked _ (List.mem_of_head? isFirst) (by decide)
  exact startLine_complete atRest nonempty trimmed notClosing noSemicolon noBrace complete
    (bracketDepth_of_unmarked unmarked _) notCss number indent

/-- Blanks in front of a text put no comment there. -/
theorem commentless_gap
    {gap text : List Char}
    (blank : AllBlank gap)
    (commentless : Commentless text) :
    Commentless (gap ++ text) := by
  refine (Commentless.of_allBlank blank).append commentless (.inl fun isLast => ?_)
  exact absurd (blank _ (List.mem_of_getLast? isLast)) (by decide)

/-- Reading a line of an unmarked text at rest. -/
theorem step_unmarked
    {s : Scan}
    (atRest : s.AtRest)
    {gap text : List Char}
    (blank : AllBlank gap)
    (nonempty : text ≠ [])
    (trimmed : trim text = text)
    (unmarked : Unmarked text)
    (commentless : Commentless text)
    (number : Nat) :
    s.step number (gap ++ text) = s.startLine number (width gap) text := by
  have unquoted := ((Unmarked.of_allBlank blank).append unmarked).unquoted
  have commentlessLine := commentless_gap blank commentless
  rw [← List.append_nil (gap ++ text)] at commentlessLine unquoted ⊢
  exact step_atRest atRest commentlessLine unquoted blank allBlank_nil trimmed nonempty number

/-- Reading a line that is one statement. -/
theorem step_statementText
    {s : Scan}
    (atRest : s.AtRest)
    {gap text : List Char}
    (blank : AllBlank gap)
    (isText : IsStatementText text)
    (number : Nat) :
    s.step number (gap ++ text) =
      { s with found := ⟨width gap, ⟨number, width gap, text⟩, []⟩ :: s.found } := by
  have noSemicolon : text.getLast? ≠ some ';' := fun isLast =>
    isText.whole (List.mem_of_getLast? isLast)
  rw [step_unmarked atRest blank isText.nonempty isText.trimmed isText.unmarked isText.commentless,
    startLine_unmarked atRest isText.nonempty isText.trimmed isText.unmarked noSemicolon
      isText.complete isText.notCss]
  have single : (⟨width gap, ⟨number, width gap, text⟩, []⟩ : Line).split =
      [⟨width gap, ⟨number, width gap, text⟩, []⟩] := by
    simp [Line.split, splitStatements_unmarked isText.unmarked isText.whole isText.trimmed
      isText.nonempty]
  simp only [single, ite_self]
  rfl

end Scan

/-- Two statements on lines of their own. -/
theorem scanLines_apart
    {first second : List Char}
    (firstText : IsStatementText first)
    (secondText : IsStatementText second)
    {upper lower : List Char}
    (upperBlank : AllBlank upper)
    (lowerBlank : AllBlank lower)
    {text : List Char}
    (apart : physicalLines text = [upper ++ first, lower ++ second]) :
    scanLines text =
      .ok [⟨width upper, ⟨1, width upper, first⟩, []⟩, ⟨width lower, ⟨2, width lower, second⟩, []⟩] := by
  have readFirst := Scan.step_statementText Scan.initial_atRest upperBlank firstText 1
  rw [scanLines, apart, Scan.run, Scan.run, Scan.run, readFirst,
    Scan.step_statementText ⟨rfl, rfl, rfl⟩ lowerBlank secondText]
  rfl

section Packed

variable {first second : List Char}

/-- The text of two statements with a semicolon between them. -/
def packed (first second : List Char) : List Char :=
  first ++ ';' :: ' ' :: second

theorem isValueLine_packed : isValueLine (packed first second) = isValueLine first :=
  isValueLine_append allBlank_nil (.inl rfl) first _

variable (firstText : IsStatementText first) (secondText : IsStatementText second)

include firstText secondText

theorem packed_trimmed : trim (packed first second) = packed first second := by
  refine trim_eq_self_iff.mpr ⟨?_, ?_⟩
  · rw [packed, List.head?_append_of_ne_nil _ firstText.nonempty]
    exact (trim_eq_self_iff.mp firstText.trimmed).1
  · rw [packed, List.getLast?_append_of_ne_nil _ (List.cons_ne_nil _ _), List.getLast?_cons_cons,
      List.getLast?_cons_of_ne_nil secondText.nonempty]
    exact (trim_eq_self_iff.mp secondText.trimmed).2

theorem packed_unmarked : Unmarked (packed first second) := by
  refine firstText.unmarked.append ?_
  exact (show Unmarked [';', ' '] from by decide).append secondText.unmarked

theorem packed_commentless : Commentless (packed first second) := by
  refine firstText.commentless.append ?_ (.inr (by simp))
  refine (Commentless.of_slash_notMem (show '/' ∉ [';', ' '] by decide)).append
    secondText.commentless (.inl (by decide))

theorem splitStatements_packed :
    splitStatements (packed first second) =
      [⟨0, 0, first⟩, ⟨0, width first + 2, second⟩] := by
  have oneBlank : AllBlank [' '] := by decide
  exact splitStatements_semicolon firstText.unmarked firstText.whole firstText.trimmed
    firstText.nonempty oneBlank secondText.unmarked secondText.whole secondText.trimmed
    secondText.nonempty

/-- Two statements on one line. An assignment of a value keeps the line whole. -/
theorem scanLines_packed
    {gap : List Char}
    (blank : AllBlank gap)
    {text : List Char}
    (together : physicalLines text = [gap ++ packed first second]) :
    scanLines text =
      .ok (if isValueLine first then
        [⟨width gap, ⟨1, width gap, packed first second⟩, []⟩]
      else
        [⟨width gap, ⟨1, width gap, first⟩, []⟩,
          ⟨width gap, ⟨1, width gap + (width first + 2), second⟩, []⟩]) := by
  have nonempty : packed first second ≠ [] := by simp [packed]
  have last : (packed first second).getLast? = second.getLast? := by
    rw [packed, List.getLast?_append_of_ne_nil _ (List.cons_ne_nil _ _), List.getLast?_cons_cons,
      List.getLast?_cons_of_ne_nil secondText.nonempty]
  have noSemicolon : (packed first second).getLast? ≠ some ';' := fun isLast =>
    secondText.whole (List.mem_of_getLast? (last ▸ isLast))
  have notCss : ¬"@css".toList <+: packed first second := by
    rw [packed, prefix_append_of_stop (by
      intro c isFirst
      obtain rfl : ';' = c := by simpa using isFirst
      decide)]
    exact firstText.notCss
  rw [scanLines, together, Scan.run, Scan.run,
    Scan.step_unmarked Scan.initial_atRest blank nonempty (packed_trimmed firstText secondText)
      (packed_unmarked firstText secondText) (packed_commentless firstText secondText),
    Scan.startLine_unmarked Scan.initial_atRest nonempty (packed_trimmed firstText secondText)
      (packed_unmarked firstText secondText) noSemicolon (last ▸ secondText.complete) notCss,
    isValueLine_packed]
  split
  · rfl
  · simp [Scan.finish, Scan.initial, Line.split, splitStatements_packed firstText secondText]

end Packed

/-! ## The statements -/

/-- Statements on line `first` of one text and on line `second` of another. -/
def Matching.onLines
    {first second : Nat}
    (_firstKnown : first ≠ 0)
    (_secondKnown : second ≠ 0) :
    Matching where
  pos left right :=
    (left.line = first ∧ right.line = second) ∨ (left.line = 0 ∧ right.line = 0)
  string := Eq
  word _ _ := True
  literal _ _ := True
  pos_unknown := .inr ⟨rfl, rfl⟩
  pos_column lefts _ := lefts
  string_refl _ := rfl
  word_of_literal _ := trivial
  word_member _ _ _ := trivial
  word_selector _ := trivial

instance
    {first second : Nat}
    (firstKnown : first ≠ 0)
    (secondKnown : second ≠ 0) :
    (Matching.onLines firstKnown secondKnown).KeepsLines where
  line_eq_iff := by
    intro left left' right right' lefts rights
    simp only [Matching.onLines] at lefts rights
    omega

/-- Outcomes that correspond with equal strings are the same up to places. -/
theorem Matching.Outcome.unplaced_eq
    {M : Matching}
    (equalStrings : ∀ {value value'}, M.string value value' → value = value')
    {left right : Except ParseError Node}
    (outcomes : M.Outcome (Node.Matches M) left right) :
    left.toOption.map Node.unplaced = right.toOption.map Node.unplaced := by
  cases outcomes with
  | ok nodes => exact congrArg some (nodes.unplaced_eq equalStrings)
  | error _ => rfl

/-- The same text on two lines is read as the same statement up to its places. -/
theorem Line.statement_unplaced
    {first second : Nat}
    (firstKnown : first ≠ 0)
    (secondKnown : second ≠ 0)
    (text : List Char)
    (indent indent' offset offset' : Nat) :
    ((⟨indent, ⟨first, offset, text⟩, []⟩ : Line).statement (LineTree.bodyOf [])).toOption.map
        Node.unplaced =
      ((⟨indent', ⟨second, offset', text⟩, []⟩ : Line).statement (LineTree.bodyOf [])).toOption.map
        Node.unplaced := by
  let M := Matching.onLines firstKnown secondKnown
  have stretch : M.Stretch text first offset second offset' :=
    ⟨fun _ => .inl ⟨rfl, rfl⟩, fun _ _ _ _ _ => trivial, fun _ _ _ _ _ => trivial⟩
  have lines : Line.Matches M ⟨indent, ⟨first, offset, text⟩, []⟩
      ⟨indent', ⟨second, offset', text⟩, []⟩ := ⟨⟨rfl, stretch⟩, .nil⟩
  have bodies : Body.Matches M (LineTree.bodyOf []) (LineTree.bodyOf []) :=
    LineTree.ListMatches.nil.bodyOf_matches LineTree.ListMatches.nil.statements_matches
  exact (Line.statement_matches lines bodies fun _ => rfl).unplaced_eq id

/-- The tree of a text up to places, from its two lines of equal indentation. -/
theorem Node.parse_unplaced
    {text : List Char}
    {first second : Line}
    (scanned : scanLines text = .ok [first, second])
    (aligned : first.indent = second.indent) :
    (Node.parse text).toOption.map Node.unplaced =
      ((first.statement (LineTree.bodyOf [])).toOption.map Node.unplaced).bind fun node =>
        ((second.statement (LineTree.bodyOf [])).toOption.map Node.unplaced).map fun next =>
          .wrapper .root [node, next] none .unknown := by
  have forest : buildForest [first, second] = [.node first [], .node second []] := by
    simp [buildForest, LineTree.attach, LineTree.line, aligned]
  rw [Node.parse_of_scanLines scanned, forest, LineTree.statements, LineTree.statements,
    LineTree.statements, LineTree.statement_node, LineTree.statement_node]
  cases first.statement (LineTree.bodyOf []) with
  | error _ => rfl
  | ok node =>
    cases second.statement (LineTree.bodyOf []) with
    | error _ => rfl
    | ok next => rfl

/-- The line of an assignment of a value is kept whole, and its value has no tokens. -/
theorem parse_packed_value
    {first second : List Char}
    (firstText : IsStatementText first)
    (secondText : IsStatementText second)
    (isValue : isValueLine first = true)
    {gap text : List Char}
    (blank : AllBlank gap)
    (together : physicalLines text = [gap ++ packed first second]) :
    ∃ error, Node.parse text = .error error := by
  have scanned := scanLines_packed firstText secondText blank together
  rw [if_pos isValue] at scanned
  have forest : buildForest [⟨width gap, ⟨1, width gap, packed first second⟩, []⟩] =
      [.node ⟨width gap, ⟨1, width gap, packed first second⟩, []⟩ []] := rfl
  rw [Node.parse_of_scanLines scanned, forest, LineTree.statements, LineTree.statements,
    LineTree.statement_node]
  generalize lineEq : (⟨width gap, ⟨1, width gap, packed first second⟩, []⟩ : Line) = line
  have headText : line.head.text = packed first second := by rw [← lineEq]
  have noTail : line.tail = [] := by rw [← lineEq]
  have lineValue : isValueLine line.head.text = true := by
    rw [headText, isValueLine_packed, isValue]
  obtain ⟨name, value, found, statement⟩ :=
    Line.statement_of_isValueLine lineValue (LineTree.bodyOf [])
  have isEnd : value <:+ packed first second := headText ▸ Pattern.assignment?_suffix found
  have separated : ';' ∈ value := by
    have trailing : Pattern.Trailing (';' :: ' ' :: second) :=
      Pattern.trailing_of_stop allBlank_nil (.inl rfl) _
    rw [headText, packed, Pattern.assignment?_append trailing] at found
    obtain ⟨parts, _, equal⟩ := Option.map_eq_some_iff.mp found
    cases equal
    simp
  obtain ⟨error, fails⟩ := tokenize_semicolon
    ((packed_unmarked firstText secondText).of_sublist isEnd.sublist)
    ((packed_commentless firstText secondText).of_suffix isEnd) separated line.head.line
    (line.head.offset + (width line.head.text - width value))
  refine ⟨error, ?_⟩
  have noTokens : line.tokensOf value = .error error := by
    rw [Line.tokensOf, noTail, Line.fragmentTokens]
    simp only [Fragment.tokens, fails]
  rw [statement, noTokens]
  rfl

/-- A semicolon separates two statements exactly when the first one is not an assignment of a value:
the texts are then read as the same statements up to line numbers and columns, or both not at all.
The line of an assignment of a value is never read with a second statement on it. -/
theorem parse_semicolon_iff
    {first second : List Char}
    (firstText : IsStatementText first)
    (secondText : IsStatementText second)
    {gap upper lower : List Char}
    (gapBlank : AllBlank gap)
    (upperBlank : AllBlank upper)
    (lowerBlank : AllBlank lower)
    (aligned : width upper = width lower)
    {oneLine twoLines : List Char}
    (together : physicalLines oneLine = [gap ++ packed first second])
    (apart : physicalLines twoLines = [upper ++ first, lower ++ second]) :
    (Node.parse oneLine).toOption.map Node.unplaced =
        (Node.parse twoLines).toOption.map Node.unplaced ↔
      isValueLine first = false ∨ (Node.parse twoLines).toOption = none := by
  have scannedApart := scanLines_apart firstText secondText upperBlank lowerBlank apart
  cases isValue : isValueLine first with
  | true =>
    obtain ⟨error, fails⟩ := parse_packed_value firstText secondText isValue gapBlank together
    rw [fails]
    simp [Except.toOption, eq_comm (a := none)]
  | false =>
    have scannedTogether := scanLines_packed firstText secondText gapBlank together
    rw [isValue, if_neg (by decide)] at scannedTogether
    have sameFirst := Line.statement_unplaced Nat.one_ne_zero Nat.one_ne_zero first (width gap)
      (width upper) (width gap) (width upper)
    have sameSecond := Line.statement_unplaced Nat.one_ne_zero (Nat.succ_ne_zero 1) second (width gap)
      (width lower) (width gap + (width first + 2)) (width lower)
    refine ⟨fun _ => .inl rfl, fun _ => ?_⟩
    rw [Node.parse_unplaced scannedTogether rfl, Node.parse_unplaced scannedApart aligned, sameFirst,
      sameSecond]

theorem parse_semicolon_property_assignment :
    IsStatementText "color red".toList ∧ IsStatementText "$b = 2px".toList ∧
      physicalLines "  color red; $b = 2px".toList =
        ["  ".toList ++ packed "color red".toList "$b = 2px".toList] ∧
      physicalLines "\tcolor red\r\n $b = 2px\r".toList =
        ["\t".toList ++ "color red".toList, " ".toList ++ "$b = 2px".toList] ∧
      (Node.parse "  color red; $b = 2px".toList).toOption.map Node.unplaced =
        (Node.parse "\tcolor red\r\n $b = 2px\r".toList).toOption.map Node.unplaced := by
  have firstText : IsStatementText "color red".toList := by constructor <;> decide
  have secondText : IsStatementText "$b = 2px".toList := by constructor <;> decide
  have together : physicalLines "  color red; $b = 2px".toList =
      ["  ".toList ++ packed "color red".toList "$b = 2px".toList] := by decide
  have apart : physicalLines "\tcolor red\r\n $b = 2px\r".toList =
      ["\t".toList ++ "color red".toList, " ".toList ++ "$b = 2px".toList] := by decide
  refine ⟨firstText, secondText, together, apart, ?_⟩
  exact (parse_semicolon_iff firstText secondText (by decide) (by decide) (by decide) (by decide)
    together apart).mpr (.inl (by decide))

end StyleSense
