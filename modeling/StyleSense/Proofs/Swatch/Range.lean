import StyleSense.Proofs.Expression.Closing
import StyleSense.Proofs.Swatch.Reported

/-!
Contract: where the range of a constructor call ends.

The end is the first closing parenthesis of the line after the start of the call. It is looked for in
the text, in which comments, strings and calls within the arguments have parentheses too.

Owns:
- `valueTokens_placed`: a bracket or a comma stands in the text at the place of its token;
- `ClosesCall`, the token that closes a call, and `parse_call_closes`: every call has one;
- `parse_call_range`: the range of a call that is closed on its line ends at this token exactly when
  no other closing parenthesis stands before it.

Does not own: the start of a range (`StyleSense.Proofs.Swatch.Place`).
-/

namespace StyleSense

open Text

/-! ## Tokens at their places -/

/-- Only a text whose lines can be scanned has tokens. -/
theorem scanLines_of_mem_valueTokens
    {text : List Char}
    {token : Token}
    (isIn : token ∈ valueTokens text) :
    ∃ lines, scanLines text = .ok lines ∧
      valueTokens text = (LineTree.forestValues (buildForest lines)).flatten := by
  cases scanned : scanLines text with
  | error error =>
    rw [valueTokens, scanned] at isIn
    cases isIn
  | ok lines => exact ⟨lines, rfl, valueTokens_of_scanLines scanned⟩

/-- A bracket or a comma stands in the text at the place of its token. -/
theorem valueTokens_placed
    {text : List Char}
    {token : Token}
    (isIn : token ∈ valueTokens text)
    (isMark : token.kind.isPunctuation = true) :
    ∃ c, Token.punctuation? c = some token.kind ∧
      Placed (physicalLines text) (String.ofList [c]) token.pos.place := by
  obtain ⟨lines, scanned, isTokens⟩ := scanLines_of_mem_valueTokens isIn
  rw [isTokens] at isIn
  obtain ⟨fragment, isFragment, before, c, after, whole, solid, place, mark⟩ :=
    LineTree.forestValues_shows (buildForest lines) token isIn
  rw [LineTree.forestLines_buildForest] at isFragment
  obtain ⟨line, isLine, isPart⟩ := List.mem_flatMap.mp isFragment
  obtain ⟨physical, isPhysical, stands⟩ := scanLines_isIn scanned line isLine fragment isPart
  refine ⟨c, mark isMark, physical, ?_, ?_⟩
  · rw [place]
    exact isPhysical
  · have split : fragment.text = before ++ [c] ++ after := by simp [whole]
    rw [place, String.toList_ofList]
    exact stands (.cons solid nofun) (.of_eq split)

theorem Token.eq_of_punctuation?_closing
    {c : Char}
    (mark : Token.punctuation? c = some (.closing .round)) :
    c = ')' := by
  unfold Token.punctuation? at mark
  split at mark
  all_goals first | rfl | cases mark

/-- A token closes the call of a name at a place: the parenthesis after the name is its own. -/
def ClosesCall (tokens : List Token) (name : String) (place : Place) (closing : Token) : Prop :=
  ∃ before head opening rest after, tokens = before ++ head :: opening :: rest ∧
    head.kind = .name name ∧ head.pos.place = place ∧ opening.kind = .opening .round ∧
      closing? 0 rest = some (closing, after)

/-- Every call of a text is closed by a token. -/
theorem parse_call_closes
    {text : List Char}
    {tree : Node}
    (parsed : Node.parse text = .ok tree)
    {name : String}
    {args : List Node}
    {pos : SourcePos}
    (isCall : .call name args pos ∈ tree.words)
    (notUrl : name ≠ "url") :
    ∃ closing, ClosesCall (valueTokens text) name pos.place closing := by
  have nothingAsked : False → DistinctKeys text := False.elim
  rcases (parse_spelled parsed nothingAsked).calls _ isCall with
    isUrl | ⟨before, head, opening, inside, after, whole, isName, rfl, isOpening, reads⟩
  · exact absurd isUrl notUrl
  · obtain ⟨inner, closing, rfl, isClosing, innerClosed⟩ := reads.closed
    refine ⟨closing, before, head, opening, _, after, whole, isName, rfl, isOpening, ?_⟩
    rw [List.append_assoc]
    exact innerClosed.closing?_eq isClosing after

/-- The token that closes a call comes after its name, and a parenthesis stands at its place. -/
theorem ClosesCall.placed
    {text : List Char}
    {name : String}
    {place : Place}
    {closing : Token}
    (closes : ClosesCall (valueTokens text) name place closing) :
    place.Before closing.pos.place ∧ Placed (physicalLines text) ")" closing.pos.place := by
  obtain ⟨before, head, opening, rest, after, whole, -, rfl, -, found⟩ := closes
  obtain ⟨isClosing, inside, rfl⟩ := closing?_split found
  have isIn : closing ∈ valueTokens text := by simp [whole]
  constructor
  · obtain ⟨lines, scanned, isTokens⟩ := scanLines_of_mem_valueTokens isIn
    have increasing := tokenPlaces_increasing scanned
    rw [← isTokens, tokenPlaces, List.pairwise_map, whole] at increasing
    have fromHead := (List.pairwise_append.mp increasing).2.1
    exact (List.pairwise_cons.mp fromHead).1 closing (by simp)
  · obtain ⟨c, mark, isPlaced⟩ := valueTokens_placed isIn (by rw [isClosing]; rfl)
    obtain rfl := Token.eq_of_punctuation?_closing (isClosing ▸ mark)
    exact isPlaced

/-! ## The end of a range -/

/-- A color that is a constructor call is closed by a token. -/
theorem parse_occurrence_closes
    {text : List Char}
    {tree : Node}
    (parsed : Node.parse text = .ok tree)
    {occurrence : Occurrence}
    (isDeclared : occurrence ∈ declaredColors tree.statements)
    (isFunction : occurrence.form = .function) :
    ∃ closing, ClosesCall (valueTokens text) occurrence.text occurrence.place closing := by
  rw [declaredColors_searched] at isDeclared
  obtain ⟨term, isSearched, isColor⟩ := List.mem_filterMap.mp isDeclared
  have isWord := searched_mem_words isSearched isColor
  cases Node.color?_eq_some_iff.mp isColor with
  | named | literal => cases isFunction
  | function constructor isNumeric =>
    refine parse_call_closes parsed isWord ?_
    rintro rfl
    have noColor : Rgba.isConstructor "url" = false := by decide
    cases noColor.symm.trans constructor

/-- A reported constructor call starts at its name and is closed by a token. If this token is on the
same line, the range ends after the first closing parenthesis of the text from the name up to the
token, and this is the token itself exactly when there is no other one between. -/
theorem parse_call_range
    {text : List Char}
    {tree : Node}
    (parsed : Node.parse text = .ok tree)
    {occurrence : Occurrence}
    (isDeclared : occurrence ∈ declaredColors tree.statements)
    (isFunction : occurrence.form = .function)
    {entry : ColorEntry}
    (isEntry : occurrence.entry? (.ofText text) = some entry) :
    entry ∈ (Sheet.ofText text).colors ∧ entry.range.start = occurrence.place ∧
      (∃ closing, ClosesCall (valueTokens text) occurrence.text occurrence.place closing) ∧
        ∀ closing, ClosesCall (valueTokens text) occurrence.text occurrence.place closing →
          closing.pos.place.line = occurrence.place.line →
            ∃ between rest, dropTo? occurrence.place.column
                ((Document.ofText text).line occurrence.place.line) = some (between ++ ')' :: rest) ∧
              occurrence.place.column + width between = closing.pos.place.column ∧
              entry.range.stop = ⟨occurrence.place.line,
                occurrence.place.column + width (between.takeWhile (· != ')')) + 1⟩ ∧
              (entry.range.stop.column = closing.pos.place.column + 1 ↔ ')' ∉ between) := by
  have isReported : entry ∈ (Sheet.ofText text).colors := by
    rw [parse_colors_eq parsed]
    exact List.mem_filterMap.mpr ⟨occurrence, isDeclared, isEntry⟩
  have start := range_start_of_parse parsed isDeclared
  have isRange : entry.range = occurrence.range (.ofText text) := by
    unfold Occurrence.entry? at isEntry
    split at isEntry <;> cases isEntry
    rfl
  rw [isRange]
  refine ⟨isReported, start, parse_occurrence_closes parsed isDeclared isFunction, ?_⟩
  intro closing closes sameLine
  obtain ⟨line, isLine, stands⟩ := parse_placed parsed isDeclared
  obtain ⟨later, line', isLine', standsClosing⟩ := closes.placed
  obtain rfl : line = line' := by
    rw [sameLine] at isLine'
    exact Option.some.inj (isLine.symm.trans isLine')
  have lineEq : (Document.ofText text).line occurrence.place.line = line := by
    rw [Document.line, Document.ofText, isLine]
    rfl
  have ordered : occurrence.place.column ≤ closing.pos.place.column := by
    rcases later with earlierLine | ⟨_, earlier⟩
    · omega
    · exact earlier.le
  obtain ⟨between, rest, cut, ends⟩ := stands.between standsClosing ordered
  have cut' : dropTo? occurrence.place.column line = some (between ++ ')' :: rest) := by
    simpa using cut
  have stop : (occurrence.range (.ofText text)).stop = ⟨occurrence.place.line,
      occurrence.place.column + width (between.takeWhile (· != ')')) + 1⟩ := by
    simp only [Occurrence.range, lineEq, findColumnFrom_of_standsAt stands, isFunction, closingColumn?,
      cut', Option.bind_some, find?_singleton, Option.map_some, Option.getD_some]
  refine ⟨between, rest, lineEq ▸ cut', ends, stop, ?_⟩
  have firstClosing : width (between.takeWhile (· != ')')) = width between ↔ ')' ∉ between := by
    rw [width_takeWhile_eq_iff]
    simp only [bne_iff_ne, ne_eq]
    exact ⟨fun none isIn => none _ isIn rfl, fun notIn c isIn same => notIn (same ▸ isIn)⟩
  rw [stop, ← ends, ← firstClosing]
  simp only
  omega

/-- The color of `rgb(1, 2, 3 /* ) */)`, which starts in column 5. -/
def commentedColor : Occurrence :=
  ⟨.function, ⟨0, 5⟩, "rgb", .ok ⟨1.0, 2.0, 3.0, 1.0⟩⟩

/-- The parenthesis that closes the call stands after the comment. -/
def commentedClosing : Token :=
  ⟨.closing .round, ⟨1, 25⟩, true⟩

theorem parse_commented :
    ∃ tree, Node.parse "$x = rgb(1, 2, 3 /* ) */)".toList = .ok tree ∧
      commentedColor ∈ declaredColors tree.statements ∧
      ClosesCall (valueTokens "$x = rgb(1, 2, 3 /* ) */)".toList) "rgb" ⟨0, 5⟩ commentedClosing := by
  let head : Token := ⟨.name "rgb", ⟨1, 6⟩, true⟩
  let opening : Token := ⟨.opening .round, ⟨1, 9⟩, false⟩
  let inside : List Token :=
    [⟨.number 1.0 none, ⟨1, 10⟩, false⟩, ⟨.comma, ⟨1, 11⟩, false⟩, ⟨.number 2.0 none, ⟨1, 13⟩, true⟩,
      ⟨.comma, ⟨1, 14⟩, false⟩, ⟨.number 3.0 none, ⟨1, 16⟩, true⟩]
  have parsed : Node.parse "$x = rgb(1, 2, 3 /* ) */)".toList =
      .ok (Sheet.ofText "$x = rgb(1, 2, 3 /* ) */)".toList).tree := by
    decide +kernel
  have tokens : valueTokens "$x = rgb(1, 2, 3 /* ) */)".toList =
      head :: opening :: (inside ++ [commentedClosing]) := by
    decide +kernel
  have insideClosed : Closed inside := .of_notRound (by decide)
  exact ⟨_, parsed, by decide +kernel, [], head, opening, inside ++ [commentedClosing], [], tokens, rfl,
    rfl, rfl, insideClosed.closing?_eq rfl []⟩

/-- The range of a call ends in a comment before the parenthesis that closes the call. -/
theorem range_ends_in_comment :
    ∃ tree occurrence entry closing,
      Node.parse "$x = rgb(1, 2, 3 /* ) */)".toList = .ok tree ∧
        occurrence ∈ declaredColors tree.statements ∧ occurrence.form = .function ∧
        occurrence.entry? (.ofText "$x = rgb(1, 2, 3 /* ) */)".toList) = some entry ∧
        entry ∈ (Sheet.ofText "$x = rgb(1, 2, 3 /* ) */)".toList).colors ∧
        ClosesCall (valueTokens "$x = rgb(1, 2, 3 /* ) */)".toList) occurrence.text occurrence.place
          closing ∧
        closing.pos.place.line = occurrence.place.line ∧
        entry.range.stop.column = 21 ∧ closing.pos.place.column + 1 = 25 := by
  obtain ⟨tree, parsed, isDeclared, closes⟩ := parse_commented
  have range : commentedColor.range (.ofText "$x = rgb(1, 2, 3 /* ) */)".toList) =
      ⟨⟨0, 5⟩, ⟨0, 21⟩⟩ := by decide
  refine ⟨tree, commentedColor, _, commentedClosing, parsed, isDeclared, rfl, rfl, ?_, closes, rfl, ?_,
    rfl⟩
  · rw [parse_colors_eq parsed]
    exact List.mem_filterMap.mpr ⟨commentedColor, isDeclared, rfl⟩
  · simp only [range]

theorem parse_call_range_with_comment :
    ∃ tree, Node.parse "$x = rgb(1, 2, 3 /* ) */)".toList = .ok tree ∧
      ∃ entry ∈ (Sheet.ofText "$x = rgb(1, 2, 3 /* ) */)".toList).colors,
        entry.range.start = ⟨0, 5⟩ ∧ ∃ between, 5 + width between = 24 ∧
          entry.range.stop = ⟨0, 5 + width (between.takeWhile (· != ')')) + 1⟩ := by
  obtain ⟨tree, parsed, isDeclared, closes⟩ := parse_commented
  obtain ⟨isReported, start, -, ends⟩ := parse_call_range parsed isDeclared rfl rfl
  obtain ⟨between, rest, -, closing, stop, -⟩ := ends commentedClosing closes rfl
  exact ⟨tree, parsed, _, isReported, start, between, closing, stop⟩

end StyleSense
