import StyleSense.Proofs.Swatch.Reported
import StyleSense.Swatch.Decoration

/-!
Contract: where swatches sit.

A swatch is put at the first match of its color on the line. The colors of a text stand at places of
their own, but a color need not be the first match of its text: the same name may stand before it, as
another color, in a longer word or in a comment.

Owns:
- `collects_colorTerms`: the colors that get a swatch are words of the tree;
- `Node.IsFirstOnLine`, a color whose text does not stand before it on its line;
- `parse_swatches_placed`: a swatch sits on its color exactly when the color is the first on its line,
  and before it otherwise.

Does not own: the ranges of reported colors (`StyleSense.Proofs.Swatch.Place`).
-/

namespace StyleSense

open Text

/-! ## Color terms -/

mutual

theorem Expression.colorTerms_words : ∀ value : Expression,
    value.colorTerms.Sublist (value.words.filter Node.isColor)
  | ⟨terms, _⟩ => by
    rw [Expression.colorTerms, Expression.words]
    exact Node.colorTermsOf_words terms

/-- The colors among terms are among their words. -/
theorem Node.colorTermsOf_words : ∀ terms : List Node,
    (Node.colorTermsOf terms).Sublist ((Node.listWords terms).filter Node.isColor)
  | [] => List.nil_sublist _
  | term :: rest => by
    have later := Node.colorTermsOf_words rest
    cases term with
    | object entries pos =>
      rw [Node.colorTermsOf, Node.listWords, Node.words, List.filter_append]
      exact (Node.entryColorTerms_words entries).append later
    | ident | rgba | call =>
      rw [Node.colorTermsOf, Node.listWords, Node.words, List.filter_append]
      · refine List.Sublist.append ?_ later
        split
        · rename_i isColor
          rw [List.filter_cons_of_pos isColor]
          exact List.singleton_sublist.mpr (List.mem_cons_self ..)
        · exact List.nil_sublist _
      · exact nofun
    | _ =>
      rw [Node.colorTermsOf, Node.listWords, List.filter_append]
      · exact List.Sublist.append (List.nil_sublist _) later
      · exact nofun

theorem Node.entryColorTerms_words : ∀ entries : List (String × Node),
    (Node.entryColorTerms entries).Sublist ((Node.entryWords entries).filter Node.isColor)
  | [] => List.nil_sublist _
  | (key, value) :: rest => by
    have later := Node.entryColorTerms_words rest
    cases value with
    | expression value =>
      rw [Node.entryColorTerms, Node.entryWords, Node.words, List.filter_append]
      exact (Expression.colorTerms_words value).append later
    | _ =>
      rw [Node.entryColorTerms, Node.entryWords, List.filter_append]
      · exact later.trans (List.sublist_append_right ..)
      · exact nofun

end

/-- The color terms of a statement are among its words. -/
theorem Node.colorTerms_written (node : Node) :
    node.colorTerms.Sublist (node.written.filter Node.isColor) := by
  cases node with
  | ident name value pos =>
    cases value with
    | none => exact List.nil_sublist _
    | some value =>
      cases value with
      | expression value =>
        simpa [Node.colorTerms, Node.written, Node.statementWords, Node.optionWords, Node.words]
          using Expression.colorTerms_words value
      | _ => exact List.nil_sublist _
  | property name value pos =>
    cases value with
    | none => exact List.nil_sublist _
    | some value =>
      simpa [Node.colorTerms, Node.written, Node.statementWords, Node.words, Expression.optionWords]
        using Expression.colorTerms_words value
  | _ => exact List.nil_sublist _

theorem collects_colorTerms : CollectsWords Node.colorTerms := by
  refine ⟨fun node => (Node.colorTerms_written node).trans List.filter_sublist, ?_⟩
  intro node noDeclaration
  cases node with
  | ident | property | ternary => cases noDeclaration
  | _ => rfl

theorem isColor_of_mem_colorTerms
    {statements : List Node}
    {term : Node}
    (isIn : term ∈ statements.flatMap Node.colorTerms) :
    term.isColor = true := by
  obtain ⟨statement, _, isTerm⟩ := List.mem_flatMap.mp isIn
  exact (List.mem_filter.mp ((Node.colorTerms_written statement).subset isTerm)).2

/-! ## Swatches -/

/-- The place of a swatch. -/
def Decoration.place (swatch : Decoration) : Place :=
  ⟨swatch.line, swatch.column⟩

/-- The text of a color does not stand before the color on its line. -/
def Node.IsFirstOnLine
    (document : Document)
    (term : Node) : Prop :=
  ∀ search background, term.swatchText? = some (search, background) →
    ∀ column < term.pos.place.column,
      ¬StandsAt search.toList column (document.line term.pos.place.line)

/-- Where a swatch is with regard to its color: on the line of the color, at the color if this is the
first on its line, and before it otherwise. -/
structure Decoration.SitsBy
    (document : Document)
    (term : Node)
    (swatch : Decoration) : Prop where
  line : swatch.line = term.pos.place.line
  column : swatch.column ≤ term.pos.place.column
  exact : swatch.place = term.pos.place ↔ term.IsFirstOnLine document

/-- The calls that get a swatch are constructors, of which the reader keeps the places. -/
theorem isConstructor_of_colorCalls
    {name : String}
    (isCall : colorCalls.contains name = true) :
    Rgba.isConstructor name = true := by
  have all : ∀ call ∈ colorCalls, Rgba.isConstructor call = true := by decide
  exact all name (List.contains_iff_mem.mp isCall)

/-- The text of a color stands in the document at the place of the color. -/
theorem Matching.Knows.swatch_placed
    {lines : List (List Char)}
    {term : Node}
    (known : (Matching.placed lines).Knows term)
    (isColor : term.isColor = true) :
    ∃ search background, term.swatchText? = some (search, background) ∧
      Placed lines search term.pos.place := by
  cases term with
  | ident name value pos => exact ⟨name, name, rfl, known (.inl isColor)⟩
  | rgba color raw pos => exact ⟨raw, raw, rfl, known⟩
  | call name args pos => exact ⟨name, _, rfl, known (.inr (isConstructor_of_colorCalls isColor))⟩
  | _ => cases isColor

/-- A color of which the text stands at its place has a swatch by it. -/
theorem exists_decoration
    {text : List Char}
    {term : Node}
    {search background : String}
    (isText : term.swatchText? = some (search, background))
    (placed : Placed (physicalLines text) search term.pos.place) :
    ∃ swatch, term.decoration? (.ofText text) = some swatch ∧ swatch.SitsBy (.ofText text) term := by
  obtain ⟨line, isLine, stands⟩ := placed
  have lineEq : (Document.ofText text).line term.pos.place.line = line := by
    rw [Document.line, Document.ofText, isLine]
    rfl
  obtain ⟨first, found, early, standsFirst, noEarlier⟩ := stands.find?
  have column : findColumn search.toList line = first := by
    rw [findColumn, found]
    rfl
  have swatch : term.decoration? (.ofText text) =
      some ⟨term.pos.place.line, first, background⟩ := by
    rw [Node.decoration?, isText, Option.map_some, ← column, ← lineEq]
    rfl
  refine ⟨_, swatch, rfl, early, ?_⟩
  constructor
  · intro same search' background' isText' column' before
    obtain ⟨rfl, -⟩ := Prod.mk.inj (Option.some.inj (isText.symm.trans isText'))
    have isFirst : first = term.pos.place.column := congrArg Place.column same
    rw [lineEq]
    exact noEarlier column' (isFirst ▸ before)
  · intro isFirst
    have notBefore : ¬first < term.pos.place.column := by
      intro before
      exact isFirst search background isText first before (lineEq.symm ▸ standsFirst)
    have same : first = term.pos.place.column := by omega
    simp only [Decoration.place, same]

/-- The colors that get a swatch stand at different places, and a swatch sits on its color exactly when
the color is the first on its line. So colors that are the first on their lines have swatches at
different places, and the swatch of such a color, if it is reported, is where its range starts. -/
theorem parse_swatches_placed
    {text : List Char}
    {tree : Node}
    (parsed : Node.parse text = .ok tree) :
    (wordPlaces (tree.statements.flatMap Node.colorTerms)).Nodup ∧
      (∀ term ∈ tree.statements.flatMap Node.colorTerms,
        ∃ swatch, term.decoration? (.ofText text) = some swatch ∧
          swatch.SitsBy (.ofText text) term) ∧
      (∀ left ∈ tree.statements.flatMap Node.colorTerms,
        ∀ right ∈ tree.statements.flatMap Node.colorTerms,
          left.IsFirstOnLine (.ofText text) → right.IsFirstOnLine (.ofText text) →
            (left.decoration? (.ofText text)).map Decoration.place =
              (right.decoration? (.ofText text)).map Decoration.place → left = right) ∧
      ∀ entry ∈ (Sheet.ofText text).colors, ∃ word ∈ tree.words, ∃ occurrence,
        word.color? = some occurrence ∧ occurrence.entry? (.ofText text) = some entry ∧
          (word ∈ tree.statements.flatMap Node.colorTerms →
            ((word.decoration? (.ofText text)).map Decoration.place = some entry.range.start ↔
              word.IsFirstOnLine (.ofText text))) := by
  have areWords := collects_colorTerms.statements tree
  have different : (wordPlaces (tree.statements.flatMap Node.colorTerms)).Nodup :=
    (parse_words_nodup parsed).sublist (areWords.map _)
  have swatches : ∀ term ∈ tree.statements.flatMap Node.colorTerms,
      ∃ swatch, term.decoration? (.ofText text) = some swatch ∧
        swatch.SitsBy (.ofText text) term := by
    intro term isIn
    have known := parse_words_known parsed term (areWords.subset isIn)
    obtain ⟨search, background, isText, placed⟩ :=
      known.swatch_placed (isColor_of_mem_colorTerms isIn)
    exact exists_decoration isText placed
  refine ⟨different, swatches, ?_, ?_⟩
  · intro left isLeft right isRight leftFirst rightFirst same
    obtain ⟨swatch, leftEq, leftSits⟩ := swatches left isLeft
    obtain ⟨swatch', rightEq, rightSits⟩ := swatches right isRight
    rw [leftEq, rightEq, Option.map_some, Option.map_some, Option.some.injEq,
      leftSits.exact.mpr leftFirst, rightSits.exact.mpr rightFirst] at same
    exact parse_words_eq_of_place parsed (areWords.subset isLeft) (areWords.subset isRight) same
  · intro entry isReported
    obtain ⟨term, isSearched, occurrence, isColor, isEntry⟩ :=
      (parse_colors_mem_iff parsed).mp isReported
    have start := (parse_entry_eq parsed isSearched isColor isEntry).1
    refine ⟨term, searched_mem_words isSearched isColor, occurrence, isColor, isEntry, fun isIn => ?_⟩
    obtain ⟨swatch, isSwatch, sits⟩ := swatches term isIn
    rw [isSwatch, Option.map_some, Option.some.injEq, start]
    exact sits.exact

/-- The second of two equal colors on a line has its swatch on the first one. -/
theorem parse_swatches_placed_repeated :
    ∃ tree first second, Node.parse "$b = red red".toList = .ok tree ∧
      tree.statements.flatMap Node.colorTerms = [first, second] ∧
      (Document.ofText "$b = red red".toList).decorations 500 tree =
        [⟨0, 5, "red"⟩, ⟨0, 5, "red"⟩] ∧
      second.pos.place = ⟨0, 9⟩ ∧ first.IsFirstOnLine (.ofText "$b = red red".toList) ∧
        ¬second.IsFirstOnLine (.ofText "$b = red red".toList) := by
  let first : Node := .ident "red" none ⟨1, 6⟩
  let second : Node := .ident "red" none ⟨1, 10⟩
  let tree := (Sheet.ofText "$b = red red".toList).tree
  have parsed : Node.parse "$b = red red".toList = .ok tree := by decide +kernel
  have terms : tree.statements.flatMap Node.colorTerms = [first, second] := by decide +kernel
  have decorated : ∀ term ∈ [first, second],
      term.decoration? (.ofText "$b = red red".toList) = some ⟨0, 5, "red"⟩ := by
    decide +kernel
  obtain ⟨-, swatches, -⟩ := parse_swatches_placed parsed
  rw [terms] at swatches
  refine ⟨tree, first, second, parsed, terms, by decide +kernel, rfl, ?_, ?_⟩
  · obtain ⟨swatch, isSwatch, sits⟩ := swatches first (by simp)
    rw [decorated first (by simp)] at isSwatch
    cases isSwatch
    exact sits.exact.mp rfl
  · obtain ⟨swatch, isSwatch, sits⟩ := swatches second (by simp)
    rw [decorated second (by simp)] at isSwatch
    cases isSwatch
    intro isFirst
    cases sits.exact.mpr isFirst

end StyleSense
