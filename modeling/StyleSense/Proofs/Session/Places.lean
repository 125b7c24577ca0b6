import StyleSense.Node.Equality
import StyleSense.Proofs.Swatch.Decoration
import StyleSense.Proofs.Symbol.Range
import StyleSense.Session.Basic

/-!
Contract: the places that the editor is told.

A column is turned into UTF-16 units by counting those before it. This needs a column between two
characters. Inside a character there is nothing to count and the column stays what it is, a number of
bytes, of which a line has more than units. Colors and swatches start and end between characters. So do
symbols, except that a name which is not found as it is, as that of an at-rule with braces or of a
selector with an interpolation, is only as wide as the part of the line that it covers.

Owns:
- `column16_le_units16_iff`: which columns stay inside the line when they are turned into units;
- `parse_unitPlaces_inside`: the places that stay inside their lines, and the order of the ends of a
  range.

Does not own: the ranges themselves (`StyleSense.Proofs.Symbol.Range`,
`StyleSense.Proofs.Swatch.Range`).
-/

namespace StyleSense

/-! ## Columns in UTF-16 units -/

namespace Text

theorem unitWidth_le_utf8Size (c : Char) : unitWidth c ≤ c.utf8Size := by
  have positive := c.utf8Size_pos
  unfold unitWidth
  split
  · exact positive
  · rename_i wide
    have notSingle : c.utf8Size ≠ 1 := by
      intro single
      have ascii := UInt32.le_iff_toNat_le.mp (Char.utf8Size_eq_one_iff.mp single)
      have same : c.toNat = c.val.toNat := rfl
      have last : (127 : UInt32).toNat = 127 := rfl
      omega
    omega

theorem units16_append
    (left right : List Char) :
    units16 (left ++ right) = units16 left + units16 right := by
  induction left with
  | nil => simp
  | cons c cs inductionHypothesis =>
    rw [List.cons_append, units16_cons, units16_cons, inductionHypothesis, Nat.add_assoc]

/-- A text has no more units than bytes. -/
theorem units16_le_width (text : List Char) : units16 text ≤ width text := by
  induction text with
  | nil => exact Nat.le_refl _
  | cons c cs inductionHypothesis =>
    rw [units16_cons, width_cons]
    exact Nat.add_le_add (unitWidth_le_utf8Size c) inductionHypothesis

/-- Cut off before a part, a text has the characters before it. -/
theorem StandsAt.takeTo?
    {part text : List Char}
    {offset : Nat}
    (isPart : StandsAt part offset text) :
    ∃ before after, text = before ++ after ∧ width before = offset ∧
      Text.takeTo? offset text = some before := by
  obtain ⟨before, after, rfl, rfl⟩ := isPart
  refine ⟨before, part ++ after, List.append_assoc .., rfl, ?_⟩
  rw [List.append_assoc, takeTo?_append]

theorem standsAt_nil_iff
    {text : List Char}
    {offset : Nat} :
    StandsAt [] offset text ↔ (takeTo? offset text).isSome := by
  constructor
  · intro stands
    obtain ⟨before, _, _, _, cut⟩ := stands.takeTo?
    rw [cut]
    rfl
  · intro cut
    obtain ⟨before, isBefore⟩ := Option.isSome_iff_exists.mp cut
    obtain ⟨⟨left, right⟩, split, rfl⟩ := Option.map_eq_some_iff.mp isBefore
    obtain ⟨rfl, rfl⟩ := splitAt?_eq_some split
    exact ⟨left, right, by simp, rfl⟩

/-- What is left of a text from an offset on stands there. -/
theorem standsAt_of_dropTo?
    {text rest : List Char}
    {offset : Nat}
    (cut : dropTo? offset text = some rest) :
    StandsAt rest offset text := by
  obtain ⟨⟨left, right⟩, split, rfl⟩ := Option.map_eq_some_iff.mp cut
  obtain ⟨rfl, rfl⟩ := splitAt?_eq_some split
  exact ⟨left, [], by simp, rfl⟩

theorem column16_of_standsAt
    {line : List Char}
    {offset : Nat}
    (stands : StandsAt [] offset line) :
    ∃ before after, line = before ++ after ∧ width before = offset ∧
      column16 line offset = units16 before % unitLimit := by
  obtain ⟨before, after, whole, isWidth, cut⟩ := stands.takeTo?
  have inside : min offset (width line) = offset := Nat.min_eq_left stands.width_le
  refine ⟨before, after, whole, isWidth, ?_⟩
  simp only [column16, inside, cut]

theorem column16_of_not_standsAt
    {line : List Char}
    {offset : Nat}
    (inside : offset ≤ width line)
    (noStart : ¬StandsAt [] offset line) :
    column16 line offset = offset % unitLimit := by
  have cut : takeTo? offset line = none := by
    rw [standsAt_nil_iff, Option.isSome_iff_ne_none, not_not] at noStart
    exact noStart
  have first : min offset (width line) = offset := Nat.min_eq_left inside
  simp only [column16, first, cut]

theorem column16_le_units16
    {line : List Char}
    {offset : Nat}
    (stands : StandsAt [] offset line) :
    column16 line offset ≤ units16 line := by
  obtain ⟨before, after, rfl, -, column⟩ := column16_of_standsAt stands
  calc column16 (before ++ after) offset
      = units16 before % unitLimit := column
    _ ≤ units16 before := Nat.mod_le ..
    _ ≤ units16 before + units16 after := Nat.le_add_right ..
    _ = units16 (before ++ after) := (units16_append ..).symm

/-- A column stays inside its line when it is between two characters or when it is, as a number of
bytes, no more than the line has units. -/
theorem column16_le_units16_iff
    {line : List Char}
    {offset : Nat}
    (inside : offset ≤ width line) :
    column16 line offset ≤ units16 line ↔
      (takeTo? offset line).isSome ∨ offset % unitLimit ≤ units16 line := by
  rw [← standsAt_nil_iff]
  by_cases stands : StandsAt [] offset line
  · exact iff_of_true (column16_le_units16 stands) (.inl stands)
  · rw [column16_of_not_standsAt inside stands, or_iff_right stands]

/-- In a line that is not too long a column between two characters does not overtake a later one. -/
theorem column16_mono
    {line : List Char}
    {start stop : Nat}
    (short : width line < unitLimit)
    (stands : StandsAt [] start line)
    (ordered : start ≤ stop)
    (inside : stop ≤ width line) :
    column16 line start ≤ column16 line stop := by
  have startBytes : column16 line start ≤ start := by
    obtain ⟨before, _, _, rfl, column⟩ := column16_of_standsAt stands
    rw [column]
    exact (Nat.mod_le ..).trans (units16_le_width before)
  by_cases standsStop : StandsAt [] stop line
  · obtain ⟨before, after, rfl, rfl, startColumn⟩ := column16_of_standsAt stands
    obtain ⟨between, rest, cut, rfl⟩ := stands.between standsStop ordered
    rw [dropTo?_append] at cut
    obtain rfl : after = between ++ [] ++ rest := Option.some.inj cut
    have whole : StandsAt [] (width (before ++ between)) (before ++ (between ++ [] ++ rest)) :=
      ⟨before ++ between, rest, by simp, rfl⟩
    obtain ⟨before', after', split, isWidth, stopColumn⟩ := column16_of_standsAt whole
    have same : before ++ between = before' := by
      have whole : (before ++ between) ++ rest = before' ++ after' := by simpa using split
      exact (append_inj_of_width whole isWidth.symm).1
    have few : units16 (before ++ between) < unitLimit := by
      have bytes := units16_le_width (before ++ between)
      have part := whole.width_le
      simp only [width_nil, Nat.add_zero] at part
      omega
    rw [width_append] at stopColumn
    rw [stopColumn, ← same, Nat.mod_eq_of_lt few, startColumn, units16_append]
    exact (Nat.mod_le ..).trans (Nat.le_add_right ..)
  · rw [column16_of_not_standsAt inside standsStop, Nat.mod_eq_of_lt (by omega)]
    omega

end Text

open Text

/-! ## Places of the editor -/

/-- The column that the editor is told is not past the end of the line. -/
def Document.IsInside
    (document : Document)
    (place : Place) : Prop :=
  (document.unitPlace place).character ≤ units16 (document.line place.line)

/-- The start of the stretch that the editor is told is not after its end. -/
def Document.IsForward
    (document : Document)
    (span : Span) : Prop :=
  (document.unitSpan span).start.line = (document.unitSpan span).stop.line ∧
    (document.unitSpan span).start.character ≤ (document.unitSpan span).stop.character

/-- A place is between two characters of its line, or at an end of the line. -/
def Document.IsBetween
    (document : Document)
    (place : Place) : Prop :=
  (takeTo? place.column (document.line place.line)).isSome

theorem Document.isForward_of_start
    {document : Document}
    {span : Span}
    (sameLine : span.stop.line = span.start.line)
    (ordered : span.start.column ≤ span.stop.column)
    (inside : span.stop.column ≤ width (document.line span.start.line))
    (start : document.IsBetween span.start)
    (short : width (document.line span.start.line) < unitLimit) :
    document.IsForward span := by
  refine ⟨congrArg (· % unitLimit) sameLine.symm, ?_⟩
  have columns := column16_mono short (standsAt_nil_iff.mpr start) ordered inside
  simpa only [Document.unitSpan, Document.unitPlace, sameLine] using columns

theorem Document.isInside_of_isBetween
    {document : Document}
    {place : Place}
    (between : document.IsBetween place) :
    document.IsInside place :=
  column16_le_units16 (standsAt_nil_iff.mpr between)

/-! ## Colors and swatches -/

theorem standsAt_findColumn
    (search line : List Char) :
    StandsAt [] (findColumn search line) line := by
  unfold findColumn
  cases found : find? search line with
  | none => exact .of_start List.nil_prefix
  | some column => exact (standsAt_of_find? found).start

/-- The first closing parenthesis from a column on ends after that column. -/
theorem standsAt_of_closingColumn?
    {line : List Char}
    {start stop : Nat}
    (closes : closingColumn? line start = some stop) :
    start ≤ stop ∧ StandsAt [] stop line := by
  obtain ⟨offset, found, rfl⟩ := Option.map_eq_some_iff.mp closes
  obtain ⟨rest, cut, isFound⟩ := Option.bind_eq_some_iff.mp found
  have stands := ((standsAt_of_find? isFound).trans (standsAt_of_dropTo? cut)).stop
  refine ⟨by omega, ?_⟩
  have closing : width [')'] = 1 := by decide
  rwa [closing] at stands

/-- The range of a color of a text starts and ends between characters. -/
theorem parse_range_between
    {text : List Char}
    {tree : Node}
    (parsed : Node.parse text = .ok tree)
    {occurrence : Occurrence}
    (isDeclared : occurrence ∈ declaredColors tree.statements) :
    let document := Document.ofText text
    let range := occurrence.range document
    document.IsBetween range.start ∧ document.IsBetween range.stop ∧
      range.stop.line = range.start.line ∧ range.start.column ≤ range.stop.column := by
  intro document range
  obtain ⟨line, isLine, stands⟩ := parse_placed parsed isDeclared
  have lineEq : document.line occurrence.place.line = line := by
    simp only [document, Document.line, Document.ofText, isLine]
    rfl
  have found := findColumnFrom_of_standsAt stands
  have start : range.start = ⟨occurrence.place.line, occurrence.place.column⟩ := by
    simp only [range, Occurrence.range, lineEq, found]
  have stop : ∃ column, range.stop = ⟨occurrence.place.line, column⟩ ∧
      occurrence.place.column ≤ column ∧ StandsAt [] column line := by
    refine ⟨range.stop.column, rfl, ?_⟩
    simp only [range, Occurrence.range, lineEq, found]
    cases occurrence.form with
    | function =>
      cases closes : closingColumn? line occurrence.place.column with
      | none =>
        have inLine := stands.width_le
        exact ⟨by simp only [Option.getD_none]; omega, line, [], by simp, rfl⟩
      | some column => exact standsAt_of_closingColumn? closes
    | named | literal => exact ⟨Nat.le_add_right .., stands.stop⟩
  obtain ⟨column, isStop, ordered, standsStop⟩ := stop
  simp only [Document.IsBetween, start, isStop, lineEq, ← standsAt_nil_iff]
  exact ⟨stands.start, standsStop, trivial, ordered⟩

/-- A swatch sits between characters. -/
theorem Document.decoration?_between
    {document : Document}
    {term : Node}
    {swatch : Decoration}
    (isSwatch : term.decoration? document = some swatch) :
    document.IsBetween swatch.place := by
  obtain ⟨⟨search, background⟩, _, rfl⟩ := Option.map_eq_some_iff.mp isSwatch
  exact standsAt_nil_iff.mp (standsAt_findColumn ..)

/-! ## Places of a text -/

theorem symbols_of_parse
    {text : List Char}
    {tree : Node}
    (parsed : Node.parse text = .ok tree) :
    (Sheet.ofText text).symbols = (Document.ofText text).outline tree := by
  simp only [Sheet.symbols, Sheet.tree, Sheet.ofText, parsed]

/-- The places that the editor is told of a text are inside their lines, except that the end of a symbol
may be inside a character. Such an end is inside the line only when its bytes are no more than the units
of the line. Names of variables and functions and selectors without an interpolation end between
characters. A range does not end before it starts, at least in a line whose columns can be told. -/
theorem parse_unitPlaces_inside
    {text : List Char}
    {tree : Node}
    (parsed : Node.parse text = .ok tree) :
    let document := Document.ofText text
    (∀ symbol ∈ (Sheet.ofText text).symbols,
      document.IsInside symbol.range.start ∧
      (document.IsInside symbol.range.stop ↔ document.IsBetween symbol.range.stop ∨
        symbol.range.stop.column % unitLimit ≤ units16 (document.line symbol.range.stop.line)) ∧
      (symbol.kind = .variable ∨ symbol.kind = .function → document.IsBetween symbol.range.stop) ∧
      (∀ head body, .selector head body ∈ tree.statements →
        (Node.selector head body).symbol? document = some symbol →
          (∀ segment ∈ head.segments, segment.text.isSome) → document.IsBetween symbol.range.stop) ∧
      (width (document.line symbol.range.start.line) < unitLimit → document.IsForward symbol.range)) ∧
    (∀ entry ∈ (Sheet.ofText text).colors,
      document.IsInside entry.range.start ∧ document.IsInside entry.range.stop ∧
      (width (document.line entry.range.start.line) < unitLimit → document.IsForward entry.range)) ∧
    ∀ most, ∀ swatch ∈ (Sheet.ofText text).decorations most, document.IsInside swatch.place := by
  intro document
  refine ⟨fun symbol isSymbol => ?_, fun entry isEntry => ?_, fun most swatch isSwatch => ?_⟩
  · rw [symbols_of_parse parsed] at isSymbol
    obtain ⟨node, isStatement, declared⟩ := exists_statement_of_mem_outline isSymbol
    have placed := parse_symbol_placed parsed isStatement declared
    have start : document.IsBetween symbol.range.start := standsAt_nil_iff.mp placed.start
    refine ⟨Document.isInside_of_isBetween start, ?_, fun isName => ?_,
      fun head body isHead declaredHere literal => ?_, fun short => ?_⟩
    · have inside := placed.inside
      rw [← placed.sameLine] at inside
      exact column16_le_units16_iff inside
    · obtain ⟨stands, stop⟩ := placed.declared isName
      have standsStop := stands.stop
      rw [← stop, ← placed.sameLine] at standsStop
      exact standsAt_nil_iff.mp standsStop
    · have placedHere := parse_symbol_placed parsed isHead declaredHere
      obtain ⟨_, _, standsStop⟩ := placedHere.literal head body rfl literal
      rw [← placed.sameLine] at standsStop
      exact standsAt_nil_iff.mp standsStop
    · exact Document.isForward_of_start placed.sameLine placed.ordered placed.inside start short
  · rw [parse_colors_eq parsed] at isEntry
    obtain ⟨occurrence, isDeclared, hasEntry⟩ := List.mem_filterMap.mp isEntry
    have isRange : entry.range = occurrence.range document := by
      unfold Occurrence.entry? at hasEntry
      split at hasEntry <;> cases hasEntry
      rfl
    obtain ⟨start, stop, sameLine, ordered⟩ := parse_range_between parsed isDeclared
    rw [isRange]
    refine ⟨Document.isInside_of_isBetween start, Document.isInside_of_isBetween stop, fun short => ?_⟩
    have inside := (standsAt_nil_iff.mpr stop).width_le
    rw [sameLine] at inside
    exact Document.isForward_of_start sameLine ordered inside start short
  · obtain ⟨term, _, decorated⟩ := List.mem_filterMap.mp isSwatch
    exact Document.isInside_of_isBetween (Document.decoration?_between decorated)

/-- The name of a media rule is found nowhere on its line when it has braces, and two bytes narrower than
the line. Here it ends inside the last character, at byte 15 of a line of 13 units. -/
theorem parse_unitPlaces_inside_with_braces :
    let text := "@media \x7b$x\x7d日本".toList
    ∃ tree, Node.parse text = .ok tree ∧ ∃ symbol ∈ (Sheet.ofText text).symbols,
      (Document.ofText text).unitSpan symbol.range = ⟨⟨0, 0⟩, ⟨0, 15⟩⟩ ∧
        units16 ((Document.ofText text).line 0) = 13 ∧
          ¬(Document.ofText text).IsInside symbol.range.stop := by
  intro text
  let symbol : Symbol := ⟨"@media $x日本", .directive, .onLine 0 0 15⟩
  have parsed : Node.parse text = .ok (Sheet.ofText text).tree := by decide +kernel
  have isSymbol : symbol ∈ (Sheet.ofText text).symbols := by decide +kernel
  obtain ⟨_, inside, _⟩ := (parse_unitPlaces_inside parsed).1 symbol isSymbol
  refine ⟨_, parsed, symbol, isSymbol, by decide, by decide, fun isInside => ?_⟩
  have notBetween : ¬(Document.ofText text).IsBetween symbol.range.stop := by
    unfold Document.IsBetween
    decide
  have tooFar : ¬symbol.range.stop.column % unitLimit ≤
      units16 ((Document.ofText text).line symbol.range.stop.line) := by
    decide
  exact (inside.mp isInside).elim notBetween tooFar

end StyleSense
