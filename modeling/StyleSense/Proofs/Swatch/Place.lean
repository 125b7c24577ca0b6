import StyleSense.Node.Equality
import StyleSense.Proofs.Color.Named
import StyleSense.Proofs.Line.Place
import StyleSense.Proofs.Statement.Matching
import StyleSense.Proofs.Statement.Words
import StyleSense.Proofs.Swatch.Search
import StyleSense.Sheet

/-!
Contract: the colors of a document stand where their occurrences say.

Owns:
- `Placed`, a text that stands in a document at a place, and `Matching.placed`, by which the reader
  keeps for every name and literal the place at which it stands;
- `parse_occurrence_placed`: the place of a color, the start of its range and, for a keyword or a
  literal, the whole range are exact.

Does not own: the end of the range of a constructor call.
-/

namespace StyleSense

open Text

deriving instance DecidableEq for Occurrence

/-! ## Color names -/

/-- A keyword or the name of a constructor. -/
def IsColorWord (name : String) : Prop :=
  Named.isColor name = true ∨ Rgba.isConstructor name = true

theorem IsColorWord.mem
    {name : String}
    (isColor : IsColorWord name) :
    name ∈ Named.names ++ Rgba.constructors := by
  rcases isColor with keyword | constructor
  · obtain ⟨value, isEntry⟩ := (Named.isColor_iff name).mp keyword
    refine List.mem_append_left _ (List.mem_map.mpr ⟨(name, value), ?_, rfl⟩)
    exact Array.mem_toList_iff.mpr isEntry
  · exact List.mem_append_right _ (List.contains_iff_mem.mp constructor)

/-- The byte of a point. -/
def pointByte : UInt8 := 46

/-- The names that the reader puts together itself are no color words. The bytes of a name are
evaluated much faster than its characters. -/
theorem colorWords_plain :
    ∀ name ∈ Named.names ++ Rgba.constructors,
      pointByte ∉ bytes name ∧ name ≠ "selector" := by
  decide +kernel

theorem not_isColorWord_member
    (name key : String) :
    ¬IsColorWord (name ++ "." ++ key) := by
  intro isColor
  have point : pointByte ∈ bytes "." := by decide
  refine (colorWords_plain _ isColor.mem).1 ?_
  rw [bytes_append, bytes_append]
  exact List.mem_append_left _ (List.mem_append_right _ point)

theorem not_isColorWord_selector : ¬IsColorWord "selector" := by
  intro isColor
  exact (colorWords_plain _ isColor.mem).2 rfl

/-! ## Names at their places -/

/-- The text stands in the lines of a document at the place. -/
def Placed (lines : List (List Char)) (text : String) (place : Place) : Prop :=
  ∃ line, lines[place.line]? = some line ∧ StandsAt text.toList place.column line

/-- What is known while a text is read: a hash and the name of a color stand at their places. -/
def Matching.placed (lines : List (List Char)) : Matching where
  pos := Eq
  string := Eq
  word text pos := IsColorWord text → Placed lines text pos.place
  literal text pos := Placed lines text pos.place
  pos_unknown := rfl
  pos_column := by
    rintro left _ right _ rfl rfl
    rfl
  string_refl _ := rfl
  word_of_literal isPlaced _ := isPlaced
  word_member name key _ isColor := absurd isColor (not_isColorWord_member name key)
  word_selector _ isColor := absurd isColor not_isColorWord_selector

instance (lines : List (List Char)) : (Matching.placed lines).KeepsLines where
  line_eq_iff := by
    rintro left _ right _ rfl rfl
    rfl

/-- A fragment that stands in its line is read with the places of its words. -/
theorem Fragment.IsIn.matches_self
    {lines : List (List Char)}
    {fragment : Fragment}
    (isIn : fragment.IsIn lines) :
    fragment.Matches (Matching.placed lines) fragment := by
  obtain ⟨physical, isLine, stands⟩ := isIn
  have placed : ∀ before word after, fragment.text = before ++ word ++ after → Solid word →
      Placed lines (String.ofList word)
        (⟨fragment.line, fragment.offset + width before + 1⟩ : SourcePos).place := by
    intro before word after split solid
    refine ⟨physical, isLine, ?_⟩
    rw [String.toList_ofList]
    exact stands solid (.of_eq split)
  exact ⟨rfl, fun _ => rfl, fun before word after split solid _ => placed before word after split solid,
    placed⟩

/-- Lines that stand in the text are read with the places of their words. -/
theorem buildForest_matches_self
    {physical : List (List Char)}
    {lines : List Line}
    (areIn : ∀ line ∈ lines, line.Holds (Fragment.IsIn physical)) :
    LineTree.ListMatches (Matching.placed physical) (buildForest lines) (buildForest lines) := by
  have listed : ∀ trees : List LineTree,
      (∀ tree ∈ trees, LineTree.Matches (Matching.placed physical) tree tree) →
        LineTree.ListMatches (Matching.placed physical) trees trees := by
    intro trees members
    induction trees with
    | nil => exact .nil
    | cons tree rest inductionHypothesis =>
      exact .cons (members tree (List.mem_cons_self ..))
        (inductionHypothesis fun other isIn => members other (List.mem_cons_of_mem _ isIn))
  apply listed
  induction lines with
  | nil => exact fun tree isIn => nomatch isIn
  | cons line rest inductionHypothesis =>
    have later := inductionHypothesis fun other isIn => areIn other (List.mem_cons_of_mem _ isIn)
    have holds := areIn line (List.mem_cons_self ..)
    have tail : List.Forall₂ (Fragment.Matches (Matching.placed physical)) line.tail line.tail := by
      rw [List.forall₂_same]
      exact fun fragment isIn => (holds fragment (List.mem_cons_of_mem _ isIn)).matches_self
    have head := (holds line.head (List.mem_cons_self ..)).matches_self
    intro tree isIn
    change tree ∈ LineTree.attach line (buildForest rest) at isIn
    rcases List.mem_cons.mp isIn with rfl | isLater
    · refine .node ⟨head, tail⟩ (listed _ fun child isChild => ?_) fun _ => rfl
      exact later child ((List.takeWhile_sublist _).subset isChild)
    · exact later tree ((List.dropWhile_sublist _).subset isLater)

/-! ## The place of a color -/

/-- The text of a stretch of one line; a longer stretch has none. -/
def Document.textIn? (document : Document) (span : Span) : Option (List Char) :=
  if span.stop.line = span.start.line then
    (takeTo? span.stop.column (document.line span.start.line)).bind (dropTo? span.start.column)
  else none

/-- A text that stands at a place is found there. -/
theorem findColumnFrom_of_standsAt
    {part line : List Char}
    {column : Nat}
    (stands : StandsAt part column line) :
    findColumnFrom part line column = column := by
  obtain ⟨rest, cut, isStart⟩ := stands.dropTo?
  rw [findColumnFrom, cut, Option.bind_some, find?_of_start isStart]
  rfl

theorem Document.textIn?_onLine (document : Document) (line column size : Nat) :
    document.textIn? (.onLine line column size) =
      (takeTo? (column + size) (document.line line)).bind (dropTo? column) :=
  if_pos rfl

/-- What the reader knows of the words of a tree that was read from a text: they stand in it. -/
theorem parse_words_known
    {text : List Char}
    {tree : Node}
    (parsed : Node.parse text = .ok tree) :
    ∀ word ∈ tree.words, (Matching.placed (physicalLines text)).Knows word := by
  obtain ⟨lines, nodes, scanned, read, rfl⟩ := Node.parse_ok parsed
  have outcome := (buildForest_matches_self (scanLines_isIn scanned)).statements_matches
  rw [read] at outcome
  cases outcome with
  | ok lists =>
    have root : Node.Matches (Matching.placed (physicalLines text))
        (.wrapper .root nodes none ⟨1, 1⟩) (.wrapper .root nodes none ⟨1, 1⟩) :=
      .wrapper lists .none rfl
    exact root.words_known

/-- A color stands where the word does that it is. -/
theorem Matching.Knows.placed
    {lines : List (List Char)}
    {term : Node}
    (known : (Matching.placed lines).Knows term)
    {occurrence : Occurrence}
    (isColor : term.color? = some occurrence) :
    Placed lines occurrence.text occurrence.place := by
  cases Node.color?_eq_some_iff.mp isColor with
  | named keyword => exact known (.inl keyword)
  | literal => exact known
  | function constructor isNumeric => exact known (.inr constructor)

/-- Every color of a tree that was read from a text stands in the text at its place. -/
theorem parse_placed
    {text : List Char}
    {tree : Node}
    (parsed : Node.parse text = .ok tree)
    {occurrence : Occurrence}
    (isDeclared : occurrence ∈ declaredColors tree.statements) :
    Placed (physicalLines text) occurrence.text occurrence.place := by
  rw [declaredColors_searched] at isDeclared
  obtain ⟨term, isSearched, isColor⟩ := List.mem_filterMap.mp isDeclared
  exact (parse_words_known parsed term (searched_mem_words isSearched isColor)).placed isColor

/-- The place of a color is exact: its line is a line of the document, its text stands there at its
column, its range starts there, and the range of a keyword or of a literal is its text. -/
theorem parse_occurrence_placed
    {text : List Char}
    {tree : Node}
    (parsed : Node.parse text = .ok tree)
    {occurrence : Occurrence}
    (isDeclared : occurrence ∈ declaredColors tree.statements) :
    occurrence.place.line < (Document.ofText text).lineCount ∧
      (∃ rest, dropTo? occurrence.place.column
          ((Document.ofText text).line occurrence.place.line) = some rest ∧
        occurrence.text.toList <+: rest) ∧
      (occurrence.range (.ofText text)).start = occurrence.place ∧
      (occurrence.form ≠ .function →
        (Document.ofText text).textIn? (occurrence.range (.ofText text)) =
          some occurrence.text.toList) := by
  obtain ⟨line, isLine, stands⟩ := parse_placed parsed isDeclared
  have lineEq : (Document.ofText text).line occurrence.place.line = line := by
    rw [Document.line, Document.ofText, isLine]
    rfl
  have found := findColumnFrom_of_standsAt stands
  refine ⟨(List.getElem?_eq_some_iff.mp isLine).1, ?_, ?_, fun isText => ?_⟩
  · rw [lineEq]
    exact stands.dropTo?
  · simp only [Occurrence.range, lineEq, found]
  · have range : occurrence.range (.ofText text) =
        .onLine occurrence.place.line occurrence.place.column (width occurrence.text.toList) := by
      simp only [Occurrence.range, lineEq, found]
      cases form : occurrence.form with
      | function => exact absurd form isText
      | named => rfl
      | literal => rfl
    rw [range, Document.textIn?_onLine, lineEq]
    exact stands.takeTo?_dropTo?

theorem parse_occurrence_placed_after_comment :
    ∃ tree, Node.parse "$a = /* x */ red".toList = .ok tree ∧
      ∃ occurrence ∈ declaredColors tree.statements,
        occurrence.place = ⟨0, 13⟩ ∧
          (Document.ofText "$a = /* x */ red".toList).textIn?
            (occurrence.range (.ofText "$a = /* x */ red".toList)) = some "red".toList := by
  let occurrence : Occurrence := ⟨.named, ⟨0, 13⟩, "red", Named.read "red"⟩
  have parsed : Node.parse "$a = /* x */ red".toList =
      .ok (Sheet.ofText "$a = /* x */ red".toList).tree := by
    decide +kernel
  have declared : occurrence ∈
      declaredColors (Sheet.ofText "$a = /* x */ red".toList).tree.statements := by
    decide +kernel
  exact ⟨_, parsed, occurrence, declared, rfl,
    (parse_occurrence_placed parsed declared).2.2.2 (by decide)⟩

end StyleSense
