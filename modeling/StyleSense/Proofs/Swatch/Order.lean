import StyleSense.Proofs.Statement.Fault
import StyleSense.Proofs.Statement.Words
import StyleSense.Proofs.Swatch.Entries
import StyleSense.Proofs.Swatch.Place
import StyleSense.Proofs.Swatch.Search

/-!
Contract: every color of a document comes from a token of its own.

Owns:
- `parse_words_within`: the words of a document stand at different tokens of it;
- `parse_within`, the same for its colors. They are in order unless an entry of an object has
  replaced an earlier one;
- `parse_colors_complete`: no color of a document is lost to another one at its place.

Does not own: what the text at such a place is (`StyleSense.Proofs.Swatch.Place`).
-/

namespace StyleSense

open Text

/-! ## Places -/

/-- The places of some colors. -/
def places (occurrences : List Occurrence) : List Place :=
  occurrences.map Occurrence.place

/-- The places of some terms. -/
def wordPlaces (words : List Node) : List Place :=
  words.map fun word => word.pos.place

/-- The places of some tokens. -/
def tokenPlaces (tokens : List Token) : List Place :=
  tokens.map fun token => token.pos.place

theorem place_of_color?
    {term : Node}
    {occurrence : Occurrence}
    (isColor : term.color? = some occurrence) :
    occurrence.place = term.pos.place := by
  cases Node.color?_eq_some_iff.mp isColor with
  | named | literal | function => rfl

/-- The colors that terms are stand at words. -/
theorem places_filterMap_color?_sublist (terms : List Node) :
    (places (terms.filterMap Node.color?)).Sublist (wordPlaces (terms.filter Node.isWord)) := by
  induction terms with
  | nil => exact List.Sublist.refl _
  | cons term rest inductionHypothesis =>
    cases isColor : term.color? with
    | some occurrence =>
      rw [List.filterMap_cons_some isColor, List.filter_cons_of_pos (Node.isWord_of_color? isColor),
        places, wordPlaces, List.map_cons, List.map_cons, place_of_color? isColor]
      exact inductionHypothesis.cons_cons _
    | none =>
      rw [List.filterMap_cons_none isColor]
      refine inductionHypothesis.trans ((List.Sublist.filter _ ?_).map _)
      exact List.sublist_cons_self ..

/-! ## Whole texts -/

/-- The first place comes before the second: on an earlier line, or earlier on the same one. -/
def Place.Before (left right : Place) : Prop :=
  left.line < right.line ∨ left.line = right.line ∧ left.column < right.column

theorem Place.Before.ne
    {left right : Place}
    (before : left.Before right) :
    left ≠ right := by
  rintro rfl
  rcases before with earlier | ⟨_, earlier⟩ <;> exact absurd earlier (Nat.lt_irrefl _)

/-- Counting from zero keeps the order of places that are known. -/
theorem SourcePos.Before.place
    {left right : SourcePos}
    (before : left.Before right)
    (lineKnown : 0 < left.line)
    (columnKnown : 0 < left.column) :
    left.place.Before right.place := by
  simp only [Place.Before, SourcePos.place, lineIndex]
  rcases before with earlier | ⟨same, earlier⟩
  · exact .inl (by omega)
  · exact .inr ⟨by omega, by omega⟩

/-- The tokens of the values of a text are in order, counted from zero. -/
theorem tokenPlaces_increasing
    {text : List Char}
    {lines : List Line}
    (scanned : scanLines text = .ok lines) :
    (tokenPlaces (LineTree.forestValues (buildForest lines)).flatten).Pairwise Place.Before := by
  have shown := LineTree.forestValues_shows (buildForest lines)
  have increasing := LineTree.forestValues_increasing (buildForest lines)
  rw [LineTree.forestLines_buildForest] at shown increasing
  rw [tokenPlaces, List.pairwise_map]
  refine (increasing (scanLines_ordered scanned)).imp_of_mem fun {left right} isLeft _ before => ?_
  obtain ⟨fragment, isFragment, shows⟩ := shown left isLeft
  obtain ⟨line, isLine, isPart⟩ := List.mem_flatMap.mp isFragment
  have positive := scanLines_numbers scanned line isLine fragment isPart
  have bounds := shows.shows.bounds
  exact before.place (by omega) (by omega)

/-- The words of a tree that was read from a text stand at different tokens of it. -/
theorem parse_words_within
    {distinct : Prop}
    {text : List Char}
    {tree : Node}
    (parsed : Node.parse text = .ok tree)
    (keys : distinct → DistinctKeys text) :
    ∃ all : List Place, all.Pairwise Place.Before ∧ DrawnFrom distinct (wordPlaces tree.words) all := by
  obtain ⟨lines, nodes, scanned, read, rfl⟩ := Node.parse_ok parsed
  refine ⟨_, tokenPlaces_increasing scanned, ?_⟩
  have spelled := (parse_spelled parsed keys).places.map SourcePos.place
  rw [valueTokens_of_scanLines scanned, List.map_map, List.map_map] at spelled
  exact spelled

/-- No two words of a tree that was read from a text stand at one place. -/
theorem parse_words_nodup
    {text : List Char}
    {tree : Node}
    (parsed : Node.parse text = .ok tree) :
    (wordPlaces tree.words).Nodup := by
  have nothingAsked : False → DistinctKeys text := False.elim
  obtain ⟨all, increasing, drawn⟩ := parse_words_within parsed nothingAsked
  obtain ⟨chosen, isPerm, isPart⟩ := drawn.among
  exact isPerm.nodup_iff.mp ((increasing.imp Place.Before.ne).sublist isPart)

/-- The colors of a tree that was read from a text stand at different tokens of it. -/
theorem parse_within
    {distinct : Prop}
    {text : List Char}
    {tree : Node}
    (parsed : Node.parse text = .ok tree)
    (keys : distinct → DistinctKeys text) :
    ∃ all : List Place, all.Pairwise Place.Before ∧
      DrawnFrom distinct (places (declaredColors tree.statements)) all := by
  obtain ⟨all, increasing, drawn⟩ := parse_words_within parsed keys
  refine ⟨all, increasing, drawn.part ?_⟩
  rw [declaredColors_searched]
  exact (places_filterMap_color?_sublist _).trans ((searchedTerms_words false tree).map _)

/-- The range of a color starts at its place. -/
theorem range_start_of_parse
    {text : List Char}
    {tree : Node}
    (parsed : Node.parse text = .ok tree)
    {occurrence : Occurrence}
    (isDeclared : occurrence ∈ declaredColors tree.statements) :
    (occurrence.range (.ofText text)).start = occurrence.place := by
  obtain ⟨line, isLine, stands⟩ := parse_placed parsed isDeclared
  have lineEq : (Document.ofText text).line occurrence.place.line = line := by
    rw [Document.line, Document.ofText, isLine]
    rfl
  simp only [Occurrence.range, lineEq, findColumnFrom_of_standsAt stands]

/-- Entries start where the ranges of their colors do. -/
theorem entry?_starts_sublist
    (document : Document)
    (occurrences : List Occurrence) :
    ((occurrences.filterMap (Occurrence.entry? document)).map fun entry => entry.range.start).Sublist
      (occurrences.map fun occurrence => (occurrence.range document).start) := by
  induction occurrences with
  | nil => exact List.Sublist.slnil
  | cons occurrence rest inductionHypothesis =>
    cases color : occurrence.color with
    | error reason =>
      have isNone : occurrence.entry? document = none := by simp only [Occurrence.entry?, color]
      rw [List.filterMap_cons_none isNone, List.map_cons]
      exact inductionHypothesis.cons _
    | ok value =>
      have isSome : occurrence.entry? document = some ⟨occurrence.range document, value⟩ := by
        simp only [Occurrence.entry?, color]
      rw [List.filterMap_cons_some isSome, List.map_cons, List.map_cons]
      exact inductionHypothesis.cons_cons _

/-- The entries of a document start at places of its colors. -/
theorem parse_starts_sublist
    {text : List Char}
    {tree : Node}
    (parsed : Node.parse text = .ok tree) :
    (((declaredColors tree.statements).filterMap (Occurrence.entry? (.ofText text))).map
      fun entry => entry.range.start).Sublist (places (declaredColors tree.statements)) := by
  have starts := entry?_starts_sublist (.ofText text) (declaredColors tree.statements)
  have placed : (declaredColors tree.statements).map (fun occurrence =>
      (occurrence.range (.ofText text)).start) = places (declaredColors tree.statements) :=
    List.map_congr_left fun occurrence isDeclared => range_start_of_parse parsed isDeclared
  rw [placed] at starts
  exact starts

/-- No entry of a document gives way to another one: no two colors start at one place. -/
theorem parse_colors_eq
    {text : List Char}
    {tree : Node}
    (parsed : Node.parse text = .ok tree) :
    (Sheet.ofText text).colors =
      (declaredColors tree.statements).filterMap (Occurrence.entry? (.ofText text)) := by
  have nothingAsked : False → DistinctKeys text := False.elim
  obtain ⟨all, increasing, drawn⟩ := parse_within parsed nothingAsked
  have starts := parse_starts_sublist parsed
  have different : (places (declaredColors tree.statements)).Nodup := by
    obtain ⟨chosen, isPerm, isPart⟩ := drawn.among
    exact isPerm.nodup_iff.mp ((increasing.imp Place.Before.ne).sublist isPart)
  have isTree : (Sheet.ofText text).tree = tree := by simp only [Sheet.tree, Sheet.ofText, parsed]
  rw [Sheet.colors, isTree]
  exact keepFirst_eq_self _ (different.sublist starts)

/-- No color of a document is lost to another one at its place: there is one entry for each color that
can be computed, with its range and that color, in their order. Unless an object repeats a key, this is
the order of the text. -/
theorem parse_colors_complete
    {text : List Char}
    {tree : Node}
    (parsed : Node.parse text = .ok tree) :
    (Sheet.ofText text).colors.map ColorEntry.pair =
        ((declaredColors tree.statements).filter fun occurrence => occurrence.color.isOk).map
          (Occurrence.pair (.ofText text)) ∧
      (DistinctKeys text →
        ((Sheet.ofText text).colors.map fun entry => entry.range.start).Pairwise Place.Before) := by
  obtain ⟨all, increasing, drawn⟩ := parse_within parsed (id : DistinctKeys text → _)
  have whole := parse_colors_eq parsed
  constructor
  · rw [whole]
    exact Document.map_filterMap_entry? ..
  · intro distinct
    rw [whole]
    exact increasing.sublist ((parse_starts_sublist parsed).trans (drawn.ordered distinct))

/-- The color that cannot be computed has no entry; the equal ones around it have one each. -/
theorem parse_colors_complete_object :
    let text := "$a = \x7bx: red, y: rgb(1px, 2, 3), z: red\x7d".toList
    let red : Rgba Float := ⟨255.0, 0.0, 0.0, 1.0⟩
    ∃ tree, Node.parse text = .ok tree ∧
      (declaredColors tree.statements).map (fun occurrence => (occurrence.place, occurrence.color)) =
        [(⟨0, 9⟩, .ok red), (⟨0, 17⟩, .error (.unsupportedUnit "px")), (⟨0, 36⟩, .ok red)] ∧
      (Sheet.ofText text).colors.map ColorEntry.pair =
        [(.onLine 0 9 3, .ok red), (.onLine 0 36 3, .ok red)] ∧
      DistinctKeys text ∧
      ((Sheet.ofText text).colors.map fun entry => entry.range.start).Pairwise Place.Before := by
  intro text red
  have parsed : Node.parse text = .ok (Sheet.ofText text).tree := by decide +kernel
  have distinct : DistinctKeys text := by decide +kernel
  obtain ⟨entries, increasing⟩ := parse_colors_complete parsed
  refine ⟨_, parsed, by decide +kernel, ?_, distinct, increasing distinct⟩
  rw [entries]
  decide +kernel

end StyleSense
