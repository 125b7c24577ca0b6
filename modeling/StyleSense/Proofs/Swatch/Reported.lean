import Mathlib.Data.List.Nodup
import StyleSense.Proofs.Statement.Inline
import StyleSense.Proofs.Swatch.Order

/-!
Contract: which calls of a document are reported as colors.

Owns:
- `NumericArguments`, arguments that are numbers where a color looks at them: in every term of a single
  argument, and in the first term of each of several. A term of a single argument may join two
  numbers by an operator;
- `literalChannels?_isSome_iff`: these are the arguments that have channels;
- `parse_calls_reported`: what is reported is a word of the document that is a color, and a call is
  reported exactly when the search comes to it, it is a constructor with such arguments, and the
  constructor takes the channels.

Does not own: the channels that a constructor takes (`StyleSense.Proofs.Expression.Constructor`).
-/

namespace StyleSense

open Text

/-! ## Numeric arguments -/

/-- A number with an optional unit. -/
inductive Node.IsNumber : Node → Prop
  | unit (value : Float) (suffix : Option String) (pos : SourcePos) :
    Node.IsNumber (.unit value suffix pos)

/-- A number, or an operator with a number on each side. -/
inductive Node.IsNumeric : Node → Prop
  | number {term : Node} (isNumber : term.IsNumber) : Node.IsNumeric term
  | operation {left right : Node} (op : String) (pos : SourcePos)
      (leftNumber : left.IsNumber)
      (rightNumber : right.IsNumber) :
      Node.IsNumeric (.binary op left right pos)

/-- Arguments that are numbers where a color looks at them. -/
inductive NumericArguments : List Node → Prop
  | none : NumericArguments []
  | single {arg : Node} (terms : ∀ term ∈ arg.argumentTerms, term.IsNumeric) : NumericArguments [arg]
  | several {first second : Node} {rest : List Node}
      (firsts : ∀ arg ∈ first :: second :: rest, ∃ term ∈ arg.argumentTerms.head?, term.IsNumber) :
      NumericArguments (first :: second :: rest)

theorem Node.channel?_isSome_iff (term : Node) :
    term.channel?.isSome ↔ term.IsNumber := by
  constructor
  · intro isSome
    cases term with
    | unit value suffix pos => exact .unit value suffix pos
    | _ => cases isSome
  · rintro ⟨value, suffix, pos⟩
    rfl

theorem Node.channels?_isSome_iff (term : Node) :
    term.channels?.isSome ↔ term.IsNumeric := by
  have alone : ((term.channel?).map fun channel => [channel]).isSome ↔ term.IsNumber := by
    rw [Option.isSome_map, Node.channel?_isSome_iff]
  cases term with
  | binary op left right pos =>
    have leftIff := Node.channel?_isSome_iff left
    have rightIff := Node.channel?_isSome_iff right
    have both : (Node.binary op left right pos).channels?.isSome ↔
        left.channel?.isSome ∧ right.channel?.isSome := by
      rw [Node.channels?]
      cases left.channel? <;> cases right.channel? <;> simp
    rw [both, leftIff, rightIff]
    constructor
    · rintro ⟨leftNumber, rightNumber⟩
      exact .operation op pos leftNumber rightNumber
    · rintro (⟨⟨⟩⟩ | ⟨_, _, leftNumber, rightNumber⟩)
      exact ⟨leftNumber, rightNumber⟩
  | _ =>
    refine alone.trans ⟨.number, ?_⟩
    rintro ⟨isNumber⟩
    assumption

theorem mapM_isSome_iff
    {α β : Type}
    (f : α → Option β)
    (items : List α) :
    (items.mapM f).isSome ↔ ∀ item ∈ items, (f item).isSome := by
  induction items with
  | nil => simp
  | cons item rest inductionHypothesis =>
    rw [List.forall_mem_cons, ← inductionHypothesis, List.mapM_cons]
    cases f item <;> cases rest.mapM f <;> simp

/-- Arguments have channels exactly when they are numbers where a color looks at them. -/
theorem literalChannels?_isSome_iff (args : List Node) :
    (literalChannels? args).isSome ↔ NumericArguments args := by
  cases args with
  | nil => exact ⟨fun _ => .none, fun _ => rfl⟩
  | cons first others =>
    cases others with
    | nil =>
      rw [literalChannels?, Option.isSome_map, mapM_isSome_iff]
      simp only [Node.channels?_isSome_iff]
      refine ⟨.single, ?_⟩
      rintro ⟨terms⟩
      assumption
    | cons second rest =>
      have ofTerm : ∀ arg : Node, (arg.argumentTerms.head?.bind Node.channel?).isSome ↔
          ∃ term ∈ arg.argumentTerms.head?, term.IsNumber := by
        intro arg
        cases arg.argumentTerms.head? with
        | none => simp
        | some term => simpa using Node.channel?_isSome_iff term
      rw [literalChannels?, mapM_isSome_iff]
      · simp only [ofTerm]
        refine ⟨.several, ?_⟩
        rintro ⟨firsts⟩
        assumption
      · intro arg same
        cases same

/-! ## Reported calls -/

/-- Words of one tree that stand at one place are the same. -/
theorem parse_words_eq_of_place
    {text : List Char}
    {tree : Node}
    (parsed : Node.parse text = .ok tree)
    {left right : Node}
    (isLeft : left ∈ tree.words)
    (isRight : right ∈ tree.words)
    (same : left.pos.place = right.pos.place) :
    left = right :=
  List.inj_on_of_nodup_map (parse_words_nodup parsed) isLeft isRight same

/-- The entries of a document are those of the colors that searched terms are. -/
theorem parse_colors_mem_iff
    {text : List Char}
    {tree : Node}
    (parsed : Node.parse text = .ok tree)
    {entry : ColorEntry} :
    entry ∈ (Sheet.ofText text).colors ↔ ∃ term ∈ searchedTerms false tree.statements,
      ∃ occurrence, term.color? = some occurrence ∧
        occurrence.entry? (.ofText text) = some entry := by
  rw [parse_colors_eq parsed, declaredColors_searched]
  simp only [List.mem_filterMap]
  constructor
  · rintro ⟨occurrence, ⟨term, isSearched, isColor⟩, isEntry⟩
    exact ⟨term, isSearched, occurrence, isColor, isEntry⟩
  · rintro ⟨term, isSearched, occurrence, isColor, isEntry⟩
    exact ⟨occurrence, ⟨term, isSearched, isColor⟩, isEntry⟩

/-- The entry of a searched term starts at the term and has its color. -/
theorem parse_entry_eq
    {text : List Char}
    {tree : Node}
    (parsed : Node.parse text = .ok tree)
    {term : Node}
    (isSearched : term ∈ searchedTerms false tree.statements)
    {occurrence : Occurrence}
    (isColor : term.color? = some occurrence)
    {entry : ColorEntry}
    (isEntry : occurrence.entry? (.ofText text) = some entry) :
    entry.range.start = term.pos.place ∧ occurrence.color = .ok entry.color := by
  have isDeclared : occurrence ∈ declaredColors tree.statements := by
    rw [declaredColors_searched]
    exact List.mem_filterMap.mpr ⟨term, isSearched, isColor⟩
  unfold Occurrence.entry? at isEntry
  split at isEntry
  · rename_i color isOk
    cases isEntry
    exact ⟨(range_start_of_parse parsed isDeclared).trans (place_of_color? isColor), isOk⟩
  · cases isEntry

theorem parse_reported_of_searched
    {text : List Char}
    {tree : Node}
    (parsed : Node.parse text = .ok tree)
    {term : Node}
    (isSearched : term ∈ searchedTerms false tree.statements)
    {occurrence : Occurrence}
    (isColor : term.color? = some occurrence)
    {color : Rgba Float}
    (accepted : occurrence.color = .ok color) :
    ∃ entry ∈ (Sheet.ofText text).colors, entry.range.start = term.pos.place := by
  have isEntry : occurrence.entry? (.ofText text) = some ⟨occurrence.range (.ofText text), color⟩ := by
    simp only [Occurrence.entry?, accepted]
  have isReported := (parse_colors_mem_iff parsed).mpr ⟨_, isSearched, occurrence, isColor, isEntry⟩
  exact ⟨_, isReported, (parse_entry_eq parsed isSearched isColor isEntry).1⟩

/-- What is reported is a word of the document that is a color itself. A call is reported exactly when
the search comes to it, it is a constructor whose arguments are numbers where a color looks at them,
and the constructor takes the channels that these are. -/
theorem parse_calls_reported
    {text : List Char}
    {tree : Node}
    (parsed : Node.parse text = .ok tree) :
    (∀ entry ∈ (Sheet.ofText text).colors, ∃ word ∈ tree.words, ∃ occurrence,
        word.color? = some occurrence ∧ occurrence.color = .ok entry.color ∧
          entry.range.start = word.pos.place) ∧
      ∀ name args pos, .call name args pos ∈ tree.words →
        ((∃ entry ∈ (Sheet.ofText text).colors, entry.range.start = pos.place) ↔
          .call name args pos ∈ searchedTerms false tree.statements ∧
            Rgba.isConstructor name = true ∧ NumericArguments args ∧
              ∃ channels color, literalChannels? args = some channels ∧
                Rgba.ofCall name channels = .ok color) := by
  constructor
  · intro entry isReported
    obtain ⟨term, isSearched, occurrence, isColor, isEntry⟩ :=
      (parse_colors_mem_iff parsed).mp isReported
    obtain ⟨start, color⟩ := parse_entry_eq parsed isSearched isColor isEntry
    exact ⟨term, searched_mem_words isSearched isColor, occurrence, isColor, color, start⟩
  · intro name args pos isCall
    constructor
    · rintro ⟨entry, isReported, starts⟩
      obtain ⟨term, isSearched, occurrence, isColor, isEntry⟩ :=
        (parse_colors_mem_iff parsed).mp isReported
      obtain ⟨start, color⟩ := parse_entry_eq parsed isSearched isColor isEntry
      have same : term = .call name args pos :=
        parse_words_eq_of_place parsed (searched_mem_words isSearched isColor) isCall
          (start.symm.trans starts)
      subst same
      cases Node.color?_eq_some_iff.mp isColor with
      | @function _ _ _ channels constructor isNumeric =>
        have numeric : NumericArguments args :=
          (literalChannels?_isSome_iff args).mp (Option.isSome_of_eq_some isNumeric)
        exact ⟨isSearched, constructor, numeric, channels, entry.color, isNumeric, color⟩
    · rintro ⟨isSearched, constructor, numeric, channels, color, found, accepted⟩
      have isOccurrence : (Node.call name args pos).IsOccurrence _ := .function constructor found
      exact parse_reported_of_searched parsed isSearched (Node.color?_eq_some_iff.mpr isOccurrence)
        accepted

/-- The arguments `10 $y, 20, 30` or, without the number, `$y, 20, 30`, from a column on. -/
def argumentsWithVariable (withNumber : Bool) (column : Nat) : List Node :=
  let name : Node := .ident "$y" none ⟨1, column⟩
  let first : List Node := if withNumber then [.unit 10.0 none ⟨1, column - 3⟩, name] else [name]
  [.expression ⟨first, ⟨1, if withNumber then column - 3 else column⟩⟩,
    .expression ⟨[.unit 20.0 none ⟨1, column + 4⟩], ⟨1, column + 4⟩⟩,
    .expression ⟨[.unit 30.0 none ⟨1, column + 8⟩], ⟨1, column + 8⟩⟩]

/-- The tree of `$x = rgb(10 $y, 20, 30) rgb($y, 20, 30)`. -/
def treeWithVariable : Node :=
  .wrapper .root [.ident "$x" (some (.expression
    ⟨[.call "rgb" (argumentsWithVariable true 13) ⟨1, 6⟩,
      .call "rgb" (argumentsWithVariable false 29) ⟨1, 25⟩], ⟨1, 6⟩⟩)) ⟨1, 1⟩] none ⟨1, 1⟩

theorem mem_words_treeWithVariable :
    .call "rgb" (argumentsWithVariable true 13) ⟨1, 6⟩ ∈ treeWithVariable.words ∧
      .call "rgb" (argumentsWithVariable false 29) ⟨1, 25⟩ ∈ treeWithVariable.words := by
  decide

theorem mem_searchedTerms_treeWithVariable :
    .call "rgb" (argumentsWithVariable true 13) ⟨1, 6⟩ ∈
      searchedTerms false treeWithVariable.statements := by
  decide

theorem parse_calls_with_variable :
    Node.parse "$x = rgb(10 $y, 20, 30) rgb($y, 20, 30)".toList =
      .ok treeWithVariable := by
  decide +kernel

/-- The names in the arguments of a call do not keep it from being reported. -/
theorem reported_call_with_variable :
    ∃ tree args pos,
      Node.parse "$x = rgb(10 $y, 20, 30) rgb($y, 20, 30)".toList = .ok tree ∧
        .call "rgb" args pos ∈ tree.words ∧
          (∃ arg ∈ args, ∃ term ∈ arg.argumentTerms, ¬term.IsNumeric) ∧
            ∃ entry ∈ (Sheet.ofText "$x = rgb(10 $y, 20, 30) rgb($y, 20, 30)".toList).colors,
              entry.range.start = pos.place := by
  refine ⟨_, argumentsWithVariable true 13, ⟨1, 6⟩, parse_calls_with_variable,
    mem_words_treeWithVariable.1, ?_, by decide +kernel⟩
  exact ⟨_, List.mem_cons_self .., .ident "$y" none ⟨1, 13⟩, by decide, nofun⟩

theorem parse_calls_reported_with_variable :
    ∃ tree, Node.parse "$x = rgb(10 $y, 20, 30) rgb($y, 20, 30)".toList = .ok tree ∧
      (∃ entry ∈ (Sheet.ofText "$x = rgb(10 $y, 20, 30) rgb($y, 20, 30)".toList).colors,
        entry.range.start = ⟨0, 5⟩) ∧
      ¬∃ entry ∈ (Sheet.ofText "$x = rgb(10 $y, 20, 30) rgb($y, 20, 30)".toList).colors,
        entry.range.start = ⟨0, 24⟩ := by
  have calls := (parse_calls_reported parse_calls_with_variable).2
  refine ⟨_, parse_calls_with_variable, ?_, ?_⟩
  · have numeric : NumericArguments (argumentsWithVariable true 13) := by
      refine .several ?_
      simp only [List.forall_mem_cons]
      exact ⟨⟨_, rfl, .unit ..⟩, ⟨_, rfl, .unit ..⟩, ⟨_, rfl, .unit ..⟩, nofun⟩
    exact (calls _ _ _ mem_words_treeWithVariable.1).mpr ⟨mem_searchedTerms_treeWithVariable, by decide,
      numeric, [⟨10.0, none⟩, ⟨20.0, none⟩, ⟨30.0, none⟩], ⟨10.0, 20.0, 30.0, 1.0⟩, rfl,
      by decide +kernel⟩
  · intro isReported
    obtain ⟨-, -, numeric, -⟩ := (calls _ _ _ mem_words_treeWithVariable.2).mp isReported
    simp only [argumentsWithVariable, Bool.false_eq_true, if_false] at numeric
    cases numeric with
    | several firsts =>
      obtain ⟨term, isFirst, isNumber⟩ := firsts _ (List.mem_cons_self ..)
      cases isFirst
      cases isNumber

end StyleSense
