import StyleSense.Proofs.Line.Literal
import StyleSense.Proofs.Statement.Matching
import StyleSense.Proofs.Token.Literal

/-!
Contract: what stands in a string literal matters to no other part of a property or an assignment.

Owns:
- `HasValue`, the properties and assignments among the texts of lines, with their values;
- `Line.statement_literal_matches`: statements that differ in one literal of the value are read
  alike.

Does not own: the lines that literals belong to (`StyleSense.Proofs.Line.Literal`).
-/

namespace StyleSense

open Text

/-- A text is read as a property or as an assignment with the given value. -/
inductive HasValue (text : List Char) : List Char → Prop
  | assignment {name value : List Char}
      (found : Pattern.assignment? text = some (name, value)) :
      HasValue text value
  | property {name value : List Char}
      (notAssignment : Pattern.assignment? text = none)
      (notKeyword : String.ofList (firstWord text) ∉ "return" :: Line.controlWords)
      (found : Pattern.property? text = some (name, value)) :
      HasValue text value

namespace Line

/-- The statement that an assignment is, unless its value is a block. -/
theorem statement_of_assignment
    {line : Line}
    {name value : List Char}
    (found : Pattern.assignment? line.head.text = some (name, value))
    (body : Body) :
    line.statement body = line.assignment body name value := by
  have notAt := Pattern.assignment?_head found
  unfold statement
  simp only [found]

/-- The statement that a property is when nothing stands below it. -/
theorem statement_of_property
    {line : Line}
    {name value : List Char}
    (notAssignment : Pattern.assignment? line.head.text = none)
    (notKeyword : String.ofList (firstWord line.head.text) ∉ "return" :: controlWords)
    (found : Pattern.property? line.head.text = some (name, value))
    {body : Body}
    (noBody : body.first = none) :
    line.statement body = line.property name value := by
  obtain ⟨first, isFirst, isNameChar⟩ := Pattern.property?_head found
  have notAt : line.head.text.head? ≠ some '@' := by
    rw [isFirst]
    rintro ⟨rfl⟩
    exact absurd isNameChar (by decide)
  have notSelector : line.head.text.head?.any selectorSigns.contains = false := by
    have noSign : ∀ sign ∈ selectorSigns, ¬(isWordChar sign = true ∨ sign = '-' ∨ sign = '\x7b') := by
      decide
    rw [isFirst, Option.any_some, Bool.eq_false_iff, ne_eq, List.contains_iff_mem]
    exact fun isSign => noSign first isSign isNameChar
  obtain ⟨notReturn, notControl⟩ := not_or.mp (mt List.mem_cons.mpr notKeyword)
  have notControl' : ¬controlWords.contains (String.ofList (firstWord line.head.text)) = true := by
    rw [List.contains_iff_mem]
    exact notControl
  rw [statement_of_notAssignment notAt notAssignment]
  simp only [if_neg notReturn, if_neg notControl']
  unfold plainStatement
  simp only [noBody, Option.isSome_none, Bool.false_eq_true, if_false, notSelector, Bool.or_self,
    Pattern.interpolation?_of_property? found, found]

end Line

/-- The keyword of a line does not depend on what follows a quote or an opening bracket. -/
theorem firstWord_notKeyword
    {sign : Char}
    (isStop : Pattern.IsStop sign)
    {before after after' : List Char}
    (notKeyword : String.ofList (firstWord (before ++ sign :: after)) ∉
      "return" :: Line.controlWords) :
    String.ofList (firstWord (before ++ sign :: after')) ∉ "return" :: Line.controlWords := by
  intro isKeyword
  have plain : ∀ word ∈ "return" :: Line.controlWords, sign ∉ word.toList := by
    rcases isStop with (rfl | rfl) | rfl | rfl <;> decide
  have noSign := plain _ isKeyword
  rw [String.toList_ofList] at noSign
  apply notKeyword
  rw [Pattern.firstWord_append isStop noSign rfl]
  exact isKeyword

section Exchange

variable {quote : Char} (isQuote : IsQuote quote)
variable {body body' value value' before inside after : List Char}

include isQuote

/-- A value with a literal in it is no block. -/
theorem unbraced_ne_block
    {value : List Char}
    (isIn : quote ∈ value) :
    trimEnd ((trim value).reverse.dropWhile (· == '\x7b')).reverse ≠ "@block".toList := by
  have solid : isBlank quote = false := by rcases isQuote with rfl | rfl <;> decide
  have notBrace : (quote == '\x7b') = false := by rcases isQuote with rfl | rfl <;> decide
  have remains : quote ∈ trimEnd ((trim value).reverse.dropWhile (· == '\x7b')).reverse := by
    refine mem_trimEnd solid (List.mem_reverse.mpr ?_)
    exact mem_dropWhile (p := (· == '\x7b')) notBrace (List.mem_reverse.mpr (mem_trim solid isIn))
  intro isBlock
  rw [isBlock] at remains
  rcases isQuote with rfl | rfl <;> exact absurd remains (by decide)

variable (reads : IsLiteral quote body value) (reads' : IsLiteral quote body' value')

include reads reads'

theorem tokensOf_literal_matches
    (leads : Token.Leads (quote :: (body ++ quote :: after))
      (inside ++ quote :: (body ++ quote :: after)))
    (isEnd : inside <:+ before)
    (indent number offset : Nat) :
    (Matching.exchanged value value').Outcome (Matching.exchanged value value').Tokens
      ((literalLine indent number offset before quote body after).tokensOf
        (inside ++ quote :: (body ++ quote :: after)))
      ((literalLine indent number offset before quote body' after).tokensOf
        (inside ++ quote :: (body' ++ quote :: after))) := by
  obtain ⟨name, rfl⟩ := isEnd
  have skipped : ∀ body : List Char, width (name ++ inside ++ quote :: (body ++ quote :: after)) -
      width (inside ++ quote :: (body ++ quote :: after)) = width name := by
    intro body
    rw [List.append_assoc, width_append, Nat.add_sub_cancel]
  simp only [Line.tokensOf, literalLine, skipped, Line.fragmentTokens_cons, Fragment.tokens]
  refine (tokenize_literal_matches isQuote reads reads' leads number _).bind fun tokens => ?_
  have noTail : (Matching.exchanged value value').Outcome (Matching.exchanged value value').Tokens
      (Line.fragmentTokens []) (Line.fragmentTokens []) := .ok .nil
  exact noTail.bind fun others => .ok (List.rel_append tokens others)

theorem assignment_literal_matches
    {name : List Char}
    (found : Pattern.assignment? before = some (name, inside))
    (leads : Token.Leads (quote :: (body ++ quote :: after))
      (inside ++ quote :: (body ++ quote :: after)))
    (indent number offset : Nat) :
    (Matching.exchanged value value').Outcome (Node.Matches (Matching.exchanged value value'))
      ((literalLine indent number offset before quote body after).statement (LineTree.bodyOf []))
      ((literalLine indent number offset before quote body' after).statement (LineTree.bodyOf [])) := by
  have reading : ∀ body, (literalLine indent number offset before quote body after).statement
      (LineTree.bodyOf []) = (do
        let tokens ← (literalLine indent number offset before quote body after).tokensOf
          (inside ++ quote :: (body ++ quote :: after))
        let result ← Expression.read tokens
          ((literalLine indent number offset before quote body after).placeOf
            (inside ++ quote :: (body ++ quote :: after)))
        return .ident (String.ofList name) (some (.expression result)) ⟨number, offset + 1⟩) := by
    intro body
    have here : Pattern.assignment? (literalLine indent number offset before quote body after).head.text =
        some (name, inside ++ quote :: (body ++ quote :: after)) := by
      rw [literalLine, Pattern.assignment?_append (Pattern.trailing_of_isStop (.inl isQuote) _), found]
      rfl
    rw [Line.statement_of_assignment here, Line.assignment]
    simp only [if_neg (unbraced_ne_block isQuote (List.mem_append_right inside (List.mem_cons_self ..)))]
    rfl
  have isEnd := Pattern.assignment?_suffix found
  have places : (Matching.exchanged value value').pos
      ((literalLine indent number offset before quote body after).placeOf
        (inside ++ quote :: (body ++ quote :: after)))
      ((literalLine indent number offset before quote body' after).placeOf
        (inside ++ quote :: (body' ++ quote :: after))) := rfl
  rw [reading, reading]
  refine (tokensOf_literal_matches isQuote reads reads' leads isEnd indent number offset).bind
    fun tokens => ?_
  refine (Expression.read_matches tokens places).bind fun values => .ok ?_
  exact .declaration trivial (.expression values) rfl

theorem property_literal_matches
    {name : List Char}
    (notAssignment : Pattern.assignment? before = none)
    (notKeyword : String.ofList (firstWord (before ++ quote :: (body ++ quote :: after))) ∉
      "return" :: Line.controlWords)
    (found : Pattern.property? (before ++ quote :: (body ++ quote :: after)) =
      some (name, inside ++ quote :: (body ++ quote :: after)))
    (leads : Token.Leads (quote :: (body ++ quote :: after))
      (inside ++ quote :: (body ++ quote :: after)))
    (indent number offset : Nat) :
    (Matching.exchanged value value').Outcome (Node.Matches (Matching.exchanged value value'))
      ((literalLine indent number offset before quote body after).statement (LineTree.bodyOf []))
      ((literalLine indent number offset before quote body' after).statement (LineTree.bodyOf [])) := by
  have reading : ∀ body, (literalLine indent number offset before quote body after).statement
      (LineTree.bodyOf []) = (literalLine indent number offset before quote body after).property name
        (inside ++ quote :: (body ++ quote :: after)) := by
    intro other
    refine Line.statement_of_property ?_ ?_ ?_ rfl
    · rw [literalLine, Pattern.assignment?_append (Pattern.trailing_of_isStop (.inl isQuote) _), notAssignment]
      rfl
    · exact firstWord_notKeyword (.inl isQuote) notKeyword
    · exact Pattern.property?_local (.inl isQuote) found _
  have isEnd : inside <:+ before := by
    have whole := Pattern.property?_suffix found
    exact ((List.suffix_append_inj_of_length_eq rfl).mp whole).1
  have names := readSegments_matches (M := Matching.exchanged value value')
    (Matching.exchanged_stretch value value' name number offset offset)
  have places : (Matching.exchanged value value').pos
      ((literalLine indent number offset before quote body after).placeOf
        (inside ++ quote :: (body ++ quote :: after)))
      ((literalLine indent number offset before quote body' after).placeOf
        (inside ++ quote :: (body' ++ quote :: after))) := rfl
  rw [reading, reading]
  refine (tokensOf_literal_matches isQuote reads reads' leads isEnd indent number offset).bind
    fun tokens => ?_
  refine (Expression.read_matches tokens places).bind fun values => ?_
  exact names.bind fun segments => .ok (.property segments values rfl)

/-- Statements that differ in one literal of the value are read alike. -/
theorem statement_literal_matches
    (hasValue : HasValue (before ++ quote :: (body ++ quote :: after))
      (inside ++ quote :: (body ++ quote :: after)))
    (leads : Token.Leads (quote :: (body ++ quote :: after))
      (inside ++ quote :: (body ++ quote :: after)))
    (indent number offset : Nat) :
    (Matching.exchanged value value').Outcome (Node.Matches (Matching.exchanged value value'))
      ((literalLine indent number offset before quote body after).statement (LineTree.bodyOf []))
      ((literalLine indent number offset before quote body' after).statement (LineTree.bodyOf [])) := by
  have assigns := Pattern.assignment?_append
    (Pattern.trailing_of_isStop (.inl isQuote) (body ++ quote :: after)) before
  generalize inner : inside ++ quote :: (body ++ quote :: after) = text at hasValue
  cases hasValue with
  | assignment found =>
    rw [assigns] at found
    obtain ⟨⟨name, start⟩, alone, equal⟩ := Option.map_eq_some_iff.mp found
    obtain ⟨_, same⟩ := Prod.mk.inj equal
    obtain rfl : start = inside := List.append_cancel_right (same.trans inner.symm)
    exact assignment_literal_matches isQuote reads reads' alone leads indent number offset
  | property notAssignment notKeyword found =>
    subst inner
    rw [assigns] at notAssignment
    exact property_literal_matches isQuote reads reads' (Option.map_eq_none_iff.mp notAssignment)
      notKeyword found leads indent number offset

end Exchange

end StyleSense
