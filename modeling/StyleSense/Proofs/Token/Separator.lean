import StyleSense.Proofs.Line.Comment
import StyleSense.Proofs.Line.Piece
import StyleSense.Proofs.Token.Spelling

/-!
Contract: a semicolon is part of no token.

Owns:
- `Token.lexeme_keeps_semicolon`: a token outside quotes and brackets leaves a semicolon where it is;
- `tokenize_semicolon`: such a text with a semicolon in it has no tokens but an error.

Does not own: where lines are cut at semicolons (`StyleSense.Proofs.Line.Piece`).
-/

namespace StyleSense

open Text

namespace Token

theorem numeral_keeps_semicolon
    {lead : Char}
    {cs : List Char}
    (isIn : ';' ∈ cs) :
    ';' ∈ (numeral lead cs).2 := by
  have later := mem_dropWhile (show Char.isDigit ';' = false by decide) isIn
  unfold numeral
  split
  · rename_i d rest split
    rw [split] at later
    split
    · rename_i digit
      have notDigit : ';' ≠ d := by
        rintro rfl
        exact absurd digit (by decide)
      simp only [List.mem_cons, notDigit, false_or] at later
      exact mem_dropWhile (by decide) (later.resolve_left (by decide))
    · exact later
  · exact later

theorem suffix_keeps_semicolon
    {cs : List Char}
    (isIn : ';' ∈ cs) :
    ';' ∈ (suffix cs).2 := by
  unfold suffix
  split
  · exact (List.mem_cons.mp isIn).resolve_left (by decide)
  · split
    · exact mem_dropWhile (by decide) isIn
    · exact isIn
  · exact isIn

/-- A token outside quotes and brackets leaves a semicolon where it is. -/
theorem lexeme_keeps_semicolon
    {c : Char}
    {cs rest : List Char}
    {kind : Kind}
    (unmarked : Unmarked (c :: cs))
    (taken : lexeme c cs = .ok (kind, rest))
    (isIn : ';' ∈ c :: cs) :
    ';' ∈ rest := by
  have later : c ≠ ';' → ';' ∈ cs := fun other => (List.mem_cons.mp isIn).resolve_left other.symm
  cases lexeme_takes taken with
  | mark isMark =>
    apply later
    rintro rfl
    cases isMark
  | string isQuote =>
    have isMark : c ∈ marks := by rcases isQuote with rfl | rfl <;> decide
    exact absurd isMark (unmarked c (List.mem_cons_self ..))
  | hash isHash => exact mem_dropWhile (by decide) (later (by rw [isHash]; decide))
  | name starts =>
    apply mem_dropWhile (by decide) (later _)
    rintro rfl
    have notName : isNameStart ';' = false := by decide
    simp [startsName, notName] at starts
  | number starts =>
    apply suffix_keeps_semicolon (numeral_keeps_semicolon (later _))
    rintro rfl
    exact absurd starts (by simp)
  | @url inside _ whole =>
    have isBracket : '(' ∈ c :: cs := by simp [whole]
    exact absurd (show '(' ∈ marks by decide) (unmarked _ isBracket)
  | @operator sign _ whole =>
    have notSpelled : ';' ∉ sign.spelling.toList := by cases sign <;> decide
    rw [whole] at isIn
    exact (List.mem_append.mp isIn).resolve_left notSpelled

/-- Without comments only blanks are passed over. -/
theorem skipGap_commentless
    {cs : List Char}
    (commentless : Commentless cs)
    (spaced : Bool) :
    ∃ spacedAfter, skipGap spaced cs = .ok (trimStart cs, spacedAfter) := by
  induction cs generalizing spaced with
  | nil => exact ⟨spaced, skipGap_nil spaced⟩
  | cons c rest inductionHypothesis =>
    obtain ⟨first, others⟩ := List.isChain_cons.mp commentless
    rw [skipGap_cons]
    by_cases blank : isBlank c = true
    · obtain ⟨spacedAfter, passed⟩ := inductionHypothesis others true
      exact ⟨spacedAfter, by rw [if_pos blank, passed, trimStart, trimStart, List.dropWhile_cons_of_pos blank]⟩
    · have noComment : ¬(c == '/' && rest.head? == some '*') = true := by
        simp only [Bool.and_eq_true, beq_iff_eq]
        rintro ⟨rfl, star⟩
        exact first '*' star ⟨rfl, .inr rfl⟩
      refine ⟨spaced, ?_⟩
      rw [if_neg blank, if_neg noComment, trimStart, List.dropWhile_cons_of_neg blank]

end Token

theorem tokenizeFrom_semicolon
    {cs : List Char}
    (unmarked : Unmarked cs)
    (commentless : Commentless cs)
    (isIn : ';' ∈ cs)
    (line offset total : Nat) :
    ∃ error, tokenizeFrom line offset total cs = .error error := by
  obtain ⟨spaced, passed⟩ := Token.skipGap_commentless commentless false
  have remains : ';' ∈ trimStart cs := mem_dropWhile (by decide) isIn
  obtain ⟨c, following, split⟩ := List.exists_cons_of_ne_nil (List.ne_nil_of_mem remains)
  rw [split] at passed remains
  have isEnd : c :: following <:+ cs := split ▸ List.dropWhile_suffix _
  rw [tokenizeFrom]
  split
  · exact ⟨_, rfl⟩
  · rename_i nothing
    rw [passed] at nothing
    cases nothing
  · rename_i passed'
    rw [passed] at passed'
    cases passed'
    split
    · exact ⟨_, rfl⟩
    · rename_i kind rest taken
      have unmarkedHere := unmarked.of_sublist isEnd.sublist
      have later := Token.lexeme_keeps_semicolon unmarkedHere taken remains
      have restEnd := Token.rest_suffix passed taken
      have fewer := Token.rest_length_lt passed taken
      obtain ⟨error, fails⟩ := tokenizeFrom_semicolon (unmarked.of_sublist restEnd.sublist)
        (commentless.of_suffix restEnd) later line offset total
      rw [fails]
      exact ⟨error, rfl⟩
termination_by cs.length

/-- A text with a semicolon outside quotes and brackets is no list of tokens. -/
theorem tokenize_semicolon
    {text : List Char}
    (unmarked : Unmarked text)
    (commentless : Commentless text)
    (isIn : ';' ∈ text)
    (line offset : Nat) :
    ∃ error, tokenize text line offset = .error error :=
  tokenizeFrom_semicolon unmarked commentless isIn line offset (width text)

end StyleSense
