import StyleSense.Proofs.Line.Comment
import StyleSense.Proofs.Token.Following
import StyleSense.Proofs.Token.Stretch

/-!
Contract: what stands in a string literal matters to no other token.

A token is taken off a text without a look at what follows the next quote, unless the quote is part
of it. So the tokens before a literal do not depend on the literal, and those after it only in their
columns.

Owns:
- `Token.skipGap_append`: a gap does not depend on what follows the next quote;
- `IsLiteral`, the bodies of literals, and `Token.Leads`, a text whose tokens lead to a literal;
- `tokenize_literal_matches`: the tokens of two texts that differ in one literal correspond.

Does not own: the lines in which literals stand (`StyleSense.Proofs.Line.Literal`).
-/

namespace StyleSense

open Text

/-- The characters `body` between two quotes are a string literal with the given value. -/
def IsLiteral (quote : Char) (body value : List Char) : Prop :=
  Token.stringBody? quote (body ++ [quote]) = some (value, [])

instance (quote : Char) (body value : List Char) : Decidable (IsLiteral quote body value) :=
  inferInstanceAs (Decidable (Token.stringBody? quote (body ++ [quote]) = some (value, [])))

namespace Token

/-! ## Gaps before a quote -/

/-- A quote is part of no name, number, operator or gap. -/
structure Foreign (c : Char) : Prop extends Stops c where
  notBlank : isBlank c = false
  notPunctuation : punctuation? c = none

theorem foreign_of_isQuote
    {quote : Char}
    (isQuote : IsQuote quote) :
    Foreign quote := by
  rcases isQuote with rfl | rfl
  · refine ⟨⟨by decide, by decide, by decide, fun op => ?_, by decide⟩, by decide, by decide⟩
    cases op <;> decide
  · refine ⟨⟨by decide, by decide, by decide, fun op => ?_, by decide⟩, by decide, by decide⟩
    cases op <;> decide

section BeforeQuote

variable {q : Char} {tail : List Char}

theorem skipGap_append
    (foreign : Foreign q)
    {spaced spacedAfter : Bool}
    {cs rest : List Char}
    (passed : skipGap spaced (cs ++ q :: tail) = .ok (rest ++ q :: tail, spacedAfter))
    (tail' : List Char) :
    skipGap spaced (cs ++ q :: tail') = .ok (rest ++ q :: tail', spacedAfter) := by
  have notSlash : q ≠ '/' := by
    rintro rfl
    exact foreign.notSign .slash (by decide)
  induction size : cs.length using Nat.strong_induction_on generalizing cs spaced with
  | _ size inductionHypothesis =>
    subst size
    cases cs with
    | nil =>
      rw [List.nil_append, skipGap_cons, if_neg (by simp [foreign.notBlank]), if_neg (by simp [notSlash])]
        at passed ⊢
      obtain ⟨same, rfl⟩ := Prod.mk.inj (Except.ok.inj passed)
      obtain rfl : rest = [] := List.append_cancel_right same.symm
      rfl
    | cons c following =>
      rw [List.cons_append, skipGap_cons] at passed ⊢
      have sameHead : (following ++ q :: tail).head? = (following ++ q :: tail').head? := by
        cases following <;> rfl
      rw [← sameHead]
      split
      · rename_i blank
        rw [if_pos blank] at passed
        exact inductionHypothesis _ (by simp) passed rfl
      · rename_i notBlank
        rw [if_neg notBlank] at passed
        split
        · rename_i opens
          rw [if_pos opens] at passed
          split at passed
          · rename_i remaining closed
            obtain ⟨gap, split⟩ := skipGap_suffix passed
            rw [← List.append_assoc] at split
            subst split
            have shorter := afterComment?_length_lt closed
            have fewer : (gap ++ rest).length < (c :: following).length := by
              simp only [List.length_append, List.length_cons] at shorter ⊢
              omega
            have closed' := afterComment?_append closed (q :: tail')
            split
            · rename_i remaining' same
              cases closed'.symm.trans same
              exact inductionHypothesis _ fewer passed rfl
            · rename_i unclosed
              cases closed'.symm.trans unclosed
          · cases passed
        · rename_i noComment
          rw [if_neg noComment] at passed
          obtain ⟨same, rfl⟩ := Prod.mk.inj (Except.ok.inj passed)
          have alone : c :: following = rest := List.append_cancel_right same
          rw [← alone, List.cons_append]

end BeforeQuote

/-! ## The tokens around a literal -/

/-- The tokens of a text lead to `target`: it is what is left before one of them. -/
inductive Leads (target : List Char) : List Char → Prop
  | here {text : List Char} {spaced : Bool}
      (passed : skipGap false text = .ok (target, spaced)) :
      Leads target text
  | next {text following rest : List Char} {c : Char} {spaced : Bool} {kind : Kind}
      (passed : skipGap false text = .ok (c :: following, spaced))
      (taken : lexeme c following = .ok (kind, rest))
      (later : Leads target rest) :
      Leads target text

theorem skipGap_error_suffix
    {spaced : Bool}
    {cs comment : List Char}
    (failed : skipGap spaced cs = .error comment) :
    comment <:+ cs := by
  fun_induction skipGap spaced cs with
  | case1 => simp at failed
  | case2 _ c rest _ inductionHypothesis =>
    exact (inductionHypothesis failed).trans (List.suffix_cons c rest)
  | case3 _ c rest _ _ after closed inductionHypothesis =>
    exact ((inductionHypothesis failed).trans (afterComment?_suffix closed)).trans
      (List.suffix_cons c rest)
  | case4 =>
    cases failed
    exact List.suffix_refl _
  | case5 => simp at failed

theorem Leads.isEnd
    {target text : List Char}
    (leads : Leads target text) :
    target <:+ text := by
  induction leads with
  | here passed => exact skipGap_suffix passed
  | next passed taken _ inductionHypothesis =>
    exact (inductionHypothesis.trans (lexeme_shows (skipGap_head passed) taken).isEnd).trans
      (skipGap_suffix passed)

end Token

/-- The start of a fragment may be moved to what is left of it. -/
theorem tokenizeFrom_add
    (line offset skipped : Nat)
    {total : Nat}
    {cs : List Char}
    (fits : width cs ≤ total) :
    tokenizeFrom line offset (skipped + total) cs =
      tokenizeFrom line (offset + skipped) total cs := by
  have placed : ∀ rest : List Char, rest <:+ cs →
      offset + (skipped + total - width rest) = offset + skipped + (total - width rest) := by
    intro rest isEnd
    have narrow := width_le_of_suffix isEnd
    omega
  rw [tokenizeFrom, tokenizeFrom]
  split
  · rename_i comment failed
    simp only [placed comment (Token.skipGap_error_suffix failed)]
  · rfl
  · rename_i c following spaced passed
    have isEnd := Token.skipGap_suffix passed
    simp only [placed _ isEnd]
    split
    · rfl
    · rename_i kind rest taken
      have restEnd := Token.rest_suffix passed taken
      have fewer := Token.rest_length_lt passed taken
      have narrow := width_le_of_suffix restEnd
      rw [tokenizeFrom_add line offset skipped (Nat.le_trans narrow fits)]
termination_by cs.length

/-- The tokens of a fragment: its first one, and those of what is left. -/
theorem tokenize_cons
    {text following rest : List Char}
    {c : Char}
    {spaced : Bool}
    {kind : Token.Kind}
    (passed : Token.skipGap false text = .ok (c :: following, spaced))
    (taken : Token.lexeme c following = .ok (kind, rest))
    (line offset : Nat) :
    tokenize text line offset =
      (tokenize rest line (offset + (width text - width rest))).map
        (⟨kind, ⟨line, offset + (width text - width (c :: following)) + 1⟩, spaced⟩ :: ·) := by
  have restEnd := Token.rest_suffix passed taken
  have narrow := width_le_of_suffix restEnd
  have moved := tokenizeFrom_add line offset (width text - width rest) (Nat.le_refl (width rest))
  rw [Nat.sub_add_cancel narrow] at moved
  rw [tokenize, tokenize, ← moved, tokenizeFrom_of_token line offset (width text) passed taken]

theorem Matching.Outcome.map
    {M : Matching}
    {α β α' β' : Type}
    {related : α → β → Prop}
    {related' : α' → β' → Prop}
    {left : Except ParseError α}
    {right : Except ParseError β}
    (outcome : M.Outcome related left right)
    {f : α → α'}
    {g : β → β'}
    (results : ∀ first second, related first second → related' (f first) (g second)) :
    M.Outcome related' (left.map f) (right.map g) := by
  cases outcome with
  | ok first => exact .ok (results _ _ first)
  | error errors => exact .error errors

/-- What corresponds when one literal stands in place of another: everything but columns and the
value of the literal. -/
def Matching.exchanged (value value' : List Char) : Matching where
  pos left right := left.line = right.line
  string left right :=
    left = right ∨ left = String.ofList value ∧ right = String.ofList value'
  word _ _ := True
  literal _ _ := True
  pos_unknown := rfl
  pos_column lefts _ := lefts
  string_refl _ := .inl rfl
  word_of_literal _ := trivial
  word_member _ _ _ := trivial
  word_selector _ := trivial

instance (value value' : List Char) : (Matching.exchanged value value').KeepsLines where
  line_eq_iff := by
    intro left left' right right' lefts rights
    rw [lefts, rights]

theorem Matching.exchanged_stretch
    (value value' text : List Char)
    (line offset offset' : Nat) :
    (Matching.exchanged value value').Stretch text line offset line offset' :=
  ⟨fun _ => rfl, fun _ _ _ _ _ => trivial, fun _ _ _ _ _ => trivial⟩

theorem Matching.exchanged_kind
    (value value' : List Char)
    (pos : SourcePos)
    (kind : Token.Kind) :
    kind.Matches (Matching.exchanged value value') pos kind := by
  cases kind with
  | string value => exact .inl rfl
  | hash text => exact ⟨rfl, trivial⟩
  | _ => exact ⟨rfl, fun _ _ => trivial⟩

/-- A quote takes the literal that it opens. -/
theorem lexeme_literal
    {quote : Char}
    (isQuote : IsQuote quote)
    {body value : List Char}
    (reads : IsLiteral quote body value)
    (after : List Char) :
    Token.lexeme quote (body ++ quote :: after) = .ok (.string (String.ofList value), after) := by
  have closed : Token.stringBody? quote (body ++ [quote] ++ after) = some (value, after) := by
    have alone : Token.stringBody? quote (body ++ [quote] ++ []) = some (value, [] ++ []) := by
      rw [List.append_nil]
      exact reads
    exact Token.stringBody?_append alone after
  rw [List.append_assoc, List.singleton_append] at closed
  have noMark := (Token.foreign_of_isQuote isQuote).notPunctuation
  have isSign : (quote == '"' || quote == '\'') = true := by simpa using isQuote
  simp only [Token.lexeme, noMark, isSign, if_true, Token.takeString, closed]

/-- Texts that differ in one literal have corresponding tokens. -/
theorem tokenize_literal_matches
    {quote : Char}
    (isQuote : IsQuote quote)
    {body body' value value' before after : List Char}
    (reads : IsLiteral quote body value)
    (reads' : IsLiteral quote body' value')
    (leads : Token.Leads (quote :: (body ++ quote :: after)) (before ++ quote :: (body ++ quote :: after)))
    (line offset : Nat) :
    (Matching.exchanged value value').Outcome (Matching.exchanged value value').Tokens
      (tokenize (before ++ quote :: (body ++ quote :: after)) line offset)
      (tokenize (before ++ quote :: (body' ++ quote :: after)) line offset) := by
  have foreign := Token.foreign_of_isQuote isQuote
  generalize whole : before ++ quote :: (body ++ quote :: after) = text at leads ⊢
  induction leads generalizing before offset with
  | @here text spaced passed =>
    subst whole
    have starts : Token.skipGap false (before ++ quote :: (body ++ quote :: after)) =
        .ok ([] ++ quote :: (body ++ quote :: after), spaced) := passed
    have starts' := Token.skipGap_append foreign starts (body' ++ quote :: after)
    rw [tokenize_cons starts (lexeme_literal isQuote reads after),
      tokenize_cons starts' (lexeme_literal isQuote reads' after)]
    refine (tokenize_matches (Matching.exchanged_stretch value value' after line _ _)).map ?_
    intro tokens tokens' others
    exact .cons ⟨.inr ⟨rfl, rfl⟩, rfl, rfl⟩ others
  | @next text following rest c spaced kind passed taken later inductionHypothesis =>
    subst whole
    -- What is left before and after the token both end with the literal.
    have shorter := Token.lexeme_length_le taken
    have isEnd := later.isEnd.trans (Token.lexeme_shows (Token.skipGap_head passed) taken).isEnd
    obtain ⟨word, followingSplit⟩ : quote :: (body ++ quote :: after) <:+ following := by
      rcases List.suffix_cons_iff.mp isEnd with all | inner
      · have atMost := later.isEnd.length_le
        rw [all, List.length_cons] at atMost
        omega
      · exact inner
    obtain ⟨remaining, restSplit⟩ := later.isEnd
    subst restSplit followingSplit
    have starts : Token.skipGap false (before ++ quote :: (body ++ quote :: after)) =
        .ok (c :: word ++ quote :: (body ++ quote :: after), spaced) := passed
    have starts' := Token.skipGap_append foreign starts (body' ++ quote :: after)
    have stops := foreign.toStops
    have taken' := Token.lexeme_append (Token.stopping_cons stops _)
      (Token.stopping_cons stops (body' ++ quote :: after)) taken
    rw [tokenize_cons starts taken, tokenize_cons starts' taken']
    have sameOffset : width (before ++ quote :: (body ++ quote :: after)) -
          width (remaining ++ quote :: (body ++ quote :: after)) =
        width (before ++ quote :: (body' ++ quote :: after)) -
          width (remaining ++ quote :: (body' ++ quote :: after)) := by
      simp only [width_append]
      omega
    rw [← sameOffset]
    refine (inductionHypothesis _ rfl).map ?_
    intro tokens tokens' others
    exact .cons ⟨Matching.exchanged_kind value value' _ kind, rfl, rfl⟩ others

end StyleSense
