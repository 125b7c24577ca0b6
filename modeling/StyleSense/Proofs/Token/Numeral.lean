import StyleSense.Proofs.Token.Spelling

/-!
Contract: texts that are cut into known tokens.

Owns:
- `IsNumeral`, digits with at most one point between them, and the number token that such a text is
  in front of a sign that ends it;
- `Lexes`, a text with the kinds of its tokens, and `tokenizeFrom_of_lexes`, by which the lexer finds
  them;
- `WrittenNumber`, a number with a minus before it or not and a percent sign after it or not, and
  `Lexes.number`, by which it is cut into its tokens.

Does not own: how numbers are written (`StyleSense.Proofs.Color.Presentation`).
-/

namespace StyleSense

open Text

/-! ## Numbers -/

/-- Digits, with at most one point between them. -/
inductive IsNumeral : List Char → Prop where
  | whole {ds : List Char} (nonempty : ds ≠ []) (digits : ∀ d ∈ ds, d.isDigit = true) : IsNumeral ds
  | fraction {ds es : List Char} (nonempty : ds ≠ []) (digits : ∀ d ∈ ds, d.isDigit = true)
      (nonempty' : es ≠ []) (digits' : ∀ d ∈ es, d.isDigit = true) : IsNumeral (ds ++ '.' :: es)

/-- Decide whether a text is a numeral. -/
def isNumeral (cs : List Char) : Bool :=
  match cs.takeWhile Char.isDigit, cs.dropWhile Char.isDigit with
  | [], _ => false
  | _ :: _, [] => true
  | _ :: _, sign :: fraction => sign == '.' && !fraction.isEmpty && fraction.all Char.isDigit

theorem isNumeral_sound
    {cs : List Char}
    (accepted : isNumeral cs = true) :
    IsNumeral cs := by
  have whole := List.takeWhile_append_dropWhile (p := Char.isDigit) (l := cs)
  have digits : ∀ d ∈ cs.takeWhile Char.isDigit, d.isDigit = true := fun d isIn =>
    List.mem_takeWhile_imp isIn
  unfold isNumeral at accepted
  split at accepted
  · cases accepted
  · rename_i first rest taken dropped
    rw [taken, dropped, List.append_nil] at whole
    rw [taken] at digits
    exact whole ▸ .whole (List.cons_ne_nil _ _) digits
  · rename_i first rest sign fraction taken dropped
    simp only [Bool.and_eq_true, beq_iff_eq, Bool.not_eq_true', List.isEmpty_eq_false_iff,
      List.all_eq_true] at accepted
    obtain ⟨⟨rfl, nonempty⟩, digits'⟩ := accepted
    rw [taken, dropped] at whole
    rw [taken] at digits
    exact whole ▸ .fraction (List.cons_ne_nil _ _) digits nonempty digits'

theorem isDigit_point : Char.isDigit '.' = false := by
  decide

section Runs

variable {ds after : List Char} (digits : ∀ d ∈ ds, d.isDigit = true)
  (stops : ∀ c ∈ after.head?, c.isDigit = false)

include digits stops

theorem takeWhile_digits : (ds ++ after).takeWhile Char.isDigit = ds := by
  rw [takeWhile_append_of_stop stops, List.takeWhile_eq_self_iff.mpr digits]

theorem dropWhile_digits : (ds ++ after).dropWhile Char.isDigit = after := by
  rw [dropWhile_append_of_stop stops, List.dropWhile_eq_nil_iff.mpr digits, List.nil_append]

end Runs

/-- The text that follows a number and does not go on with it. -/
def EndsNumber (rest : List Char) : Prop :=
  ∀ c ∈ rest.head?, c.isDigit = false ∧ c ≠ '.'

namespace Token

theorem numeral_of_isNumeral
    {lead : Char}
    {cs rest : List Char}
    (isNumber : IsNumeral (lead :: cs))
    (ends : EndsNumber rest) :
    numeral lead (cs ++ rest) = (lead :: cs, rest) := by
  have stops : ∀ c ∈ rest.head?, c.isDigit = false := fun c isHead => (ends c isHead).1
  generalize whole : lead :: cs = text at isNumber
  cases isNumber with
  | whole nonempty digits =>
    subst whole
    have inside : ∀ d ∈ cs, d.isDigit = true := fun d isIn => digits d (List.mem_cons_of_mem _ isIn)
    unfold numeral
    simp only [takeWhile_digits inside stops, dropWhile_digits inside stops]
    split
    · exact absurd rfl (ends '.' rfl).2
    · rfl
  | @fraction ds es nonempty digits nonempty' digits' =>
    obtain ⟨first, ds, rfl⟩ := List.exists_cons_of_ne_nil nonempty
    obtain ⟨d, es, rfl⟩ := List.exists_cons_of_ne_nil nonempty'
    rw [List.cons_append] at whole
    obtain ⟨rfl, rfl⟩ := List.cons.inj whole
    have inside : ∀ d ∈ ds, d.isDigit = true := fun d isIn => digits d (List.mem_cons_of_mem _ isIn)
    have inside' : ∀ d ∈ es, d.isDigit = true := fun d isIn => digits' d (List.mem_cons_of_mem _ isIn)
    have atPoint : ∀ c ∈ ('.' :: d :: (es ++ rest)).head?, c.isDigit = false := by
      rintro c ⟨⟩
      exact isDigit_point
    have shape : ds ++ '.' :: d :: es ++ rest = ds ++ '.' :: d :: (es ++ rest) := by simp
    unfold numeral
    simp only [shape, takeWhile_digits inside atPoint, dropWhile_digits inside atPoint,
      digits' d (List.mem_cons_self ..), if_true, takeWhile_digits inside' stops,
      dropWhile_digits inside' stops, List.cons_append]

theorem exists_numeralValue
    {text : List Char}
    (isNumber : IsNumeral text) :
    ∃ value, numeralValue? text = some value := by
  unfold numeralValue?
  cases isNumber with
  | whole nonempty digits =>
    simp only [List.dropWhile_eq_nil_iff.mpr digits]
    exact ⟨_, rfl⟩
  | @fraction ds es nonempty digits nonempty' digits' =>
    have atPoint : ∀ c ∈ ('.' :: es).head?, c.isDigit = false := by
      rintro c ⟨⟩
      exact isDigit_point
    simp only [dropWhile_digits digits atPoint, List.all_eq_true.mpr digits', if_true]
    exact ⟨_, rfl⟩

theorem takeNumber_of_isNumeral
    {lead : Char}
    {cs rest : List Char}
    (isNumber : IsNumeral (lead :: cs))
    (ends : EndsNumber rest)
    {value : Float}
    (denotes : numeralValue? (lead :: cs) = some value) :
    takeNumber lead (cs ++ rest) = .ok (.number value (suffix rest).1, (suffix rest).2) := by
  simp only [takeNumber, numeral_of_isNumeral isNumber ends, denotes]

/-- A digit is no sign, no blank and does not start a name. -/
structure Plain (c : Char) : Prop where
  punctuation : punctuation? c = none
  sign : c ∉ ['"', '\'', '#', '@', '!', '-', '/', '=']
  name : isNameStart c = false
  solid : isBlank c = false

theorem plain_of_isDigit
    {c : Char}
    (isDigit : c.isDigit = true) :
    Plain c := by
  have each : ∀ value ∈ List.range 10, punctuation? (Char.ofNat (48 + value)) = none ∧
      Char.ofNat (48 + value) ∉ ['"', '\'', '#', '@', '!', '-', '/', '='] ∧
      isNameStart (Char.ofNat (48 + value)) = false ∧ isBlank (Char.ofNat (48 + value)) = false := by
    decide +kernel
  simp only [Char.isDigit, Bool.and_eq_true, decide_eq_true_eq] at isDigit
  have lower : 48 ≤ c.toNat := isDigit.1
  have upper : c.toNat ≤ 57 := isDigit.2
  have known := each (c.toNat - 48) (List.mem_range.mpr (by omega))
  rw [Nat.add_sub_cancel' lower, Char.ofNat_toNat] at known
  exact ⟨known.1, known.2.1, known.2.2.1, known.2.2.2⟩

/-- A digit starts a number. -/
theorem lexeme_digit
    {c : Char}
    (isDigit : c.isDigit = true)
    (cs : List Char) :
    lexeme c cs = takeNumber c cs := by
  obtain ⟨punctuation, sign, name, -⟩ := plain_of_isDigit isDigit
  simp only [List.mem_cons, List.not_mem_nil, or_false, not_or] at sign
  simp [lexeme, punctuation, sign, isDigit]

/-- A minus in front of a digit is a sign. -/
theorem lexeme_minus
    {c : Char}
    (isDigit : c.isDigit = true)
    (cs : List Char) :
    lexeme '-' (c :: cs) = .ok (.op .minus, c :: cs) := by
  obtain ⟨-, sign, name, -⟩ := plain_of_isDigit isDigit
  simp only [List.mem_cons, List.not_mem_nil, or_false, not_or] at sign
  have notName : isNameStart '-' = false := by decide
  have read : takeOperator '-' (c :: cs) = .ok (.op .minus, c :: cs) := rfl
  simp [lexeme, punctuation?, sign, name, notName, read]

end Token

/-! ## Texts with their tokens -/

/-- The kinds of some tokens, and whether a blank stands before each. -/
def kindsOf (tokens : List Token) : List (Token.Kind × Bool) :=
  tokens.map fun token => (token.kind, token.spaced)

/-- One blank or none. -/
def blankIf (spaced : Bool) : List Char :=
  if spaced then [' '] else []

/-- The text is cut into tokens of these kinds. The flag says whether a blank stands before one. -/
inductive Lexes : List Char → List (Token.Kind × Bool) → Prop where
  | done : Lexes [] []
  | token {c : Char} {cs rest : List Char} {kind : Token.Kind} {kinds : List (Token.Kind × Bool)}
      (spaced : Bool)
      (solid : isBlank c = false)
      (noComment : (c == '/' && cs.head? == some '*') = false)
      (taken : Token.lexeme c cs = .ok (kind, rest))
      (later : Lexes rest kinds) :
      Lexes (blankIf spaced ++ c :: cs) ((kind, spaced) :: kinds)

theorem skipGap_blankIf
    (spaced : Bool)
    {c : Char}
    {cs : List Char}
    (solid : isBlank c = false)
    (noComment : (c == '/' && cs.head? == some '*') = false) :
    Token.skipGap false (blankIf spaced ++ c :: cs) = .ok (c :: cs, spaced) := by
  have stops : ∀ flag, Token.skipGap flag (c :: cs) = .ok (c :: cs, flag) := by
    intro flag
    rw [Token.skipGap_cons, if_neg (by simp [solid]), if_neg (by simp [noComment])]
  cases spaced with
  | false => exact stops false
  | true =>
    have blank : isBlank ' ' = true := by decide
    rw [blankIf, if_pos rfl, List.singleton_append, Token.skipGap_cons, if_pos blank]
    exact stops true

theorem trimStart_blankIf
    (spaced : Bool)
    {c : Char}
    (cs : List Char)
    (solid : isBlank c = false) :
    trimStart (blankIf spaced ++ c :: cs) = c :: cs := by
  have here : trimStart (c :: cs) = c :: cs := List.dropWhile_cons_of_neg (by simp [solid])
  cases spaced with
  | false => exact here
  | true => exact here

/-- The lexer finds the tokens, the first of them after the blanks at the start. -/
theorem tokenizeFrom_of_lexes
    {cs : List Char}
    {kinds : List (Token.Kind × Bool)}
    (lexes : Lexes cs kinds)
    (line offset total : Nat) :
    ∃ tokens, tokenizeFrom line offset total cs = .ok tokens ∧
      kindsOf tokens = kinds ∧
      ∀ token ∈ tokens.head?,
        token.pos = ⟨line, offset + (total - width (trimStart cs)) + 1⟩ := by
  induction lexes with
  | done =>
    exact ⟨[], tokenizeFrom_of_nothing line offset total (Token.skipGap_nil false), rfl, by simp⟩
  | @token c cs rest kind kinds spaced solid noComment taken later inductionHypothesis =>
    obtain ⟨tokens, read, listed, -⟩ := inductionHypothesis
    let first : Token := ⟨kind, ⟨line, offset + (total - width (c :: cs)) + 1⟩, spaced⟩
    refine ⟨first :: tokens, ?_, by simpa [kindsOf, first] using listed, ?_⟩
    · have passed := skipGap_blankIf spaced solid noComment
      rw [tokenizeFrom_of_token line offset total passed taken, read]
      rfl
    · rintro _ ⟨⟩
      rw [trimStart_blankIf spaced cs solid]

/-! ## Numbers as they are written -/

/-- A number in a text: digits with at most one point between them, a minus before them or not, and
a percent sign after them or not. -/
structure WrittenNumber where
  negative : Bool
  digits : List Char
  percent : Bool
  isNumeral : IsNumeral digits

namespace WrittenNumber

def text (number : WrittenNumber) : List Char :=
  (if number.negative then ['-'] else []) ++ number.digits ++
    (if number.percent then ['%'] else [])

/-- The value of the digits. -/
def magnitude (number : WrittenNumber) : Float :=
  (Token.numeralValue? number.digits).getD 0.0

def suffix (number : WrittenNumber) : Option String :=
  if number.percent then some "%" else none

/-- The kinds of its tokens, the first of them after a blank or not. -/
def kinds (number : WrittenNumber) (spaced : Bool) : List (Token.Kind × Bool) :=
  if number.negative then [(.op .minus, spaced), (.number number.magnitude number.suffix, false)]
  else [(.number number.magnitude number.suffix, spaced)]

theorem exists_lead (number : WrittenNumber) :
    ∃ lead cs, number.digits = lead :: cs ∧ lead.isDigit = true := by
  obtain ⟨negative, text, percent, isNumeral⟩ := number
  cases isNumeral with
  | whole nonempty digits =>
    obtain ⟨lead, cs, rfl⟩ := List.exists_cons_of_ne_nil nonempty
    exact ⟨lead, cs, rfl, digits lead (List.mem_cons_self ..)⟩
  | fraction nonempty digits nonempty' digits' =>
    obtain ⟨lead, cs, rfl⟩ := List.exists_cons_of_ne_nil nonempty
    exact ⟨lead, _, List.cons_append .., digits lead (List.mem_cons_self ..)⟩

end WrittenNumber

/-- The text that follows a number and its suffix. -/
def Delimited (rest : List Char) : Prop :=
  ∀ c ∈ rest.head?, c = ',' ∨ c = ')' ∨ c = ' '

theorem suffix_of_delimited
    {rest : List Char}
    (delimited : Delimited rest) :
    Token.suffix rest = (none, rest) := by
  cases rest with
  | nil => rfl
  | cons c rest =>
    rcases delimited c rfl with rfl | rfl | rfl <;> rfl

theorem endsNumber_of_delimited
    {rest : List Char}
    (delimited : Delimited rest) :
    EndsNumber rest := by
  intro c isHead
  rcases delimited c isHead with rfl | rfl | rfl <;> decide

/-- A number in front of a text that ends it. -/
theorem Lexes.number
    (number : WrittenNumber)
    (spaced : Bool)
    {rest : List Char}
    {kinds : List (Token.Kind × Bool)}
    (delimited : Delimited rest)
    (later : Lexes rest kinds) :
    Lexes (blankIf spaced ++ (number.text ++ rest)) (number.kinds spaced ++ kinds) := by
  obtain ⟨lead, cs, digits, isDigit⟩ := number.exists_lead
  obtain ⟨value, denotes⟩ := Token.exists_numeralValue number.isNumeral
  have magnitude : number.magnitude = value := by rw [WrittenNumber.magnitude, denotes]; rfl
  have plain := Token.plain_of_isDigit isDigit
  have notSlash : (lead == '/') = false := by
    have sign := plain.sign
    simp only [List.mem_cons, List.not_mem_nil, or_false, not_or] at sign
    simp [sign]
  -- the suffix and what follows it
  have afterDigits : ∀ after, EndsNumber after → Token.suffix after = (number.suffix, rest) →
      ∀ gap, Lexes (blankIf gap ++ lead :: (cs ++ after))
        ((.number number.magnitude number.suffix, gap) :: kinds) := by
    intro after ends suffix gap
    refine .token gap plain.solid (by simp [notSlash]) ?_ later
    rw [Token.lexeme_digit isDigit, Token.takeNumber_of_isNumeral (digits ▸ number.isNumeral) ends
      (digits ▸ denotes), suffix, magnitude]
  have unsigned : ∀ gap, Lexes
      (blankIf gap ++ (number.digits ++ (if number.percent then ['%'] else []) ++ rest))
      ((.number number.magnitude number.suffix, gap) :: kinds) := by
    intro gap
    rw [digits, List.append_assoc, List.cons_append]
    cases percent : number.percent with
    | false =>
      refine afterDigits rest (endsNumber_of_delimited delimited) ?_ gap
      rw [suffix_of_delimited delimited, WrittenNumber.suffix, percent]
      rfl
    | true =>
      refine afterDigits ('%' :: rest) ?_ ?_ gap
      · rintro c ⟨⟩
        decide
      · rw [WrittenNumber.suffix, percent]
        rfl
  unfold WrittenNumber.text WrittenNumber.kinds
  cases number.negative with
  | false => exact unsigned spaced
  | true =>
    have sign := @Lexes.token '-' (lead :: (cs ++ ((if number.percent then ['%'] else []) ++ rest)))
      _ _ _ spaced (by decide) (by simp) (Token.lexeme_minus isDigit _)
      (by simpa [digits, blankIf] using unsigned false)
    simpa [digits, blankIf] using sign

end StyleSense
