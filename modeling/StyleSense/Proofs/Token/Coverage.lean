import StyleSense.Proofs.Token.Written

/-!
Contract: the tokens of a text and the gaps between them make up the text.

Owns:
- `Token.IsComment` and `Token.IsGap`, white space and closed comments;
- `Token.Kind.Spells`, how a token of each kind is spelled;
- `Token.Slice`, a token with the gap before it and its own text;
- `tokenize_covers`: a text is cut into slices and one last gap, each token is spelled by its text,
  stands where its text does and knows whether there is a gap before it.

Does not own: the tokens of texts that are known (`StyleSense.Proofs.Token.Written`).
-/

namespace StyleSense

open Text

namespace Token

/-! ## Gaps -/

/-- A comment: it starts with `/*`, and the one `*/` in it stands at its end. -/
structure IsComment (text : List Char) : Prop where
  opens : ['/', '*'] <+: text
  closes : ['*', '/'] <:+ text
  once : ∀ before after, text = before ++ '*' :: '/' :: after → after = []

/-- White space and comments, as many as there are. -/
inductive IsGap : List Char → Prop where
  | nil : IsGap []
  | blank {c : Char} {rest : List Char} (blank : isBlank c = true) (later : IsGap rest) :
      IsGap (c :: rest)
  | comment {text rest : List Char} (isComment : IsComment text) (later : IsGap rest) :
      IsGap (text ++ rest)

/-- What stands before the end of a comment, and that it is the first end. -/
theorem exists_of_afterComment?
    {cs rest : List Char}
    (closed : afterComment? cs = some rest) :
    ∃ inside, cs = inside ++ '*' :: '/' :: rest ∧
      ∀ before after, inside ++ ['*', '/'] = before ++ '*' :: '/' :: after → after = [] := by
  fun_induction afterComment? cs with
  | case1 => cases closed
  | case2 =>
    cases closed
    refine ⟨[], rfl, fun before after same => ?_⟩
    have length := congrArg List.length same
    simp only [List.nil_append, List.length_append, List.length_cons, List.length_nil] at length
    exact List.length_eq_zero_iff.mp (by omega)
  | case3 c following notEnd inductionHypothesis =>
    obtain ⟨inside, rfl, first⟩ := inductionHypothesis closed
    refine ⟨c :: inside, rfl, fun before after same => ?_⟩
    cases before with
    | nil =>
      -- the end would stand at the very front
      obtain ⟨isStar, later⟩ := List.cons.inj same
      exfalso
      cases inside with
      | nil => simp at later
      | cons d inside =>
        obtain ⟨isSlash, -⟩ := List.cons.inj later
        exact notEnd _ isStar (by rw [isSlash]; rfl)
    | cons d before => exact first before after (List.cons.inj same).2

/-- A slash in front of an asterisk and what goes up to the next `*/` are a comment. -/
theorem isComment_of_afterComment?
    {cs rest : List Char}
    (opens : cs.head? = some '*')
    (closed : afterComment? cs = some rest) :
    ∃ text, '/' :: cs = text ++ rest ∧ text ≠ [] ∧ IsComment text := by
  obtain ⟨inside, rfl, first⟩ := exists_of_afterComment? closed
  refine ⟨'/' :: (inside ++ ['*', '/']), by simp, List.cons_ne_nil _ _, ?_, ?_, ?_⟩
  · rw [List.cons_prefix_cons]
    refine ⟨rfl, ?_⟩
    cases inside with
    | nil => exact ⟨['/'], rfl⟩
    | cons d inside =>
      cases opens
      exact ⟨inside ++ ['*', '/'], rfl⟩
  · exact ⟨'/' :: inside, rfl⟩
  · intro before after same
    cases before with
    | nil => cases same
    | cons d before => exact first before after (List.cons.inj same).2

/-- What is passed over is a gap, and the flag says whether it is empty. -/
theorem skipGap_isGap
    {spaced spacedAfter : Bool}
    {cs rest : List Char}
    (passed : skipGap spaced cs = .ok (rest, spacedAfter)) :
    ∃ gap, cs = gap ++ rest ∧ IsGap gap ∧ (spacedAfter = true ↔ spaced = true ∨ gap ≠ []) := by
  fun_induction skipGap spaced cs with
  | case1 =>
    cases passed
    exact ⟨[], rfl, .nil, by simp⟩
  | case2 _ c cs blank inductionHypothesis =>
    obtain ⟨gap, rfl, isGap, flag⟩ := inductionHypothesis passed
    exact ⟨c :: gap, rfl, .blank blank isGap, by simpa using flag⟩
  | case3 _ c cs _ isOpening after closed inductionHypothesis =>
    simp only [Bool.and_eq_true, beq_iff_eq] at isOpening
    obtain ⟨rfl, opens⟩ := isOpening
    obtain ⟨text, whole, nonempty, isComment⟩ := isComment_of_afterComment? opens closed
    obtain ⟨gap, rfl, isGap, flag⟩ := inductionHypothesis passed
    refine ⟨text ++ gap, by rw [whole, List.append_assoc], .comment isComment isGap, ?_⟩
    simpa [nonempty] using flag
  | case4 => cases passed
  | case5 =>
    cases passed
    exact ⟨[], rfl, .nil, by simp⟩

/-! ## Spelling -/

/-- The digits of a number: a numeral, or a point with a fraction after it. -/
def IsNumberText (text : List Char) : Prop :=
  IsNumeral text ∨ ∃ es, text = '.' :: es ∧ es ≠ [] ∧ ∀ d ∈ es, d.isDigit = true

/-- The characters `body` between two quotes have the given value. A backslash takes the next character
as it is. -/
inductive Escaped (quote : Char) : (body value : List Char) → Prop where
  | nil : Escaped quote [] []
  | escape {c : Char} {body value : List Char} (later : Escaped quote body value) :
      Escaped quote ('\\' :: c :: body) (c :: value)
  | plain {c : Char} {body value : List Char} (notEscape : c ≠ '\\') (notQuote : c ≠ quote)
      (later : Escaped quote body value) :
      Escaped quote (c :: body) (c :: value)

/-- How a token is spelled. -/
def Kind.Spells (text : List Char) : Kind → Prop
  | .name word => text = word.toList ∧ IsNameText text
  | .hash word => text = word.toList ∧ IsHashText text
  | .number value suffix => ∃ digits, text = digits ++ (suffix.getD "").toList ∧
      IsNumberText digits ∧ numeralValue? digits = some value ∧ IsSuffix suffix
  | .string value => ∃ quote body, (quote = '"' ∨ quote = '\'') ∧
      text = quote :: (body ++ [quote]) ∧ Escaped quote body value.toList
  | .url body => ∃ inside, text = "url(".toList ++ (inside ++ [')']) ∧ ')' ∉ inside ∧
      body = urlBody inside
  | .op sign => text = sign.spelling.toList
  | .opening bracket => text = [bracket.opening]
  | .closing bracket => text = [bracket.closing]
  | .comma => text = [',']

theorem Kind.Spells.ne_nil
    {text : List Char}
    {kind : Kind}
    (spells : kind.Spells text) :
    text ≠ [] := by
  rintro rfl
  cases kind with
  | name word => exact spells.2
  | hash word =>
    obtain ⟨cs, isHash, -⟩ := spells.2
    cases isHash
  | number value suffix =>
    obtain ⟨digits, whole, isNumber, -⟩ := spells
    obtain ⟨rfl, -⟩ := List.append_eq_nil_iff.mp whole.symm
    rcases isNumber with isNumeral | ⟨es, isPoint, -⟩
    · generalize isNothing : ([] : List Char) = text at isNumeral
      cases isNumeral with
      | whole nonempty _ => exact nonempty isNothing.symm
      | fraction nonempty _ _ _ =>
        exact absurd isNothing (List.append_ne_nil_of_left_ne_nil nonempty _).symm
    · cases isPoint
  | string value =>
    obtain ⟨quote, body, -, whole, -⟩ := spells
    cases whole
  | url body =>
    obtain ⟨inside, whole, -⟩ := spells
    cases whole
  | op sign => exact Operator.spelling_ne_nil sign spells.symm
  | opening bracket => cases spells
  | closing bracket => cases spells
  | comma => cases spells

/-! ## What a token takes -/

/-- The text of a token that is taken off `cs` and leaves `rest`. -/
def Covers (kind : Kind) (rest cs : List Char) : Prop :=
  ∃ text, cs = text ++ rest ∧ kind.Spells text

theorem stringBody?_escaped
    {quote : Char}
    {cs value rest : List Char}
    (closed : stringBody? quote cs = some (value, rest)) :
    ∃ body, cs = body ++ quote :: rest ∧ Escaped quote body value := by
  fun_induction stringBody? quote cs generalizing value with
  | case1 => cases closed
  | case2 => cases closed
  | case3 c following inductionHypothesis =>
    simp only [Option.map_eq_some_iff, Prod.mk.injEq, Prod.exists] at closed
    obtain ⟨_, _, inner, rfl, rfl⟩ := closed
    obtain ⟨body, rfl, escaped⟩ := inductionHypothesis inner
    exact ⟨'\\' :: c :: body, rfl, .escape escaped⟩
  | case4 following =>
    cases closed
    exact ⟨[], rfl, .nil⟩
  | case5 c following noEscape notEscape notQuote inductionHypothesis =>
    simp only [Option.map_eq_some_iff, Prod.mk.injEq, Prod.exists] at closed
    obtain ⟨_, rest', inner, rfl, rfl⟩ := closed
    obtain ⟨body, rfl, escaped⟩ := inductionHypothesis inner
    refine ⟨c :: body, rfl, .plain (fun isEscape => ?_) notQuote escaped⟩
    -- a backslash has a character after it, the closing quote at the latest
    obtain ⟨d, others, isNext⟩ := List.exists_cons_of_ne_nil
      (List.append_ne_nil_of_right_ne_nil body (List.cons_ne_nil quote rest'))
    exact notEscape d others isEscape isNext

theorem numeral_join
    (lead : Char)
    (cs : List Char) :
    (numeral lead cs).1 ++ (numeral lead cs).2 = lead :: cs := by
  have whole := List.takeWhile_append_dropWhile (p := Char.isDigit) (l := cs)
  unfold numeral
  split
  · rename_i d rest split
    rw [split] at whole
    split
    · simp only [List.append_assoc, List.cons_append, List.takeWhile_append_dropWhile, whole]
    · rw [List.cons_append, whole]
  · rw [List.cons_append, whole]

theorem suffix_join
    (cs : List Char) :
    ((suffix cs).1.getD "").toList ++ (suffix cs).2 = cs := by
  unfold suffix
  split
  · simp
  · split
    · rw [Option.getD_some, String.toList_ofList, List.takeWhile_append_dropWhile]
    · rfl
  · rfl

/-- The digits that start with a digit, or with a point in front of one, are those of a number when they
denote one. -/
theorem numeral_isNumberText
    {lead : Char}
    {cs : List Char}
    (starts : lead.isDigit = true ∨ lead = '.' ∧ cs.head?.any Char.isDigit = true)
    {value : Float}
    (denotes : numeralValue? (numeral lead cs).1 = some value) :
    IsNumberText (numeral lead cs).1 := by
  have digits : ∀ d ∈ cs.takeWhile Char.isDigit, d.isDigit = true :=
    fun d isIn => List.mem_takeWhile_imp isIn
  have alone : IsNumberText (lead :: cs.takeWhile Char.isDigit) := by
    rcases starts with isDigit | ⟨rfl, next⟩
    · exact .inl (.whole (List.cons_ne_nil _ _) (List.forall_mem_cons.mpr ⟨isDigit, digits⟩))
    · refine .inr ⟨_, rfl, ?_, digits⟩
      cases cs with
      | nil => cases next
      | cons d rest =>
        rw [List.takeWhile_cons_of_pos (by exact next)]
        exact List.cons_ne_nil _ _
  unfold numeral at denotes ⊢
  split at denotes
  · rename_i d rest _
    by_cases isDigit : d.isDigit = true
    · rw [if_pos isDigit] at denotes ⊢
      have fraction : ∀ e ∈ d :: rest.takeWhile Char.isDigit, e.isDigit = true :=
        List.forall_mem_cons.mpr ⟨isDigit, fun e isIn => List.mem_takeWhile_imp isIn⟩
      rcases starts with isDigit | ⟨rfl, -⟩
      · exact .inl (.fraction (List.cons_ne_nil _ _) (List.forall_mem_cons.mpr ⟨isDigit, digits⟩)
          (List.cons_ne_nil _ _) fraction)
      · -- two points denote nothing
        simp [numeralValue?, isDigit_point] at denotes
    · rw [if_neg isDigit]
      exact alone
  · exact alone

/-- A token is spelled by what it takes off a text. -/
theorem lexeme_covers
    {c : Char}
    {cs rest : List Char}
    {kind : Kind}
    (taken : lexeme c cs = .ok (kind, rest)) :
    Covers kind rest (c :: cs) := by
  have named : c :: cs = (c :: cs.takeWhile isNameChar) ++ cs.dropWhile isNameChar := by
    rw [List.cons_append, List.takeWhile_append_dropWhile]
  have nameChars : ∀ d ∈ cs.takeWhile isNameChar, isNameChar d = true :=
    fun d isIn => List.mem_takeWhile_imp isIn
  cases lexeme_takes taken with
  | mark isMark =>
    refine ⟨[c], rfl, ?_⟩
    unfold punctuation? at isMark
    split at isMark <;> cases isMark <;> rfl
  | string isQuote closed =>
    obtain ⟨body, rfl, escaped⟩ := stringBody?_escaped closed
    refine ⟨c :: (body ++ [c]), by simp, c, body, isQuote, rfl, ?_⟩
    rwa [String.toList_ofList]
  | hash isHash =>
    subst isHash
    exact ⟨_, named, String.toList_ofList.symm, _, rfl, nameChars⟩
  | name starts => exact ⟨_, named, String.toList_ofList.symm, starts, nameChars⟩
  | number starts denotes =>
    refine ⟨_, ?_, (numeral c cs).1, rfl, numeral_isNumberText starts denotes, denotes,
      suffix_isSuffix _⟩
    simp only [List.append_assoc, suffix_join, numeral_join]
  | @url inside _ whole unclosed =>
    exact ⟨['u', 'r', 'l', '('] ++ inside ++ [')'], by simp [whole], inside, by simp, unclosed, rfl⟩
  | operator whole => exact ⟨_, whole, rfl⟩

/-! ## Slices -/

/-- A token with the gap before it and its own text. -/
structure Slice where
  gap : List Char
  text : List Char
  token : Token

namespace Slice

/-- The text of some slices. -/
def joined (slices : List Slice) : List Char :=
  slices.flatMap fun slice => slice.gap ++ slice.text

theorem joined_cons
    (slice : Slice)
    (slices : List Slice) :
    joined (slice :: slices) = slice.gap ++ slice.text ++ joined slices :=
  List.flatMap_cons

/-- The slice stands on `line` from byte `offset` on. -/
structure Fits (line offset : Nat) (slice : Slice) : Prop where
  isGap : IsGap slice.gap
  nonempty : slice.text ≠ []
  spells : slice.token.kind.Spells slice.text
  pos : slice.token.pos = ⟨line, offset + width slice.gap + 1⟩
  spaced : slice.token.spaced = true ↔ slice.gap ≠ []

end Slice

end Token

open Token

/-- The text `cs` from byte `offset` of `line` on is cut into slices with these tokens and a last gap. -/
def CutInto (line offset : Nat) (cs : List Char) (tokens : List Token) : Prop :=
  ∃ slices last, cs = Slice.joined slices ++ last ∧ IsGap last ∧ slices.map Slice.token = tokens ∧
    ∀ before slice after, slices = before ++ slice :: after →
      slice.Fits line (offset + width (Slice.joined before))

theorem CutInto.nil
    {line offset : Nat}
    {gap : List Char}
    (isGap : IsGap gap) :
    CutInto line offset gap [] := by
  refine ⟨[], gap, rfl, isGap, rfl, fun before slice after split => ?_⟩
  simp at split

/-- A slice in front of a text. -/
theorem CutInto.cons
    {line offset : Nat}
    {slice : Slice}
    (fits : slice.Fits line offset)
    {cs : List Char}
    {tokens : List Token}
    (later : CutInto line (offset + width (slice.gap ++ slice.text)) cs tokens) :
    CutInto line offset (slice.gap ++ slice.text ++ cs) (slice.token :: tokens) := by
  obtain ⟨slices, last, rfl, isGap, rfl, all⟩ := later
  refine ⟨slice :: slices, last, ?_, isGap, rfl, fun before other after split => ?_⟩
  · rw [Slice.joined_cons]
    simp only [List.append_assoc]
  · cases before with
    | nil =>
      obtain ⟨rfl, -⟩ := List.cons.inj split
      exact fits
    | cons first before =>
      obtain ⟨rfl, inside⟩ := List.cons.inj split
      have inner := all before other after inside
      rwa [Nat.add_assoc, ← width_append, ← Slice.joined_cons] at inner

theorem Tokenizes.cutInto
    {line offset : Nat}
    {text cs : List Char}
    {tokens : List Token}
    (tokenizes : Tokenizes line offset (width text) cs tokens)
    {consumed : List Char}
    (split : text = consumed ++ cs) :
    CutInto line (offset + width consumed) cs tokens := by
  induction tokenizes generalizing consumed with
  | nil passed =>
    obtain ⟨gap, rfl, isGap, -⟩ := skipGap_isGap passed
    rw [List.append_nil]
    exact .nil isGap
  | @cons cs following rest c spaced kind others passed taken _ inductionHypothesis =>
    obtain ⟨gap, gapSplit, isGap, flag⟩ := skipGap_isGap passed
    obtain ⟨word, wordSplit, spells⟩ := lexeme_covers taken
    have remaining : text = (consumed ++ (gap ++ word)) ++ rest := by
      rw [split, gapSplit, wordSplit]
      simp
    have inner := inductionHypothesis remaining
    have start : offset + (width text - width (c :: following)) + 1 =
        offset + width consumed + width gap + 1 := by
      rw [split, gapSplit, ← List.append_assoc, width_append, Nat.add_sub_cancel, width_append]
      omega
    rw [width_append, ← Nat.add_assoc] at inner
    let pos : SourcePos := ⟨line, offset + (width text - width (c :: following)) + 1⟩
    let slice : Slice := ⟨gap, word, kind, pos, spaced⟩
    have fits : slice.Fits line (offset + width consumed) :=
      ⟨isGap, spells.ne_nil, spells, congrArg (SourcePos.mk line) start, by simpa using flag⟩
    have whole : cs = slice.gap ++ slice.text ++ rest := by
      rw [gapSplit, wordSplit, ← List.append_assoc]
    rw [whole]
    exact .cons fits inner

/-- The lexer drops nothing. A text that it accepts is cut into slices and one last gap: each slice is a
gap, which may be empty, and the text of one token after it, which is not. A token is spelled by its
text, stands where that starts, and is marked as spaced just when the gap before it is not empty. -/
theorem tokenize_covers
    {text : List Char}
    {line offset : Nat}
    {tokens : List Token}
    (read : tokenize text line offset = .ok tokens) :
    ∃ slices last, text = Slice.joined slices ++ last ∧ IsGap last ∧
      slices.map Slice.token = tokens ∧
      ∀ before slice after, slices = before ++ slice :: after →
        slice.Fits line (offset + width (Slice.joined before)) := by
  have cut := (tokenizeFrom_tokenizes read).cutInto (List.nil_append text).symm
  exact cut

/-- Comments of both shapes, a literal with an escaped quote, a body of `url()` between quotes and a
fraction without a whole part. -/
theorem tokenize_covers_closely :
    let text := "/*/.5px/**/\"é\\\"\"url( 'a' ) ".toList
    ∃ tokens, tokenize text 3 4 = .ok tokens ∧
      tokens.map (fun token => (token.pos, token.spaced)) =
        [(⟨3, 8⟩, true), (⟨3, 16⟩, true), (⟨3, 22⟩, false)] ∧
      ∃ slices last, text = Slice.joined slices ++ last ∧ IsGap last ∧
        slices.map Slice.token = tokens ∧
        ∀ before slice after, slices = before ++ slice :: after →
          slice.Fits 3 (4 + width (Slice.joined before)) := by
  intro text
  obtain ⟨tokens, read, places⟩ : ∃ tokens, tokenize text 3 4 = .ok tokens ∧
      tokens.map (fun token => (token.pos, token.spaced)) =
        [(⟨3, 8⟩, true), (⟨3, 16⟩, true), (⟨3, 22⟩, false)] := by
    refine ⟨[⟨.number 0.5 (some "px"), ⟨3, 8⟩, true⟩, ⟨.string "é\"", ⟨3, 16⟩, true⟩,
      ⟨.url "a", ⟨3, 22⟩, false⟩], ?_, rfl⟩
    decide +kernel
  exact ⟨tokens, read, places, tokenize_covers read⟩

end StyleSense
