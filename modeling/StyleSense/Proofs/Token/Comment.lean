import StyleSense.Proofs.Line.Comment
import StyleSense.Proofs.Token.Cut

/-!
Contract: the lexer passes over block comments as over the blanks that stand for them.

Two scanners look for the end of a comment. The one that blanks comments out goes on behind both
characters of the opening `/*`; the lexer looks for `*/` from the opening on, so that for it `/*/` is a
comment of its own.

Owns:
- `opensPlainly`, the texts in which this makes no difference;
- `Uncommented`, a text and the same text with blanks for its comments, and what reading one token or
  one gap makes of such a pair: `Uncommented.lexeme` and `Uncommented.skipGap`;
- `tokenize_blankComments`: exactly in these texts the lexer finds what it finds without comments.

Does not own: which characters are blanked out (`StyleSense.Proofs.Line.Comment`).
-/

namespace StyleSense

open Text

namespace Token

/-! ## Comments that open plainly -/

/-- A comment with these characters after its `/*` does not open as `/*/`; or it does, but the next
thing after that is another `/*`, with which it goes on for both scanners. -/
def opensPlainlyBefore : List Char → Bool
  | '/' :: after => ['/', '*'].isPrefixOf (trimStart after)
  | _ => true

/-- Every comment of a text opens plainly. The flag says whether the text starts in a comment. -/
def opensPlainly : (inComment : Bool) → List Char → Bool
  | _, [] => true
  | true, '*' :: '/' :: cs => opensPlainly false cs
  | true, _ :: cs => opensPlainly true cs
  | false, '/' :: '*' :: cs => opensPlainlyBefore cs && opensPlainly true cs
  | false, _ :: cs => opensPlainly false cs

theorem opensPlainly_code_cons
    {c : Char}
    {cs : List Char}
    (noComment : c = '/' → cs.head? ≠ some '*') :
    opensPlainly false (c :: cs) = opensPlainly false cs := by
  rw [opensPlainly]
  rintro rest rfl rfl
  exact noComment rfl rfl

theorem opensPlainly_comment_cons
    {c : Char}
    {cs : List Char}
    (goesOn : c = '*' → cs.head? ≠ some '/') :
    opensPlainly true (c :: cs) = opensPlainly true cs := by
  rw [opensPlainly]
  rintro rest rfl rfl
  exact goesOn rfl rfl

/-! ## Texts without their comments -/

/-- A text and the same text with as many blanks for each of its comments. The flag says whether all
of them open plainly. -/
inductive Uncommented : Bool → List Char → List Char → Prop
  | nil : Uncommented true [] []
  | code {plain : Bool} {text cleaned : List Char} (c : Char)
      (noComment : c = '/' → text.head? ≠ some '*')
      (rest : Uncommented plain text cleaned) :
      Uncommented plain (c :: text) (c :: cleaned)
  | comment {plain : Bool} {inside text cleaned : List Char} (size : Nat)
      (closes : afterComment? inside = some text)
      (covers : width inside + 1 = size + width text)
      (rest : Uncommented plain text cleaned) :
      Uncommented (opensPlainlyBefore inside && plain) ('/' :: '*' :: inside)
        (' ' :: (blanks size ++ cleaned))

/-- A text without quotes, line comments and bodies of `url()`. -/
structure Bare (text : List Char) : Prop where
  unquoted : ∀ c ∈ text, ¬IsQuote c
  noLineComment : ¬['/', '/'] <:+: text
  noUrl : ¬['u', 'r', 'l', '('] <:+: text

theorem Bare.of_suffix
    {text rest : List Char}
    (bare : Bare text)
    (isEnd : rest <:+ text) :
    Bare rest :=
  ⟨fun c isIn => bare.unquoted c (isEnd.subset isIn), mt (·.trans isEnd.isInfix) bare.noLineComment,
    mt (·.trans isEnd.isInfix) bare.noUrl⟩

/-- What blanking out makes of a text, from code or from inside a comment that is closed in it. -/
def BlanksInto : Surrounding → List Char → List Char → Prop
  | .code, text, cleaned => Uncommented (opensPlainly false text) text cleaned
  | .comment, inside, blanked => ∃ size text cleaned, afterComment? inside = some text ∧
      width inside = size + width text ∧ blanked = blanks size ++ cleaned ∧
      Uncommented (opensPlainly true inside) text cleaned
  | .quoted _, _, _ => True

theorem blankFrom_blanksInto
    {surrounding : Surrounding}
    {previous : Option Char}
    {text cleaned : List Char}
    (bare : Bare text)
    (read : blankFrom surrounding previous text = (cleaned, false)) :
    BlanksInto surrounding text cleaned := by
  fun_induction blankFrom surrounding previous text generalizing cleaned with
  | case1 _ surrounding =>
    cases surrounding with
    | code =>
      cases read
      exact .nil
    | quoted quote => trivial
    | comment => cases read
  | case2 _ rest text isOpen readRest inductionHypothesis =>
    cases read
    have later := inductionHypothesis (bare.of_suffix ⟨['*', '/'], rfl⟩) readRest
    exact ⟨2, rest, text, rfl, (Nat.add_assoc 1 1 (width rest)).symm, rfl, later⟩
  | case3 _ c rest notEnd blanked isOpen readRest inductionHypothesis =>
    cases read
    obtain ⟨size, text, cleaned, closes, covers, rfl, later⟩ :=
      inductionHypothesis (bare.of_suffix (List.suffix_cons c rest)) readRest
    have goesOn : c = '*' → rest.head? ≠ some '/' := by
      rintro rfl slash
      obtain ⟨others, rfl⟩ := List.head?_eq_some_iff.mp slash
      exact notEnd others rfl rfl
    rw [BlanksInto, opensPlainly_comment_cons goesOn]
    refine ⟨c.utf8Size + size, text, cleaned, ?_, ?_, ?_, later⟩
    · rw [afterComment?_cons, if_neg fun ends => goesOn ends.1 ends.2, closes]
    · rw [width_cons, covers, Nat.add_assoc]
    · rw [blanks, blanks, blanks, List.replicate_add, List.append_assoc]
  | case4 => trivial
  | case5 _ rest blanked isOpen readRest inductionHypothesis =>
    cases read
    obtain ⟨size, text, cleaned, closes, covers, rfl, later⟩ :=
      inductionHypothesis (bare.of_suffix ⟨['/', '*'], rfl⟩) readRest
    exact .comment (size + 1) closes (by rw [covers]; omega) later
  | case6 _ c rest _ isLineComment =>
    simp only [Bool.and_eq_true, beq_iff_eq] at isLineComment
    obtain ⟨⟨rfl, slash⟩, _⟩ := isLineComment
    obtain ⟨others, rfl⟩ := List.head?_eq_some_iff.mp slash
    exact absurd ⟨[], others, rfl⟩ bare.noLineComment
  | case7 _ c rest noComment _ inside blanked isOpen readRest =>
    rename_i inductionHypothesis
    cases read
    have noQuote : (c == '"' || c == '\'') = false := by
      simpa using bare.unquoted c (List.mem_cons_self ..)
    have isCode : inside = .code := by simp [inside, noQuote]
    have later := inductionHypothesis (bare.of_suffix (List.suffix_cons c rest)) readRest
    have noOpening : c = '/' → rest.head? ≠ some '*' := by
      rintro rfl star
      obtain ⟨others, rfl⟩ := List.head?_eq_some_iff.mp star
      exact noComment others rfl rfl
    rw [isCode] at later
    rw [BlanksInto, opensPlainly_code_cons noOpening]
    exact .code c noOpening later

/-! ## One token of both texts -/

/-- What is taken off two texts: the same token, and two such texts are left, or the same fault. -/
inductive SameTaken (plain : Bool) : Taken → Taken → Prop
  | token (kind : Kind) {rest rest' : List Char} (left : Uncommented plain rest rest') :
      SameTaken plain (.ok (kind, rest)) (.ok (kind, rest'))
  | fault (reason : Fault × Nat) : SameTaken plain (.error reason) (.error reason)

namespace Uncommented

variable {plain : Bool} {text cleaned : List Char} {test : Char → Bool}

theorem width_eq (pair : Uncommented plain text cleaned) : width cleaned = width text := by
  induction pair with
  | nil => rfl
  | code c _ _ inductionHypothesis => rw [width_cons, width_cons, inductionHypothesis]
  | comment size _ covers _ inductionHypothesis =>
    have blank : (' ' : Char).utf8Size = 1 := rfl
    have slash : ('/' : Char).utf8Size = 1 := rfl
    have star : ('*' : Char).utf8Size = 1 := rfl
    simp only [width_cons, width_append, width_blanks, inductionHypothesis, blank, slash, star]
    omega

/-- A test that comments and blanks do not pass. -/
theorem any_head?
    (pair : Uncommented plain text cleaned)
    (noSlash : test '/' = false)
    (noBlank : test ' ' = false) :
    cleaned.head?.any test = text.head?.any test := by
  cases pair with
  | nil => rfl
  | code => rfl
  | comment =>
    simp only [List.head?_cons, Option.any_some]
    rw [noSlash, noBlank]

theorem head?_eq_some_iff
    (pair : Uncommented plain text cleaned)
    {c : Char}
    (noSlash : c ≠ '/')
    (noBlank : c ≠ ' ') :
    cleaned.head? = some c ↔ text.head? = some c := by
  cases pair with
  | nil => rfl
  | code => rfl
  | comment => simp [noSlash.symm, noBlank.symm]

/-- A run of characters that comments and blanks do not go on with. -/
theorem run
    (pair : Uncommented plain text cleaned)
    (noSlash : test '/' = false)
    (noBlank : test ' ' = false) :
    cleaned.takeWhile test = text.takeWhile test ∧
      Uncommented plain (text.dropWhile test) (cleaned.dropWhile test) := by
  induction pair with
  | nil => exact ⟨rfl, .nil⟩
  | code c noComment rest inductionHypothesis =>
    cases goesOn : test c with
    | true => simpa [goesOn] using inductionHypothesis
    | false => simpa [goesOn] using .code c noComment rest
  | comment size closes covers rest =>
    simpa [noSlash, noBlank] using .comment size closes covers rest

/-- A word in which no comment and no blank can stand. -/
theorem word
    (pair : Uncommented plain text cleaned)
    {word : List Char}
    (noSlash : '/' ∉ word)
    (noBlank : ' ' ∉ word) :
    (word <+: cleaned ↔ word <+: text) ∧
      (word <+: text → Uncommented plain (text.drop word.length) (cleaned.drop word.length)) := by
  induction word generalizing plain text cleaned with
  | nil => exact ⟨by simp, fun _ => pair⟩
  | cons d others inductionHypothesis =>
    obtain ⟨firstSlash, laterSlash⟩ := not_or.mp (mt List.mem_cons.mpr noSlash)
    obtain ⟨firstBlank, laterBlank⟩ := not_or.mp (mt List.mem_cons.mpr noBlank)
    cases pair with
    | nil => exact ⟨Iff.rfl, fun _ => .nil⟩
    | code c noComment rest =>
      obtain ⟨same, left⟩ := inductionHypothesis rest laterSlash laterBlank
      rw [List.cons_prefix_cons, List.cons_prefix_cons, same]
      exact ⟨Iff.rfl, fun isStart => left isStart.2⟩
    | comment =>
      rw [List.cons_prefix_cons, List.cons_prefix_cons]
      exact ⟨⟨fun isStart => absurd isStart.1.symm firstBlank, fun isStart => absurd isStart.1.symm firstSlash⟩,
        fun isStart => absurd isStart.1.symm firstSlash⟩

theorem takeName
    (pair : Uncommented plain text cleaned)
    (lead : Char) :
    SameTaken plain (takeName lead text) (takeName lead cleaned) := by
  obtain ⟨same, left⟩ := pair.run (show isNameChar '/' = false by decide) (by decide)
  rw [Token.takeName, Token.takeName, same]
  exact .token _ left

theorem takeHash (pair : Uncommented plain text cleaned) :
    SameTaken plain (takeHash text) (takeHash cleaned) := by
  obtain ⟨same, left⟩ := pair.run (show isNameChar '/' = false by decide) (by decide)
  rw [Token.takeHash, Token.takeHash, same]
  exact .token _ left

theorem numeral
    (pair : Uncommented plain text cleaned)
    (lead : Char) :
    (numeral lead cleaned).1 = (numeral lead text).1 ∧
      Uncommented plain (numeral lead text).2 (numeral lead cleaned).2 := by
  obtain ⟨same, left⟩ := pair.run (show Char.isDigit '/' = false by decide) (by decide)
  unfold Token.numeral
  rw [same]
  generalize text.dropWhile Char.isDigit = rest at left
  generalize cleaned.dropWhile Char.isDigit = rest' at left
  cases left with
  | nil => exact ⟨rfl, .nil⟩
  | code c noComment later =>
    by_cases isPoint : c = '.'
    · subst isPoint
      cases later with
      | nil => exact ⟨rfl, .code _ noComment .nil⟩
      | code d noCommentAfter fraction =>
        obtain ⟨sameFraction, leftAfter⟩ :=
          fraction.run (show Char.isDigit '/' = false by decide) (by decide)
        simp only [sameFraction]
        split
        · exact ⟨rfl, leftAfter⟩
        · exact ⟨rfl, .code _ noComment (.code d noCommentAfter fraction)⟩
      | comment size closes covers further =>
        exact ⟨rfl, .code _ noComment (.comment size closes covers further)⟩
    · simpa [isPoint] using Uncommented.code c noComment later
  | comment size closes covers later => exact ⟨rfl, .comment size closes covers later⟩

theorem suffix (pair : Uncommented plain text cleaned) :
    (suffix cleaned).1 = (suffix text).1 ∧
      Uncommented plain (suffix text).2 (suffix cleaned).2 := by
  cases pair with
  | nil => exact ⟨rfl, .nil⟩
  | code c noComment rest =>
    by_cases isPercent : c = '%'
    · subst isPercent
      exact ⟨rfl, rest⟩
    · have letters := (Uncommented.code c noComment rest).run
        (show isLetter '/' = false by decide) (by decide)
      simp only [Token.suffix]
      split
      · exact ⟨by rw [letters.1], letters.2⟩
      · exact ⟨rfl, .code c noComment rest⟩
  | comment size closes covers rest =>
    have noLetter : isLetter '/' = false ∧ isLetter ' ' = false := by decide
    simpa [Token.suffix, noLetter] using Uncommented.comment size closes covers rest

theorem takeNumber
    (pair : Uncommented plain text cleaned)
    (lead : Char) :
    SameTaken plain (takeNumber lead text) (takeNumber lead cleaned) := by
  obtain ⟨sameDigits, left⟩ := pair.numeral lead
  obtain ⟨sameSuffix, leftAfter⟩ := left.suffix
  simp only [Token.takeNumber, sameDigits]
  split
  · rw [sameSuffix]
    exact .token _ leftAfter
  · exact .fault _

theorem takeOperator
    (pair : Uncommented plain text cleaned)
    (lead : Char) :
    SameTaken plain (takeOperator lead text) (takeOperator lead cleaned) := by
  have noneLater : ∀ op ∈ Operator.all, '/' ∉ op.spelling.toList.tail ∧ ' ' ∉ op.spelling.toList.tail := by
    decide
  have sameStart : ∀ op : Operator, op.spelling.toList.isPrefixOf (lead :: cleaned) =
      op.spelling.toList.isPrefixOf (lead :: text) := by
    intro op
    obtain ⟨noSlash, noBlank⟩ := noneLater op (Operator.mem_all op)
    obtain ⟨first, others, spelled⟩ := List.exists_cons_of_ne_nil (Operator.spelling_ne_nil op)
    rw [spelled, List.tail_cons] at noSlash noBlank
    rw [Bool.eq_iff_iff, List.isPrefixOf_iff_prefix, List.isPrefixOf_iff_prefix, spelled,
      List.cons_prefix_cons, List.cons_prefix_cons, (pair.word noSlash noBlank).1]
  simp only [Token.takeOperator, Operator.read?, sameStart]
  cases found : Operator.all.find? fun op => op.spelling.toList.isPrefixOf (lead :: text) with
  | none => exact .fault _
  | some op =>
    obtain ⟨noSlash, noBlank⟩ := noneLater op (Operator.mem_all op)
    obtain ⟨first, others, spelled⟩ := List.exists_cons_of_ne_nil (Operator.spelling_ne_nil op)
    have isSpelled := List.find?_some found
    have isStart := List.isPrefixOf_iff_prefix.mp isSpelled
    rw [spelled, List.tail_cons] at noSlash noBlank
    rw [spelled] at isStart
    have left := (pair.word noSlash noBlank).2 (List.cons_prefix_cons.mp isStart).2
    simp only [Option.map_some, spelled, List.length_cons, List.drop_succ_cons]
    exact .token _ left

theorem takeWord_eq_takeName
    {lead : Char}
    {cs : List Char}
    (noBody : lead :: cs.takeWhile isNameChar = ['u', 'r', 'l'] →
      (cs.dropWhile isNameChar).head? ≠ some '(') :
    Token.takeWord lead cs = Token.takeName lead cs := by
  unfold takeWord
  split
  · rename_i isUrl
    split
    · rename_i opens
      exact absurd (by rw [opens]; rfl) (noBody isUrl)
    · rfl
  · rfl

theorem takeWord
    (pair : Uncommented plain text cleaned)
    {lead : Char}
    (noUrl : ¬['u', 'r', 'l', '('] <:+: lead :: text) :
    SameTaken plain (takeWord lead text) (takeWord lead cleaned) := by
  obtain ⟨same, left⟩ := pair.run (show isNameChar '/' = false by decide) (by decide)
  have noBody : lead :: text.takeWhile isNameChar = ['u', 'r', 'l'] →
      (text.dropWhile isNameChar).head? ≠ some '(' := by
    intro isUrl opens
    obtain ⟨inside, split⟩ := List.head?_eq_some_iff.mp opens
    refine noUrl ⟨[], inside, ?_⟩
    rw [← List.takeWhile_append_dropWhile (p := isNameChar) (l := text), ← List.cons_append, isUrl,
      split]
    rfl
  have noBody' : lead :: cleaned.takeWhile isNameChar = ['u', 'r', 'l'] →
      (cleaned.dropWhile isNameChar).head? ≠ some '(' := by
    intro isUrl opens
    rw [same] at isUrl
    exact noBody isUrl ((left.head?_eq_some_iff (by decide) (by decide)).mp opens)
  rw [takeWord_eq_takeName noBody, takeWord_eq_takeName noBody']
  exact pair.takeName lead

theorem lexeme
    {c : Char}
    (pair : Uncommented plain text cleaned)
    (bare : Bare (c :: text)) :
    SameTaken plain (lexeme c text) (lexeme c cleaned) := by
  have noQuote : (c == '"' || c == '\'') = false := by
    simpa using bare.unquoted c (List.mem_cons_self ..)
  have sameStart := pair.any_head? (show isNameStart '/' = false by decide) (by decide)
  have sameLetter := pair.any_head? (show isLetter '/' = false by decide) (by decide)
  have sameDigit := pair.any_head? (show Char.isDigit '/' = false by decide) (by decide)
  have sameHyphen : cleaned.head?.any (fun d => isNameStart d || d == '-') =
      text.head?.any fun d => isNameStart d || d == '-' := pair.any_head? (by decide) (by decide)
  unfold Token.lexeme
  split
  · exact .token _ pair
  · simp only [sameStart, sameLetter, sameDigit, sameHyphen, noQuote, Bool.false_eq_true, if_false]
    repeat' split
    · exact pair.takeHash
    · exact pair.takeName c
    · exact pair.takeName c
    · exact pair.takeName c
    · exact pair.takeNumber c
    · exact pair.takeNumber c
    · exact pair.takeWord bare.noUrl
    · exact pair.takeOperator c

end Uncommented

/-! ## One gap of both texts -/

theorem skipGap_blank
    {c : Char}
    (blank : isBlank c = true)
    (spaced : Bool)
    (cs : List Char) :
    skipGap spaced (c :: cs) = skipGap true cs := by
  rw [skipGap_cons, if_pos blank]

/-- A comment is passed over up to its first `*/`, which may share the asterisk of its `/*`. -/
theorem skipGap_comment
    {cs rest : List Char}
    (closed : afterComment? ('*' :: cs) = some rest)
    (spaced : Bool) :
    skipGap spaced ('/' :: '*' :: cs) = skipGap true rest := by
  rw [skipGap_cons]
  simp only [show isBlank '/' = false by decide, List.head?_cons, beq_self_eq_true, Bool.and_self,
    Bool.false_eq_true, if_false, if_true]
  split
  · rename_i found
    rw [Option.some.inj (found.symm.trans closed)]
  · rename_i unclosed
    cases unclosed.symm.trans closed

/-- A token starts here. -/
theorem skipGap_token
    {c : Char}
    {cs : List Char}
    (solid : isBlank c = false)
    (noComment : c = '/' → cs.head? ≠ some '*')
    (spaced : Bool) :
    skipGap spaced (c :: cs) = .ok (c :: cs, spaced) := by
  rw [skipGap_cons, if_neg (by simp [solid]), if_neg]
  simp only [Bool.and_eq_true, beq_iff_eq]
  exact fun opens => noComment opens.1 opens.2

theorem skipGap_trimStart (cs : List Char) : skipGap true (trimStart cs) = skipGap true cs := by
  induction cs with
  | nil => rfl
  | cons c rest inductionHypothesis =>
    cases blank : isBlank c with
    | true =>
      rw [trimStart, List.dropWhile_cons_of_pos blank, skipGap_blank blank]
      exact inductionHypothesis
    | false => rw [trimStart, List.dropWhile_cons_of_neg (by simp [blank])]

theorem afterComment?_trimStart (cs : List Char) : afterComment? (trimStart cs) = afterComment? cs := by
  induction cs with
  | nil => rfl
  | cons c rest inductionHypothesis =>
    cases blank : isBlank c with
    | true =>
      have noStar : c ≠ '*' := by
        rintro rfl
        cases blank
      rw [trimStart, List.dropWhile_cons_of_pos blank, afterComment?_cons, if_neg fun ends => noStar ends.1]
      exact inductionHypothesis
    | false => rw [trimStart, List.dropWhile_cons_of_neg (by simp [blank])]

theorem skipGap_of_opensPlainlyBefore
    {inside text : List Char}
    (closes : afterComment? inside = some text)
    (plain : opensPlainlyBefore inside = true)
    (spaced : Bool) :
    skipGap spaced ('/' :: '*' :: inside) = skipGap true text := by
  by_cases slash : inside.head? = some '/'
  · -- the lexer closes the comment at once and comes to the next `/*`, which closes where this one does
    obtain ⟨after, rfl⟩ := List.head?_eq_some_iff.mp slash
    obtain ⟨others, opens⟩ := List.isPrefixOf_iff_prefix.mp plain
    have sameEnd : afterComment? ('*' :: others) = some text := by
      rw [afterComment?_cons, if_neg (by simp), ← afterComment?_trimStart, ← opens] at closes
      exact closes
    rw [skipGap_comment rfl, ← skipGap_trimStart, ← opens]
    exact skipGap_comment sameEnd true
  · refine skipGap_comment ?_ spaced
    rw [afterComment?_cons, if_neg fun ends => slash ends.2, closes]

theorem width_lt_of_afterComment?
    {cs rest : List Char}
    (closed : afterComment? cs = some rest) :
    width rest < width cs := by
  have shorter := afterComment?_length_lt closed
  obtain ⟨front, rfl⟩ := afterComment?_suffix closed
  cases front with
  | nil => exact absurd shorter (Nat.lt_irrefl _)
  | cons c others =>
    have := c.utf8Size_pos
    rw [List.cons_append, width_cons, width_append]
    omega

/-- Of a comment that opens as `/*/` the lexer passes over these characters only, and comes to a token. -/
theorem skipGap_of_not_opensPlainlyBefore
    {inside text : List Char}
    (closes : afterComment? inside = some text)
    (notPlain : opensPlainlyBefore inside = false)
    (spaced : Bool) :
    ∃ rest, skipGap spaced ('/' :: '*' :: inside) = .ok (rest, true) ∧ width text < width rest := by
  have slash : inside.head? = some '/' := by
    unfold opensPlainlyBefore at notPlain
    split at notPlain
    · rfl
    · cases notPlain
  obtain ⟨after, rfl⟩ := List.head?_eq_some_iff.mp slash
  rw [afterComment?_cons, if_neg (by simp), ← afterComment?_trimStart] at closes
  rw [skipGap_comment rfl, ← skipGap_trimStart]
  rw [opensPlainlyBefore] at notPlain
  have longer := width_lt_of_afterComment? closes
  have solid : ∀ c ∈ (trimStart after).head?, isBlank c = false := fun c => trimStart_head
  cases remaining : trimStart after with
  | nil =>
    rw [remaining] at closes
    cases closes
  | cons c others =>
    rw [remaining] at notPlain longer solid
    refine ⟨c :: others, skipGap_token (solid c rfl) ?_ true, longer⟩
    rintro rfl star
    obtain ⟨further, rfl⟩ := List.head?_eq_some_iff.mp star
    cases notPlain

/-- The gaps at the start of both texts end in front of the same token, or the lexer comes to a token
in a comment that does not open plainly. -/
theorem Uncommented.skipGap
    {plain : Bool}
    {text cleaned : List Char}
    (pair : Uncommented plain text cleaned)
    (spaced : Bool) :
    ∃ spacedAfter rest', skipGap spaced cleaned = .ok (rest', spacedAfter) ∧
      ((∃ rest, skipGap spaced text = .ok (rest, spacedAfter) ∧ Uncommented plain rest rest') ∨
        (plain = false ∧ ∃ rest flag, skipGap spaced text = .ok (rest, flag) ∧
          width rest' < width rest)) := by
  induction pair generalizing spaced with
  | nil => exact ⟨spaced, [], skipGap_nil spaced, .inl ⟨[], skipGap_nil spaced, .nil⟩⟩
  | @code plain text cleaned c noComment rest inductionHypothesis =>
    cases blank : isBlank c with
    | true =>
      rw [skipGap_blank blank, skipGap_blank blank]
      exact inductionHypothesis true
    | false =>
      have noComment' : c = '/' → cleaned.head? ≠ some '*' := fun isSlash =>
        mt (rest.head?_eq_some_iff (by decide) (by decide)).mp (noComment isSlash)
      exact ⟨spaced, c :: cleaned, skipGap_token blank noComment' spaced,
        .inl ⟨c :: text, skipGap_token blank noComment spaced, .code c noComment rest⟩⟩
  | @comment plain inside text cleaned size closes covers rest inductionHypothesis =>
    have blanksPassed : Token.skipGap spaced (' ' :: (blanks size ++ cleaned)) =
        Token.skipGap true cleaned := by
      rw [skipGap_blank (by decide), ← skipGap_trimStart,
        trimStart_append_of_allBlank (allBlank_blanks size), skipGap_trimStart]
    rw [blanksPassed]
    cases plainly : opensPlainlyBefore inside with
    | true =>
      rw [skipGap_of_opensPlainlyBefore closes plainly, Bool.true_and]
      exact inductionHypothesis true
    | false =>
      obtain ⟨spacedAfter, rest', passed, _⟩ := inductionHypothesis true
      obtain ⟨found, passedShort, longer⟩ := skipGap_of_not_opensPlainlyBefore closes plainly spaced
      have narrow := width_le_of_suffix (skipGap_suffix passed)
      rw [rest.width_eq] at narrow
      exact ⟨spacedAfter, rest', passed, .inr ⟨rfl, found, true, passedShort, by omega⟩⟩

end Token

/-! ## All tokens of both texts -/

section Tokens

variable {cs following rest : List Char} {c : Char} {spaced : Bool} (line offset total : Nat)

/-- The first token starts behind the gap. -/
theorem head?_tokenizeFrom
    (passed : Token.skipGap false cs = .ok (rest, spaced))
    {tokens : List Token}
    (read : tokenizeFrom line offset total cs = .ok tokens) :
    tokens.head?.map (·.pos.column) =
      if rest = [] then none else some (offset + (total - width rest) + 1) := by
  cases rest with
  | nil =>
    rw [tokenizeFrom_of_nothing line offset total passed] at read
    cases read
    rfl
  | cons c following =>
    rw [if_neg (List.cons_ne_nil c following)]
    cases taken : Token.lexeme c following with
    | error reason =>
      rw [tokenizeFrom_of_fault line offset total passed taken] at read
      cases read
    | ok result =>
      rw [tokenizeFrom_of_token line offset total passed taken] at read
      generalize tokenizeFrom line offset total result.2 = others at read
      cases others with
      | error error => cases read
      | ok others =>
        cases read
        rfl

end Tokens

/-- The same tokens or the same fault come from both texts if all comments open plainly; if not, the
tokens of the cleaned text are not those of the text itself. Each token leaves a shorter such pair. -/
theorem Token.Uncommented.tokenizeFrom_agrees
    {plain : Bool}
    {text cleaned : List Char}
    (pair : Token.Uncommented plain text cleaned)
    (bare : Token.Bare text)
    (line offset : Nat)
    {total : Nat}
    (fits : width text ≤ total) :
    (plain = true → tokenizeFrom line offset total text = tokenizeFrom line offset total cleaned) ∧
      (plain = false → ∀ tokens, tokenizeFrom line offset total cleaned = .ok tokens →
        tokenizeFrom line offset total text ≠ .ok tokens) := by
  obtain ⟨spaced, rest', passed', ⟨rest, passed, left⟩ | ⟨notPlain, rest, flag, passed, longer⟩⟩ :=
    pair.skipGap false
  · have isEnd := Token.skipGap_suffix passed
    cases left with
    | nil =>
      rw [tokenizeFrom_of_nothing line offset total passed,
        tokenizeFrom_of_nothing line offset total passed']
      exact ⟨fun _ => rfl, nofun⟩
    | comment => exact absurd (Token.skipGap_head passed') (by decide)
    | @code _ following following' c noComment later =>
      have sameColumn : width (c :: following') = width (c :: following) := by
        rw [width_cons, width_cons, later.width_eq]
      have sameTaken := later.lexeme (bare.of_suffix isEnd)
      generalize taken : Token.lexeme c following = result at sameTaken
      generalize taken' : Token.lexeme c following' = result' at sameTaken
      cases sameTaken with
      | fault reason =>
        rw [tokenizeFrom_of_fault line offset total passed taken,
          tokenizeFrom_of_fault line offset total passed' taken', sameColumn]
        exact ⟨fun _ => rfl, fun _ tokens read => nomatch read⟩
      | @token kind rest rest' left =>
        rw [tokenizeFrom_of_token line offset total passed taken,
          tokenizeFrom_of_token line offset total passed' taken', sameColumn]
        have restEnd := Token.rest_suffix passed taken
        have fewer := Token.rest_length_lt passed taken
        obtain ⟨same, differs⟩ := left.tokenizeFrom_agrees (bare.of_suffix restEnd) line offset
          (Nat.le_trans (width_le_of_suffix restEnd) fits)
        refine ⟨fun isPlain => by rw [same isPlain], fun notPlain tokens read' read => ?_⟩
        generalize tokenizeFrom line offset total rest = result at differs read
        generalize tokenizeFrom line offset total rest' = result' at differs read'
        cases result' with
        | error error => cases read'
        | ok others' =>
          cases result with
          | error error => cases read
          | ok others =>
            cases read'
            obtain ⟨_, sameOthers⟩ := List.cons.inj (Except.ok.inj read)
            exact differs notPlain others' rfl (congrArg Except.ok sameOthers)
  · -- the lexer stands in a comment: its next token starts before any token of the cleaned text
    refine ⟨fun isPlain => absurd (isPlain.symm.trans notPlain) (by decide), ?_⟩
    intro _ tokens read' read
    have column := head?_tokenizeFrom line offset total passed read
    have column' := head?_tokenizeFrom line offset total passed' read'
    have narrow := width_le_of_suffix (Token.skipGap_suffix passed)
    rw [column] at column'
    split at column'
    · rename_i nothing
      rw [nothing] at longer
      cases longer
    · split at column'
      · cases column'
      · have := Option.some.inj column'
        omega
termination_by text.length

/-- The lexer and the blanking of comments agree on comments that open plainly. In a text without
quotes, line comments and bodies of `url()` in which no comment stays open, the tokens or the fault are
those of the text with blanks for its comments if every comment opens plainly; and if that text has
tokens, they are those of the text itself only then. -/
theorem tokenize_blankComments
    {text : List Char}
    (bare : Token.Bare text)
    (closed : (blankComments false text).2 = false)
    (line offset : Nat) :
    let cleaned := (blankComments false text).1
    (Token.opensPlainly false text = true →
      tokenize text line offset = tokenize cleaned line offset) ∧
    ∀ tokens, tokenize cleaned line offset = .ok tokens →
      (tokenize text line offset = .ok tokens ↔ Token.opensPlainly false text = true) := by
  intro cleaned
  have read : blankFrom .code none text = (cleaned, false) := Prod.ext rfl closed
  have pair : Token.Uncommented (Token.opensPlainly false text) text cleaned :=
    Token.blankFrom_blanksInto bare read
  obtain ⟨same, differs⟩ := pair.tokenizeFrom_agrees bare line offset (Nat.le_refl (width text))
  rw [tokenize, tokenize, pair.width_eq]
  refine ⟨same, fun tokens read' => ⟨fun read => ?_, fun plain => (same plain).trans read'⟩⟩
  rw [← Bool.not_eq_false]
  exact fun notPlain => differs notPlain tokens read' read

/-- A comment that opens as `/*/` is no matter when the next one follows at once; otherwise the lexer
finds tokens in it. -/
theorem tokenize_blankComments_at_slash :
    let text := "a /*/ /* é */-b".toList
    let text' := "/*/ a */".toList
    tokenize text 1 0 = tokenize (blankComments false text).1 1 0 ∧
    tokenize (blankComments false text').1 1 0 = .ok [] ∧ tokenize text' 1 0 ≠ .ok [] := by
  intro text text'
  have bare : Token.Bare text :=
    ⟨by decide, by simp [text, List.infix_cons_iff], by simp [text, List.infix_cons_iff]⟩
  have bare' : Token.Bare text' :=
    ⟨by decide, by simp [text', List.infix_cons_iff], by simp [text', List.infix_cons_iff]⟩
  have agrees := tokenize_blankComments bare (by decide) 1 0
  have differs := tokenize_blankComments bare' (by decide) 1 0
  have passed : Token.skipGap false (blankComments false text').1 = .ok ([], true) := by
    rw [show (blankComments false text').1 = ' ' :: blanks 7 by decide,
      Token.skipGap_blank (by decide), ← Token.skipGap_trimStart]
    exact Token.skipGap_nil true
  have nothing : tokenize (blankComments false text').1 1 0 = .ok [] :=
    tokenizeFrom_of_nothing 1 0 _ passed
  exact ⟨agrees.1 (by decide), nothing, mt (differs.2 [] nothing).mp (by decide)⟩

end StyleSense
