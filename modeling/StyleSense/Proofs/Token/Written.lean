import StyleSense.Proofs.Text.Part
import StyleSense.Proofs.Token.Cut
import StyleSense.Statement.Basic

/-!
Contract: texts that are single tokens.

Owns:
- `IsNameText`, `IsHashText`, `IsSuffix` and `IsUrlBody`, the texts that tokens of a kind have, and
  `Line.tokensOf_written`: the tokens of a line have such texts;
- for each kind of token, that the lexer takes it off a text that starts with it, where what follows
  does not go on with it.

Does not own: texts of several tokens (`StyleSense.Proofs.Expression.Printed`).
-/

namespace StyleSense

open Text

namespace Token

/-! ## Texts of tokens -/

/-- The text of a name. -/
def IsNameText : List Char → Prop
  | [] => False
  | lead :: cs => startsName lead cs = true ∧ ∀ c ∈ cs, isNameChar c = true

instance (text : List Char) : Decidable (IsNameText text) := by
  cases text with
  | nil => exact .isFalse id
  | cons lead cs => exact inferInstanceAs (Decidable (_ ∧ _))

/-- The text of a hash. -/
def IsHashText (text : List Char) : Prop :=
  ∃ cs, text = '#' :: cs ∧ ∀ c ∈ cs, isNameChar c = true

/-- What can follow the digits of a number: nothing, a percent sign or letters. -/
def IsSuffix (suffix : Option String) : Prop :=
  ∀ text ∈ suffix, text = "%" ∨ text.toList ≠ [] ∧ ∀ c ∈ text.toList, isLetter c = true

/-- The body of `url()`: there are no quotes around it any more. -/
def IsUrlBody (body : String) : Prop :=
  ')' ∉ body.toList ∧ urlBody ('\'' :: (body.toList ++ ['\''])) = body

/-- A token has a text of its kind. -/
def Kind.IsWritten : Kind → Prop
  | .name text => IsNameText text.toList
  | .hash text => IsHashText text.toList
  | .number _ suffix => IsSuffix suffix
  | .url body => IsUrlBody body
  | _ => True

/-! ## What the lexer gives -/

theorem suffix_isSuffix (cs : List Char) : IsSuffix (suffix cs).1 := by
  unfold suffix
  split
  · rintro _ ⟨⟩
    exact .inl rfl
  · rename_i c rest _
    split
    · rename_i letter
      rintro _ ⟨⟩
      refine .inr ⟨?_, fun d isIn => ?_⟩
      · rw [String.toList_ofList, List.takeWhile_cons_of_pos letter]
        exact List.cons_ne_nil _ _
      · rw [String.toList_ofList] at isIn
        exact List.mem_takeWhile_imp isIn
    · simp [IsSuffix]
  · simp [IsSuffix]

theorem dropWhile_eq_self_of_head?
    {p : Char → Bool}
    {cs : List Char}
    (stops : ∀ c ∈ cs.head?, p c = false) :
    cs.dropWhile p = cs := by
  cases cs with
  | nil => rfl
  | cons c rest => exact List.dropWhile_cons_of_neg (by simp [stops c rfl])

/-- A text without quotes at its ends is what is left of it between two quotes. -/
theorem urlBody_quoted
    {body : List Char}
    (first : ∀ c ∈ body.head?, (c == '"' || c == '\'') = false)
    (last : ∀ c ∈ body.getLast?, (c == '"' || c == '\'') = false) :
    urlBody ('\'' :: (body ++ ['\''])) = String.ofList body := by
  have trimmed : trim ('\'' :: (body ++ ['\''])) = '\'' :: (body ++ ['\'']) := by
    have start : trimStart ('\'' :: (body ++ ['\''])) = '\'' :: (body ++ ['\'']) :=
      List.dropWhile_cons_of_neg (by decide)
    rw [trim, start]
    exact trimEnd_eq_self (by
      rw [← List.cons_append, List.getLast?_append]
      rintro _ ⟨⟩
      decide)
  have front : (body ++ ['\'']).dropWhile (fun c => c == '"' || c == '\'') =
      if body = [] then [] else body ++ ['\''] := by
    by_cases nothing : body = []
    · subst nothing
      decide
    · obtain ⟨c, rest, rfl⟩ := List.exists_cons_of_ne_nil nothing
      rw [if_neg nothing]
      exact dropWhile_eq_self_of_head? first
  have back : (body.reverse).dropWhile (fun c => c == '"' || c == '\'') = body.reverse :=
    dropWhile_eq_self_of_head? (by rwa [List.head?_reverse])
  unfold urlBody
  simp only [trimmed]
  rw [List.dropWhile_cons_of_pos (by decide), front]
  by_cases nothing : body = []
  · subst nothing
    rfl
  · rw [if_neg nothing, List.reverse_append, List.reverse_singleton, List.singleton_append,
      List.dropWhile_cons_of_pos (by decide), back, List.reverse_reverse]

theorem head?_dropWhile_not
    (p : Char → Bool)
    (cs : List Char) :
    ∀ c ∈ (cs.dropWhile p).head?, p c = false := by
  intro c isFirst
  obtain ⟨rest, whole⟩ := List.head?_eq_some_iff.mp isFirst
  have known := List.head_dropWhile_not p (l := cs) (by rw [whole]; exact List.cons_ne_nil _ _)
  simpa [whole] using known

/-- The body of a `url()` is a text without quotes at its ends. -/
theorem urlBody_isUrlBody
    {inside : List Char}
    (unclosed : ')' ∉ inside) :
    IsUrlBody (urlBody inside) := by
  let quoted (c : Char) : Bool := c == '"' || c == '\''
  let front := (trim inside).dropWhile quoted
  let body := (front.reverse.dropWhile quoted).reverse
  have isBody : urlBody inside = String.ofList body := rfl
  have isStart : body <+: front := by
    rw [← List.reverse_suffix, List.reverse_reverse]
    exact List.dropWhile_suffix _
  rw [IsUrlBody, isBody, String.toList_ofList]
  constructor
  · intro isIn
    exact unclosed ((standsAt_trim _).subset ((List.dropWhile_suffix quoted).subset
      (isStart.subset isIn)))
  · refine urlBody_quoted (fun c isFirst => ?_) fun c isLast => ?_
    · obtain ⟨others, whole⟩ := List.head?_eq_some_iff.mp isFirst
      obtain ⟨after, split⟩ := isStart
      have isFront : c ∈ front.head? := by
        rw [← split, whole]
        rfl
      exact head?_dropWhile_not quoted _ c isFront
    · rw [List.getLast?_reverse] at isLast
      exact head?_dropWhile_not quoted _ c isLast

/-- A token that the lexer takes has a text of its kind. -/
theorem lexeme_written
    {c : Char}
    {cs rest : List Char}
    {kind : Kind}
    (taken : lexeme c cs = .ok (kind, rest)) :
    kind.IsWritten := by
  cases lexeme_takes taken with
  | mark isMark =>
    unfold punctuation? at isMark
    split at isMark <;> cases isMark <;> trivial
  | string | operator => trivial
  | hash => exact ⟨_, String.toList_ofList, fun d isIn => List.mem_takeWhile_imp isIn⟩
  | name starts =>
    rw [Kind.IsWritten, String.toList_ofList]
    exact ⟨starts, fun d isIn => List.mem_takeWhile_imp isIn⟩
  | number => exact suffix_isSuffix _
  | url _ unclosed => exact urlBody_isUrlBody unclosed

end Token

/-- The tokens of a text have texts of their kinds and stand on its line. -/
theorem Tokenizes.written
    {line offset total : Nat}
    {cs : List Char}
    {tokens : List Token}
    (tokenizes : Tokenizes line offset total cs tokens) :
    ∀ token ∈ tokens, token.kind.IsWritten ∧ token.pos.line = line := by
  induction tokenizes with
  | nil => exact nofun
  | cons _ taken _ inductionHypothesis =>
    exact List.forall_mem_cons.mpr ⟨⟨Token.lexeme_written taken, rfl⟩, inductionHypothesis⟩

/-- The tokens of the value of a line have texts of their kinds. -/
theorem Line.tokensOf_written
    {line : Line}
    {value : List Char}
    {tokens : List Token}
    (read : line.tokensOf value = .ok tokens) :
    ∀ token ∈ tokens, token.kind.IsWritten := by
  have all : ∀ (fragments : List Fragment) (tokens : List Token),
      Line.fragmentTokens fragments = .ok tokens → ∀ token ∈ tokens, token.kind.IsWritten := by
    intro fragments
    induction fragments with
    | nil =>
      intro tokens read
      cases read
      exact nofun
    | cons fragment rest inductionHypothesis =>
      intro tokens read
      obtain ⟨_, _, here, later, rfl⟩ := Line.fragmentTokens_ok read
      exact List.forall_mem_append.mpr
        ⟨fun token isHere => ((tokenizeFrom_tokenizes here).written token isHere).1,
          inductionHypothesis _ later⟩
  exact all _ tokens read

namespace Token

/-! ## Tokens in front of a text -/

section Names

variable {lead : Char} {cs : List Char}

theorem punctuation?_of_isNameStart (starts : isNameStart lead = true) : punctuation? lead = none := by
  unfold punctuation?
  split <;> first | rfl | exact absurd starts (by decide)

/-- What starts a name is no digit and no point. -/
theorem not_isDigit_of_startsName (starts : startsName lead cs = true) :
    lead.isDigit = false ∧ lead ≠ '.' := by
  simp only [startsName, Bool.or_eq_true, Bool.and_eq_true, beq_iff_eq] at starts
  rcases starts with ((isStart | ⟨rfl, _⟩) | ⟨rfl, _⟩) | ⟨rfl, _⟩
  · refine ⟨?_, ?_⟩
    · by_contra isDigit
      have plain := plain_of_isDigit (by simpa using isDigit)
      rw [plain.name] at isStart
      cases isStart
    · rintro rfl
      exact absurd isStart (by decide)
  all_goals decide

theorem not_blank_of_startsName (starts : startsName lead cs = true) :
    isBlank lead = false ∧ lead ≠ '/' := by
  simp only [startsName, Bool.or_eq_true, Bool.and_eq_true, beq_iff_eq] at starts
  rcases starts with ((isStart | ⟨rfl, _⟩) | ⟨rfl, _⟩) | ⟨rfl, _⟩
  · refine ⟨?_, ?_⟩
    · by_contra blank
      have named := isNameChar_of_isNameStart isStart
      rw [isNameChar_of_isBlank (by simpa using blank)] at named
      cases named
    · rintro rfl
      exact absurd isStart (by decide)
  all_goals decide

/-- A name in front of a text that does not go on with it. -/
theorem lexeme_name
    (isName : IsNameText (lead :: cs))
    {rest : List Char}
    (ends : ∀ c ∈ rest.head?, isNameChar c = false)
    (notUrl : lead :: cs = ['u', 'r', 'l'] → ∀ c ∈ rest.head?, c ≠ '(') :
    lexeme lead (cs ++ rest) = .ok (.name (String.ofList (lead :: cs)), rest) := by
  obtain ⟨starts, named⟩ := isName
  have front : (cs ++ rest).takeWhile isNameChar = cs := by
    rw [takeWhile_append_of_stop ends, List.takeWhile_eq_self_iff.mpr named]
  have back : (cs ++ rest).dropWhile isNameChar = rest := by
    rw [dropWhile_append_of_stop ends, List.dropWhile_eq_nil_iff.mpr named, List.nil_append]
  have taken : takeName lead (cs ++ rest) = .ok (.name (String.ofList (lead :: cs)), rest) := by
    rw [takeName, front, back]
  have next : ∀ {test : Char → Bool}, cs.head?.any test = true →
      (cs ++ rest).head?.any test = true := by
    intro test passes
    cases cs with
    | nil => cases passes
    | cons c others => exact passes
  have point := not_isDigit_of_startsName starts
  simp only [startsName, Bool.or_eq_true, Bool.and_eq_true, beq_iff_eq] at starts
  rcases starts with ((isStart | ⟨rfl, isNext⟩) | ⟨rfl, isNext⟩) | ⟨rfl, isNext⟩
  · have word : takeWord lead (cs ++ rest) = takeName lead (cs ++ rest) := by
      unfold takeWord
      rw [front, back]
      split
      · rename_i isUrl
        split
        · exact absurd rfl (notUrl isUrl _ rfl)
        · rfl
      · rfl
    have noSign : ∀ c ∈ ['"', '\'', '#', '@', '!', '-'], lead ≠ c := by
      have none : ∀ c ∈ ['"', '\'', '#', '@', '!', '-'], isNameStart c = false := by decide
      rintro c isIn rfl
      rw [none lead isIn] at isStart
      cases isStart
    simp only [List.forall_mem_cons] at noSign
    simp only [lexeme, punctuation?_of_isNameStart isStart, beq_eq_false_iff_ne.mpr noSign.1,
      beq_eq_false_iff_ne.mpr noSign.2.1, beq_eq_false_iff_ne.mpr noSign.2.2.1,
      beq_eq_false_iff_ne.mpr noSign.2.2.2.1, beq_eq_false_iff_ne.mpr noSign.2.2.2.2.1,
      beq_eq_false_iff_ne.mpr noSign.2.2.2.2.2.1, beq_eq_false_iff_ne.mpr point.2, point.1, isStart,
      Bool.or_false, Bool.false_and, Bool.false_eq_true, if_false, if_true, word, taken]
  · have isKeyword := next isNext
    simp only [lexeme, punctuation?]
    rw [if_neg (by decide), if_neg (by decide), if_pos (by simpa using isKeyword)]
    exact taken
  · have isFlag := next isNext
    simp only [lexeme, punctuation?]
    rw [if_neg (by decide), if_neg (by decide), if_neg (by simp), if_pos (by simpa using isFlag)]
    exact taken
  · have isHyphenated := next isNext
    simp only [lexeme, punctuation?]
    rw [if_neg (by decide), if_neg (by decide), if_neg (by simp), if_neg (by simp),
      if_pos (by simpa using isHyphenated)]
    exact taken

end Names

theorem lexeme_hash
    {cs : List Char}
    (named : ∀ c ∈ cs, isNameChar c = true) :
    lexeme '#' cs = .ok (.hash (String.ofList ('#' :: cs)), []) := by
  have taken : takeHash cs = .ok (.hash (String.ofList ('#' :: cs)), []) := by
    rw [takeHash, List.takeWhile_eq_self_iff.mpr named, List.dropWhile_eq_nil_iff.mpr named]
  simpa [lexeme, punctuation?] using taken

/-- A text without quotes and backslashes is the value of the literal that it is the body of. -/
theorem lexeme_string
    {value : List Char}
    (clean : ∀ c ∈ value, c ≠ '\'' ∧ c ≠ '\\') :
    lexeme '\'' (value ++ ['\'']) = .ok (.string (String.ofList value), []) := by
  have closed : stringBody? '\'' (value ++ ['\'']) = some (value, []) := by
    induction value with
    | nil => rw [List.nil_append, stringBody?_cons, if_neg (by decide), if_pos rfl]
    | cons c others inductionHypothesis =>
      obtain ⟨⟨notQuote, notEscape⟩, later⟩ := List.forall_mem_cons.mp clean
      rw [List.cons_append, stringBody?_cons, if_neg notEscape, if_neg notQuote,
        inductionHypothesis later]
      rfl
  simp [lexeme, punctuation?, takeString, closed]

/-- `url()` with its body between quotes. -/
theorem lexeme_url
    {body : String}
    (isBody : IsUrlBody body) :
    lexeme 'u' ("rl('".toList ++ (body.toList ++ "')".toList)) = .ok (.url body, []) := by
  let inside := '\'' :: (body.toList ++ ['\''])
  have whole : "rl('".toList ++ (body.toList ++ "')".toList) = ['r', 'l'] ++ '(' :: (inside ++ [')']) := by
    simp [inside]
  have open? : ∀ c ∈ inside, (c != ')') = true := by
    intro c isIn
    simp only [inside, List.mem_cons, List.mem_append, List.not_mem_nil, or_false] at isIn
    rcases isIn with rfl | isBodyChar | rfl
    · decide
    · rw [bne_iff_ne]
      rintro rfl
      exact isBody.1 isBodyChar
    · decide
  have stop : ∀ c ∈ [')'].head?, (c != ')') = false := by decide
  have taken : takeUrl (inside ++ [')']) = .ok (.url body, []) := by
    unfold takeUrl
    rw [dropWhile_append_of_stop stop, takeWhile_append_of_stop stop,
      List.dropWhile_eq_nil_iff.mpr open?, List.takeWhile_eq_self_iff.mpr open?]
    simp only [List.nil_append, inside, isBody.2]
  have noName : ∀ c ∈ ('(' :: (inside ++ [')'])).head?, isNameChar c = false := by
    rintro c ⟨⟩
    decide
  have word : takeWord 'u' (['r', 'l'] ++ '(' :: (inside ++ [')'])) = .ok (.url body, []) := by
    unfold takeWord
    rw [takeWhile_append_of_stop noName, dropWhile_append_of_stop noName]
    exact taken
  have isStart : isNameStart 'u' = true := by decide
  rw [whole]
  simpa [lexeme, punctuation?, isStart] using word

end Token

/-! ## Texts with a token in front -/

namespace Lexes

/-- A text with a stop after it keeps its tokens. -/
theorem append
    {text after : List Char}
    {kinds others : List (Token.Kind × Bool)}
    (lexes : Lexes text kinds)
    (stopping : Token.Stopping after)
    (lexesAfter : Lexes after others) :
    Lexes (text ++ after) (kinds ++ others) := by
  induction lexes with
  | done => exact lexesAfter
  | @token c cs rest kind kinds spaced solid noComment taken later inductionHypothesis =>
    have alone : Token.lexeme c (cs ++ []) = .ok (kind, rest ++ []) := by
      rw [List.append_nil, List.append_nil]
      exact taken
    have noCommentAfter : (c == '/' && (cs ++ after).head? == some '*') = false := by
      cases cs with
      | cons d others => exact noComment
      | nil =>
        cases after with
        | nil => exact noComment
        | cons d others =>
          have isSign : '*' ∈ Operator.times.spelling.toList := by decide
          have notStar : d ≠ '*' := Token.ne_of_stops (stopping d rfl) isSign
          simp [notStar]
    rw [List.append_assoc, List.cons_append]
    exact .token spaced solid noCommentAfter
      (Token.lexeme_append Token.stopping_nil stopping alone) inductionHypothesis

variable {rest : List Char} {kinds : List (Token.Kind × Bool)} (spaced : Bool)

theorem name
    {text : String}
    (isName : Token.IsNameText text.toList)
    (ends : ∀ c ∈ rest.head?, Token.isNameChar c = false)
    (notUrl : text = "url" → ∀ c ∈ rest.head?, c ≠ '(')
    (later : Lexes rest kinds) :
    Lexes (blankIf spaced ++ (text.toList ++ rest)) ((.name text, spaced) :: kinds) := by
  cases isText : text.toList with
  | nil =>
    rw [isText] at isName
    exact isName.elim
  | cons lead cs =>
    rw [isText] at isName
    obtain ⟨solid, notSlash⟩ := Token.not_blank_of_startsName isName.1
    have same : text = String.ofList (lead :: cs) := by rw [← isText, String.ofList_toList]
    rw [List.cons_append]
    refine .token spaced solid (by simp [notSlash]) ?_ later
    rw [Token.lexeme_name isName ends fun isUrl => notUrl (by rw [same, isUrl]), same]

theorem hash
    {text : String}
    (isHash : Token.IsHashText text.toList) :
    Lexes (blankIf spaced ++ text.toList) [(.hash text, spaced)] := by
  obtain ⟨cs, isText, named⟩ := isHash
  have same : text = String.ofList ('#' :: cs) := by rw [← isText, String.ofList_toList]
  rw [isText, same]
  exact .token spaced (by decide) (by simp) (Token.lexeme_hash named) .done

theorem string
    {value : String}
    (clean : ∀ c ∈ value.toList, c ≠ '\'' ∧ c ≠ '\\') :
    Lexes (blankIf spaced ++ '\'' :: (value.toList ++ ['\''])) [(.string value, spaced)] := by
  refine .token spaced (by decide) (by simp) ?_ .done
  rw [Token.lexeme_string clean, String.ofList_toList]

theorem url
    {body : String}
    (isBody : Token.IsUrlBody body) :
    Lexes (blankIf spaced ++ ("url('".toList ++ (body.toList ++ "')".toList)))
      [(.url body, spaced)] :=
  .token spaced (by decide) rfl (Token.lexeme_url isBody) .done

/-- A bracket or a comma. -/
theorem mark
    {c : Char}
    {kind : Token.Kind}
    (isMark : Token.punctuation? c = some kind)
    (later : Lexes rest kinds) :
    Lexes (blankIf spaced ++ c :: rest) ((kind, spaced) :: kinds) := by
  have solid : isBlank c = false ∧ c ≠ '/' := by
    unfold Token.punctuation? at isMark
    split at isMark <;> first | decide | cases isMark
  have taken : Token.lexeme c rest = .ok (kind, rest) := by simp only [Token.lexeme, isMark]
  exact .token spaced solid.1 (by simp [solid.2]) taken later

/-- The signs of terms: those that join operands and those of a conditional. -/
def termSigns : List Operator :=
  [.equal, .notEqual, .atLeast, .atMost, .both, .either, .plus, .minus, .times, .slash, .percent,
    .less, .greater, .question, .colon]

theorem sign
    {op : Operator}
    (isSign : op ∈ termSigns) :
    Lexes (blankIf spaced ++ op.spelling.toList) [(.op op, spaced)] := by
  have each : ∀ op ∈ termSigns, ∃ c cs, op.spelling.toList = c :: cs ∧ isBlank c = false ∧
      (c == '/' && cs.head? == some '*') = false ∧ Token.lexeme c cs = .ok (.op op, []) := by
    intro op isSign
    simp only [termSigns, List.mem_cons, List.not_mem_nil, or_false] at isSign
    rcases isSign with rfl | rfl | rfl | rfl | rfl | rfl | rfl | rfl | rfl | rfl | rfl | rfl | rfl |
      rfl | rfl
    all_goals exact ⟨_, _, rfl, by decide, by decide, by decide⟩
  obtain ⟨c, cs, isText, solid, noComment, taken⟩ := each op isSign
  rw [isText]
  exact .token spaced solid noComment taken .done

/-- A point between two names. -/
theorem dot
    {lead : Char}
    {cs others : List Char}
    (starts : Token.startsName lead others = true)
    (later : Lexes (lead :: cs) kinds) :
    Lexes ('.' :: lead :: cs) ((.op .dot, false) :: kinds) := by
  obtain ⟨notDigit, notPoint⟩ := Token.not_isDigit_of_startsName starts
  have notName : Token.isNameStart '.' = false := by decide
  have read : Token.takeOperator '.' (lead :: cs) = .ok (.op .dot, lead :: cs) := by
    simp [Token.takeOperator, Operator.read?, Operator.all, Operator.spelling, List.isPrefixOf,
      Ne.symm notPoint]
  refine .token false (by decide) (by simp) ?_ later
  simpa [Token.lexeme, Token.punctuation?, notDigit, notName] using read

end Lexes

/-! ## Numbers with suffixes -/

theorem suffix_of_isSuffix
    {suffix : Option String}
    (isSuffix : Token.IsSuffix suffix) :
    Token.suffix (suffix.getD "").toList = (suffix, []) := by
  cases suffix with
  | none => rfl
  | some text =>
    rcases isSuffix text rfl with rfl | ⟨nonempty, letters⟩
    · rfl
    · obtain ⟨c, rest, whole⟩ := List.exists_cons_of_ne_nil nonempty
      rw [whole] at letters
      have letter := letters c (List.mem_cons_self ..)
      have notPercent : c ≠ '%' := by
        rintro rfl
        exact absurd letter (by decide)
      have same : text = String.ofList (c :: rest) := by rw [← whole, String.ofList_toList]
      rw [Option.getD_some, whole, Token.suffix]
      · rw [if_pos letter, List.takeWhile_eq_self_iff.mpr letters,
          List.dropWhile_eq_nil_iff.mpr letters, same]
      · exact notPercent

theorem endsNumber_of_isSuffix
    {suffix : Option String}
    (isSuffix : Token.IsSuffix suffix) :
    EndsNumber (suffix.getD "").toList := by
  cases suffix with
  | none => simp [EndsNumber]
  | some text =>
    rcases isSuffix text rfl with rfl | ⟨_, letters⟩
    · rintro c ⟨⟩
      decide
    · intro c isFirst
      have letter := letters c (List.mem_of_mem_head? isFirst)
      constructor
      · by_contra isDigit
        have plain := Token.plain_of_isDigit (by simpa using isDigit)
        have notName := plain.name
        rw [Token.isNameStart_of_isLetter letter] at notName
        cases notName
      · rintro rfl
        exact absurd letter (by decide)

namespace WrittenNumber

/-- The kinds of the tokens of a number in front of a suffix. -/
def signed (number : WrittenNumber) (suffix : Option String) (spaced : Bool) :
    List (Token.Kind × Bool) :=
  if number.negative then [(.op .minus, spaced), (.number number.magnitude suffix, false)]
  else [(.number number.magnitude suffix, spaced)]

end WrittenNumber

/-- A number with its suffix. -/
theorem Lexes.unit
    (number : WrittenNumber)
    (noPercent : number.percent = false)
    {suffix : Option String}
    (isSuffix : Token.IsSuffix suffix)
    (spaced : Bool) :
    Lexes (blankIf spaced ++ (number.text ++ (suffix.getD "").toList))
      (number.signed suffix spaced) := by
  obtain ⟨lead, cs, digits, isDigit⟩ := number.exists_lead
  obtain ⟨value, denotes⟩ := Token.exists_numeralValue number.isNumeral
  have magnitude : number.magnitude = value := by rw [WrittenNumber.magnitude, denotes]; rfl
  have plain := Token.plain_of_isDigit isDigit
  have notSlash : lead ≠ '/' := by
    rintro rfl
    exact absurd isDigit (by decide)
  have taken : Token.lexeme lead (cs ++ (suffix.getD "").toList) =
      .ok (.number number.magnitude suffix, []) := by
    rw [Token.lexeme_digit isDigit, Token.takeNumber_of_isNumeral (digits ▸ number.isNumeral)
      (endsNumber_of_isSuffix isSuffix) (digits ▸ denotes), suffix_of_isSuffix isSuffix, magnitude]
  have unsigned : ∀ gap, Lexes (blankIf gap ++ lead :: (cs ++ (suffix.getD "").toList))
      [(.number number.magnitude suffix, gap)] := fun gap =>
    .token gap plain.solid (by simp [notSlash]) taken .done
  unfold WrittenNumber.text WrittenNumber.signed
  cases number.negative with
  | false => simpa [noPercent, digits] using unsigned spaced
  | true =>
    have sign := @Lexes.token '-' (lead :: (cs ++ (suffix.getD "").toList)) _ _ _ spaced
      (by decide) (by simp) (Token.lexeme_minus isDigit _) (by simpa [blankIf] using unsigned false)
    simpa [noPercent, digits] using sign

end StyleSense
