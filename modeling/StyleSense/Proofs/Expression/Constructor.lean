import StyleSense.Proofs.Expression.Numeric

/-!
Contract: calls that are given numbers.

Owns:
- `WrittenArguments`, numbers with commas or with blanks between them, with their text, the kinds of
  their tokens and the channels that they are;
- `Lexes.call` and `read_call`: a call with such arguments is cut into these tokens, and is read as a
  call with these channels;
- `read_hash`: a hash is read by itself.

Does not own: which numbers a color is written with (`StyleSense.Proofs.Color.Presentation`).
-/

namespace StyleSense

open Text

/-- The channel that a number is. -/
def WrittenNumber.channel (number : WrittenNumber) : Channel Float :=
  ⟨if number.negative then -number.magnitude else number.magnitude, number.suffix⟩

/-- A number, or a quotient of two. -/
structure WrittenTerm where
  number : WrittenNumber
  divisor : Option WrittenNumber

namespace WrittenTerm

def text (term : WrittenTerm) : List Char :=
  term.number.text ++ (term.divisor.map fun divisor => " / ".toList ++ divisor.text).getD []

def kinds (term : WrittenTerm) : List (Token.Kind × Bool) :=
  term.number.kinds true ++
    (term.divisor.map fun divisor => (.op .slash, true) :: divisor.kinds true).getD []

def channels (term : WrittenTerm) : List (Channel Float) :=
  term.number.channel :: (term.divisor.map WrittenNumber.channel).toList

end WrittenTerm

/-- What a constructor is given: numbers with commas between them, or terms with blanks between
them. -/
inductive WrittenArguments where
  | commas (first : WrittenNumber) (others : List WrittenNumber)
  | blanks (first : WrittenNumber) (others : List WrittenTerm)

namespace WrittenArguments

def text : WrittenArguments → List Char
  | commas first others => first.text ++ others.flatMap fun number => ", ".toList ++ number.text
  | blanks first others => first.text ++ others.flatMap fun term => ' ' :: term.text

def kinds : WrittenArguments → List (Token.Kind × Bool)
  | commas first others =>
    first.kinds false ++ others.flatMap fun number => (.comma, false) :: number.kinds true
  | blanks first others => first.kinds false ++ others.flatMap WrittenTerm.kinds

def channels : WrittenArguments → List (Channel Float)
  | commas first others => first.channel :: others.map WrittenNumber.channel
  | blanks first others => first.channel :: others.flatMap WrittenTerm.channels

/-- A minus after a blank would join the terms beside it. -/
def Separate : WrittenArguments → Prop
  | commas _ _ => True
  | blanks _ others => ∀ term ∈ others, term.number.negative = false

end WrittenArguments

/-! ## Tokens -/

theorem delimited_cons
    {c : Char}
    (isEnd : c = ',' ∨ c = ')' ∨ c = ' ')
    (rest : List Char) :
    Delimited (c :: rest) := by
  rintro _ ⟨⟩
  exact isEnd

theorem lexes_comma
    {rest : List Char}
    {kinds : List (Token.Kind × Bool)}
    (later : Lexes rest kinds) :
    Lexes (',' :: rest) ((.comma, false) :: kinds) :=
  .token false (by decide) (by simp) rfl later

theorem lexes_slash
    {rest : List Char}
    {kinds : List (Token.Kind × Bool)}
    (later : Lexes (' ' :: rest) kinds) :
    Lexes (' ' :: '/' :: ' ' :: rest) ((.op .slash, true) :: kinds) :=
  .token true (by decide) rfl rfl later

theorem lexes_closing : Lexes [')'] [(.closing .round, false)] :=
  .token false (by decide) rfl rfl .done

theorem Lexes.term
    (term : WrittenTerm)
    {rest : List Char}
    {kinds : List (Token.Kind × Bool)}
    (delimited : Delimited rest)
    (later : Lexes rest kinds) :
    Lexes (' ' :: (term.text ++ rest)) (term.kinds ++ kinds) := by
  obtain ⟨number, divisor⟩ := term
  cases divisor with
  | none => simpa [WrittenTerm.text, WrittenTerm.kinds, blankIf] using
      Lexes.number number true delimited later
  | some divisor =>
    have divided := lexes_slash (Lexes.number divisor true delimited later)
    simpa [WrittenTerm.text, WrittenTerm.kinds, blankIf] using
      Lexes.number number true (delimited_cons (.inr (.inr rfl)) _) divided

theorem Lexes.arguments (arguments : WrittenArguments) :
    Lexes (arguments.text ++ [')']) (arguments.kinds ++ [(.closing .round, false)]) := by
  cases arguments with
  | commas first others =>
    have more : ∀ numbers : List WrittenNumber,
        Delimited ((numbers.flatMap fun number => ", ".toList ++ number.text) ++ [')']) ∧
        Lexes ((numbers.flatMap fun number => ", ".toList ++ number.text) ++ [')'])
          ((numbers.flatMap fun number => (.comma, false) :: number.kinds true) ++
            [(.closing .round, false)]) := by
      intro numbers
      induction numbers with
      | nil => exact ⟨delimited_cons (.inr (.inl rfl)) _, lexes_closing⟩
      | cons number rest inductionHypothesis =>
        refine ⟨delimited_cons (.inl rfl) _, ?_⟩
        have next := lexes_comma (Lexes.number number true inductionHypothesis.1
          inductionHypothesis.2)
        simpa [blankIf] using next
    have all := Lexes.number first false (more others).1 (more others).2
    simpa [WrittenArguments.text, WrittenArguments.kinds, blankIf] using all
  | blanks first others =>
    have more : ∀ terms : List WrittenTerm,
        Delimited ((terms.flatMap fun term => ' ' :: term.text) ++ [')']) ∧
        Lexes ((terms.flatMap fun term => ' ' :: term.text) ++ [')'])
          (terms.flatMap WrittenTerm.kinds ++ [(.closing .round, false)]) := by
      intro terms
      induction terms with
      | nil => exact ⟨delimited_cons (.inr (.inl rfl)) _, lexes_closing⟩
      | cons term rest inductionHypothesis =>
        refine ⟨delimited_cons (.inr (.inr rfl)) _, ?_⟩
        have next := Lexes.term term inductionHypothesis.1 inductionHypothesis.2
        simpa using next
    have all := Lexes.number first false (more others).1 (more others).2
    simpa [WrittenArguments.text, WrittenArguments.kinds, blankIf] using all

/-- A call of a constructor. -/
def callText (name : String) (arguments : WrittenArguments) : List Char :=
  name.toList ++ '(' :: (arguments.text ++ [')'])

/-- The kinds of the tokens of a call. -/
def callKinds (name : String) (arguments : WrittenArguments) : List (Token.Kind × Bool) :=
  (.name name, true) :: (.opening .round, false) ::
    (arguments.kinds ++ [(.closing .round, false)])

theorem Lexes.call
    {name : String}
    (isConstructor : name ∈ Rgba.constructors)
    (arguments : WrittenArguments) :
    Lexes (' ' :: callText name arguments) (callKinds name arguments) := by
  have opened : Lexes ('(' :: (arguments.text ++ [')']))
      ((.opening .round, false) :: (arguments.kinds ++ [(.closing .round, false)])) :=
    .token false (by decide) rfl rfl (Lexes.arguments arguments)
  simp only [Rgba.constructors, List.mem_cons, List.not_mem_nil, or_false] at isConstructor
  rcases isConstructor with rfl | rfl | rfl | rfl | rfl
  all_goals exact .token true (by decide) rfl rfl opened

/-! ## Reading -/

namespace Expression

variable {last opened : SourcePos} {tokens : List Token}

theorem numeric_of_kinds
    {number : WrittenNumber}
    {spaced : Bool}
    (listed : kindsOf tokens = number.kinds spaced) :
    Numeric number.channel tokens := by
  obtain ⟨negative, digits, percent, isNumeral⟩ := number
  cases negative with
  | false =>
    obtain ⟨token, rfl, known⟩ := List.map_eq_singleton_iff.mp listed
    exact .bare (Prod.mk.inj known).1
  | true =>
    obtain ⟨sign, others, rfl, isSign, rest⟩ := List.map_eq_cons_iff.mp listed
    obtain ⟨token, rfl, known⟩ := List.map_eq_singleton_iff.mp rest
    exact .negative (Prod.mk.inj isSign).1 (Prod.mk.inj known).1 rfl

/-- The tokens of a number and those after it. -/
theorem exists_numeric
    {number : WrittenNumber}
    {spaced : Bool}
    {kinds : List (Token.Kind × Bool)}
    (listed : kindsOf tokens = number.kinds spaced ++ kinds) :
    ∃ front back, tokens = front ++ back ∧ Numeric number.channel front ∧ kindsOf back = kinds := by
  obtain ⟨front, back, rfl, isNumber, isRest⟩ := List.map_eq_append_iff.mp listed
  exact ⟨front, back, rfl, numeric_of_kinds isNumber, isRest⟩

theorem Numeric.ne_nil
    {channel : Channel Float}
    (numeric : Numeric channel tokens) :
    ∃ token rest, tokens = token :: rest ∧ token.kind ≠ .closing .round ∧ token.kind ≠ .comma := by
  cases numeric with
  | @bare token isNumber => exact ⟨token, [], rfl, by simp [isNumber], by simp [isNumber]⟩
  | @negative sign token value isMinus isNumber opposite =>
    exact ⟨sign, [token], rfl, by simp [isMinus], by simp [isMinus]⟩

/-- A number is the first term of an argument, or a further one. -/
theorem arguments_numeric
    {channel : Channel Float}
    {front rest : List Token}
    (numeric : Numeric channel front)
    (ends : EndsTerm rest)
    (current : Option Expression) :
    ∃ node pos, Node.channel? node = some channel ∧ ∀ args,
      Gives (arguments last opened (some (extendArgument current node pos)) rest) args [] →
        Gives (arguments last opened current (front ++ rest)) args [] := by
  obtain ⟨node, isChannel, reads⟩ := @term_numeric last _ _ numeric
  obtain ⟨token, more, rfl, notClosing, notComma⟩ := numeric.ne_nil
  exact ⟨node, token.pos, isChannel, fun args later =>
    arguments_term notClosing notComma (reads ends) later⟩

/-! ### Commas between numbers -/

theorem endsTerm_of_kinds
    {kind : Token.Kind}
    {spaced : Bool}
    {kinds : List (Token.Kind × Bool)}
    (listed : kindsOf tokens = (kind, spaced) :: kinds)
    (isEnd : kind = .comma ∨ kind = .closing .round ∨ ∃ value suffix, kind = .number value suffix) :
    EndsTerm tokens := by
  obtain ⟨token, rest, rfl, known, -⟩ := List.map_eq_cons_iff.mp listed
  obtain rfl : token.kind = kind := (Prod.mk.inj known).1
  rintro _ ⟨⟩
  exact isEnd

/-- The channel of an argument, its first term. -/
def firstChannel? (argument : Node) : Option (Channel Float) :=
  (Node.argumentTerms argument).head?.bind Node.channel?

theorem arguments_commas
    {others : List WrittenNumber}
    (listed : kindsOf tokens =
      (others.flatMap fun number => (.comma, false) :: number.kinds true) ++
        [(.closing .round, false)])
    (current : Expression) :
    EndsTerm tokens ∧ ∃ args,
      Gives (arguments last opened (some current) tokens) (.expression current :: args) [] ∧
      args.mapM firstChannel? = some (others.map WrittenNumber.channel) ∧
      args.length = others.length := by
  induction others generalizing tokens current with
  | nil =>
    obtain ⟨token, rfl, known⟩ := List.map_eq_singleton_iff.mp listed
    refine ⟨endsTerm_of_kinds listed (.inr (.inl rfl)), [], ?_, rfl, rfl⟩
    exact arguments_closing (Prod.mk.inj known).1 (some current) []
  | cons number rest inductionHypothesis =>
    rw [List.flatMap_cons, List.cons_append, List.cons_append, List.append_assoc] at listed
    refine ⟨endsTerm_of_kinds listed (.inl rfl), ?_⟩
    obtain ⟨comma, after, rfl, isComma, listed⟩ := List.map_eq_cons_iff.mp listed
    obtain ⟨front, back, rfl, numeric, listed⟩ := exists_numeric listed
    obtain ⟨ends, -⟩ := inductionHypothesis listed ⟨[], .unknown⟩
    obtain ⟨node, pos, isChannel, reads⟩ := @arguments_numeric last opened _ _ _ numeric ends none
    obtain ⟨-, args, read, channels, count⟩ := inductionHypothesis listed ⟨[node], pos⟩
    refine ⟨.expression ⟨[node], pos⟩ :: args, ?_, ?_, congrArg (· + 1) count⟩
    · exact arguments_comma (Prod.mk.inj isComma).1 current (reads _ read)
    · have first : firstChannel? (.expression ⟨[node], pos⟩) = some number.channel := isChannel
      rw [List.mapM_cons, first, channels]
      rfl

/-! ### Blanks between terms -/

theorem arguments_blanks
    {others : List WrittenTerm}
    (separate : ∀ term ∈ others, term.number.negative = false)
    (listed : kindsOf tokens = others.flatMap WrittenTerm.kinds ++ [(.closing .round, false)])
    (terms : List Node)
    (pos : SourcePos) :
    EndsTerm tokens ∧ ∃ more,
      Gives (arguments last opened (some ⟨terms, pos⟩) tokens)
        [.expression ⟨terms ++ more, pos⟩] [] ∧
      more.mapM Node.channels? = some (others.map WrittenTerm.channels) := by
  induction others generalizing tokens terms with
  | nil =>
    obtain ⟨token, rfl, known⟩ := List.map_eq_singleton_iff.mp listed
    refine ⟨endsTerm_of_kinds listed (.inr (.inl rfl)), [], ?_, rfl⟩
    rw [List.append_nil]
    exact arguments_closing (Prod.mk.inj known).1 (some ⟨terms, pos⟩) []
  | cons written rest inductionHypothesis =>
    have unsigned := separate written (List.mem_cons_self ..)
    rw [List.flatMap_cons, List.append_assoc, WrittenTerm.kinds, List.append_assoc] at listed
    have starts : EndsTerm tokens := by
      rw [WrittenNumber.kinds, unsigned] at listed
      exact endsTerm_of_kinds listed (.inr (.inr ⟨_, _, rfl⟩))
    refine ⟨starts, ?_⟩
    obtain ⟨front, back, rfl, numeric, afterNumber⟩ := exists_numeric listed
    obtain ⟨token, following, rfl, notClosing, notComma⟩ := numeric.ne_nil
    have later : ∀ {after}, kindsOf after =
        rest.flatMap WrittenTerm.kinds ++ [(.closing .round, false)] → ∀ terms, _ := fun listed =>
      inductionHypothesis (fun term isIn => separate term (List.mem_cons_of_mem _ isIn)) listed
    cases divides : written.divisor with
    | none =>
      rw [divides] at afterNumber
      obtain ⟨ends, -⟩ := later afterNumber []
      obtain ⟨node, isChannel, reads⟩ := @term_numeric last _ _ numeric
      obtain ⟨-, more, read, channels⟩ := later afterNumber (terms ++ [node])
      refine ⟨node :: more, ?_, ?_⟩
      · rw [List.append_assoc] at read
        exact arguments_term notClosing notComma (reads ends) read
      · rw [List.mapM_cons, channels?_of_channel? isChannel, channels, List.map_cons,
          WrittenTerm.channels, divides]
        rfl
    | some divisor =>
      rw [divides, Option.map_some, Option.getD_some, List.cons_append] at afterNumber
      obtain ⟨slash, after, rfl, isSlash, afterSlash⟩ := List.map_eq_cons_iff.mp afterNumber
      obtain ⟨divisorTokens, back, rfl, numericDivisor, afterDivisor⟩ := exists_numeric afterSlash
      obtain ⟨ends, -⟩ := later afterDivisor []
      obtain ⟨node, isQuotient, reads⟩ :=
        @term_division last _ _ _ _ _ numeric (Prod.mk.inj isSlash).1 numericDivisor
      obtain ⟨-, more, read, channels⟩ := later afterDivisor (terms ++ [node])
      refine ⟨node :: more, ?_, ?_⟩
      · rw [List.append_assoc] at read
        have isTerm := reads ends
        rw [List.append_assoc] at isTerm
        exact arguments_term notClosing notComma isTerm read
      · rw [List.mapM_cons, isQuotient, channels, List.map_cons, WrittenTerm.channels, divides]
        rfl

/-! ### Calls -/

theorem exists_arguments
    {written : WrittenArguments}
    (separate : written.Separate)
    (listed : kindsOf tokens = written.kinds ++ [(.closing .round, false)]) :
    ∃ args, Gives (arguments last opened none tokens) args [] ∧
      literalChannels? args = some written.channels := by
  cases written with
  | commas first others =>
    rw [WrittenArguments.kinds, List.append_assoc] at listed
    obtain ⟨front, back, rfl, numeric, listed⟩ := exists_numeric listed
    obtain ⟨ends, -⟩ := @arguments_commas last opened _ _ listed ⟨[], .unknown⟩
    obtain ⟨node, pos, isChannel, reads⟩ := @arguments_numeric last opened _ _ _ numeric ends none
    obtain ⟨-, args, read, channels, count⟩ := arguments_commas listed ⟨[node], pos⟩
    refine ⟨.expression ⟨[node], pos⟩ :: args, reads _ read, ?_⟩
    have isFirst : firstChannel? (.expression ⟨[node], pos⟩) = some first.channel := isChannel
    cases args with
    | nil =>
      obtain rfl : others = [] := List.eq_nil_of_length_eq_zero count.symm
      simp [literalChannels?, Node.argumentTerms, channels?_of_channel? isChannel,
        WrittenArguments.channels]
    | cons second more =>
      change (Node.expression ⟨[node], pos⟩ :: second :: more).mapM firstChannel? = _
      rw [List.mapM_cons, isFirst, channels]
      rfl
  | blanks first others =>
    rw [WrittenArguments.kinds, List.append_assoc] at listed
    obtain ⟨front, back, rfl, numeric, listed⟩ := exists_numeric listed
    obtain ⟨ends, -⟩ := @arguments_blanks last opened _ _ separate listed [] .unknown
    obtain ⟨node, pos, isChannel, reads⟩ := @arguments_numeric last opened _ _ _ numeric ends none
    obtain ⟨-, more, read, channels⟩ := arguments_blanks separate listed [node] pos
    refine ⟨[.expression ⟨node :: more, pos⟩], reads _ read, ?_⟩
    rw [literalChannels?, Node.argumentTerms, List.mapM_cons, channels?_of_channel? isChannel,
      channels, WrittenArguments.channels, List.flatMap_def]
    rfl

/-- A call with numbers is read with its channels. -/
theorem read_call
    {name : String}
    {written : WrittenArguments}
    (notNot : name ≠ "not")
    (separate : written.Separate)
    (listed : kindsOf tokens = callKinds name written)
    (pos : SourcePos) :
    ∃ args, Expression.read tokens pos =
        .ok ⟨[.call name args (placeOf pos tokens)], placeOf pos tokens⟩ ∧
      literalChannels? args = some written.channels := by
  obtain ⟨token, rest, rfl, isName, afterName⟩ := List.map_eq_cons_iff.mp listed
  obtain ⟨bracket, inside, rfl, isBracket, afterBracket⟩ := List.map_eq_cons_iff.mp afterName
  obtain ⟨isName, -⟩ := Prod.mk.inj isName
  obtain ⟨isBracket, notSpaced⟩ := Prod.mk.inj isBracket
  obtain ⟨args, ⟨shorter, read⟩, channels⟩ := @exists_arguments
    (lastPlace (token :: bracket :: inside)) token.pos _ _ separate afterBracket
  refine ⟨args, read_of_unary (by simp [isName]) ?_ pos, channels⟩
  have callRead : Gives (named (lastPlace (token :: bracket :: inside)) name token.pos
      (bracket :: inside)) (.call name args token.pos) [] := by
    rw [named, if_pos (by simp [isBracket, notSpaced]), read]
    exact ⟨by simp, rfl⟩
  obtain ⟨shorterCall, readCall⟩ := callRead
  rw [unary, if_neg (by simp [Token.isOp, isName]), if_neg (by simp [Token.isOp, isName]),
    if_neg (by simp [Token.isOp, Token.isName, isName, notNot])]
  obtain ⟨kind, place, spaced⟩ := token
  obtain rfl : kind = .name name := isName
  rw [primary]
  simp only
  rw [readCall]
  exact ⟨_, rfl⟩

/-- A hash is one term. -/
theorem read_hash
    {token : Token}
    {text : String}
    (isHash : token.kind = .hash text)
    (pos : SourcePos) :
    Expression.read [token] pos = .ok ⟨[hashTerm text token.pos], token.pos⟩ := by
  refine read_of_unary (by simp [isHash]) ?_ pos
  rw [unary, if_neg (by simp [Token.isOp, isHash]), if_neg (by simp [Token.isOp, isHash]),
    if_neg (by simp [Token.isOp, Token.isName, isHash])]
  obtain ⟨kind, place, spaced⟩ := token
  obtain rfl : kind = .hash text := isHash
  rw [primary]
  exact ⟨by simp, rfl⟩

end Expression

end StyleSense
