import StyleSense.Proofs.Expression.Derivation

/-!
Contract: the parenthesis that closes another one.

Owns:
- `closing?`, found by counting the parentheses between, and `Closed`, tokens that close every
  parenthesis that they open and no other;
- `Expression.Derives.closed`, by induction on the grammar of values: a value is closed, and the
  arguments of a call end at the parenthesis that closes it;
- `Expression.readTerms_grouped`: a value in parentheses is one group.

Does not own: where such a parenthesis stands in the text.
-/

namespace StyleSense

/-- The token that closes a parenthesis, and the tokens after it; `depth` others are open. -/
def closing? : Nat → List Token → Option (Token × List Token)
  | _, [] => none
  | depth, token :: rest =>
    if token.kind == .opening .round then closing? (depth + 1) rest
    else if token.kind == .closing .round then
      match depth with
      | 0 => some (token, rest)
      | depth + 1 => closing? depth rest
    else closing? depth rest

section Steps

variable {token : Token} (rest : List Token)

theorem closing?_opening
    (isOpening : token.kind = .opening .round)
    (depth : Nat) :
    closing? depth (token :: rest) = closing? (depth + 1) rest := by
  rw [closing?.eq_def]
  exact if_pos (beq_iff_eq.mpr isOpening)

theorem closing?_closing
    (isClosing : token.kind = .closing .round)
    (depth : Nat) :
    closing? (depth + 1) (token :: rest) = closing? depth rest := by
  have notOpening : ¬(token.kind == .opening .round) = true := by simp [isClosing]
  rw [closing?, if_neg notOpening, if_pos (beq_iff_eq.mpr isClosing)]

theorem closing?_zero (isClosing : token.kind = .closing .round) :
    closing? 0 (token :: rest) = some (token, rest) := by
  have notOpening : ¬(token.kind == .opening .round) = true := by simp [isClosing]
  rw [closing?, if_neg notOpening, if_pos (beq_iff_eq.mpr isClosing)]

end Steps

/-- What closes a parenthesis is one of the tokens, and a closing parenthesis. -/
theorem closing?_split
    {depth : Nat}
    {tokens after : List Token}
    {closing : Token}
    (found : closing? depth tokens = some (closing, after)) :
    closing.kind = .closing .round ∧ ∃ inside, tokens = inside ++ closing :: after := by
  induction tokens generalizing depth with
  | nil => cases found
  | cons token rest inductionHypothesis =>
    have later : ∀ depth', closing? depth' rest = some (closing, after) →
        closing.kind = .closing .round ∧ ∃ inside, token :: rest = inside ++ closing :: after := by
      intro depth' foundLater
      obtain ⟨isClosing, inside, rfl⟩ := inductionHypothesis foundLater
      exact ⟨isClosing, token :: inside, rfl⟩
    rw [closing?.eq_def] at found
    simp only at found
    split at found
    · exact later _ found
    · split at found
      · rename_i isClosing
        split at found
        · cases found
          exact ⟨beq_iff_eq.mp isClosing, [], rfl⟩
        · exact later _ found
      · exact later _ found

/-- The tokens close every parenthesis that they open and no other. -/
def Closed (tokens : List Token) : Prop :=
  ∀ depth rest, closing? depth (tokens ++ rest) = closing? depth rest

/-- The token is a parenthesis. -/
def Token.isRound (token : Token) : Bool :=
  token.kind == .opening .round || token.kind == .closing .round

namespace Closed

variable {left right : List Token}

theorem nil : Closed [] :=
  fun _ _ => rfl

theorem append
    (lefts : Closed left)
    (rights : Closed right) :
    Closed (left ++ right) := by
  intro depth rest
  rw [List.append_assoc, lefts, rights]

theorem cons
    {token : Token}
    (notRound : token.isRound = false)
    (rights : Closed right) :
    Closed (token :: right) := by
  intro depth rest
  obtain ⟨notOpening, notClosing⟩ := Bool.or_eq_false_iff.mp notRound
  rw [List.cons_append, closing?.eq_def]
  simp only [notOpening, notClosing, Bool.false_eq_true, if_false]
  exact rights depth rest

theorem of_notRound
    (notRound : ∀ token ∈ left, token.isRound = false) :
    Closed left := by
  induction left with
  | nil => exact nil
  | cons token rest inductionHypothesis =>
    obtain ⟨here, later⟩ := List.forall_mem_cons.mp notRound
    exact cons here (inductionHypothesis later)

/-- Tokens up to the parenthesis that closes them. -/
theorem closing?_eq
    (lefts : Closed left)
    {closing : Token}
    (isClosing : closing.kind = .closing .round)
    (rest : List Token) :
    closing? 0 (left ++ closing :: rest) = some (closing, rest) := by
  rw [lefts, closing?_zero rest isClosing]

/-- Tokens in parentheses. -/
theorem grouped
    {opening closing : Token}
    (isOpening : opening.kind = .opening .round)
    (lefts : Closed left)
    (isClosing : closing.kind = .closing .round) :
    Closed (opening :: (left ++ [closing])) := by
  intro depth rest
  rw [List.cons_append, List.append_assoc, closing?_opening _ isOpening, lefts,
    List.singleton_append, closing?_closing _ isClosing]

end Closed

theorem Token.isRound_of_isPlain
    {token : Token}
    (plain : token.isPlain = true) :
    token.isRound = false := by
  unfold isPlain at plain
  split at plain
  · rename_i kind
    rw [isRound, kind]
    rfl
  · rename_i kind
    rw [isRound, kind]
    rfl
  · cases plain

theorem closed_of_plain
    {tokens : List Token}
    (plain : ∀ token ∈ tokens, token.isPlain = true) :
    Closed tokens :=
  .of_notRound fun token isIn => Token.isRound_of_isPlain (plain token isIn)

namespace Expression

variable {distinct : Prop}

theorem isRound_of_key?
    {token : Token}
    {key : String}
    (isKey : key? token = some key) :
    token.isRound = false := by
  unfold key? at isKey
  split at isKey
  · rename_i kind
    rw [Token.isRound, kind]
    rfl
  · rename_i kind
    rw [Token.isRound, kind]
    rfl
  · cases isKey

/-- How the tokens of an item are closed: those of arguments, which are read from behind the opening
parenthesis, end with the one that closes it. -/
def Item.Closed (tokens : List Token) : Item → Prop
  | .arguments _ _ => ∃ inside closing, tokens = inside ++ [closing] ∧
    closing.kind = .closing .round ∧ StyleSense.Closed inside
  | _ => StyleSense.Closed tokens

theorem Item.Closed.arguments_cons
    {current : Option Expression}
    {args : List Node}
    {first rest : List Token}
    (firsts : StyleSense.Closed first)
    (others : (Item.arguments current args).Closed rest)
    (current' : Option Expression)
    (args' : List Node) :
    (Item.arguments current' args').Closed (first ++ rest) := by
  obtain ⟨inside, closing, rfl, isClosing, insideClosed⟩ := others
  exact ⟨first ++ inside, closing, (List.append_assoc ..).symm, isClosing, firsts.append insideClosed⟩

/-- What is read is closed. -/
theorem Derives.closed
    {tokens : List Token}
    {item : Item}
    (derives : Derives distinct tokens item) :
    item.Closed tokens := by
  have alone : ∀ {token : Token}, token.isRound = false → StyleSense.Closed [token] :=
    fun notRound => .cons notRound .nil
  induction derives with
  | number isNumber => exact alone (by rw [Token.isRound, isNumber]; rfl)
  | hash isHash => exact alone (by rw [Token.isRound, isHash]; rfl)
  | string isString => exact alone (by rw [Token.isRound, isString]; rfl)
  | url isUrl => exact alone (by rw [Token.isRound, isUrl]; rfl)
  | ident _ isName plain => exact .cons (by rw [Token.isRound, isName]; rfl) (closed_of_plain plain)
  | subscripted _ isName plain isOpening _ isClosing plainEnd inside =>
    refine .cons (by rw [Token.isRound, isName]; rfl) ((closed_of_plain plain).append ?_)
    refine .cons (by rw [Token.isRound, isOpening]; rfl) (StyleSense.Closed.append inside ?_)
    exact .cons (by rw [Token.isRound, isClosing]; rfl) (closed_of_plain plainEnd)
  | call isName isOpening _ inside =>
    obtain ⟨inner, closing, rfl, isClosing, innerClosed⟩ := inside
    exact .cons (by rw [Token.isRound, isName]; rfl) (.grouped isOpening innerClosed isClosing)
  | group isOpening _ isClosing inside => exact .grouped isOpening inside isClosing
  | object isOpening _ inside => exact .cons (by rw [Token.isRound, isOpening]; rfl) inside
  | negated isSign _ inner =>
    exact .cons (Token.isRound_of_isPlain (Token.isPlain_of_isOp isSign)) inner
  | plus isSign _ inner =>
    exact .cons (Token.isRound_of_isPlain (Token.isPlain_of_isOp isSign)) inner
  | denied plain _ inner => exact .cons (Token.isRound_of_isPlain plain) inner
  | joined _ _ plain _ lefts rights =>
    exact StyleSense.Closed.append lefts ((closed_of_plain plain).append rights)
  | ternary _ isMark _ isColon _ tests firsts seconds =>
    refine StyleSense.Closed.append tests ?_
    refine .cons (Token.isRound_of_isPlain (Token.isPlain_of_isOp isMark)) ?_
    refine StyleSense.Closed.append firsts ?_
    exact .cons (Token.isRound_of_isPlain (Token.isPlain_of_isOp isColon)) seconds
  | none => exact .nil
  | comma isComma _ others => exact .cons (by rw [Token.isRound, isComma]; rfl) others
  | cons _ _ firsts others => exact StyleSense.Closed.append firsts others
  | @argumentsEnd closing current isClosing => exact ⟨[], closing, rfl, isClosing, .nil⟩
  | @argumentEnd token rest args current isComma _ others =>
    exact others.arguments_cons (alone (by rw [Token.isRound, isComma]; rfl)) _ _
  | argumentTerm pos _ _ firsts others => exact others.arguments_cons firsts _ _
  | entriesEnd _ isClosing => exact alone (by rw [Token.isRound, isClosing]; rfl)
  | entryEnd isComma _ others => exact .cons (by rw [Token.isRound, isComma]; rfl) others
  | entry isKey isColon _ _ _ values others =>
    refine .cons (isRound_of_key? isKey) ?_
    exact .cons (Token.isRound_of_isPlain (Token.isPlain_of_isOp isColon))
      (StyleSense.Closed.append values others)

/-- A value that can be read is closed. -/
theorem closed_of_readTerms
    {tokens : List Token}
    {nodes : List Node}
    (read : readTerms tokens = .ok nodes) :
    StyleSense.Closed tokens := by
  have nothingAsked : False → DistinctKeys tokens := False.elim
  exact (readTerms_derives nothingAsked read).closed

/-! ## Groups -/

/-- A term has tokens. -/
theorem Derives.term_ne_nil
    {tokens : List Token}
    {node : Node}
    (derives : Derives distinct tokens (.term node)) :
    tokens ≠ [] := by
  generalize isItem : Item.term node = item at derives
  induction derives generalizing node with
  | joined _ lefts _ _ leftsNonempty =>
    exact List.append_ne_nil_of_left_ne_nil (leftsNonempty rfl) _
  | ternary tests _ _ _ _ testsNonempty =>
    exact List.append_ne_nil_of_left_ne_nil (testsNonempty rfl) _
  | none | comma | cons | argumentsEnd | argumentEnd | argumentTerm | entriesEnd | entryEnd | entry =>
    cases isItem
  | _ => exact List.cons_ne_nil _ _

/-- A term that starts with a parenthesis starts with a group, and it is this group unless something
follows. -/
theorem Derives.starts_group
    {opening : Token}
    {rest : List Token}
    {node : Node}
    (derives : Derives distinct (opening :: rest) (.term node))
    (isOpening : opening.kind = .opening .round) :
    ∃ inside closing after, rest = inside ++ closing :: after ∧ closing.kind = .closing .round ∧
      StyleSense.Closed inside ∧
        (after = [] → ∃ nodes, node = .expression ⟨nodes, opening.pos⟩) := by
  generalize isTokens : opening :: rest = tokens at derives
  generalize isItem : Item.term node = item at derives
  have notPlain : ∀ token : Token, token = opening → token.isPlain = true → False := by
    rintro token rfl plain
    rw [Token.isPlain, isOpening] at plain
    cases plain
  induction derives generalizing node rest with
  | number isKind | hash isKind | string isKind | url isKind =>
    obtain ⟨rfl, -⟩ := List.cons.inj isTokens
    cases isOpening.symm.trans isKind
  | ident _ isKind | subscripted _ isKind | call isKind =>
    obtain ⟨rfl, -⟩ := List.cons.inj isTokens
    cases isOpening.symm.trans isKind
  | object isKind =>
    obtain ⟨rfl, -⟩ := List.cons.inj isTokens
    cases isOpening.symm.trans isKind
  | negated isSign | plus isSign =>
    obtain ⟨isFirst, -⟩ := List.cons.inj isTokens
    exact (notPlain _ isFirst.symm (Token.isPlain_of_isOp isSign)).elim
  | denied plain =>
    obtain ⟨isFirst, -⟩ := List.cons.inj isTokens
    exact (notPlain _ isFirst.symm plain).elim
  | @group opening' closing inside nodes _ terms isClosing =>
    obtain ⟨rfl, rfl⟩ := List.cons.inj isTokens
    cases isItem
    exact ⟨inside, closing, [], rfl, isClosing, terms.closed, fun _ => ⟨nodes, rfl⟩⟩
  | @joined left signs right first second sign lefts plain rights leftsGroup =>
    obtain ⟨head, tail, rfl⟩ := List.exists_cons_of_ne_nil lefts.term_ne_nil
    obtain ⟨rfl, rfl⟩ := List.cons.inj isTokens
    obtain ⟨inside, closing, after, rfl, isClosing, insideClosed, -⟩ := leftsGroup rfl rfl
    refine ⟨inside, closing, after ++ (signs ++ right), by simp, isClosing, insideClosed, ?_⟩
    intro nothing
    simp only [List.append_eq_nil_iff] at nothing
    exact absurd nothing.2.2 rights.term_ne_nil
  | @ternary condition whenTrue whenFalse mark colon test first second tests isMark firsts isColon
      seconds testsGroup =>
    obtain ⟨head, tail, rfl⟩ := List.exists_cons_of_ne_nil tests.term_ne_nil
    obtain ⟨rfl, rfl⟩ := List.cons.inj isTokens
    obtain ⟨inside, closing, after, rfl, isClosing, insideClosed, -⟩ := testsGroup rfl rfl
    refine ⟨inside, closing, after ++ mark :: (whenTrue ++ colon :: whenFalse), by simp, isClosing,
      insideClosed, ?_⟩
    intro nothing
    simp at nothing
  | none | comma | cons | argumentsEnd | argumentEnd | argumentTerm | entriesEnd | entryEnd | entry =>
    cases isItem

/-- A value in parentheses is one group if it can be read. -/
theorem readTerms_grouped
    {opening closing : Token}
    {inside : List Token}
    (isOpening : opening.kind = .opening .round)
    (insideClosed : StyleSense.Closed inside)
    (isClosing : closing.kind = .closing .round)
    {nodes : List Node}
    (read : readTerms (opening :: (inside ++ [closing])) = .ok nodes) :
    ∃ inner, nodes = [.expression ⟨inner, opening.pos⟩] := by
  have nothingAsked : False → DistinctKeys (opening :: (inside ++ [closing])) := False.elim
  have derives := readTerms_derives nothingAsked read
  generalize isTokens : opening :: (inside ++ [closing]) = tokens at derives
  cases derives with
  | none => cases isTokens
  | comma isComma =>
    obtain ⟨rfl, -⟩ := List.cons.inj isTokens
    cases isOpening.symm.trans isComma
  | @cons first rest node others firsts later =>
    obtain ⟨head, tail, rfl⟩ := List.exists_cons_of_ne_nil firsts.term_ne_nil
    obtain ⟨rfl, whole⟩ := List.cons.inj isTokens
    obtain ⟨inside', closing', after, rfl, isClosing', insideClosed', alone⟩ :=
      firsts.starts_group isOpening
    -- both ways to find the closing parenthesis leave the same tokens
    have atEnd := insideClosed.closing?_eq isClosing []
    have same : inside ++ [closing] = inside' ++ closing' :: (after ++ rest) := by
      simpa using whole
    rw [same, insideClosed'.closing?_eq isClosing'] at atEnd
    obtain ⟨-, nothing, nothingLater⟩ : closing' = closing ∧ after = [] ∧ rest = [] := by
      simpa using atEnd
    obtain ⟨inner, rfl⟩ := alone nothing
    subst nothingLater
    have noOthers : others = [] := by
      generalize isNothing : ([] : List Token) = tokens at later
      cases later with
      | none => rfl
      | comma => cases isNothing
      | cons firsts => exact absurd (List.append_eq_nil_iff.mp isNothing.symm).1 firsts.term_ne_nil
    exact ⟨inner, by rw [noOthers]⟩

end Expression

end StyleSense
