import StyleSense.Proofs.Expression.Run

/-!
Contract: reading a value comes to the end of its tokens, and a value that can be read has properly
nested brackets.

Owns:
- `Nested`, tokens whose brackets are properly nested and of matching kinds;
- `Expression.Derives.nested`, by induction on the grammar of values: the arguments of a call and the
  entries of an object, which are read from behind an opening bracket, end with the one that closes it;
- `Expression.Turns`, the turns of the loop over the terms of a value, each of which takes a token;
- `Expression.readTerms_consumes`, the result for all tokens.

Does not own: the parenthesis that closes a given one (`StyleSense.Proofs.Expression.Closing`).
-/

namespace StyleSense

/-- The token is neither an opening nor a closing bracket. -/
def Token.IsNoBracket (token : Token) : Prop :=
  ∀ bracket, token.kind ≠ .opening bracket ∧ token.kind ≠ .closing bracket

theorem Token.isNoBracket_of_isPlain
    {token : Token}
    (plain : token.isPlain = true) :
    token.IsNoBracket := by
  intro bracket
  constructor
  · intro isOpening
    rw [isPlain, isOpening] at plain
    cases plain
  · intro isClosing
    rw [isPlain, isClosing] at plain
    cases plain

/-- Tokens whose brackets are properly nested: each opening bracket is followed by nested tokens and a
closing one of its kind. -/
inductive Nested : List Token → Prop
  | nil : Nested []
  | cons {token : Token} {rest : List Token}
      (noBracket : token.IsNoBracket)
      (others : Nested rest) :
      Nested (token :: rest)
  | enclosed {opening closing : Token} {inside rest : List Token} (bracket : Bracket)
      (isOpening : opening.kind = .opening bracket)
      (insides : Nested inside)
      (isClosing : closing.kind = .closing bracket)
      (others : Nested rest) :
      Nested (opening :: (inside ++ closing :: rest))

namespace Nested

variable {left right : List Token}

theorem append
    (lefts : Nested left)
    (rights : Nested right) :
    Nested (left ++ right) := by
  induction lefts with
  | nil => exact rights
  | cons noBracket _ inductionHypothesis => exact .cons noBracket inductionHypothesis
  | enclosed bracket isOpening insides isClosing _ _ inductionHypothesis =>
    rw [List.cons_append, List.append_assoc, List.cons_append]
    exact .enclosed bracket isOpening insides isClosing inductionHypothesis

theorem singleton
    {token : Token}
    (noBracket : token.IsNoBracket) :
    Nested [token] :=
  .cons noBracket .nil

theorem of_plain
    {tokens : List Token}
    (plain : ∀ token ∈ tokens, token.isPlain = true) :
    Nested tokens := by
  induction tokens with
  | nil => exact .nil
  | cons token rest inductionHypothesis =>
    obtain ⟨here, later⟩ := List.forall_mem_cons.1 plain
    exact .cons (Token.isNoBracket_of_isPlain here) (inductionHypothesis later)

end Nested

namespace Expression

variable {distinct : Prop} {tokens mid rest : List Token} {node : Node} {nodes : List Node}
  {last : SourcePos}

/-! ## Nested values -/

theorem isNoBracket_of_key?
    {token : Token}
    {key : String}
    (isKey : key? token = some key) :
    token.IsNoBracket := by
  intro bracket
  constructor
  · intro isOpening
    rw [key?, isOpening] at isKey
    cases isKey
  · intro isClosing
    rw [key?, isClosing] at isKey
    cases isKey

/-- Nested tokens with a closing bracket of the given kind after them. -/
def NestedUpTo (bracket : Bracket) (tokens : List Token) : Prop :=
  ∃ inside closing, tokens = inside ++ [closing] ∧ closing.kind = .closing bracket ∧ Nested inside

namespace NestedUpTo

variable {bracket : Bracket}

theorem closing
    {closing : Token}
    (isClosing : closing.kind = .closing bracket) :
    NestedUpTo bracket [closing] :=
  ⟨[], closing, rfl, isClosing, .nil⟩

theorem append
    {first : List Token}
    (firsts : Nested first)
    (others : NestedUpTo bracket rest) :
    NestedUpTo bracket (first ++ rest) := by
  obtain ⟨inside, closing, rfl, isClosing, insides⟩ := others
  exact ⟨first ++ inside, closing, (List.append_assoc ..).symm, isClosing, firsts.append insides⟩

theorem enclosed
    {opening : Token}
    (isOpening : opening.kind = .opening bracket)
    (upTo : NestedUpTo bracket tokens) :
    Nested (opening :: tokens) := by
  obtain ⟨inside, closing, rfl, isClosing, insides⟩ := upTo
  exact .enclosed bracket isOpening insides isClosing .nil

end NestedUpTo

/-- How the brackets of the tokens of an item are nested. -/
def Item.Nested (tokens : List Token) : Item → Prop
  | .arguments _ _ => NestedUpTo .round tokens
  | .entries _ _ => NestedUpTo .curly tokens
  | _ => StyleSense.Nested tokens

/-- What is read is nested. -/
theorem Derives.nested
    {item : Item}
    (derives : Derives distinct tokens item) :
    item.Nested tokens := by
  induction derives with
  | number isKind | hash isKind | string isKind | url isKind =>
    exact .singleton (by simp [Token.IsNoBracket, isKind])
  | ident _ isName plain =>
    exact .cons (by simp [Token.IsNoBracket, isName]) (.of_plain plain)
  | subscripted _ isName plain isOpening _ isClosing plainEnd inside =>
    refine .cons (by simp [Token.IsNoBracket, isName]) (StyleSense.Nested.append (.of_plain plain) ?_)
    exact .enclosed .square isOpening inside isClosing (.of_plain plainEnd)
  | call isName isOpening _ inside =>
    exact .cons (by simp [Token.IsNoBracket, isName]) (inside.enclosed isOpening)
  | group isOpening _ isClosing inside => exact .enclosed .round isOpening inside isClosing .nil
  | object isOpening _ inside => exact inside.enclosed isOpening
  | negated isSign _ inner | plus isSign _ inner =>
    exact .cons (Token.isNoBracket_of_isPlain (Token.isPlain_of_isOp isSign)) inner
  | denied plain _ inner => exact .cons (Token.isNoBracket_of_isPlain plain) inner
  | joined _ _ plain _ lefts rights =>
    exact StyleSense.Nested.append lefts (StyleSense.Nested.append (.of_plain plain) rights)
  | ternary _ isMark _ isColon _ tests firsts seconds =>
    refine StyleSense.Nested.append tests ?_
    refine .cons (Token.isNoBracket_of_isPlain (Token.isPlain_of_isOp isMark)) ?_
    refine StyleSense.Nested.append firsts ?_
    exact .cons (Token.isNoBracket_of_isPlain (Token.isPlain_of_isOp isColon)) seconds
  | none => exact .nil
  | comma isComma _ others => exact .cons (by simp [Token.IsNoBracket, isComma]) others
  | cons _ _ firsts others => exact StyleSense.Nested.append firsts others
  | argumentsEnd _ isClosing => exact .closing isClosing
  | argumentEnd _ isComma _ others =>
    exact NestedUpTo.append (.singleton (by simp [Token.IsNoBracket, isComma])) others
  | argumentTerm _ _ _ firsts others => exact NestedUpTo.append firsts others
  | entriesEnd _ isClosing => exact .closing isClosing
  | entryEnd isComma _ others =>
    exact NestedUpTo.append (.singleton (by simp [Token.IsNoBracket, isComma])) others
  | @entry token colon value rest _ _ _ _ isKey isColon _ _ _ values others =>
    have key : StyleSense.Nested [token, colon] :=
      .cons (isNoBracket_of_key? isKey)
        (.singleton (Token.isNoBracket_of_isPlain (Token.isPlain_of_isOp isColon)))
    have entry : StyleSense.Nested ([token, colon] ++ value) := key.append values
    exact NestedUpTo.append entry others

/-- A term takes tokens off the front, at least one, and what it takes is nested. -/
theorem term_consumes (read : Gives (term last tokens) node rest) :
    ∃ taken, taken ≠ [] ∧ tokens = taken ++ rest ∧ StyleSense.Nested taken := by
  obtain ⟨shorter, read⟩ := read
  have yields := termsYield trivial _ (Nat.lt_succ_self _) (known_of_trivial last tokens)
  rw [read] at yields
  obtain ⟨taken, split, derives⟩ := yields
  refine ⟨taken, ?_, split, derives.nested⟩
  rintro rfl
  rw [split] at shorter
  exact absurd shorter (Nat.lt_irrefl _)

/-! ## The loop over the terms -/

/-- A number of turns lead from some tokens to others. In each turn, a comma is passed over or a term
is read. -/
inductive Turns (last : SourcePos) : Nat → List Token → List Node → List Token → Prop
  | start (tokens : List Token) : Turns last 0 tokens [] tokens
  | comma {turns : Nat} {token : Token} {mid rest : List Token} {nodes : List Node}
      (isComma : token.kind = .comma)
      (later : Turns last turns mid nodes rest) :
      Turns last (turns + 1) (token :: mid) nodes rest
  | term {turns : Nat} {tokens mid rest : List Token} {node : Node} {nodes : List Node}
      (first : Gives (term last tokens) node mid)
      (later : Turns last turns mid nodes rest) :
      Turns last (turns + 1) tokens (node :: nodes) rest

/-- Every turn takes a token. -/
theorem Turns.length_le
    {turns : Nat}
    (run : Turns last turns tokens nodes rest) :
    turns + rest.length ≤ tokens.length := by
  induction run with
  | start => omega
  | comma _ _ inductionHypothesis =>
    rw [List.length_cons]
    omega
  | term first _ inductionHypothesis =>
    obtain ⟨shorter, _⟩ := first
    omega

/-- The turns lead to the end of the tokens, or to tokens that do not start with a term. -/
theorem readTermsFrom_turns
    (last : SourcePos)
    (tokens : List Token) :
    match readTermsFrom last tokens with
    | .ok nodes => ∃ turns, Turns last turns tokens nodes []
    | .error error => ∃ turns nodes rest, rest ≠ [] ∧ Turns last turns tokens nodes rest ∧
        term last rest = .error error := by
  cases tokens with
  | nil =>
    rw [readTermsFrom]
    exact ⟨0, .start []⟩
  | cons token rest =>
    rw [readTermsFrom]
    by_cases isComma : token.kind = .comma
    · have later := readTermsFrom_turns last rest
      rw [if_pos (beq_iff_eq.2 isComma)]
      generalize readTermsFrom last rest = result at later ⊢
      cases result with
      | ok nodes =>
        obtain ⟨turns, run⟩ := later
        exact ⟨turns + 1, .comma isComma run⟩
      | error error =>
        obtain ⟨turns, nodes, unread, nonempty, run, failed⟩ := later
        exact ⟨turns + 1, nodes, unread, nonempty, .comma isComma run, failed⟩
    · rw [if_neg (by simpa using isComma)]
      cases first : term last (token :: rest) with
      | error error => exact ⟨0, [], token :: rest, List.cons_ne_nil _ _, .start _, first⟩
      | ok read =>
        obtain ⟨node, following, shorter⟩ := read
        have given : Gives (term last (token :: rest)) node following := ⟨shorter, first⟩
        have later := readTermsFrom_turns last following
        dsimp only
        generalize readTermsFrom last following = result at later ⊢
        cases result with
        | ok nodes =>
          obtain ⟨turns, run⟩ := later
          exact ⟨turns + 1, .term given run⟩
        | error error =>
          obtain ⟨turns, nodes, unread, nonempty, run, failed⟩ := later
          exact ⟨turns + 1, node :: nodes, unread, nonempty, .term given run, failed⟩
termination_by tokens.length
decreasing_by
  all_goals
    subst_vars
    simp only [List.length_cons] at *
    omega

/-- Reading a value comes to an end, whatever the tokens are: a term that is read takes tokens off the
front, at least one; the loop over the terms makes at most as many turns as there are tokens, and gives
a value only when it has come to the end of them; and then their brackets are properly nested. -/
theorem readTerms_consumes (tokens : List Token) :
    (∀ last start node rest, Gives (term last start) node rest →
      ∃ taken, taken ≠ [] ∧ start = taken ++ rest ∧ StyleSense.Nested taken) ∧
    match readTerms tokens with
    | .ok nodes =>
      (∃ turns ≤ tokens.length, Turns (lastPlace tokens) turns tokens nodes []) ∧
        StyleSense.Nested tokens
    | .error error =>
      ∃ turns < tokens.length, ∃ nodes rest, Turns (lastPlace tokens) turns tokens nodes rest ∧
        term (lastPlace tokens) rest = .error error := by
  refine ⟨fun last start node rest => term_consumes, ?_⟩
  have run := readTermsFrom_turns (lastPlace tokens) tokens
  cases result : readTerms tokens with
  | ok nodes =>
    rw [readTerms, ← lastPlace] at result
    rw [result] at run
    obtain ⟨turns, run⟩ := run
    have nothingAsked : False → DistinctKeys tokens := False.elim
    refine ⟨⟨turns, ?_, run⟩, (readTerms_derives nothingAsked result).nested⟩
    simpa using run.length_le
  | error error =>
    rw [readTerms, ← lastPlace] at result
    rw [result] at run
    obtain ⟨turns, nodes, rest, nonempty, run, failed⟩ := run
    refine ⟨turns, ?_, nodes, rest, run, failed⟩
    have bound := run.length_le
    have positive := List.length_pos_iff.2 nonempty
    omega

end Expression

end StyleSense
