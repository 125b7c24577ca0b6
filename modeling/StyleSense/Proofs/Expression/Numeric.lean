import StyleSense.Proofs.Expression.Step
import StyleSense.Proofs.Token.Numeral
import StyleSense.Swatch.Occurrence

/-!
Contract: reading calls whose arguments are numbers.

Owns:
- `Numeric`, the tokens of a number with a minus before it or not;
- `read_call`, by which a call is read with its arguments, and the readers of arguments that are
  numbers, separated by commas or by blanks, with a division in the last of them.

Does not own: which texts have such tokens (`StyleSense.Proofs.Token.Numeral`).
-/

namespace StyleSense.Expression

/-- The tokens do not go on with a term: there is none, or a comma, a bracket or a number. -/
def EndsTerm (rest : List Token) : Prop :=
  ∀ token ∈ rest.head?, token.kind = .comma ∨ token.kind = .closing .round ∨
    ∃ value suffix, token.kind = .number value suffix

/-- The tokens of a number with a minus before it or not. -/
inductive Numeric (channel : Channel Float) : List Token → Prop where
  | bare {token : Token}
      (isNumber : token.kind = .number channel.value channel.suffix) : Numeric channel [token]
  | negative {sign token : Token} {value : Float}
      (isMinus : sign.kind = .op .minus)
      (isNumber : token.kind = .number value channel.suffix)
      (opposite : channel.value = -value) : Numeric channel [sign, token]

variable {last : SourcePos} {channel : Channel Float} {tokens rest : List Token}

theorem infixOp?_of_endsTerm (ends : EndsTerm rest) : infixOp? rest = none := by
  cases rest with
  | nil => rfl
  | cons token following =>
    unfold infixOp?
    rcases ends token rfl with comma | closing | ⟨value, suffix, number⟩
    · simp only [comma]
    · simp only [closing]
    · simp only [number]

theorem chain_gives
    (ends : EndsTerm rest)
    (least : Nat)
    (node : Node) :
    Gives (chain last least node rest) node rest :=
  chain_done (by simp [infixOp?_of_endsTerm ends]) node

theorem primary_number
    {token : Token}
    {value : Float}
    {suffix : Option String}
    (isNumber : token.kind = .number value suffix)
    (rest : List Token) :
    Gives (primary last (token :: rest)) (.unit value suffix token.pos) rest := by
  obtain ⟨kind, pos, spaced⟩ := token
  obtain rfl : kind = .number value suffix := isNumber
  rw [primary]
  exact ⟨by simp, rfl⟩

/-- A number is read as a channel. -/
theorem unary_gives (numeric : Numeric channel tokens) :
    ∃ node, Node.channel? node = some channel ∧ ∀ rest,
      Gives (unary last (tokens ++ rest)) node rest := by
  have number : ∀ {token : Token} {value : Float} {suffix : Option String} (rest : List Token),
      token.kind = .number value suffix →
        Gives (unary last (token :: rest)) (.unit value suffix token.pos) rest := by
    intro token value suffix rest isNumber
    rw [unary, if_neg (by simp [Token.isOp, isNumber]), if_neg (by simp [Token.isOp, isNumber]),
      if_neg (by simp [Token.isOp, Token.isName, isNumber])]
    exact primary_number isNumber rest
  cases numeric with
  | @bare token isNumber =>
    exact ⟨.unit channel.value channel.suffix token.pos, rfl, fun rest => number rest isNumber⟩
  | @negative sign token value isMinus isNumber opposite =>
    refine ⟨.unit (-value) channel.suffix { token.pos with column := sign.pos.column }, ?_, ?_⟩
    · rw [Node.channel?, ← opposite]
    · intro rest
      obtain ⟨shorter, read⟩ := number rest isNumber
      rw [List.cons_append, unary, if_pos (by simp [Token.isOp, isMinus]), List.singleton_append, read]
      exact ⟨by simp only [List.length_cons]; omega, rfl⟩

theorem operand_of_unary
    {node : Node}
    (read : Gives (unary last tokens) node rest)
    (ends : EndsTerm rest)
    (least : Nat) :
    Gives (operand last least tokens) node rest :=
  operand_of_chain read (chain_gives ends least node)

/-! ## Terms -/

theorem term_gives
    {node : Node}
    (read : Gives (operand last 0 tokens) node rest)
    (ends : EndsTerm rest) :
    Gives (term last tokens) node rest := by
  refine term_of_operand read ?_
  cases rest with
  | nil => rfl
  | cons mark following =>
    rcases ends mark rfl with comma | closing | ⟨value, suffix, number⟩ <;>
      simp [nextIs, Token.isOp, *]

theorem channels?_of_channel?
    {node : Node}
    (isChannel : Node.channel? node = some channel) :
    Node.channels? node = some [channel] := by
  cases node with
  | unit value suffix pos =>
    obtain rfl : (⟨value, suffix⟩ : Channel Float) = channel := Option.some.inj isChannel
    rfl
  | _ => cases isChannel

/-- All tokens are one term. -/
theorem read_of_unary
    {token : Token}
    {following : List Token}
    {node : Node}
    (notComma : token.kind ≠ .comma)
    (read : Gives (unary (lastPlace (token :: following)) (token :: following)) node [])
    (pos : SourcePos) :
    Expression.read (token :: following) pos = .ok ⟨[node], token.pos⟩ := by
  have noMore : EndsTerm [] := fun _ isIn => nomatch isIn
  obtain ⟨shorter, read⟩ := term_gives (operand_of_unary read noMore 0) noMore
  have terms : readTerms (token :: following) = .ok [node] := by
    rw [lastPlace] at read
    rw [readTerms, readTermsFrom, if_neg (by simpa using notComma), read]
    simp only
    rw [readTermsFrom]
  rw [Expression.read, terms]
  rfl

theorem term_numeric (numeric : Numeric channel tokens) :
    ∃ node, Node.channel? node = some channel ∧ ∀ {rest}, EndsTerm rest →
      Gives (term last (tokens ++ rest)) node rest := by
  obtain ⟨node, isChannel, reads⟩ := unary_gives numeric
  exact ⟨node, isChannel, fun ends => term_gives (operand_of_unary (reads _) ends 0) ends⟩

/-- A number divided by another one. -/
theorem term_division
    {divisor : Channel Float}
    {divisorTokens : List Token}
    {slash : Token}
    (dividend : Numeric channel tokens)
    (isSlash : slash.kind = .op .slash)
    (numeric : Numeric divisor divisorTokens) :
    ∃ node, Node.channels? node = some [channel, divisor] ∧ ∀ {rest}, EndsTerm rest →
      Gives (term last (tokens ++ slash :: divisorTokens ++ rest)) node rest := by
  obtain ⟨left, isLeft, readsLeft⟩ := unary_gives dividend
  obtain ⟨right, isRight, readsRight⟩ := unary_gives numeric
  refine ⟨joined left .slash right, ?_, fun {rest} ends => term_gives ?_ ends⟩
  · simp only [joined, Node.channels?, isLeft, isRight]
    rfl
  have sign : infixOp? (slash :: (divisorTokens ++ rest)) =
      some (.slash, .multiplicative, ⟨divisorTokens ++ rest, by simp⟩) := by
    unfold infixOp?
    simp only [isSlash]
    rfl
  have divided := operand_of_unary (readsRight rest) ends (Operator.Level.multiplicative.rank + 1)
  rw [List.append_assoc, List.cons_append]
  exact operand_of_chain (readsLeft _)
    (chain_join sign (Nat.zero_le _) divided (chain_gives ends 0 (joined left .slash right)))

end StyleSense.Expression
