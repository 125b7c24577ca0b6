import StyleSense.Color.Hex
import StyleSense.Node.Basic
import StyleSense.Token.Basic

/-!
Contract: reading value expressions from tokens.

A value is a list of terms. From the loosest to the tightest, a term is built with `? :`, `&&` and
`||`, equality, comparison, sums, products and signs; binary operators associate to the left.

Owns:
- `Expression.readTerms`, which reads all tokens of a value as a list of terms;
- `Expression.read`, the same with the place of the value.

Every reader returns the tokens it leaves together with the fact that there are fewer of them, which
is why the recursion ends.

Does not own: which part of a line is a value (`StyleSense.Statement.Basic`).
-/

namespace StyleSense.Expression

/-- What was read, and the tokens left, which are fewer than `bound`. -/
structure Read (α : Type) (bound : Nat) where
  value : α
  rest : List Token
  shorter : rest.length < bound

/-- A reader that takes at least one of the tokens. -/
abbrev Reading (α : Type) (tokens : List Token) :=
  Except ParseError (Read α tokens.length)

/-- A reader that may take no token. -/
abbrev Looking (α : Type) (tokens : List Token) :=
  Except ParseError (Read α (tokens.length + 1))

/-- The place of the next token, or of the last one of the value when there is none. -/
def placeOf (last : SourcePos) : List Token → SourcePos
  | [] => last
  | token :: _ => token.pos

/-- The next token closes the surrounding construct or separates terms. -/
def atBoundary : List Token → Bool
  | [] => true
  | token :: _ =>
    match token.kind with
    | .comma => true
    | .closing _ => true
    | _ => false

/-- The next token is the sign `sign`. -/
def nextIs (sign : Operator) : List Token → Bool
  | [] => false
  | token :: _ => token.isOp sign

/-- A branch of a `? :` ends at a boundary, the first one also at its colon. -/
def branchEnds (untilColon : Bool) (tokens : List Token) : Bool :=
  atBoundary tokens || (untilColon && nextIs .colon tokens)

/-- A minus joins two operands when blanks stand on both sides of it or on none; otherwise it
starts a new negative term. -/
def joins (minus : Token) : List Token → Bool
  | [] => false
  | next :: _ => minus.spaced == next.spaced

/-- A binary operator at the start of the tokens: its level, its sign, and the tokens after it. The
words `and`, `or`, `is` and `is not` stand for signs. -/
def infixOp? : (tokens : List Token) → Option (Operator × Operator.Level × { rest : List Token //
    rest.length < tokens.length })
  | [] => none
  | token :: rest =>
    have after : rest.length < (token :: rest).length := by simp
    match token.kind with
    | .op sign =>
      if sign == .minus && !joins token rest then none
      else sign.level?.map fun level => (sign, level, ⟨rest, after⟩)
    | .name "and" => some (.both, .logical, ⟨rest, after⟩)
    | .name "or" => some (.either, .logical, ⟨rest, after⟩)
    | .name "is" =>
      match rest with
      | next :: following =>
        if next.isName "not" then
          some (.notEqual, .equality, ⟨following, by simp only [List.length_cons]; omega⟩)
        else some (.equal, .equality, ⟨next :: following, by simp⟩)
      | [] => some (.equal, .equality, ⟨[], by simp⟩)
    | _ => none

/-- Two operands joined by an operator; the place is that of the left one. -/
def joined (left : Node) (sign : Operator) (right : Node) : Node :=
  .binary sign.spelling left right left.pos

/-- A term with a minus before it: a number is negated and starts at the sign; the sign of anything
else is not looked into. -/
def negated (minus : SourcePos) : Node → Node
  | .unit value suffix pos => .unit (-value) suffix { pos with column := minus.column }
  | _ => .other

/-- A hash is a color literal when it reads as one and a name otherwise. -/
def hashTerm (text : String) (pos : SourcePos) : Node :=
  match (Hex.read text.toList : Except (ColorError Float) (Rgba Float)) with
  | .ok color => .rgba color text pos
  | .error _ => .ident text none pos

/-- A call of `url` with its body as one string. -/
def urlTerm (body : String) (pos : SourcePos) : Node :=
  .call "url" [.expression ⟨[.string body pos], pos⟩] pos

/-- Extend a name by the members written after it without blanks: `name.member`. -/
def members (name : String) : (tokens : List Token) → String × { rest : List Token //
    rest.length ≤ tokens.length }
  | [] => (name, ⟨[], by simp⟩)
  | [token] => (name, ⟨[token], by simp⟩)
  | dot :: member :: following =>
    match member.kind with
    | .name key =>
      if dot.isOp .dot && !dot.spaced && !member.spaced then
        let (longer, rest) := members (name ++ "." ++ key) following
        (longer, ⟨rest.val, by have := rest.property; simp; omega⟩)
      else (name, ⟨dot :: member :: following, by simp⟩)
    | _ => (name, ⟨dot :: member :: following, by simp⟩)

/-- Drop the `...` written after a name without blanks. -/
def dropEllipsis : (tokens : List Token) → { rest : List Token // rest.length ≤ tokens.length }
  | [] => ⟨[], by simp⟩
  | token :: rest =>
    if token.isOp .ellipsis && !token.spaced then ⟨rest, by simp⟩ else ⟨token :: rest, by simp⟩

/-- Add a term to the argument being read, which starts at `pos` when this is its first term. -/
def extendArgument (current : Option Expression) (term : Node) (pos : SourcePos) : Expression :=
  match current with
  | some argument => { argument with terms := argument.terms ++ [term] }
  | none => ⟨[term], pos⟩

/-- The line of the last token that is in `tokens` and not in `rest`, its end. -/
def lineBefore (tokens rest : List Token) : Nat :=
  match (tokens.take (tokens.length - rest.length)).getLast? with
  | some token => token.pos.line
  | none => 0

-- The measure is seven times the number of tokens, plus the rank of a reader among those that call
-- each other before they take a token. It is one number and not a pair because recursion on a number
-- evaluates: what a value is read as can be computed.
mutual

/-- A term with an optional `? :`. `last` is the place of the last token of the value. -/
def term (last : SourcePos) (tokens : List Token) : Reading Node tokens :=
  match operand last 0 tokens with
  | .error error => .error error
  | .ok ⟨condition, [], shorter⟩ => .ok ⟨condition, [], shorter⟩
  | .ok ⟨condition, mark :: rest, shorter⟩ =>
    if mark.isOp .question then
      have fewer : rest.length < tokens.length := by
        simp only [List.length_cons] at shorter
        omega
      match branch last true rest with
      | .error error => .error error
      | .ok ⟨_, [], _⟩ => .error ⟨.expectedColon, last⟩
      | .ok ⟨whenTrue, colon :: following, shorterTrue⟩ =>
        if colon.isOp .colon then
          have stillFewer : following.length < tokens.length := by
            simp only [List.length_cons] at shorterTrue
            omega
          match branch last false following with
          | .error error => .error error
          | .ok ⟨whenFalse, after, shorterFalse⟩ =>
            .ok ⟨.ternary condition (.expression whenTrue) (.expression whenFalse) condition.pos,
              after, by simp only [List.length_cons] at *; omega⟩
        else .error ⟨.expectedColon, colon.pos⟩
    else .ok ⟨condition, mark :: rest, shorter⟩
termination_by 7 * tokens.length + 3

/-- The terms of one branch of a `? :`; there must be one. -/
def branch (last : SourcePos) (untilColon : Bool) (tokens : List Token) :
    Reading Expression tokens :=
  if branchEnds untilColon tokens then .error ⟨.expectedExpression, placeOf last tokens⟩
  else
    match term last tokens with
    | .error error => .error error
    | .ok ⟨first, rest, shorter⟩ =>
      match branchTerms last untilColon rest with
      | .error error => .error error
      | .ok ⟨others, after, shorterAfter⟩ =>
        .ok ⟨⟨first :: others, placeOf .unknown tokens⟩, after, by omega⟩
termination_by 7 * tokens.length + 4

/-- Terms up to a boundary, or to the colon of a `? :`. -/
def branchTerms (last : SourcePos) (untilColon : Bool) (tokens : List Token) :
    Looking (List Node) tokens :=
  if branchEnds untilColon tokens then .ok ⟨[], tokens, by omega⟩
  else
    match term last tokens with
    | .error error => .error error
    | .ok ⟨node, rest, shorter⟩ =>
      match branchTerms last untilColon rest with
      | .error error => .error error
      | .ok ⟨nodes, after, shorterAfter⟩ => .ok ⟨node :: nodes, after, by omega⟩
termination_by 7 * tokens.length + 4

/-- An operand of operators whose level has at least the rank `least`. -/
def operand (last : SourcePos) (least : Nat) (tokens : List Token) : Reading Node tokens :=
  match unary last tokens with
  | .error error => .error error
  | .ok ⟨left, rest, shorter⟩ =>
    match chain last least left rest with
    | .error error => .error error
    | .ok ⟨node, after, shorterAfter⟩ => .ok ⟨node, after, by omega⟩
termination_by 7 * tokens.length + 2

/-- Join further operands to `left` while the operators bind tightly enough. -/
def chain (last : SourcePos) (least : Nat) (left : Node) (tokens : List Token) :
    Looking Node tokens :=
  match infixOp? tokens with
  | none => .ok ⟨left, tokens, by omega⟩
  | some (sign, level, ⟨rest, shorterSign⟩) =>
    if level.rank < least then .ok ⟨left, tokens, by omega⟩
    else
      match operand last (level.rank + 1) rest with
      | .error error => .error error
      | .ok ⟨right, following, shorter⟩ =>
        match chain last least (joined left sign right) following with
        | .error error => .error error
        | .ok ⟨node, after, shorterAfter⟩ => .ok ⟨node, after, by omega⟩
termination_by 7 * tokens.length + 0

/-- A primary term with the signs before it. -/
def unary (last : SourcePos) (tokens : List Token) : Reading Node tokens :=
  match tokens with
  | [] => primary last []
  | sign :: rest =>
    if sign.isOp .minus then
      match unary last rest with
      | .error error => .error error
      | .ok ⟨node, after, shorter⟩ =>
        .ok ⟨negated sign.pos node, after, by simp only [List.length_cons]; omega⟩
    else if sign.isOp .plus then
      match unary last rest with
      | .error error => .error error
      | .ok ⟨node, after, shorter⟩ => .ok ⟨node, after, by simp only [List.length_cons]; omega⟩
    else if sign.isOp .bang || sign.isName "not" then
      match unary last rest with
      | .error error => .error error
      | .ok ⟨_, after, shorter⟩ => .ok ⟨.other, after, by simp only [List.length_cons]; omega⟩
    else primary last (sign :: rest)
termination_by 7 * tokens.length + 1

/-- A single value, a name or call, a group in parentheses, or an object. -/
def primary (last : SourcePos) (tokens : List Token) : Reading Node tokens :=
  match tokens with
  | [] => .error ⟨.unexpectedEnd, last⟩
  | token :: rest =>
    have after : rest.length < (token :: rest).length := by simp
    match token.kind with
    | .number value suffix => .ok ⟨.unit value suffix token.pos, rest, after⟩
    | .hash text => .ok ⟨hashTerm text token.pos, rest, after⟩
    | .string value => .ok ⟨.string value token.pos, rest, after⟩
    | .url body => .ok ⟨urlTerm body token.pos, rest, after⟩
    | .name name =>
      match named last name token.pos rest with
      | .error error => .error error
      | .ok ⟨node, following, shorter⟩ =>
        .ok ⟨node, following, by simp only [List.length_cons]; omega⟩
    | .opening .round =>
      match group last token.pos rest with
      | .error error => .error error
      | .ok ⟨nodes, following, shorter⟩ =>
        .ok ⟨.expression ⟨nodes, token.pos⟩, following, by simp only [List.length_cons]; omega⟩
    | .opening .curly =>
      match object last token.pos [] rest with
      | .error error => .error error
      | .ok ⟨entries, following, shorter⟩ =>
        .ok ⟨.object entries token.pos, following, by simp only [List.length_cons]; omega⟩
    | _ => .error ⟨.unexpectedToken, token.pos⟩
termination_by 7 * tokens.length + 0

/-- What a name starts: a call when a parenthesis follows without blanks, otherwise the name with
its members; a subscript after it is read and dropped. -/
def named (last : SourcePos) (name : String) (pos : SourcePos) (tokens : List Token) :
    Looking Node tokens :=
  match tokens with
  | [] => .ok ⟨.ident name none pos, [], by simp⟩
  | token :: rest =>
    if token.kind == .opening .round && !token.spaced then
      match arguments last pos none rest with
      | .error error => .error error
      | .ok ⟨args, after, shorter⟩ =>
        .ok ⟨.call name args pos, after, by simp only [List.length_cons]; omega⟩
    else
      match members name (token :: rest) with
      | (longer, ⟨[], _⟩) => .ok ⟨.ident longer none pos, [], by simp⟩
      | (longer, ⟨bracket :: following, bound⟩) =>
        if bracket.kind == .opening .square && !bracket.spaced then
          match subscript last bracket.pos following with
          | .error error => .error error
          | .ok ⟨_, after, shorter⟩ =>
            let remaining := dropEllipsis after
            .ok ⟨.ident longer none pos, remaining.val, by
              have := remaining.property
              simp only [List.length_cons] at *
              omega⟩
        else
          let remaining := dropEllipsis (bracket :: following)
          .ok ⟨.ident longer none pos, remaining.val, by have := remaining.property; omega⟩
termination_by 7 * tokens.length + 6
decreasing_by all_goals simp only [List.length_cons] at *; omega

/-- The terms of a group up to its closing parenthesis; commas are passed over. -/
def group (last opened : SourcePos) (tokens : List Token) : Reading (List Node) tokens :=
  match tokens with
  | [] => .error ⟨.unclosedParenthesis, opened⟩
  | token :: rest =>
    if token.kind == .closing .round then .ok ⟨[], rest, by simp⟩
    else if token.kind == .comma then
      match group last opened rest with
      | .error error => .error error
      | .ok ⟨nodes, after, shorter⟩ => .ok ⟨nodes, after, by simp only [List.length_cons]; omega⟩
    else
      match term last (token :: rest) with
      | .error error => .error error
      | .ok ⟨node, following, shorter⟩ =>
        match group last opened following with
        | .error error => .error error
        | .ok ⟨nodes, after, shorterAfter⟩ => .ok ⟨node :: nodes, after, by omega⟩
termination_by 7 * tokens.length + 4
decreasing_by all_goals simp only [List.length_cons] at *; omega

/-- The arguments of a call up to its closing parenthesis, separated by commas. `current` is the
argument being read. -/
def arguments (last opened : SourcePos) (current : Option Expression) (tokens : List Token) :
    Reading (List Node) tokens :=
  match tokens with
  | [] => .error ⟨.unclosedParenthesis, opened⟩
  | token :: rest =>
    if token.kind == .closing .round then
      .ok ⟨current.toList.map .expression, rest, by simp⟩
    else if token.kind == .comma then
      match arguments last opened none rest with
      | .error error => .error error
      | .ok ⟨args, after, shorter⟩ =>
        .ok ⟨.expression (current.getD ⟨[], .unknown⟩) :: args, after, by
          simp only [List.length_cons]
          omega⟩
    else
      match term last (token :: rest) with
      | .error error => .error error
      | .ok ⟨node, following, shorter⟩ =>
        match arguments last opened (some (extendArgument current node token.pos)) following with
        | .error error => .error error
        | .ok ⟨args, after, shorterAfter⟩ => .ok ⟨args, after, by omega⟩
termination_by 7 * tokens.length + 4
decreasing_by all_goals simp only [List.length_cons] at *; omega

/-- The terms of a subscript up to its closing bracket, which are not kept. -/
def subscript (last opened : SourcePos) (tokens : List Token) : Reading Unit tokens :=
  match tokens with
  | [] => .error ⟨.unclosedSubscript, opened⟩
  | token :: rest =>
    if token.kind == .closing .square then .ok ⟨(), rest, by simp⟩
    else
      match term last (token :: rest) with
      | .error error => .error error
      | .ok ⟨_, following, shorter⟩ =>
        match subscript last opened following with
        | .error error => .error error
        | .ok ⟨_, after, shorterAfter⟩ => .ok ⟨(), after, by omega⟩
termination_by 7 * tokens.length + 4
decreasing_by all_goals simp only [List.length_cons] at *; omega

/-- The entries of an object up to its closing brace. -/
def object (last opened : SourcePos) (entries : List (String × Node)) (tokens : List Token) :
    Reading (List (String × Node)) tokens :=
  match tokens with
  | [] => .error ⟨.unclosedObject, opened⟩
  | token :: rest =>
    let key? := match token.kind with
      | .name key => some key
      | .string key => some key
      | _ => none
    if token.kind == .closing .curly then .ok ⟨entries, rest, by simp⟩
    else if token.kind == .comma then
      match object last opened entries rest with
      | .error error => .error error
      | .ok ⟨result, after, shorter⟩ => .ok ⟨result, after, by simp only [List.length_cons]; omega⟩
    else match key? with
      | none => .error ⟨.expectedKey, token.pos⟩
      | some key =>
        match rest with
        | [] => .error ⟨.expectedColon, last⟩
        | colon :: following =>
          if colon.isOp .colon then
            match entryTerms last none following with
            | .error error => .error error
            | .ok ⟨terms, unread, shorter⟩ =>
              let value : Node := .expression ⟨terms, token.pos⟩
              match object last opened (Node.setEntry key value entries) unread with
              | .error error => .error error
              | .ok ⟨result, after, shorterAfter⟩ =>
                .ok ⟨result, after, by simp only [List.length_cons] at *; omega⟩
          else .error ⟨.expectedColon, colon.pos⟩
termination_by 7 * tokens.length + 5
decreasing_by all_goals simp only [List.length_cons] at *; omega

/-- The terms of an entry up to a boundary or, once there is a term, to the end of the line on which
the last one ends. -/
def entryTerms (last : SourcePos) (previous : Option Nat) (tokens : List Token) :
    Looking (List Node) tokens :=
  let nextLine := (placeOf .unknown tokens).line
  if atBoundary tokens || previous.any (· != nextLine) then .ok ⟨[], tokens, by omega⟩
  else
    match term last tokens with
    | .error error => .error error
    | .ok ⟨node, rest, shorter⟩ =>
      match entryTerms last (some (lineBefore tokens rest)) rest with
      | .error error => .error error
      | .ok ⟨nodes, after, shorterAfter⟩ => .ok ⟨node :: nodes, after, by omega⟩
termination_by 7 * tokens.length + 4

end

/-- Terms up to the end of the tokens; commas between them are passed over. -/
def readTermsFrom (last : SourcePos) (tokens : List Token) :
    Except ParseError (List Node) :=
  match tokens with
  | [] => .ok []
  | token :: rest =>
    if token.kind == .comma then readTermsFrom last rest
    else
      match term last (token :: rest) with
      | .error error => .error error
      | .ok ⟨node, following, _⟩ =>
        match readTermsFrom last following with
        | .error error => .error error
        | .ok nodes => .ok (node :: nodes)
termination_by tokens.length
decreasing_by
  · simp only [List.length_cons]; omega
  · assumption

/-- The terms of a complete value. -/
def readTerms (tokens : List Token) : Except ParseError (List Node) :=
  readTermsFrom ((tokens.getLast?.map Token.pos).getD .unknown) tokens

/-- A complete value; `pos` is the place of a value without tokens. -/
def read (tokens : List Token) (pos : SourcePos) : Except ParseError Expression :=
  match readTerms tokens with
  | .error error => .error error
  | .ok nodes => .ok ⟨nodes, placeOf pos tokens⟩

end StyleSense.Expression
