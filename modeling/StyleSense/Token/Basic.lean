import StyleSense.Fault
import StyleSense.Token.Operator

/-!
Contract: tokens of value expressions.

Owns:
- `Bracket`, the three kinds of brackets;
- `Token`, a lexical element with the place where it starts.

Does not own: how a text is cut into tokens (`StyleSense.Token.Lexer`).
-/

namespace StyleSense

/-- A kind of brackets: `()`, `[]` or `{}`. -/
inductive Bracket where
  | round
  | square
  | curly
deriving DecidableEq, Repr

/-- The opening sign. -/
def Bracket.opening : Bracket → Char
  | .round => '('
  | .square => '['
  | .curly => '\x7b'

/-- The closing sign. -/
def Bracket.closing : Bracket → Char
  | .round => ')'
  | .square => ']'
  | .curly => '\x7d'

/-- What a token is. -/
inductive Token.Kind where
  /-- A name, also `$variable`, `-vendor-name`, `!important` and `@lookup`. -/
  | name (text : String)
  /-- A number with an optional suffix: a unit or the percent sign. -/
  | number (value : Float) (suffix : Option String)
  /-- A hash sign and the name characters after it. -/
  | hash (text : String)
  /-- The value of a quoted string. -/
  | string (value : String)
  /-- What stands between the parentheses of `url()`. -/
  | url (body : String)
  | op (sign : Operator)
  | opening (bracket : Bracket)
  | closing (bracket : Bracket)
  | comma
deriving DecidableEq, Repr

/-- A lexical element. -/
structure Token where
  kind : Token.Kind
  pos : SourcePos
  /-- White space or a comment stands before it. -/
  spaced : Bool
deriving DecidableEq, Repr

namespace Token

/-- Whether the token is the sign `sign`. -/
def isOp (sign : Operator) (token : Token) : Bool :=
  token.kind == .op sign

/-- Whether the token is the name `text`. -/
def isName (text : String) (token : Token) : Bool :=
  token.kind == .name text

end Token

end StyleSense
