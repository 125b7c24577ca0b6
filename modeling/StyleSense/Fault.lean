/-!
Contract: what can be wrong with a stylesheet, and where.

Owns:
- `SourcePos`, the line and column at which a token or a node starts;
- `Fault`, the causes of a failed parse, and `ParseError`, a cause at a place;
- their wording.

Does not own: ranges in a document (`StyleSense.Document`).
-/

namespace StyleSense

/-- A place in the source: line and byte column, both counted from one, and zero where unknown. -/
structure SourcePos where
  line : Nat
  column : Nat
deriving DecidableEq, Repr, Inhabited

/-- The place of something that has none. -/
def SourcePos.unknown : SourcePos := ⟨0, 0⟩

/-- Why a stylesheet does not parse. -/
inductive Fault where
  | invalidNumber (text : String)
  | unterminatedString
  | unclosedUrl
  | unclosedComment
  | unexpectedCharacter (c : Char)
  | expectedColon
  | expectedExpression
  | unexpectedEnd
  | unexpectedToken
  | unclosedParenthesis
  | unclosedSubscript
  | unclosedObject
  | expectedKey
  | unclosedBracket
  | unexpectedIndentation
  | unclosedInterpolation
deriving DecidableEq, Repr

/-- The wording of a cause. -/
def Fault.text : Fault → String
  | .invalidNumber text => "invalid number '" ++ text ++ "'"
  | .unterminatedString => "unterminated string"
  | .unclosedUrl => "unclosed url("
  | .unclosedComment => "unclosed comment"
  | .unexpectedCharacter c => "unexpected character '" ++ String.singleton c ++ "'"
  | .expectedColon => "expected ':'"
  | .expectedExpression => "expected expression"
  | .unexpectedEnd => "unexpected end of expression"
  | .unexpectedToken => "unexpected token"
  | .unclosedParenthesis => "unclosed '('"
  | .unclosedSubscript => "unclosed '['"
  | .unclosedObject => "unclosed object literal"
  | .expectedKey => "expected object key"
  | .unclosedBracket => "unclosed bracket"
  | .unexpectedIndentation => "unexpected indentation"
  | .unclosedInterpolation => "unclosed interpolation"

/-- A cause at a place. -/
structure ParseError where
  fault : Fault
  pos : SourcePos
deriving DecidableEq, Repr

/-- The wording of an error, with its place. -/
def ParseError.message (error : ParseError) : String :=
  "line " ++ toString error.pos.line ++ ", column " ++ toString error.pos.column ++ ": "
    ++ error.fault.text

end StyleSense
