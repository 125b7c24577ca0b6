import StyleSense.Token.Lexer

/-!
Contract: logical lines.

A logical line is a physical line together with the lines that continue it because a bracket is open
or a comma stands at its end.

Owns:
- `Fragment`, a piece of one physical line, and `Line`, the fragments of a logical line;
- `Line.tokensFrom`, the tokens of a logical line.

Does not own: how a text is read as logical lines (`StyleSense.Line.Scan`).
-/

namespace StyleSense

/-- A piece of source on one physical line. -/
structure Fragment where
  /-- Number of the line, counted from one. -/
  line : Nat
  /-- Byte offset of the text in that line. -/
  offset : Nat
  text : List Char
deriving DecidableEq, Repr

/-- A logical line. -/
structure Line where
  /-- Bytes of blanks before it. -/
  indent : Nat
  head : Fragment
  /-- The lines that continue it. -/
  tail : List Fragment
deriving DecidableEq, Repr

/-- Where a fragment starts. -/
def Fragment.pos (fragment : Fragment) : SourcePos :=
  ⟨fragment.line, fragment.offset + 1⟩

/-- The tokens of a fragment. -/
def Fragment.tokens (fragment : Fragment) : Except ParseError (List Token) :=
  tokenize fragment.text fragment.line fragment.offset

namespace Line

/-- Where a logical line starts. -/
def pos (line : Line) : SourcePos :=
  line.head.pos

/-- The fragments of a logical line in order. -/
def fragments (line : Line) : List Fragment :=
  line.head :: line.tail

/-- The tokens of some fragments in order. -/
def fragmentTokens : List Fragment → Except ParseError (List Token)
  | [] => .ok []
  | fragment :: rest =>
    match fragment.tokens with
    | .error error => .error error
    | .ok tokens =>
      match fragmentTokens rest with
      | .error error => .error error
      | .ok others => .ok (tokens ++ others)

/-- The tokens of a logical line without the part of its head before `value`, an end of it. -/
def tokensOf (line : Line) (value : List Char) : Except ParseError (List Token) :=
  let skipped := Text.width line.head.text - Text.width value
  fragmentTokens
    ({ line.head with offset := line.head.offset + skipped, text := value } :: line.tail)

/-- Where `value`, an end of the head, starts. -/
def placeOf (line : Line) (value : List Char) : SourcePos :=
  ⟨line.head.line,
    line.head.offset + (Text.width line.head.text - Text.width value) + 1⟩

end Line

end StyleSense
