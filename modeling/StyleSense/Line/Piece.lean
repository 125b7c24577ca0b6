import StyleSense.Text.Blank
import StyleSense.Text.Offset

/-!
Contract: several statements on one line.

Owns:
- `splitStatements`, which cuts a line at semicolons and at the braces of rule bodies that are
  written on the line.

A brace opens a body when it follows blanks that follow some text, stands outside brackets, and is
followed by a blank or by the end of the line. Any other opening brace is an interpolation. Brackets
are counted without a bound, for lines with fewer than `2 ^ 31` of them, whose count 32 bits hold.

Does not own: bodies on lines of their own, which are found by indentation
(`StyleSense.Line.Tree`).
-/

namespace StyleSense

open Text

/-- One statement of a line that packs several. -/
structure Piece where
  /-- Number of bodies on the line that are open around it. -/
  depth : Nat
  /-- Byte offset in the line. -/
  offset : Nat
  text : List Char
deriving DecidableEq, Repr

/-- The piece that a stretch of the line is, unless it is blank. -/
def Piece.ofStretch? (depth start : Nat) (stretch : List Char) : Option Piece :=
  let text := trim stretch
  if text.isEmpty then none
  else some ⟨depth, start + width (stretch.takeWhile isBlank), text⟩

/-- The state in which a line is read. -/
structure Splitter where
  /-- The open braces, innermost first: whether each opens a body. -/
  braces : List Bool
  /-- Open brackets and interpolations. -/
  nesting : Int
  quote : Option Char
  /-- Byte offset at which the present stretch starts. -/
  start : Nat
  /-- The characters of the present stretch, last first. -/
  stretch : List Char
  /-- The character before the next one. -/
  previous : Option Char
deriving DecidableEq, Repr

namespace Splitter

/-- The state at the start of a line. -/
def initial : Splitter := ⟨[], 0, none, 0, [], none⟩

/-- Number of open bodies. -/
def depth (s : Splitter) : Nat :=
  s.braces.count true

/-- The piece that the present stretch is. -/
def piece? (s : Splitter) : Option Piece :=
  Piece.ofStretch? s.depth s.start s.stretch.reverse

/-- Go on with a character that belongs to the present stretch. -/
def keep (s : Splitter) (c : Char) : Splitter :=
  { s with stretch := c :: s.stretch, previous := some c }

/-- Start a new stretch after the separator `c` at byte `index`. -/
def cut (s : Splitter) (index : Nat) (c : Char) : Splitter :=
  { s with start := index + c.utf8Size, stretch := [], previous := some c }

/-- An opening brace in front of `following` opens a body. -/
def opensBody (s : Splitter) (following : List Char) : Bool :=
  s.nesting == 0 && !(trim s.stretch).isEmpty && s.previous.any isBlank
    && following.head?.all isAsciiBlank

/-- Read the character `c` at byte `index`, in front of `following`. The result is the next state
and whether the stretch before `c` has ended. -/
def step (s : Splitter) (index : Nat) (c : Char) (following : List Char) : Splitter × Bool :=
  match s.quote with
  | some quote => ((if c = quote then { s with quote := none } else s).keep c, false)
  | none =>
    if c == '"' || c == '\'' then ({ s with quote := some c }.keep c, false)
    else if c == '(' || c == '[' then ({ s with nesting := s.nesting + 1 }.keep c, false)
    else if c == ')' || c == ']' then ({ s with nesting := s.nesting - 1 }.keep c, false)
    else if c == '\x7b' then
      if s.opensBody following then ({ s with braces := true :: s.braces }.cut index c, true)
      else ({ s with braces := false :: s.braces, nesting := s.nesting + 1 }.keep c, false)
    else if c == '\x7d' then
      match s.braces with
      | true :: outer => ({ s with braces := outer }.cut index c, true)
      | false :: outer => ({ s with braces := outer, nesting := s.nesting - 1 }.keep c, false)
      | [] => (s.cut index c, true)
    else if c == ';' && s.nesting == 0 then (s.cut index c, true)
    else (s.keep c, false)

/-- The pieces of what is left of a line from byte `index` on. -/
def pieces (s : Splitter) (index : Nat) : List Char → List Piece
  | [] => s.piece?.toList
  | c :: cs =>
    let (next, ended) := s.step index c cs
    let rest := next.pieces (index + c.utf8Size) cs
    if ended then s.piece?.toList ++ rest else rest

end Splitter

/-- The statements of a line. -/
def splitStatements (line : List Char) : List Piece :=
  Splitter.initial.pieces 0 line

end StyleSense
