import StyleSense.Expression.Parser
import StyleSense.Text.Blank
import StyleSense.Token.Lexer

/-!
Contract: selectors and names with interpolations.

Owns:
- `splitSelectors`, the parts of a selector list;
- `readSegments`, literal texts and interpolations of a selector or a property name.

Brackets are counted without a bound, for headers with fewer than `2 ^ 31` of them, whose count 32
bits hold.

Does not own: which lines are rule headers (`StyleSense.Statement.Basic`).
-/

namespace StyleSense

open Text

/-- A part of a selector list at byte `start`, without the blanks around it, unless it is blank. -/
def selectorPart (start : Nat) (part : List Char) : List (Nat × List Char) :=
  let text := trim part
  if text.isEmpty then [] else [(start + width (part.takeWhile isBlank), text)]

/-- Split what is left of a list: `part` is the present part, last character first, which starts at
byte `start`; `index` is the byte offset of the next character. -/
def splitSelectorsFrom (depth : Int) (start : Nat) (part : List Char) (index : Nat) :
    List Char → List (Nat × List Char)
  | [] => selectorPart start part.reverse
  | c :: cs =>
    let next := index + c.utf8Size
    if c == '(' || c == '[' || c == '\x7b' then
      splitSelectorsFrom (depth + 1) start (c :: part) next cs
    else if c == ')' || c == ']' || c == '\x7d' then
      splitSelectorsFrom (depth - 1) start (c :: part) next cs
    else if c == ',' && depth == 0 then
      selectorPart start part.reverse ++ splitSelectorsFrom depth next [] next cs
    else splitSelectorsFrom depth start (c :: part) next cs

/-- The parts of a selector list between the commas outside brackets, each with its byte offset. -/
def splitSelectors (text : List Char) : List (Nat × List Char) :=
  splitSelectorsFrom 0 0 [] 0 text

/-- A literal segment, unless it is empty. -/
def Segment.literal (text : List Char) (line : Nat) : List Segment :=
  if text.isEmpty then [] else [⟨some (String.ofList text), line, []⟩]

/-- The segments of a selector or a property name that stands on `line` from byte `offset` on. -/
def readSegments (text : List Char) (line offset : Nat) : Except ParseError (List Segment) :=
  let isOpening (c : Char) : Bool := c == '\x7b'
  let isClosing (c : Char) : Bool := c == '\x7d'
  let literal := text.takeWhile (!isOpening ·)
  match _opened : text.dropWhile (!isOpening ·) with
  | [] => .ok (Segment.literal literal line)
  | _ :: rest =>
    let brace := offset + width literal
    let inside := rest.takeWhile (!isClosing ·)
    match _closed : rest.dropWhile (!isClosing ·) with
    | [] => .error ⟨.unclosedInterpolation, ⟨line, brace + 1⟩⟩
    | _ :: following => do
      let tokens ← tokenize inside line (brace + 1)
      let nodes ← Expression.readTerms tokens
      let segments ← readSegments following line (brace + 1 + width inside + 1)
      return Segment.literal literal line ++ ⟨none, line, nodes⟩ :: segments
termination_by text.length
decreasing_by
  have opened := (List.dropWhile_sublist (!isOpening ·) (l := text)).length_le
  have closed := (List.dropWhile_sublist (!isClosing ·) (l := rest)).length_le
  rw [_opened] at opened
  rw [_closed] at closed
  simp only [List.length_cons] at opened closed
  omega

end StyleSense
