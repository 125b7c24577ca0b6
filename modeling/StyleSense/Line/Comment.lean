import StyleSense.Text.Offset

/-!
Contract: comments as blanks.

Owns:
- `blankComments`, which replaces every character of a comment by as many blanks as it has bytes, so
  that byte offsets stay valid.

A comment that starts with `/*` may run over several lines, so a line is read with the state in
which the line before it ended. A `//` starts a comment up to the end of the line, unless a colon
stands before it as in an address. Quotes protect what is between them; a quote that is not closed
protects the rest of its line.

Does not own: comments inside a fragment that are left for the lexer.
-/

namespace StyleSense

open Text

/-- What surrounds a character of a line. -/
inductive Surrounding where
  | code
  | quoted (quote : Char)
  | comment
deriving DecidableEq, Repr

/-- As many blanks. -/
def blanks (count : Nat) : List Char :=
  List.replicate count ' '

/-- Blank out the comments of what is left of a line; `previous` is the character before it. The
flag says whether a comment is still open at the end. -/
def blankFrom : Surrounding → (previous : Option Char) → List Char → List Char × Bool
  | surrounding, _, [] => ([], surrounding == .comment)
  | .comment, _, '*' :: '/' :: cs =>
    let (text, isOpen) := blankFrom .code (some '/') cs
    (' ' :: ' ' :: text, isOpen)
  | .comment, _, c :: cs =>
    let (text, isOpen) := blankFrom .comment (some c) cs
    (blanks c.utf8Size ++ text, isOpen)
  | .quoted quote, _, c :: cs =>
    let (text, isOpen) := blankFrom (if c = quote then .code else .quoted quote) (some c) cs
    (c :: text, isOpen)
  | .code, _, '/' :: '*' :: cs =>
    let (text, isOpen) := blankFrom .comment (some '*') cs
    (' ' :: ' ' :: text, isOpen)
  | .code, previous, c :: cs =>
    if c == '/' && cs.head? == some '/' && previous != some ':' then
      (blanks (width (c :: cs)), false)
    else
      let inside := if c == '"' || c == '\'' then .quoted c else .code
      let (text, isOpen) := blankFrom inside (some c) cs
      (c :: text, isOpen)

/-- Blank out the comments of a line that starts inside a comment or not. -/
def blankComments (inComment : Bool) (line : List Char) : List Char × Bool :=
  blankFrom (if inComment then .comment else .code) none line

end StyleSense
