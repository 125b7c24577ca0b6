import StyleSense.Text.Offset

/-!
Contract: columns in UTF-16 code units.

Owns:
- `units16`, the number of UTF-16 code units of a text;
- `column16`, the unit column of a byte offset of a line;
- `takeUnits`, the part of a line before a unit column.

Does not own: byte offsets (`StyleSense.Text.Offset`).
-/

namespace StyleSense.Text

/-- UTF-16 code units of one character. -/
def unitWidth (c : Char) : Nat :=
  if c.toNat < 0x10000 then 1 else 2

/-- UTF-16 code units of a text. -/
def units16 : List Char → Nat
  | [] => 0
  | c :: cs => unitWidth c + units16 cs

@[simp] theorem units16_nil : units16 [] = 0 := rfl

@[simp] theorem units16_cons
    (c : Char)
    (cs : List Char) :
    units16 (c :: cs) = unitWidth c + units16 cs := rfl

/-- Unit columns are kept in 32 bits. -/
def unitLimit : Nat := Nat.pow 2 32

/-- Unit column of a byte offset of `line`. An offset past the end counts as the end; one inside a
character is taken as it is. -/
def column16 (line : List Char) (offset : Nat) : Nat :=
  let stop := min offset (width line)
  match takeTo? stop line with
  | some before => units16 before % unitLimit
  | none => stop % unitLimit

/-- The characters of a line that start before the unit column `character`. -/
def takeUnits : (character : Nat) → List Char → List Char
  | _, [] => []
  | 0, _ :: _ => []
  | character + 1, c :: cs => c :: takeUnits (character + 1 - unitWidth c) cs

end StyleSense.Text
