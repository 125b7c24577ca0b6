/-!
Contract: membership of a character in a table of code point ranges.

Owns:
- `CodeRange`, both ends included;
- `inRanges`, the membership test.

Does not own: the tables, each of which stands with the property that it defines.
-/

namespace StyleSense.Text

/-- First and last code point of a range, both included. -/
abbrev CodeRange := Nat × Nat

/-- Some range of the table holds the character. -/
def inRanges (table : List CodeRange) (c : Char) : Bool :=
  table.any fun range => range.1 ≤ c.toNat && c.toNat ≤ range.2

end StyleSense.Text
