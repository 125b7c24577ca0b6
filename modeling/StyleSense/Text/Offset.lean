/-!
Contract: byte offsets into a text.

Columns and offsets count the bytes of the UTF-8 encoding, while texts are lists of characters.

Owns:
- `width`, the number of bytes of a text;
- `splitAt?`, `dropTo?` and `takeTo?`, which cut a text at a byte offset and refuse an offset that
  is past the end or inside a character;
- `find?`, the byte offset of the first occurrence of one text in another.

Does not own: columns in UTF-16 units (`StyleSense.Text.Units`).
-/

namespace StyleSense.Text

/-- Number of bytes of a text. -/
def width : List Char → Nat
  | [] => 0
  | c :: cs => c.utf8Size + width cs

@[simp] theorem width_nil : width [] = 0 := rfl

@[simp] theorem width_cons
    (c : Char)
    (cs : List Char) :
    width (c :: cs) = c.utf8Size + width cs := rfl

@[simp] theorem width_append
    (left right : List Char) :
    width (left ++ right) = width left + width right := by
  induction left with
  | nil => simp
  | cons c cs inductionHypothesis =>
    simp [inductionHypothesis, Nat.add_assoc]

/-- Cut a text at a byte offset. -/
def splitAt? : (offset : Nat) → List Char → Option (List Char × List Char)
  | 0, cs => some ([], cs)
  | _ + 1, [] => none
  | offset + 1, c :: cs =>
    if c.utf8Size ≤ offset + 1 then
      (splitAt? (offset + 1 - c.utf8Size) cs).map fun parts => (c :: parts.1, parts.2)
    else none

/-- The text from a byte offset on. -/
def dropTo? (offset : Nat) (cs : List Char) : Option (List Char) :=
  (splitAt? offset cs).map Prod.snd

/-- The text before a byte offset. -/
def takeTo? (offset : Nat) (cs : List Char) : Option (List Char) :=
  (splitAt? offset cs).map Prod.fst

/-- The two parts of a cut make up the text, and the first one is as wide as the offset. -/
theorem splitAt?_eq_some
    {offset : Nat}
    {cs left right : List Char}
    (cut : splitAt? offset cs = some (left, right)) :
    cs = left ++ right ∧ width left = offset := by
  fun_induction splitAt? offset cs generalizing left with
  | case1 cs => simp_all
  | case2 => simp at cut
  | case3 offset c cs fits inductionHypothesis =>
    simp only [Option.map_eq_some_iff, Prod.mk.injEq, Prod.exists] at cut
    obtain ⟨inner, _, innerCut, rfl, rfl⟩ := cut
    obtain ⟨rfl, innerWidth⟩ := inductionHypothesis innerCut
    refine ⟨rfl, ?_⟩
    rw [width_cons, innerWidth]
    omega
  | case4 => simp at cut

/-- Byte offset of the first occurrence of `needle`. -/
def find? (needle : List Char) : List Char → Option Nat
  | [] => if needle.isEmpty then some 0 else none
  | c :: cs =>
    if needle.isPrefixOf (c :: cs) then some 0
    else (find? needle cs).map (c.utf8Size + ·)

/-- The text without one trailing `c`, if it has it. -/
def dropSuffix (c : Char) (cs : List Char) : List Char :=
  if cs.getLast? = some c then cs.dropLast else cs

/-- The text without one leading `c`, if it has it. -/
def dropLeading (c : Char) : List Char → List Char
  | [] => []
  | head :: rest => if head = c then rest else head :: rest

end StyleSense.Text
