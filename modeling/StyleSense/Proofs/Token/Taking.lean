import Mathlib.Data.List.TakeWhile
import StyleSense.Token.Lexer

/-!
Contract: all that the lexer can take off a text.

Owns:
- `Token.startsName`, how names start;
- `Token.Takes`, one case for each kind of token: the part of the text that it is made of, and what is
  left of the text;
- `Token.lexeme_takes`: what the lexer takes off a text is one of these.

Does not own: what is taken when something else follows (`StyleSense.Proofs.Token.Following`).
-/

namespace StyleSense

open Text

/-- An operator that is read stands at the start of the text. -/
theorem Operator.read?_starts
    {cs rest : List Char}
    {sign : Operator}
    (found : Operator.read? cs = some (sign, rest)) :
    cs = sign.spelling.toList ++ rest := by
  simp only [Operator.read?, Option.map_eq_some_iff, Prod.mk.injEq] at found
  obtain ⟨candidate, isFirst, rfl, rfl⟩ := found
  have spelled := List.find?_some isFirst
  obtain ⟨after, rfl⟩ := List.isPrefixOf_iff_prefix.mp spelled
  rw [List.drop_left]

namespace Token

/-! ## Starts of names -/

/-- A name can start with `lead` in front of `cs`. -/
def startsName (lead : Char) (cs : List Char) : Bool :=
  isNameStart lead || (lead == '@' && cs.head?.any isNameStart) ||
    (lead == '!' && cs.head?.any isLetter) ||
    (lead == '-' && cs.head?.any fun d => isNameStart d || d == '-')

theorem isNameChar_of_isNameStart
    {c : Char}
    (starts : isNameStart c = true) :
    isNameChar c = true := by
  simp only [isNameStart, Bool.or_eq_true] at starts
  simp only [isNameChar, Bool.or_eq_true]
  rcases starts with (letter | underscore) | dollar
  · exact .inl (.inl (.inl (isAlphanumeric_of_isLetter letter)))
  · exact .inl (.inl (.inr underscore))
  · exact .inr dollar

theorem isNameStart_of_isLetter
    {c : Char}
    (letter : isLetter c = true) :
    isNameStart c = true := by
  simp [isNameStart, letter]

/-- A test that only name characters pass has the same answer on the name characters at the start. -/
theorem any_head?_takeWhile
    {test : Char → Bool}
    (named : ∀ c, test c = true → isNameChar c = true)
    {cs : List Char}
    (passes : cs.head?.any test = true) :
    (cs.takeWhile isNameChar).head?.any test = true := by
  cases cs with
  | nil => exact passes
  | cons c rest =>
    have isTest : test c = true := passes
    rw [List.takeWhile_cons_of_pos (named c isTest)]
    exact isTest

/-! ## Tokens at the start of a text -/

/-- A token of the given kind can be taken off a text that starts with `c` and goes on with `cs`; the
rest of the text is left. -/
inductive Takes (c : Char) (cs : List Char) : Kind → List Char → Prop
  | mark {kind : Kind}
      (isMark : punctuation? c = some kind) :
      Takes c cs kind cs
  | string {value rest : List Char}
      (isQuote : c = '"' ∨ c = '\'')
      (closed : stringBody? c cs = some (value, rest)) :
      Takes c cs (.string (String.ofList value)) rest
  | hash
      (isHash : c = '#') :
      Takes c cs (.hash (String.ofList ('#' :: cs.takeWhile isNameChar))) (cs.dropWhile isNameChar)
  | name
      (starts : startsName c (cs.takeWhile isNameChar) = true) :
      Takes c cs (.name (String.ofList (c :: cs.takeWhile isNameChar))) (cs.dropWhile isNameChar)
  | number {value : Float}
      (starts : c.isDigit = true ∨ c = '.' ∧ cs.head?.any Char.isDigit = true)
      (denotes : numeralValue? (numeral c cs).1 = some value) :
      Takes c cs (.number value (suffix (numeral c cs).2).1) (suffix (numeral c cs).2).2
  | url {inside rest : List Char}
      (whole : c :: cs = ['u', 'r', 'l', '('] ++ inside ++ ')' :: rest)
      (unclosed : ')' ∉ inside) :
      Takes c cs (.url (urlBody inside)) rest
  | operator {sign : Operator} {rest : List Char}
      (whole : c :: cs = sign.spelling.toList ++ rest) :
      Takes c cs (.op sign) rest

section Lexeme

variable {c : Char} {cs rest : List Char} {kind : Kind}

theorem takeName_takes
    (starts : startsName c (cs.takeWhile isNameChar) = true)
    (taken : takeName c cs = .ok (kind, rest)) :
    Takes c cs kind rest := by
  cases taken
  exact .name starts

theorem takeNumber_takes
    (starts : c.isDigit = true ∨ c = '.' ∧ cs.head?.any Char.isDigit = true)
    (taken : takeNumber c cs = .ok (kind, rest)) :
    Takes c cs kind rest := by
  simp only [takeNumber] at taken
  split at taken
  · rename_i value denotes
    cases taken
    exact .number starts denotes
  · cases taken

theorem takeWord_takes
    (starts : isNameStart c = true)
    (taken : takeWord c cs = .ok (kind, rest)) :
    Takes c cs kind rest := by
  have startsName : startsName c (cs.takeWhile isNameChar) = true := by simp [startsName, starts]
  unfold takeWord at taken
  split at taken
  · rename_i isUrl
    split at taken
    · rename_i inside opened
      have parts := List.takeWhile_append_dropWhile (p := (· != ')')) (l := inside)
      unfold takeUrl at taken
      split at taken
      · rename_i d _ closed
        cases taken
        obtain rfl : d = ')' := by
          have stops := List.head?_dropWhile_not (· != ')') inside
          rw [closed] at stops
          simpa using stops
        refine .url ?_ fun isIn => by simpa using List.mem_takeWhile_imp isIn
        calc c :: cs = (c :: cs.takeWhile isNameChar) ++ cs.dropWhile isNameChar := by
              rw [List.cons_append, List.takeWhile_append_dropWhile]
          _ = ['u', 'r', 'l', '('] ++ inside := by rw [isUrl, opened]; rfl
          _ = ['u', 'r', 'l', '('] ++ inside.takeWhile (· != ')') ++ ')' :: rest := by
              rw [List.append_assoc, ← closed, parts]
      · cases taken
    · exact takeName_takes startsName taken
  · exact takeName_takes startsName taken

/-- What the lexer takes off a text. -/
theorem lexeme_takes
    (taken : lexeme c cs = .ok (kind, rest)) :
    Takes c cs kind rest := by
  unfold lexeme at taken
  split at taken
  · rename_i isMark
    cases taken
    exact .mark isMark
  simp only at taken
  split at taken
  · rename_i isQuote
    unfold takeString at taken
    split at taken
    · rename_i closed
      cases taken
      exact .string (by simpa using isQuote) closed
    · cases taken
  split at taken
  · rename_i isHash
    cases taken
    exact .hash (beq_iff_eq.mp isHash)
  split at taken
  · rename_i isAt
    obtain ⟨isAt, next⟩ := Bool.and_eq_true_iff.mp isAt
    refine takeName_takes ?_ taken
    simp [startsName, isAt, any_head?_takeWhile (fun _ => isNameChar_of_isNameStart) next]
  split at taken
  · rename_i isBang
    obtain ⟨isBang, next⟩ := Bool.and_eq_true_iff.mp isBang
    refine takeName_takes ?_ taken
    have letters : ∀ d, isLetter d = true → isNameChar d = true := fun d letter =>
      isNameChar_of_isNameStart (isNameStart_of_isLetter letter)
    simp [startsName, isBang, any_head?_takeWhile letters next]
  split at taken
  · rename_i isMinus
    obtain ⟨isMinus, next⟩ := Bool.and_eq_true_iff.mp isMinus
    refine takeName_takes ?_ taken
    have named : ∀ d, (isNameStart d || d == '-') = true → isNameChar d = true := by
      intro d starts
      rcases Bool.or_eq_true_iff.mp starts with isStart | isMinus
      · exact isNameChar_of_isNameStart isStart
      · simp [isNameChar, isMinus]
    have further := any_head?_takeWhile named next
    simp only [startsName, isMinus, further, Bool.true_and, Bool.or_true]
  split at taken
  · rename_i isDigit
    exact takeNumber_takes (.inl isDigit) taken
  split at taken
  · rename_i isPoint
    exact takeNumber_takes (.inr (by simpa using isPoint)) taken
  split at taken
  · rename_i starts
    exact takeWord_takes starts taken
  · unfold takeOperator at taken
    split at taken
    · rename_i found
      cases taken
      exact .operator (Operator.read?_starts found)
    · cases taken

end Lexeme

end Token

end StyleSense
